import Classwright.ClassFile.Error

/-! # Bytes

Numbers stand in class files with their most significant byte first. -/

namespace Classwright

abbrev Bytes := List UInt8

namespace Bytes

/-- The low bytes of a number, as many as asked for. -/
def word : Nat → Nat → Bytes
  | 0, _ => []
  | width + 1, n => word width (n / 256) ++ [n.toUInt8]

def u1 (n : Nat) : Bytes := word 1 n

def u2 (n : Nat) : Bytes := word 2 n

def u4 (n : Nat) : Bytes := word 4 n

def u8 (n : Nat) : Bytes := word 8 n

/-- The number that bytes stand for. -/
def value (bytes : Bytes) : Nat := bytes.foldl (fun n b => 256 * n + b.toNat) 0

end Bytes

/-- Where reading has come to: the bytes that are left, and how many came before them. -/
structure Cursor where
  rest : Bytes
  offset : Nat := 0

abbrev Reader := StateT Cursor (Except FormatError)

namespace Reader

def fail {α : Type} (e : FormatError) : Reader α := fun _ => .error e

def ofExcept {α : Type} (x : Except FormatError α) : Reader α := fun c => x.map (·, c)

def malformed {α : Type} (cause : Malformation) : Reader α := fail (.malformed cause)

/-- The next `n` bytes. -/
def take (n : Nat) : Reader Bytes := fun c =>
  let front := c.rest.take n
  if front.length < n then .error (.unexpectedEnd c.offset)
  else .ok (front, { rest := c.rest.drop n, offset := c.offset + n })

/-- The number in the next `width` bytes. -/
def word (width : Nat) : Reader Nat := do
  let bytes ← take width
  return Bytes.value bytes

def u1 : Reader UInt8 := return (← word 1).toUInt8

def u2 : Reader UInt16 := return (← word 2).toUInt16

def u4 : Reader Nat := word 4

/-- How many bytes have been read. -/
def offset : Reader Nat := do return (← get).offset

/-- As many items as asked for. -/
def many {α : Type} (item : Reader α) : Nat → Reader (List α)
  | 0 => return []
  | n + 1 => do
    let x ← item
    let xs ← many item n
    return x :: xs

/-- A 16-bit count, and that many items. -/
def counted {α : Type} (item : Reader α) : Reader (List α) := do
  let n ← u2
  many item n.toNat

/-- Reads bytes that stand by themselves; what is left over is ignored. -/
def onBytes {α : Type} (r : Reader α) (bytes : Bytes) : Except FormatError α :=
  (r.run { rest := bytes }).map (·.1)

end Reader

end Classwright
