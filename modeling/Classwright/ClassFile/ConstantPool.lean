import Classwright.ClassFile.Bytes
import Classwright.Text.ModifiedUtf8
import Std.Data.TreeMap

/-! # Constant pools

A pool numbers its entries from 1, and long and double entries take two numbers. A pool that is being built shares
entries: asking for a constant that it holds gives the index it has. -/

namespace Classwright

structure ConstantPool where
  /-- The entry at each index; index 0 and the second index of a wide entry are empty. -/
  entries : Array (Option Constant) := #[none]
deriving Inhabited

namespace ConstantPool

/-- One more than the last index. -/
def count (p : ConstantPool) : Nat := p.entries.size

def isEmpty (p : ConstantPool) : Bool := p.count == 1

def get? (p : ConstantPool) (index : UInt16) : Option Constant := p.entries[index.toNat]?.join

/-- Adds an entry at the end. -/
def add (p : ConstantPool) (c : Constant) : ConstantPool :=
  let entries := p.entries.push (some c)
  ⟨if c.width = 2 then entries.push none else entries⟩

/-- There is room for an entry: the count must stay a 16-bit number. -/
def hasRoom (p : ConstantPool) (c : Constant) : Bool := p.count + c.width ≤ 65535

/-- Adds an entry if there is room for it, and says which index it has. -/
def push (p : ConstantPool) (c : Constant) : Except FormatError (UInt16 × ConstantPool) :=
  if p.hasRoom c then .ok (p.count.toUInt16, p.add c) else .error (.poolOverflow (p.count + c.width))

def utf8At (p : ConstantPool) (index : UInt16) : Except FormatError String :=
  match p.get? index with
  | some (.utf8 s) => .ok s
  | found => .error (.malformed (.notUtf8 index found))

/-- The name of the class entry at an index. -/
def classAt (p : ConstantPool) (index : UInt16) : Except FormatError String :=
  match p.get? index with
  | some (.cls name) => p.utf8At name
  | found => .error (.malformed (.notClass index found))

/-- The pools hold the same values at the same indices. -/
def sameValues (p q : ConstantPool) : Bool :=
  p.count == q.count && (p.entries.toList.zip q.entries.toList).all fun
    | (some a, some b) => a.sameValue b
    | (none, none) => true
    | _ => false

end ConstantPool

/-- A pool under construction, with the index of each constant in it under the constant's key. -/
structure PoolBuilder where
  pool : ConstantPool := {}
  index : Std.TreeMap (List Nat) UInt16 := {}

/-- Work on a pool. What a failing request has added stays. -/
abbrev PoolM := ExceptT FormatError (StateM PoolBuilder)

namespace PoolM

def lift {α : Type} (x : Except FormatError α) : PoolM α := fun b => (x, b)

/-- The index of a constant, which is added if need be. -/
def intern (c : Constant) : PoolM UInt16 := fun ⟨pool, index⟩ =>
  match index[c.key]? with
  | some i => (.ok i, ⟨pool, index⟩)
  | none =>
    if pool.hasRoom c then
      let i := pool.count.toUInt16
      (.ok i, ⟨pool.add c, index.insert c.key i⟩)
    else (.error (.poolOverflow (pool.count + c.width)), ⟨pool, index⟩)

def utf8 (s : String) : PoolM UInt16 := do
  let length := (Text.encodeModifiedUtf8 s).length
  if 65535 < length then throw (.textTooLong length)
  intern (.utf8 s)

def integer (v : Int32) : PoolM UInt16 := intern (.integer v)

def float (v : Binary32) : PoolM UInt16 := intern (.float v)

def long (v : Int64) : PoolM UInt16 := intern (.long v)

def double (v : Binary64) : PoolM UInt16 := intern (.double v)

def cls (name : String) : PoolM UInt16 := do
  let name ← utf8 name
  intern (.cls name)

def string (value : String) : PoolM UInt16 := do
  let value ← utf8 value
  intern (.string value)

def nameAndType (name descriptor : String) : PoolM UInt16 := do
  let name ← utf8 name
  let descriptor ← utf8 descriptor
  intern (.nameAndType name descriptor)

def field (owner name descriptor : String) : PoolM UInt16 := do
  let owner ← cls owner
  let member ← nameAndType name descriptor
  intern (.field owner member)

def method (owner name descriptor : String) (interface : Bool) : PoolM UInt16 := do
  let owner ← cls owner
  let member ← nameAndType name descriptor
  intern (if interface then .interfaceMethod owner member else .method owner member)

end PoolM

/-! ### In a class file -/

namespace Constant

/-- The entry as it stands in a class file, its tag first. -/
def bytes : Constant → Bytes
  | .utf8 s =>
    let text := Text.encodeModifiedUtf8 s
    Bytes.u1 1 ++ Bytes.u2 text.length ++ text
  | .integer v => Bytes.u1 3 ++ Bytes.u4 v.toUInt32.toNat
  | .float v => Bytes.u1 4 ++ Bytes.u4 v.bits.toNat
  | .long v => Bytes.u1 5 ++ Bytes.u8 v.toUInt64.toNat
  | .double v => Bytes.u1 6 ++ Bytes.u8 v.bits.toNat
  | .cls name => Bytes.u1 7 ++ Bytes.u2 name.toNat
  | .string value => Bytes.u1 8 ++ Bytes.u2 value.toNat
  | .field c n => Bytes.u1 9 ++ Bytes.u2 c.toNat ++ Bytes.u2 n.toNat
  | .method c n => Bytes.u1 10 ++ Bytes.u2 c.toNat ++ Bytes.u2 n.toNat
  | .interfaceMethod c n => Bytes.u1 11 ++ Bytes.u2 c.toNat ++ Bytes.u2 n.toNat
  | .nameAndType n d => Bytes.u1 12 ++ Bytes.u2 n.toNat ++ Bytes.u2 d.toNat
  | .other _ => []

/-- The contents of an entry whose tag has been read. -/
def readBody (tag : UInt8) : Reader Constant := do
  match tag.toNat with
  | 1 =>
    let length ← Reader.u2
    let bytes ← Reader.take length.toNat
    match Text.decodeModifiedUtf8? bytes with
    | some s => return .utf8 s
    | none => Reader.malformed .badText
  | 3 => return .integer (← Reader.word 4).toUInt32.toInt32
  | 4 => return .float ⟨(← Reader.word 4).toUInt32⟩
  | 5 =>
    let high ← Reader.word 4
    let low ← Reader.word 4
    return .long (high * 0x100000000 + low).toUInt64.toInt64
  | 6 =>
    let high ← Reader.word 4
    let low ← Reader.word 4
    return .double ⟨(high * 0x100000000 + low).toUInt64⟩
  | 7 => return .cls (← Reader.u2)
  | 8 => return .string (← Reader.u2)
  | 9 => return .field (← Reader.u2) (← Reader.u2)
  | 10 => return .method (← Reader.u2) (← Reader.u2)
  | 11 => return .interfaceMethod (← Reader.u2) (← Reader.u2)
  | 12 => return .nameAndType (← Reader.u2) (← Reader.u2)
  | 15 =>
    let _ ← Reader.take 3
    return .other tag
  | 16 | 19 | 20 =>
    let _ ← Reader.take 2
    return .other tag
  | 17 | 18 =>
    let _ ← Reader.take 4
    return .other tag
  | _ =>
    let offset ← Reader.offset
    Reader.malformed (.unknownTag tag (offset - 1))

def read : Reader Constant := do
  let tag ← Reader.u1
  readBody tag

end Constant

namespace ConstantPool

/-- The pool as it stands in a class file: its count, then the entries. -/
def bytes (p : ConstantPool) : Bytes :=
  Bytes.u2 p.count ++ p.entries.toList.flatMap fun
    | some c => c.bytes
    | none => []

/-- Reads entries until the pool has reached `count`. Every entry adds to the pool, so `count` is enough `fuel`. -/
def readEntries (count : Nat) : Nat → ConstantPool → Reader ConstantPool
  | 0, p => return p
  | fuel + 1, p =>
    if p.count < count then do
      let c ← Constant.read
      let (_, p) ← Reader.ofExcept (p.push c)
      readEntries count fuel p
    else return p

def read : Reader ConstantPool := do
  let count ← Reader.u2
  if count = 0 then Reader.malformed .emptyPool
  else
    let p ← readEntries count.toNat count.toNat {}
    if p.count ≠ count.toNat then Reader.malformed .wideOverrun else return p

/-- Text by its index in the pool. -/
def readUtf8 (p : ConstantPool) : Reader String := do
  let i ← Reader.u2
  Reader.ofExcept (p.utf8At i)

/-- A class by its index in the pool. -/
def readClass (p : ConstantPool) : Reader String := do
  let i ← Reader.u2
  Reader.ofExcept (p.classAt i)

/-- A class by its index in the pool, where the index 0 stands for none. -/
def readClass? (p : ConstantPool) : Reader (Option String) := do
  let i ← Reader.u2
  if i = 0 then return none else return some (← Reader.ofExcept (p.classAt i))

end ConstantPool

end Classwright
