import Classwright.Bytecode.Instr
import Classwright.ClassFile.ConstantPool
import Classwright.Ty.Descriptor
import Mathlib.Algebra.Group.Int.Defs
import Mathlib.Algebra.GroupWithZero.Nat

/-! # Reading code back

A decoder for the code of a method: operations by their numbers, operands as the virtual machine takes them, constants
and members through the pool. Pushes of a constant are read as such, whichever form they have. -/

namespace Classwright

/-- An instruction as it is read from code. -/
inductive Decoded where
  /-- An operation that takes no operand and pushes no constant. -/
  | op (op : Opcode)
  | int (value : Int32)
  | long (value : Int64)
  | float (value : Binary32)
  | double (value : Binary64)
  | str (value : String)
  | cls (name : String)
  | load (kind : LocalKind) (slot : Nat)
  | store (kind : LocalKind) (slot : Nat)
  /-- The target is an offset into the code. -/
  | jump (op : Opcode) (target : Int)
  | field (op : Opcode) (owner name descriptor : String)
  /-- A call through an interface says how many words it passes. -/
  | invoke (op : Opcode) (member : MemberRef) (count : Option Nat)
  | type (op : Opcode) (name : String)
deriving DecidableEq, Repr

namespace Decoder

/-- Operations by their numbers. The forms of loads and stores for the first locals, and operations that are never
    written, are left out. -/
def operations : List (Option Opcode) := List.flatten
  [used [.nop, .aconstNull, .iconstM1, .iconst0, .iconst1, .iconst2, .iconst3, .iconst4, .iconst5, .lconst0, .lconst1,
      .fconst0, .fconst1, .fconst2, .dconst0, .dconst1, .bipush, .sipush, .ldc, .ldcW, .ldc2W, .iload, .lload, .fload,
      .dload, .aload],
    unused 28, used [.istore, .lstore, .fstore, .dstore, .astore], unused 28, used [.pop, .pop2, .dup, .dupX1],
    unused 1, used [.dup2, .dup2X1], unused 1,
    used [.swap, .iadd, .ladd, .fadd, .dadd, .isub, .lsub, .fsub, .dsub, .imul, .lmul, .fmul, .dmul, .idiv, .ldiv,
      .fdiv, .ddiv, .irem, .lrem, .frem, .drem, .ineg, .lneg, .fneg, .dneg, .ishl, .lshl, .ishr, .lshr, .iushr, .lushr,
      .iand, .land, .ior, .lor, .ixor, .lxor],
    unused 1,
    used [.i2l, .i2f, .i2d, .l2i, .l2f, .l2d, .f2i, .f2l, .f2d, .d2i, .d2l, .d2f, .i2b, .i2c, .i2s, .lcmp, .fcmpl,
      .fcmpg, .dcmpl, .dcmpg, .ifeq, .ifne, .iflt, .ifge, .ifgt, .ifle, .ifIcmpeq, .ifIcmpne, .ifIcmplt, .ifIcmpge,
      .ifIcmpgt, .ifIcmple, .ifAcmpeq, .ifAcmpne, .goto],
    unused 4,
    used [.ireturn, .lreturn, .freturn, .dreturn, .areturn, .returnVoid, .getstatic, .putstatic, .getfield, .putfield,
      .invokevirtual, .invokespecial, .invokestatic, .invokeinterface],
    unused 1, used [.new], unused 3, used [.athrow, .checkcast], unused 3, used [.wide], unused 1,
    used [.ifnull, .ifnonnull]]
where
  used (ops : List Opcode) : List (Option Opcode) := ops.map some
  unused (n : Nat) : List (Option Opcode) := List.replicate n none

/-- Kinds of locals, in the order of their operations. -/
def kinds : List LocalKind := [.int, .long, .float, .double, .ref]

/-! ### Parts of instructions -/

/-- Reads from the front of bytes, if they begin as they should. -/
abbrev Reading := StateT Bytes Option

def Reading.ofOption {α : Type} (x : Option α) : Reading α := fun bytes => x.map (·, bytes)

def u1 : Reading Nat
  | b :: rest => some (b.toNat, rest)
  | [] => none

def u2 : Reading Nat := do
  let high ← u1
  let low ← u1
  return 256 * high + low

/-- A number of as many bits, one of which is the sign. -/
def signed (bits n : Nat) : Int := if n < 2 ^ (bits - 1) then n else n - 2 ^ bits

def text? (pool : ConstantPool) (i : UInt16) : Option String :=
  match pool.get? i with
  | some (.utf8 s) => some s
  | _ => none

def class? (pool : ConstantPool) (i : UInt16) : Option String :=
  match pool.get? i with
  | some (.cls name) => text? pool name
  | _ => none

/-- A constant of one word. -/
def constant? (pool : ConstantPool) (i : UInt16) : Option Decoded :=
  match pool.get? i with
  | some (.integer v) => some (.int v)
  | some (.float v) => some (.float v)
  | some (.string value) => (text? pool value).map .str
  | some (.cls name) => (text? pool name).map .cls
  | _ => none

/-- A constant of two words. -/
def wideConstant? (pool : ConstantPool) (i : UInt16) : Option Decoded :=
  match pool.get? i with
  | some (.long v) => some (.long v)
  | some (.double v) => some (.double v)
  | _ => none

/-- A member, given the entries of its class and of its name and type. -/
def member? (pool : ConstantPool) (c m : UInt16) (interface : Bool) : Option MemberRef := do
  match pool.get? m with
  | some (.nameAndType n d) => some ⟨← class? pool c, ← text? pool n, ← text? pool d, interface⟩
  | _ => none

def field? (pool : ConstantPool) (i : UInt16) : Option MemberRef :=
  match pool.get? i with
  | some (.field c m) => member? pool c m false
  | _ => none

def method? (pool : ConstantPool) (i : UInt16) : Option MemberRef :=
  match pool.get? i with
  | some (.method c m) => member? pool c m false
  | some (.interfaceMethod c m) => member? pool c m true
  | _ => none

/-- An index into the pool, and what is found there. -/
def entry {α : Type} (find : UInt16 → Option α) : Reading α := do
  let i ← u2
  Reading.ofOption (find i.toUInt16)

/-! ### Instructions -/

end Decoder

/-- How an operation without an operand is read. -/
def Opcode.plain : Opcode → Decoded
  | .iconstM1 => .int (-1)
  | .iconst0 => .int 0
  | .iconst1 => .int 1
  | .iconst2 => .int 2
  | .iconst3 => .int 3
  | .iconst4 => .int 4
  | .iconst5 => .int 5
  | .lconst0 => .long 0
  | .lconst1 => .long 1
  | .fconst0 => .float ⟨0x00000000⟩
  | .fconst1 => .float ⟨0x3f800000⟩
  | .fconst2 => .float ⟨0x40000000⟩
  | .dconst0 => .double ⟨0x0000000000000000⟩
  | .dconst1 => .double ⟨0x3ff0000000000000⟩
  | o => .op o

namespace Decoder

/-- An access to a local whose slot is read by `slot`. -/
def access (slot : Reading Nat) : Opcode → Reading Decoded
  | .iload => return .load .int (← slot)
  | .lload => return .load .long (← slot)
  | .fload => return .load .float (← slot)
  | .dload => return .load .double (← slot)
  | .aload => return .load .ref (← slot)
  | .istore => return .store .int (← slot)
  | .lstore => return .store .long (← slot)
  | .fstore => return .store .float (← slot)
  | .dstore => return .store .double (← slot)
  | .astore => return .store .ref (← slot)
  | _ => Reading.ofOption none

/-- The operation that a byte stands for. -/
def operation : Reading Opcode := do
  let code ← u1
  Reading.ofOption operations[code]?.join

/-- What follows an operation of the instruction at `pc`. -/
def operands (pool : ConstantPool) (pc : Nat) (o : Opcode) : Reading Decoded :=
  match o with
  | .bipush => return .int (.ofInt (signed 8 (← u1)))
  | .sipush => return .int (.ofInt (signed 16 (← u2)))
  | .ldc => do
    let i ← u1
    Reading.ofOption (constant? pool i.toUInt16)
  | .ldcW => entry (constant? pool)
  | .ldc2W => entry (wideConstant? pool)
  | .iload | .lload | .fload | .dload | .aload | .istore | .lstore | .fstore | .dstore | .astore => access u1 o
  | .wide => do
    let o ← operation
    access u2 o
  | .ifeq | .ifne | .iflt | .ifge | .ifgt | .ifle | .ifIcmpeq | .ifIcmpne | .ifIcmplt | .ifIcmpge | .ifIcmpgt
  | .ifIcmple | .ifAcmpeq | .ifAcmpne | .goto | .ifnull | .ifnonnull => return .jump o (pc + signed 16 (← u2))
  | .getstatic | .putstatic | .getfield | .putfield => do
    let m ← entry (field? pool)
    return .field o m.owner m.name m.descriptor
  | .invokevirtual | .invokespecial | .invokestatic => return .invoke o (← entry (method? pool)) none
  | .invokeinterface => do
    let m ← entry (method? pool)
    let count ← u1
    let last ← u1
    guard (last = 0)
    return .invoke o m (some count)
  | .new | .checkcast => return .type o (← entry (class? pool))
  | o => return o.plain

/-- The instruction at `pc`. -/
def instruction (pool : ConstantPool) (pc : Nat) : Reading Decoded := do
  let code ← u1
  if 0x1a ≤ code ∧ code < 0x2e then
    return .load (← Reading.ofOption kinds[(code - 0x1a) / 4]?) ((code - 0x1a) % 4)
  else if 0x3b ≤ code ∧ code < 0x4f then
    return .store (← Reading.ofOption kinds[(code - 0x3b) / 4]?) ((code - 0x3b) % 4)
  else operands pool pc (← Reading.ofOption operations[code]?.join)

/-- All instructions, each with its offset, up to the end of the bytes. Each of them takes a byte at least, so the
    number of bytes is enough `fuel`. -/
def instructions (pool : ConstantPool) : Nat → Nat → Bytes → Option (List (Nat × Decoded))
  | _, _, [] => some []
  | 0, _, _ :: _ => none
  | fuel + 1, pc, b :: bytes => do
    let (d, rest) ← instruction pool pc (b :: bytes)
    let ds ← instructions pool fuel (pc + ((b :: bytes).length - rest.length)) rest
    return (pc, d) :: ds

end Decoder

/-- Reads the code of a method. -/
def decode (pool : ConstantPool) (code : Bytes) : Option (List (Nat × Decoded)) :=
  Decoder.instructions pool code.length 0 code

/-! ### What should be read -/

/-- The words that an argument takes. -/
def Descriptor.words : List Char → Nat
  | ['V'] => 0
  | ['J'] | ['D'] => 2
  | _ => 1

/-- The words that the arguments of a method take. -/
def Descriptor.argumentWords (descriptor : String) : Nat :=
  match Descriptor.split? descriptor with
  | some (params, _) => (params.map words).sum
  | none => 0

/-- What an instruction is read as, given the offsets of labels. Marks leave no trace. -/
def Instr.decoded? (offset : Label → Nat) : Instr → Option Decoded
  | .op o => some o.plain
  | .int v => some (.int v)
  | .long v => some (.long v)
  | .float v => some (.float v)
  | .double v => some (.double v)
  | .str s => some (.str s)
  | .cls c => some (.cls c)
  | .load kind slot => some (.load kind slot.toNat)
  | .store kind slot => some (.store kind slot.toNat)
  | .jump o l => some (.jump o (offset l))
  | .field o m => some (.field o m.owner m.name m.descriptor)
  | .invoke o m =>
    if o = .invokeinterface then
      some (.invoke o { m with interface := true } (some (1 + Descriptor.argumentWords m.descriptor)))
    else some (.invoke o m none)
  | .type o c => some (.type o c)
  | .mark _ => none

end Classwright
