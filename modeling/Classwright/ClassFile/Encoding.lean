import Classwright.Bytecode.Placement
import Classwright.ClassFile.ConstantPool
import Classwright.Verify.VType

/-! # Instructions as bytes

The shortest form that holds its operand is chosen for each instruction. Constants that have no form of their own are
entered in the pool when sizes are laid out, members and the classes of `new` and casts when the bytes are made. -/

namespace Classwright

/-- Floats that have an instruction of their own. -/
def Binary32.constOp? (x : Binary32) : Option Opcode :=
  if x.bits = 0 then some .fconst0
  else if x.bits = 0x3f800000 then some .fconst1
  else if x.bits = 0x40000000 then some .fconst2
  else none

/-- Doubles that have an instruction of their own. -/
def Binary64.constOp? (x : Binary64) : Option Opcode :=
  if x.bits = 0 then some .dconst0
  else if x.bits = 0x3ff0000000000000 then some .dconst1
  else none

namespace Encoding

/-- The size of a load from the pool. -/
def poolLoadSize (index : UInt16) : Nat := if index.toNat ≤ 255 then 2 else 3

/-- A load of a one-word constant from the pool. -/
def poolLoad (index : UInt16) : Bytes :=
  if index.toNat ≤ 255 then .cons Opcode.ldc.byte (Bytes.u1 index.toNat)
  else .cons Opcode.ldcW.byte (Bytes.u2 index.toNat)

/-- A load of a two-word constant from the pool. -/
def wideLoad (index : UInt16) : Bytes := .cons Opcode.ldc2W.byte (Bytes.u2 index.toNat)

/-- The size of an access to a local. -/
def localSize (slot : UInt16) : Nat :=
  if slot.toNat ≤ 3 then 1 else if slot.toNat ≤ 255 then 2 else 4

/-- An access to a local, by the instruction with an index and the one for local 0. -/
def localAccess (ops : Opcode × Opcode) (slot : UInt16) : Bytes :=
  if slot.toNat ≤ 3 then [ops.2.byte + slot.toUInt8]
  else if slot.toNat ≤ 255 then [ops.1.byte, slot.toUInt8]
  else Opcode.wide.byte :: ops.1.byte :: Bytes.u2 slot.toNat

/-- An operation with an index into the pool. -/
def withIndex (op : Opcode) (index : UInt16) : Bytes := op.byte :: Bytes.u2 index.toNat

/-- Words of the arguments of a method descriptor, behind those counted in `acc`. -/
def argWords (acc : Nat) : List (List Char) → Except FormatError Nat
  | [] => .ok acc
  | d :: rest =>
    match VType.ofDescriptor? d with
    | none => .error (.badDescriptor (String.ofList d))
    | some none => argWords acc rest
    | some (some t) => argWords (acc + t.width) rest

/-- The count byte of an interface call: words of the receiver and the arguments. -/
def interfaceCount (descriptor : String) : Except FormatError Nat :=
  match Descriptor.split? descriptor with
  | none => .error (.badDescriptor descriptor)
  | some (params, _) =>
    match argWords 1 params with
    | .error e => .error e
    | .ok words => if words ≤ 255 then .ok words else .error (.badDescriptor descriptor)

/-- A branch from `source` to `target`. -/
def branch (op : Opcode) (source target : Nat) : Except FormatError Bytes :=
  let delta : Int := (target : Int) - source
  if delta < -32768 ∨ 32767 < delta then .error (.branchOutOfRange delta)
  else .ok (op.byte :: Bytes.u2 (delta % 65536).toNat)

end Encoding

namespace Instr

open Encoding

/-- The size of an instruction in bytes. -/
def size : Instr → PoolM Nat
  | .op _ => return 1
  | .int v =>
    let n := v.toInt
    if -1 ≤ n ∧ n ≤ 5 then return 1
    else if -128 ≤ n ∧ n ≤ 127 then return 2
    else if -32768 ≤ n ∧ n ≤ 32767 then return 3
    else return poolLoadSize (← PoolM.integer v)
  | .long v =>
    if v = 0 ∨ v = 1 then return 1
    else do
      let _ ← PoolM.long v
      return 3
  | .float v =>
    match v.constOp? with
    | some _ => return 1
    | none => return poolLoadSize (← PoolM.float v)
  | .double v =>
    match v.constOp? with
    | some _ => return 1
    | none => do
      let _ ← PoolM.double v
      return 3
  | .str s => return poolLoadSize (← PoolM.string s)
  | .cls c => return poolLoadSize (← PoolM.cls c)
  | .load _ slot | .store _ slot => return localSize slot
  | .jump _ _ | .field _ _ | .type _ _ => return 3
  | .invoke o _ => return if o = .invokeinterface then 5 else 3
  | .mark _ => return 0

/-- The bytes of the instruction at `offset`; `targetOffset` gives the offset that a label stands for. -/
def encode (offset : Nat) (targetOffset : Label → Except FormatError Nat) : Instr → PoolM Bytes
  | .op o => return [o.byte]
  | .int v =>
    let n := v.toInt
    if -1 ≤ n ∧ n ≤ 5 then return [(Opcode.iconst0.byte.toNat + n).toNat.toUInt8]
    else if -128 ≤ n ∧ n ≤ 127 then return Opcode.bipush.byte :: Bytes.u1 (n % 256).toNat
    else if -32768 ≤ n ∧ n ≤ 32767 then return Opcode.sipush.byte :: Bytes.u2 (n % 65536).toNat
    else return poolLoad (← PoolM.integer v)
  | .long v =>
    if v = 0 then return [Opcode.lconst0.byte]
    else if v = 1 then return [Opcode.lconst1.byte]
    else return wideLoad (← PoolM.long v)
  | .float v =>
    match v.constOp? with
    | some o => return [o.byte]
    | none => return poolLoad (← PoolM.float v)
  | .double v =>
    match v.constOp? with
    | some o => return [o.byte]
    | none => return wideLoad (← PoolM.double v)
  | .str s => return poolLoad (← PoolM.string s)
  | .cls c => return poolLoad (← PoolM.cls c)
  | .load k slot => return localAccess k.loadOps slot
  | .store k slot => return localAccess k.storeOps slot
  | .jump o l => do
    let target ← PoolM.lift (targetOffset l)
    PoolM.lift (branch o offset target)
  | .field o m => return withIndex o (← PoolM.field m.owner m.name m.descriptor)
  | .invoke o m => do
    let index ← PoolM.method m.owner m.name m.descriptor (m.interface || o == .invokeinterface)
    if o = .invokeinterface then
      let count ← PoolM.lift (interfaceCount m.descriptor)
      return withIndex o index ++ Bytes.u1 count ++ Bytes.u1 0
    else return withIndex o index
  | .type o c => return withIndex o (← PoolM.cls c)
  | .mark _ => return []

end Instr

end Classwright
