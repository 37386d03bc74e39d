import Classwright.ClassFile.Encoding
import Classwright.ClassFile.StackMap

/-! # Assembling a method body

Labels are resolved, all instructions typed, dead ones dropped, sizes laid out and bytes made, and the frames at
branch targets written down. -/

namespace Classwright

/-- The parts of a code attribute. -/
structure Assembled where
  code : Bytes
  maxStack : UInt16
  maxLocals : UInt16
  frameCount : UInt16
  /-- The entries of the stack map table. -/
  stackMap : Bytes
  /-- How many instructions were dead. -/
  removed : Nat
deriving DecidableEq, Repr

namespace Assembly

/-- The offset of every instruction and the size of them all. The first of the instructions is at `index` and at
    offset `pc`; dead ones take no space. -/
def layout (flow : Dataflow) (offsets : Array Nat) (pc index : Nat) : List Instr → PoolM (Array Nat × Nat)
  | [] => return (offsets, pc)
  | instr :: rest => do
    let size ← if flow.isLive index then instr.size else pure 0
    layout flow (offsets.push pc) (pc + size) (index + 1) rest

/-- The offset that a label stands for. -/
def offsetOf (placement : Placement) (offsets : Array Nat) (l : Label) : Except FormatError Nat := do
  let position ← placement.target l
  return offsets.getD position 0

/-- The bytes of the live instructions, behind those in `acc` reversed. -/
def encodeAll (flow : Dataflow) (placement : Placement) (offsets : Array Nat) (acc : List Bytes) (index : Nat) :
    List Instr → PoolM Bytes
  | [] => return acc.reverse.flatten
  | instr :: rest =>
    if flow.isLive index then do
      let bytes ← instr.encode (offsets.getD index 0) (offsetOf placement offsets)
      encodeAll flow placement offsets (bytes :: acc) (index + 1) rest
    else encodeAll flow placement offsets acc (index + 1) rest

/-- How many instructions are dead, not counting marks, on top of `n`. -/
def countDead (flow : Dataflow) (n index : Nat) : List Instr → Nat
  | [] => n
  | instr :: rest => countDead flow (if flow.isLive index || instr.isMark then n else n + 1) (index + 1) rest

end Assembly

open Assembly in
/-- Assembles the body of the method `m`, with a stack map if `stackMaps`. -/
def Code.assemble (c : Code) (m : MethodHead) (stackMaps : Bool) : PoolM Assembled := do
  let placement ← PoolM.lift c.placement
  let entry ← PoolM.lift (m.entryFrame.mapError (FormatError.ofFault 0))
  let flow ← PoolM.lift (Dataflow.analyze m c.instrs placement entry)
  let (offsets, size) ← layout flow #[] 0 0 c.instrs.toList
  if 65535 < size then throw (.codeTooLarge size)
  let code ← encodeAll flow placement offsets [] 0 c.instrs.toList
  let entries := if stackMaps then StackMap.entries c.instrs placement flow offsets else []
  let stackMap ← StackMap.entriesBytes offsets [] entry.compactLocals none entries
  return {
    code, stackMap
    maxStack := flow.maxStack.toUInt16
    maxLocals := flow.maxLocals.toUInt16
    frameCount := entries.length.toUInt16
    removed := countDead flow 0 0 c.instrs.toList }

end Classwright
