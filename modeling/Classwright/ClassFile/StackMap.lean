import Classwright.ClassFile.ConstantPool
import Classwright.Verify.Dataflow

/-! # Stack map tables

A stack map lists the frames at the targets of branches, each by what differs from the frame before it. -/

namespace Classwright

namespace StackMap

/-- A frame at a byte offset. -/
structure Entry where
  offset : Nat
  frame : Frame

/-- The first instruction from `index` on that is no mark, but never past the last instruction. Each step goes one
    instruction on, so the size of the code is enough `fuel`. -/
def skipMarks (code : Array Instr) : Nat → Nat → Nat
  | 0, index => index
  | fuel + 1, index =>
    match code[index]? with
    | some (.mark _) => if index + 1 < code.size then skipMarks code fuel (index + 1) else index
    | _ => index

/-- The frame that the jump at `index`, if it is live, needs at its target. -/
def entryOf? (code : Array Instr) (placement : Placement) (flow : Dataflow) (offsets : Array Nat) (index : Nat) :
    Instr → Option Entry
  | .jump _ l =>
    if flow.isLive index then
      (placement.position? l).bind fun position =>
        let target := skipMarks code code.size position
        (flow.frameAt target).map fun frame => ⟨offsets.getD target 0, frame⟩
    else none
  | _ => none

/-- The frames that live jumps need, in front of those in `acc` reversed. -/
def collect (code : Array Instr) (placement : Placement) (flow : Dataflow) (offsets : Array Nat) (acc : List Entry)
    (index : Nat) : List Instr → List Entry
  | [] => acc.reverse
  | instr :: rest =>
    match entryOf? code placement flow offsets index instr with
    | some e => collect code placement flow offsets (e :: acc) (index + 1) rest
    | none => collect code placement flow offsets acc (index + 1) rest

/-- Keeps the first of the entries at each offset, in front of those in `acc` reversed. The entries are in order. -/
def dedup (acc : List Entry) : List Entry → List Entry
  | [] => acc.reverse
  | e :: rest =>
    match acc with
    | [] => dedup [e] rest
    | last :: _ => if last.offset = e.offset then dedup acc rest else dedup (e :: acc) rest

/-- The frames at all branch targets, by offset. -/
def entries (code : Array Instr) (placement : Placement) (flow : Dataflow) (offsets : Array Nat) : List Entry :=
  dedup [] ((collect code placement flow offsets [] 0 code.toList).mergeSort fun a b => a.offset ≤ b.offset)

/-- A verification type in a stack map. -/
def typeBytes (offsets : Array Nat) : VType → PoolM Bytes
  | .top => return Bytes.u1 0
  | .integer => return Bytes.u1 1
  | .float => return Bytes.u1 2
  | .double => return Bytes.u1 3
  | .long => return Bytes.u1 4
  | .null => return Bytes.u1 5
  | .uninitializedThis => return Bytes.u1 6
  | .object name => return Bytes.u1 7 ++ Bytes.u2 (← PoolM.cls name).toNat
  | .uninitialized site => return Bytes.u1 8 ++ Bytes.u2 (offsets.getD site 0)

/-- Verification types one after another, behind those in `acc` reversed. -/
def typesBytes (offsets : Array Nat) (acc : List Bytes) : List VType → PoolM Bytes
  | [] => return acc.reverse.flatten
  | t :: rest => do
    let bytes ← typeBytes offsets t
    typesBytes offsets (bytes :: acc) rest

/-- An entry whose offset is `delta` further, after a frame with the locals `before`. -/
def entryBytes (offsets : Array Nat) (before : List VType) (delta : Nat) (frame : Frame) : PoolM Bytes :=
  let locals := frame.compactLocals
  if locals = before ∧ frame.stack.isEmpty then
    if delta < 64 then return Bytes.u1 delta else return Bytes.u1 251 ++ Bytes.u2 delta
  else if locals = before ∧ frame.stack.length = 1 then do
    let stack ← typesBytes offsets [] frame.stack
    if delta < 64 then return Bytes.u1 (64 + delta) ++ stack
    else return Bytes.u1 247 ++ Bytes.u2 delta ++ stack
  else do
    let localsBytes ← typesBytes offsets [] locals
    let stack ← typesBytes offsets [] frame.stack.reverse
    return Bytes.u1 255 ++ Bytes.u2 delta ++ Bytes.u2 locals.length ++ localsBytes ++
      Bytes.u2 frame.stack.length ++ stack

/-- Entries after one at offset `previous` with the locals `before`, behind the bytes in `acc` reversed. -/
def entriesBytes (offsets : Array Nat) (acc : List Bytes) (before : List VType) (previous : Option Nat) :
    List Entry → PoolM Bytes
  | [] => return acc.reverse.flatten
  | e :: rest => do
    let delta := match previous with
      | none => e.offset
      | some p => e.offset - p - 1
    let bytes ← entryBytes offsets before (delta % 65536) e.frame
    entriesBytes offsets (bytes :: acc) e.frame.compactLocals (some e.offset) rest

end StackMap

end Classwright
