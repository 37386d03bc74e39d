import Classwright.Bytecode.Placement
import Classwright.Verify.Transfer

/-! # Typing all instructions

The frame before each instruction is found by following all paths from the entry. Where paths meet their frames are
joined, and an instruction whose frame has changed is visited again. Instructions that no path reaches get no frame:
they are dead. -/

namespace Classwright

/-- What is known so far about the code of a method. -/
structure Dataflow where
  /-- The frame before each instruction that some path has reached. -/
  frames : Array (Option Frame)
  /-- Instructions to visit, the next one first. -/
  pending : List Nat
  /-- The most words that the operand stack has held. -/
  maxStack : Nat
  /-- One more than the highest local that is used. -/
  maxLocals : Nat

namespace Instr

/-- Control can go on to the next instruction. -/
def fallsThrough : Instr → Bool
  | .op o | .jump o _ => !o.endsBlock
  | _ => true

/-- One more than the highest local that the instruction uses. -/
def localsUsed : Instr → Nat
  | .load k slot | .store k slot => slot.toNat + k.width
  | _ => 0

end Instr

namespace Dataflow

/-- The frame before an instruction, if some path reaches it. -/
def frameAt (d : Dataflow) (index : Nat) : Option Frame := d.frames[index]?.join

def isLive (d : Dataflow) (index : Nat) : Bool := (d.frameAt index).isSome

/-- A path reaches `target` with the frame `f`. -/
def reach (d : Dataflow) (target : Nat) (f : Frame) : Except FormatError Dataflow :=
  match d.frameAt target with
  | none => .ok { d with frames := d.frames.setIfInBounds target (some f), pending := target :: d.pending }
  | some present =>
    match present.merge f with
    | .error fault => .error (.ofFault target fault)
    | .ok (joined, changed) => .ok
      { d with
        frames := d.frames.setIfInBounds target (some joined)
        pending := if changed then target :: d.pending else d.pending }

/-- Stack sizes are 16-bit numbers. -/
def words (f : Frame) : Nat := f.stackWords % 65536

/-- Takes note of what an instruction uses, given the frames around it. -/
def observe (d : Dataflow) (instr : Instr) (before after : Frame) : Dataflow :=
  { d with
    maxStack := max (max d.maxStack (words before)) (words after)
    maxLocals := max d.maxLocals instr.localsUsed }

/-- Follows the branch of a jump. -/
def branch (placement : Placement) (d : Dataflow) (instr : Instr) (f : Frame) : Except FormatError Dataflow :=
  match instr with
  | .jump _ l => do
    let target ← placement.target l
    d.reach target f
  | _ => .ok d

/-- Visits the instruction at `index`, whose frame is `f`. -/
def visit (m : MethodHead) (code : Array Instr) (placement : Placement) (d : Dataflow) (index : Nat) (instr : Instr)
    (f : Frame) : Except FormatError Dataflow :=
  match f.apply m code index instr with
  | .error fault => .error (.ofFault index fault)
  | .ok after => do
    let d ← (d.observe instr f after).branch placement instr after
    if instr.fallsThrough then
      if index + 1 < code.size then d.reach (index + 1) after else .error (.inconsistentFrame index .fallsOff)
    else .ok d

/-- Visits pending instructions until none is left, or `fuel` is used up. -/
def run (m : MethodHead) (code : Array Instr) (placement : Placement) : Nat → Dataflow → Except FormatError Dataflow
  | 0, d => .ok d
  | fuel + 1, d =>
    match d.pending with
    | [] => .ok d
    | index :: rest =>
      let d := { d with pending := rest }
      match code[index]?, d.frameAt index with
      | some instr, some f =>
        match visit m code placement d index instr f with
        | .ok d => run m code placement fuel d
        | .error e => .error e
      | _, _ => run m code placement fuel d

/-- Visits that are enough for all code of a size: each visit follows a change of a frame, and a frame can change at
    most three times for each of its locals and stack entries, and once for each slot that is added to it. -/
def budget (size entrySize : Nat) : Nat :=
  (size + 1) * (4 * (entrySize + 65538) + 8 * size + 8)

/-- The frames of all live instructions. -/
def analyze (m : MethodHead) (code : Array Instr) (placement : Placement) (entry : Frame) :
    Except FormatError Dataflow :=
  if code.isEmpty then .error (.inconsistentFrame 0 .emptyBody)
  else
    run m code placement (budget code.size (entry.locals.length + entry.stack.length))
      { frames := (Array.replicate code.size none).setIfInBounds 0 (some entry)
        pending := [0]
        maxStack := 0
        maxLocals := entry.locals.length }

end Dataflow

end Classwright
