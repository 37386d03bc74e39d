import Classwright.ClassFile.Error

/-! # Where labels are placed -/

namespace Classwright

/-- The index of each label's mark, by the label's number. -/
structure Placement where
  positions : Array (Option Nat)

namespace Placement

def position? (p : Placement) (l : Label) : Option Nat := p.positions[l.id]?.join

/-- The index that a jump goes to. -/
def target (p : Placement) (l : Label) : Except FormatError Nat :=
  match p.position? l with
  | some i => .ok i
  | none => .error (.labelUnplaced l)

/-- Records the mark at `index`: the label must be one of those made, and not placed yet. -/
def place (p : Placement) (index : Nat) (l : Label) : Except FormatError Placement :=
  match p.positions[l.id]? with
  | none => .error (.labelUnplaced l)
  | some (some _) => .error (.labelPlacedTwice l)
  | some none => .ok ⟨p.positions.setIfInBounds l.id (some index)⟩

/-- Records the marks of instructions, the first of which is at `index`. -/
def placeAll (p : Placement) (index : Nat) : List Instr → Except FormatError Placement
  | [] => .ok p
  | .mark l :: rest =>
    match p.place index l with
    | .ok p => p.placeAll (index + 1) rest
    | .error e => .error e
  | _ :: rest => p.placeAll (index + 1) rest

/-- Every jump has somewhere to go. -/
def checkJumps (p : Placement) : List Instr → Except FormatError Unit
  | [] => .ok ()
  | .jump _ l :: rest =>
    match p.target l with
    | .ok _ => p.checkJumps rest
    | .error e => .error e
  | _ :: rest => p.checkJumps rest

end Placement

/-- The placement of a code's labels: marks first, then the jumps that need them. -/
def Code.placement (c : Code) : Except FormatError Placement := do
  let p ← Placement.placeAll ⟨Array.replicate c.labels none⟩ 0 c.instrs.toList
  p.checkJumps c.instrs.toList
  return p

end Classwright
