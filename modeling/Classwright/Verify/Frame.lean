import Classwright.Verify.VType

/-! # Frames

A frame types the locals and the operand stack between two instructions. A long or a double among the locals is
followed by an unusable slot; on the stack it is one entry. -/

namespace Classwright

/-- Why an instruction does not fit its frame. -/
inductive FrameFault where
  | emptyBody
  | fallsOff
  | underflow
  | expected (wanted found : VType)
  | expectedKind (wanted : LocalKind) (found : VType)
  | twoWords (found : VType)
  | wrongLocal (slot : UInt16) (held : VType) (wanted : LocalKind)
  | notFieldAccess (op : Opcode)
  | noClassOperand (op : Opcode)
  | missingOperand (op : Opcode)
  | alreadyInitialized (found : VType)
  | danglingSite
  | returnsUninitialized
  | stackHeight (incoming present : Nat)
  | unmergeable (present incoming : VType)
  | badDescriptor (descriptor : String)
deriving DecidableEq, Repr

def FrameFault.message : FrameFault → String
  | .emptyBody => "method body is empty"
  | .fallsOff => "execution falls off the end of the code"
  | .underflow => "operand stack underflow"
  | .expected wanted found => "expected " ++ wanted.text ++ " on the stack, found " ++ found.text
  | .expectedKind wanted found => "expected " ++ wanted.name ++ " value on the stack, found " ++ found.text
  | .twoWords found => found.text ++ " is a two-word value"
  | .wrongLocal slot held wanted => s!"local {slot} holds " ++ held.text ++ ", not a " ++ wanted.name ++ " value"
  | .notFieldAccess op => op.name ++ " is not a field access"
  | .noClassOperand op => op.name ++ " takes no class operand"
  | .missingOperand op => op.name ++ " requires an operand"
  | .alreadyInitialized found => "constructor invoked on initialized " ++ found.text
  | .danglingSite => "dangling allocation site"
  | .returnsUninitialized => "constructor returns before initializing this"
  | .stackHeight incoming present => s!"stack height {incoming} does not match {present}"
  | .unmergeable present incoming => "cannot merge " ++ present.text ++ " and " ++ incoming.text ++ " on the stack"
  | .badDescriptor d => "bad descriptor '" ++ d ++ "'"

structure Frame where
  locals : List VType := []
  /-- The top of the stack comes first. -/
  stack : List VType := []
deriving DecidableEq, Repr, Inhabited

namespace Frame

/-- Words on the operand stack. -/
def stackWords (f : Frame) : Nat := f.stack.foldr (fun t n => t.width + n) 0

/-- One entry for each value among the locals, behind those in `acc` reversed: the slot after a long or a double is
    left out. -/
def valuesFrom (acc : List VType) : List VType → List VType
  | [] => acc.reverse
  | [t] => (t :: acc).reverse
  | t :: u :: rest => if t.width = 2 then valuesFrom (t :: acc) rest else valuesFrom (t :: acc) (u :: rest)

/-- The locals as stack map frames list them: one entry for each value, and no unusable slots at the end. -/
def compactLocals (f : Frame) : List VType :=
  ((valuesFrom [] f.locals).reverse.dropWhile (· == .top)).reverse

def push (f : Frame) (t : VType) : Frame := { f with stack := t :: f.stack }

def pop (f : Frame) : Except FrameFault (VType × Frame) :=
  match f.stack with
  | [] => .error .underflow
  | t :: rest => .ok (t, { f with stack := rest })

/-- Pops a value of the type; any reference will do for a reference. -/
def popExpect (f : Frame) (wanted : VType) : Except FrameFault Frame := do
  let (found, f) ← f.pop
  if found = wanted ∨ (wanted.isReference ∧ found.isReference) then .ok f else .error (.expected wanted found)

/-- Pops a value that can be stored as the kind says. -/
def popKind (f : Frame) (wanted : LocalKind) : Except FrameFault (VType × Frame) := do
  let (found, f) ← f.pop
  if found.hasKind wanted then .ok (found, f) else .error (.expectedKind wanted found)

/-- Pops a value of one word. -/
def popWord (f : Frame) : Except FrameFault (VType × Frame) := do
  let (found, f) ← f.pop
  if found.width = 1 then .ok (found, f) else .error (.twoWords found)

/-- Pops values of the types in order. -/
def popAll (f : Frame) : List VType → Except FrameFault Frame
  | [] => .ok f
  | t :: rest => do
    let f ← f.popExpect t
    f.popAll rest

def pushAll (f : Frame) : List VType → Frame
  | [] => f
  | t :: rest => (f.push t).pushAll rest

/-- The slot holds nothing that was ever stored, or no longer does. -/
def getLocal (f : Frame) (slot : Nat) : VType := f.locals.getD slot .top

/-- Slots beyond the end of a list of locals are unusable. -/
def pad (locals : List VType) (size : Nat) : List VType := locals ++ List.replicate (size - locals.length) .top

/-- Writes a local, with the unusable slot after a value of two words. A value of two words that loses its second
    slot is unusable. -/
def setLocal (f : Frame) (slot : Nat) (t : VType) : Frame :=
  let locals := pad f.locals (slot + t.width)
  let locals :=
    match slot with
    | 0 => locals
    | before + 1 => if (locals.getD before .top).width = 2 then locals.set before .top else locals
  let locals := locals.set slot t
  { f with locals := if t.width = 2 then locals.set (slot + 1) .top else locals }

/-- Once its constructor has run, every copy of the value is initialized. -/
def markInitialized (f : Frame) (before after : VType) : Frame :=
  let become (t : VType) : VType := if t = before then after else t
  { locals := f.locals.map become, stack := f.stack.map become }

/-- Joins two lists of locals slot by slot. -/
def joinLocals (xs ys : List VType) : List VType :=
  List.zipWith VType.joinLocal (pad xs ys.length) (pad ys xs.length)

/-- Joins two stacks of one height, given from the bottom. -/
def joinStacks : List VType → List VType → Except FrameFault (List VType)
  | x :: xs, y :: ys =>
    match x.join? y with
    | none => .error (.unmergeable x y)
    | some t => (joinStacks xs ys).map (t :: ·)
  | _, _ => .ok []

/-- The frame in which the paths behind `f` and `g` meet. -/
def join (f g : Frame) : Except FrameFault Frame := do
  if f.stack.length ≠ g.stack.length then .error (.stackHeight g.stack.length f.stack.length)
  else
    let stack ← joinStacks f.stack.reverse g.stack.reverse
    .ok { locals := joinLocals f.locals g.locals, stack := stack.reverse }

/-- Whether some entry of a list has become another one. -/
def differs : List VType → List VType → Bool
  | x :: xs, y :: ys => x != y || differs xs ys
  | _, _ => false

/-- Joins `g` into `f`, and says whether `f` has changed: on the stack, by slots that it did not have, or in a slot. -/
def merge (f g : Frame) : Except FrameFault (Frame × Bool) := do
  let joined ← f.join g
  .ok (joined, differs f.stack joined.stack || decide (f.locals.length < g.locals.length) ||
    differs (pad f.locals g.locals.length) joined.locals)

end Frame

end Classwright
