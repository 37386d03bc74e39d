import Classwright.Bytecode.Instr
import Classwright.Error
import Classwright.Signature.Basic

/-! # Emitting code

An emitter gathers the instructions of one method body, makes its labels and keeps the control-flow blocks that are
open. Blocks nest:

    if c { A } else { B }        loop c { A } step { B }

        c; ifeq ELSE             START: c; ifeq DONE
        A; goto DONE                    A
    ELSE: B                      NEXT:  B; goto START
    DONE:                        DONE:
-/

namespace Classwright

/-! ### Instructions by type -/

namespace Ty

/-- Loads a local of a type. There are none of type `void`. -/
def loadCode (t : Ty) (slot : UInt16) : List Instr := t.localKind?.toList.map (.load · slot)

def storeCode (t : Ty) (slot : UInt16) : List Instr := t.localKind?.toList.map (.store · slot)

/-- Drops a value from the stack. -/
def discardCode (t : Ty) : List Instr :=
  match t.width with
  | 0 => []
  | 1 => [.op .pop]
  | _ => [.op .pop2]

def returnCode (t : Ty) : Instr :=
  match t.localKind? with
  | none => .op .returnVoid
  | some .int => .op .ireturn
  | some .long => .op .lreturn
  | some .float => .op .freturn
  | some .double => .op .dreturn
  | some .ref => .op .areturn

end Ty

namespace Instr

/-- Loads the receiver. -/
def this : Instr := .load .ref 0

/-- A truth value as a number. -/
def truth (b : Bool) : Instr := .int (if b then 1 else 0)

/-- What stands at the end of a method that should have returned a value before. -/
def missingReturn : List Instr :=
  [.type .new Name.runtimeException, .op .dup, .str "No return statement",
   .invoke .invokespecial ⟨Name.runtimeException, Name.init, Ty.methodDescriptor [.string] .void, false⟩, .op .athrow]

end Instr

namespace FieldSig

def getCode (f : FieldSig) (owner : String) : Instr :=
  .field (if f.isStatic then .getstatic else .getfield) ⟨owner, f.name, f.type.descriptor, false⟩

def putCode (f : FieldSig) (owner : String) : Instr :=
  .field (if f.isStatic then .putstatic else .putfield) ⟨owner, f.name, f.type.descriptor, false⟩

end FieldSig

/-! ### Blocks -/

/-- A block that is open, with its labels. -/
inductive Block where
  | conditional (elseLabel : Option Label) (done : Label)
  /-- `next` is where the loop goes on after its body: at its step, or at `start` if it has none. -/
  | loop (start next done : Label)
deriving DecidableEq, Repr

structure Emitter where
  instrs : Array Instr := #[]
  labels : Nat := 0
  /-- The innermost block is first. -/
  blocks : List Block := []
deriving Inhabited

namespace Emitter

def emit (e : Emitter) (i : Instr) : Emitter := { e with instrs := e.instrs.push i }

def emitAll (e : Emitter) (is : List Instr) : Emitter := is.foldl emit e

/-- A label that was not there before. -/
def fresh (e : Emitter) : Label × Emitter := (⟨e.labels⟩, { e with labels := e.labels + 1 })

/-- Makes a truth value of a jump: `taken` if it is taken. -/
def branchValue (e : Emitter) (jump : Opcode) (taken : Bool) : Emitter :=
  let (yes, e) := e.fresh
  let (done, e) := e.fresh
  e.emitAll [.jump jump yes, .truth !taken, .jump .goto done, .mark yes, .truth taken, .mark done]

/-- Opens a conditional on the truth value on the stack. -/
def beginConditional (e : Emitter) (hasElse : Bool) : Emitter :=
  if hasElse then
    let (other, e) := e.fresh
    let (done, e) := e.fresh
    { e.emit (.jump .ifeq other) with blocks := .conditional (some other) done :: e.blocks }
  else
    let (done, e) := e.fresh
    { e.emit (.jump .ifeq done) with blocks := .conditional none done :: e.blocks }

/-- Goes from the first branch of a conditional to the other. -/
def enterElse (e : Emitter) : Except BlockFault Emitter :=
  match e.blocks with
  | .conditional (some other) done :: _ => .ok (e.emitAll [.jump .goto done, .mark other])
  | .conditional none _ :: _ => .error (.noneOpen .elseBranch)
  | _ => .error (.noneOpen .conditional)

def endConditional (e : Emitter) : Except BlockFault Emitter :=
  match e.blocks with
  | .conditional _ done :: rest => .ok { e.emit (.mark done) with blocks := rest }
  | _ => .error (.noneOpen .conditional)

/-- Opens a loop, whose condition comes next. -/
def beginLoop (e : Emitter) (hasStep : Bool) : Emitter :=
  let (start, e) := e.fresh
  if hasStep then
    let (next, e) := e.fresh
    let (done, e) := e.fresh
    { e.emit (.mark start) with blocks := .loop start next done :: e.blocks }
  else
    let (done, e) := e.fresh
    { e.emit (.mark start) with blocks := .loop start start done :: e.blocks }

/-- The labels of the innermost loop. Conditionals inside it do not count. -/
def innermostLoop? : List Block → Option (Label × Label × Label)
  | [] => none
  | .loop start next done :: _ => some (start, next, done)
  | .conditional _ _ :: rest => innermostLoop? rest

def loopLabels (e : Emitter) : Except BlockFault (Label × Label × Label) :=
  match innermostLoop? e.blocks with
  | some labels => .ok labels
  | none => .error .notInLoop

/-- Leaves the innermost loop if the truth value on the stack is false. -/
def loopExit (e : Emitter) : Except BlockFault Emitter := do
  let (_, _, done) ← e.loopLabels
  return e.emit (.jump .ifeq done)

/-- Goes from the body of the innermost loop to its step. -/
def enterStep (e : Emitter) : Except BlockFault Emitter := do
  let (start, next, _) ← e.loopLabels
  return if next = start then e else e.emit (.mark next)

def endLoop (e : Emitter) : Except BlockFault Emitter :=
  match e.blocks with
  | .loop start _ done :: rest => .ok { e.emitAll [.jump .goto start, .mark done] with blocks := rest }
  | _ => .error (.noneOpen .loop)

/-- Leaves the innermost loop. -/
def exitLoop (e : Emitter) : Except BlockFault Emitter := do
  let (_, _, done) ← e.loopLabels
  return e.emit (.jump .goto done)

/-- Goes on with the next round of the innermost loop. -/
def nextRound (e : Emitter) : Except BlockFault Emitter := do
  let (_, next, _) ← e.loopLabels
  return e.emit (.jump .goto next)

def depth (e : Emitter) : Nat := e.blocks.length

def loopDepth (e : Emitter) : Nat :=
  e.blocks.countP fun
    | .loop _ _ _ => true
    | .conditional _ _ => false

def inLoop (e : Emitter) : Bool := (innermostLoop? e.blocks).isSome

/-- The finished code. All blocks must have been closed. -/
def finish (e : Emitter) : Except BlockFault Code :=
  if e.blocks.isEmpty then .ok ⟨e.instrs, e.labels⟩ else .error (.leftOpen e.depth)

end Emitter

end Classwright
