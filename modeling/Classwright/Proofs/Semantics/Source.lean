import Classwright.Proofs.Lowering.Grouping
import Classwright.Proofs.Semantics.Number
import Classwright.Source.Stmt

/-! # What programs on numbers mean

Expressions have values, and statements change what is stored under names. A block goes on with its next statement, or
is left by one that breaks off a loop, goes on with the next round of it, or returns. In a loop with a step the next
round starts at the step, also for a `continue` inside the step.

How long a program runs is not known, so it is given a number of rounds that each of its loops may make. -/

namespace Classwright

open Source (BinaryOp UnaryOp Stmt VarDecl Ident)

/-- What is stored under each name, if anything is. -/
abbrev Store := String → Option Num

def Store.set (st : Store) (name : String) (v : Num) : Store := Function.update st name (some v)

/-! ### Expressions -/

/-- Goes through conditions until one decides: `stop` is the truth value that does. -/
def decideOn (stop : Bool) : List (Except Fault Num) → Except Fault Num
  | [] => .ok (.truth !stop)
  | x :: rest => do
    let b ← (← x).holds
    if b = stop then .ok (.truth stop) else decideOn stop rest

/-- A single term stands for itself. -/
def logical (stop : Bool) : List (Except Fault Num) → Except Fault Num
  | [] => .error .undefined
  | [x] => x
  | xs => decideOn stop xs

def applyUnaries : List UnaryOp → Num → Except Fault Num
  | [], v => .ok v
  | op :: rest, v => do applyUnaries rest (← Num.applyUnary op v)

mutual

def evalExpr (st : Store) : Source.Expr → Except Fault Num
  | ⟨terms, _⟩ => logical true (evalAlternatives st terms)

def evalAlternatives (st : Store) : List Source.AndExpr → List (Except Fault Num)
  | [] => []
  | x :: rest => evalAnd st x :: evalAlternatives st rest

def evalAnd (st : Store) : Source.AndExpr → Except Fault Num
  | ⟨terms, _⟩ => logical false (evalConjuncts st terms)

def evalConjuncts (st : Store) : List Source.MathExpr → List (Except Fault Num)
  | [] => []
  | x :: rest => evalMath st x :: evalConjuncts st rest

def evalMath (st : Store) : Source.MathExpr → Except Fault Num
  | ⟨first, rest, _⟩ =>
    (OpTree.group (evalTerm st first) (evalOperations st rest)).evalM fun op _ a b => Num.apply op a b

def evalOperations (st : Store) : List Source.Operation → List (BinaryOp × Span × Except Fault Num)
  | [] => []
  | ⟨op, term⟩ :: rest => (op, term.span, evalTerm st term) :: evalOperations st rest

def evalTerm (st : Store) : Source.Term → Except Fault Num
  | ⟨unary, operand, _⟩ => do applyUnaries unary (← evalOperand st operand)

def evalOperand (st : Store) : Source.Operand → Except Fault Num
  | .literal l => l.num
  | .chain [.text l] _ => l.num
  | .chain [.name x] _ =>
    match st x.name with
    | some v => .ok v
    | none => .error .undefined
  | .chain _ _ => .error .undefined
  | .paren inner => evalExpr st inner

end

def evalCondition (st : Store) (e : Source.Expr) : Except Fault Bool := do (← evalExpr st e).holds

/-! ### Statements -/

/-- How a statement ends. -/
inductive Outcome where
  | normal (st : Store)
  /-- It leaves the innermost loop. -/
  | broke (st : Store)
  /-- It goes on with the next round of the innermost loop. -/
  | continued (st : Store)
  | returned (v : Option Num)
  | failed (f : Fault)
  /-- A loop has made all the rounds that were allowed. -/
  | unfinished

/-- Goes on with `k` if nothing speaks against it. -/
def Outcome.andThen (o : Outcome) (k : Store → Outcome) : Outcome :=
  match o with
  | .normal st => k st
  | o => o

/-- Goes on with a value. -/
def Outcome.ofValue {α : Type} (x : Except Fault α) (k : α → Outcome) : Outcome :=
  match x with
  | .ok a => k a
  | .error f => .failed f

/-- Goes on with a loop after a part of it has ended. -/
def Outcome.inLoop (o : Outcome) (normal continued : Store → Outcome) : Outcome :=
  match o with
  | .normal st => normal st
  | .continued st => continued st
  | .broke st => .normal st
  | o => o

/-- Where a loop is: at its condition, or at its step. -/
inductive LoopPoint where
  | test | step
deriving DecidableEq, Repr

/-- What comes after the body of a loop. -/
def LoopPoint.afterBody (step : Option (Store → Outcome)) : LoopPoint := if step.isSome then .step else .test

/-- Goes through a loop, for a number of rounds. -/
def iterate (test : Store → Except Fault Bool) (body : Store → Outcome) (step : Option (Store → Outcome)) :
    Nat → LoopPoint → Store → Outcome
  | 0, _, _ => .unfinished
  | rounds + 1, .test, st =>
    let goOn := iterate test body step rounds (.afterBody step)
    .ofValue (test st) fun b => if b then (body st).inLoop goOn goOn else .normal st
  | rounds + 1, .step, st =>
    ((step.getD .normal) st).inLoop (iterate test body step rounds .test) (iterate test body step rounds .step)

/-- A variable without an initial value is only made known. -/
def execVar (v : VarDecl) (st : Store) : Outcome :=
  match v.init with
  | none => .normal st
  | some e => .ofValue (evalExpr st e) fun n => .normal (st.set v.name.name n)

def execVars : List VarDecl → Store → Outcome
  | [], st => .normal st
  | v :: rest, st => (execVar v st).andThen (execVars rest)

mutual

/-- Carries out a statement; each of its loops makes at most `rounds` rounds. -/
def execStmt (rounds : Nat) : Stmt → Store → Outcome
  | .var vars _, st => execVars vars st
  | .assign target value _, st => .ofValue (evalExpr st value) fun n => .normal (st.set target.name n)
  | .expr e, st => .ofValue (evalExpr st e) fun _ => .normal st
  | .cond condition thenPart none _, st =>
    .ofValue (evalCondition st condition) fun b => if b then execBlock rounds thenPart st else .normal st
  | .cond condition thenPart (some elsePart) _, st =>
    .ofValue (evalCondition st condition) fun b =>
      if b then execBlock rounds thenPart st else execBlock rounds elsePart st
  | .loop condition body none _, st =>
    iterate (evalCondition · condition) (fun st => execBlock rounds body st) none rounds .test st
  | .loop condition body (some step) _, st =>
    iterate (evalCondition · condition) (fun st => execBlock rounds body st)
      (some fun st => execBlock rounds step st) rounds .test st
  | .exit _, st => .broke st
  | .next _, st => .continued st
  | .ret none _, _ => .returned none
  | .ret (some e) _, st => .ofValue (evalExpr st e) fun n => .returned (some n)
  | .block stmts _, st => execBlock rounds stmts st

def execBlock (rounds : Nat) : List Stmt → Store → Outcome
  | [], st => .normal st
  | stmt :: rest, st => (execStmt rounds stmt st).andThen fun st => execBlock rounds rest st

end

/-! ### Programs on numbers

Programs whose names are known locals, and whose numbers are whole. A name is known from its declaration to the end of
the method. -/

/-- The type is `int` or `long`. -/
def Source.TypeRef.isNumeric (t : Source.TypeRef) : Bool := t.scalar? = some .int || t.scalar? = some .long

def Source.UnaryOp.isNumeric : UnaryOp → Bool
  | .neg | .not => true
  | .convert t => t.isNumeric

def Source.Literal.isNumeric (l : Source.Literal) : Bool := l.num.toBool

mutual

def numericExpr (known : List String) : Source.Expr → Bool
  | ⟨terms, _⟩ => numericAlternatives known terms

def numericAlternatives (known : List String) : List Source.AndExpr → Bool
  | [] => true
  | x :: rest => numericAnd known x && numericAlternatives known rest

def numericAnd (known : List String) : Source.AndExpr → Bool
  | ⟨terms, _⟩ => numericConjuncts known terms

def numericConjuncts (known : List String) : List Source.MathExpr → Bool
  | [] => true
  | x :: rest => numericMath known x && numericConjuncts known rest

def numericMath (known : List String) : Source.MathExpr → Bool
  | ⟨first, rest, _⟩ => numericTerm known first && numericOperations known rest

def numericOperations (known : List String) : List Source.Operation → Bool
  | [] => true
  | ⟨_, term⟩ :: rest => numericTerm known term && numericOperations known rest

def numericTerm (known : List String) : Source.Term → Bool
  | ⟨unary, operand, _⟩ => unary.all (·.isNumeric) && numericOperand known operand

def numericOperand (known : List String) : Source.Operand → Bool
  | .literal l => l.isNumeric
  | .chain [.text l] _ => l.isNumeric
  | .chain [.name x] _ => known.contains x.name
  | .chain _ _ => false
  | .paren inner => numericExpr known inner

end

mutual

/-- The names that a statement declares. -/
def declared : Stmt → List String
  | .var vars _ => vars.map (·.name.name)
  | .cond _ thenPart none _ => declaredIn thenPart
  | .cond _ thenPart (some elsePart) _ => declaredIn thenPart ++ declaredIn elsePart
  | .loop _ body none _ => declaredIn body
  | .loop _ body (some step) _ => declaredIn body ++ declaredIn step
  | .block stmts _ => declaredIn stmts
  | _ => []

def declaredIn : List Stmt → List String
  | [] => []
  | stmt :: rest => declared stmt ++ declaredIn rest

end

def numericVars (known : List String) : List VarDecl → Bool
  | [] => true
  | v :: rest =>
    v.type.isNumeric && v.init.all (numericExpr known) && numericVars (known ++ [v.name.name]) rest

mutual

def numericStmt (known : List String) : Stmt → Bool
  | .var vars _ => numericVars known vars
  | .assign target value _ => known.contains target.name && numericExpr known value
  | .expr e => numericExpr known e
  | .cond condition thenPart none _ => numericExpr known condition && numericBlock known thenPart
  | .cond condition thenPart (some elsePart) _ =>
    numericExpr known condition && numericBlock known thenPart && numericBlock (known ++ declaredIn thenPart) elsePart
  | .loop condition body none _ => numericExpr known condition && numericBlock known body
  | .loop condition body (some step) _ =>
    numericExpr known condition && numericBlock known body && numericBlock (known ++ declaredIn body) step
  | .exit _ | .next _ => true
  | .ret value _ => value.all (numericExpr known)
  | .block stmts _ => numericBlock known stmts

def numericBlock (known : List String) : List Stmt → Bool
  | [] => true
  | stmt :: rest => numericStmt known stmt && numericBlock (known ++ declared stmt) rest

end

end Classwright
