import Classwright.Lowering.Expr
import Classwright.Source.Stmt

/-! # Statements

Blocks do not open a scope of their own: a variable is known from its declaration to the end of the method. -/

namespace Classwright

open Source (Ident Stmt VarDecl)

/-- A method body that is being lowered. -/
structure BodyState where
  scope : Scope
  emitter : Emitter := {}

abbrev BodyM := StateT BodyState Lookup

namespace BodyM

variable {α : Type}

/-- Emits code in the present scope. -/
def emitting (x : Scope → EmitM α) : BodyM α := fun ⟨scope, emitter⟩ => do
  let (a, emitter) ← x scope emitter
  return (a, ⟨scope, emitter⟩)

def emitAll (is : List Instr) : BodyM Unit := emitting fun _ => EmitM.emitAll is

/-- Works on the open blocks for a statement of the kind `what`. -/
def blocks (what : String) (site : Span) (f : Emitter → Except BlockFault Emitter) : BodyM Unit :=
  fun ⟨scope, emitter⟩ =>
    match f emitter with
    | .ok emitter => pure ((), ⟨scope, emitter⟩)
    | .error fault => .fail (.invalidControlFlow (.ofBlock what fault) site)

/-- Declares a variable. -/
def declare (name : Ident) (t : Ty) : BodyM Local := fun ⟨scope, emitter⟩ =>
  match scope.add name.name t name.span with
  | .ok (v, scope) => pure (v, ⟨scope, emitter⟩)
  | .error e => .fail e

end BodyM

/-- Declares a variable after its initial value, which cannot speak of it yet. -/
def lowerVar (c : Context) (v : VarDecl) : BodyM Unit := do
  let t ← c.resolveType v.type
  if t.isVoid then throw (.typeMismatch (.voidVariable v.name.name) v.span)
  match v.init with
  | none =>
    let _ ← BodyM.declare v.name t
  | some init =>
    let found ← BodyM.emitting (lowerExpr c · init)
    if found ≠ t then throw (.typeMismatch (.initializer v.name.name t found) init.span)
    let v ← BodyM.declare v.name t
    BodyM.emitAll (v.type.storeCode v.slot)

def lowerVars (c : Context) : List VarDecl → BodyM Unit
  | [] => return ()
  | v :: rest => do
    lowerVar c v
    lowerVars c rest

/-- The value to assign to a name of type `t`. -/
def lowerAssigned (c : Context) (name : String) (t : Ty) (value : Source.Expr) : BodyM Unit := do
  let found ← BodyM.emitting (lowerExpr c · value)
  if found ≠ t then throw (.typeMismatch (.assignment name t found) value.span)

/-- Assigns to a local or to a field of the class. -/
def lowerAssign (c : Context) (target : Ident) (value : Source.Expr) : BodyM Unit := do
  let scope := (← get).scope
  match scope.get? target.name with
  | some v =>
    lowerAssigned c target.name v.type value
    BodyM.emitAll (v.type.storeCode v.slot)
  | none =>
    match ← c.ownField? target.name target.span with
    | none => throw (.unknownSymbol target.name target.span)
    | some f =>
      if !f.isStatic && scope.method.isStatic then throw (.invalidAccess (.fieldAssigned target.name) target.span)
      BodyM.emitAll (if f.isStatic then [] else [.this])
      lowerAssigned c target.name f.type value
      BodyM.emitAll [f.putCode c.own.name]

def lowerReturn (c : Context) (value : Option Source.Expr) (site : Span) : BodyM Unit := do
  let expected := (← get).scope.method.returns
  let found ← match value with
    | some e => BodyM.emitting (lowerExpr c · e)
    | none => pure .void
  if found ≠ expected then throw (.typeMismatch (.returned expected found) site)
  BodyM.emitAll [expected.returnCode]

def lowerDecision (c : Context) (condition : Source.Expr) : BodyM Unit :=
  BodyM.emitting (lowerCondition c · condition)

mutual

def lowerStmt (c : Context) : Stmt → BodyM Unit
  | .var vars _ => lowerVars c vars
  | .assign target value _ => lowerAssign c target value
  | .expr e => do
    let t ← BodyM.emitting (lowerExpr c · e)
    BodyM.emitAll t.discardCode
  | .cond condition thenPart none span => do
    lowerDecision c condition
    BodyM.blocks "if" span fun e => .ok (e.beginConditional false)
    lowerBlock c thenPart
    BodyM.blocks "if" span (·.endConditional)
  | .cond condition thenPart (some elsePart) span => do
    lowerDecision c condition
    BodyM.blocks "if" span fun e => .ok (e.beginConditional true)
    lowerBlock c thenPart
    BodyM.blocks "else" span (·.enterElse)
    lowerBlock c elsePart
    BodyM.blocks "if" span (·.endConditional)
  | .loop condition body none span => do
    BodyM.blocks "loop" span fun e => .ok (e.beginLoop false)
    lowerDecision c condition
    BodyM.blocks "loop" span (·.loopExit)
    lowerBlock c body
    BodyM.blocks "loop" span (·.endLoop)
  | .loop condition body (some step) span => do
    BodyM.blocks "loop" span fun e => .ok (e.beginLoop true)
    lowerDecision c condition
    BodyM.blocks "loop" span (·.loopExit)
    lowerBlock c body
    BodyM.blocks "loop" span (·.enterStep)
    lowerBlock c step
    BodyM.blocks "loop" span (·.endLoop)
  | .exit span => BodyM.blocks "break" span (·.exitLoop)
  | .next span => BodyM.blocks "continue" span (·.nextRound)
  | .ret value span => lowerReturn c value span
  | .block stmts _ => lowerBlock c stmts

def lowerBlock (c : Context) : List Stmt → BodyM Unit
  | [] => return ()
  | stmt :: rest => do
    lowerStmt c stmt
    lowerBlock c rest

end

end Classwright
