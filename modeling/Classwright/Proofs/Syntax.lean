import Classwright.Source.Stmt
import Mathlib.Tactic.Common

/-! # Induction over programs

What holds of an expression or a statement follows from what holds of its parts. -/

namespace Classwright.Source

/-! ### Expressions -/

/-- Properties that expressions have as soon as their parts have them. The arguments of calls are parts of a chain. -/
structure ExprSteps (E : Expr → Prop) (A : AndExpr → Prop) (M : MathExpr → Prop) (T : Term → Prop)
    (O : Operand → Prop) : Prop where
  expr : ∀ terms span, (∀ x ∈ terms, A x) → E ⟨terms, span⟩
  and : ∀ terms span, (∀ x ∈ terms, M x) → A ⟨terms, span⟩
  math : ∀ first rest span, T first → (∀ x ∈ rest, T x.term) → M ⟨first, rest, span⟩
  term : ∀ unary operand span, O operand → T ⟨unary, operand, span⟩
  literal : ∀ l, O (.literal l)
  chain : ∀ links span, (∀ call, .call call ∈ links → ∀ x ∈ call.args, E x) → O (.chain links span)
  paren : ∀ x, E x → O (.paren x)

namespace ExprSteps
variable {E : Expr → Prop} {A : AndExpr → Prop} {M : MathExpr → Prop} {T : Term → Prop} {O : Operand → Prop}

mutual

theorem forExpr (h : ExprSteps E A M T O) : (x : Expr) → E x
  | ⟨terms, span⟩ => h.expr terms span (h.forAnds terms)

theorem forAnds (h : ExprSteps E A M T O) : (xs : List AndExpr) → ∀ x ∈ xs, A x
  | [] => List.forall_mem_nil _
  | ⟨terms, span⟩ :: rest => List.forall_mem_cons.mpr ⟨h.and terms span (h.forMaths terms), h.forAnds rest⟩

theorem forMaths (h : ExprSteps E A M T O) : (xs : List MathExpr) → ∀ x ∈ xs, M x
  | [] => List.forall_mem_nil _
  | ⟨first, operations, span⟩ :: rest => List.forall_mem_cons.mpr
    ⟨h.math first operations span (h.forTerm first) (h.forOperations operations), h.forMaths rest⟩

theorem forOperations (h : ExprSteps E A M T O) : (xs : List Operation) → ∀ x ∈ xs, T x.term
  | [] => List.forall_mem_nil _
  | ⟨_, term⟩ :: rest => List.forall_mem_cons.mpr ⟨h.forTerm term, h.forOperations rest⟩

theorem forTerm (h : ExprSteps E A M T O) : (x : Term) → T x
  | ⟨unary, operand, span⟩ => h.term unary operand span (h.forOperand operand)

theorem forOperand (h : ExprSteps E A M T O) : (x : Operand) → O x
  | .literal l => h.literal l
  | .chain links span => h.chain links span (h.forLinks links)
  | .paren inner => h.paren inner (h.forExpr inner)

theorem forLinks (h : ExprSteps E A M T O) : (links : List Link) → ∀ call, .call call ∈ links → ∀ x ∈ call.args, E x
  | [] => nofun
  | .call ⟨_, args, _⟩ :: rest => fun call hc => (List.mem_cons.mp hc).elim
    (fun hc => by cases hc; exact h.forExprs args) (h.forLinks rest call)
  | .text _ :: rest => fun call hc => h.forLinks rest call (by simpa using hc)
  | .name _ :: rest => fun call hc => h.forLinks rest call (by simpa using hc)
  | .super _ :: rest => fun call hc => h.forLinks rest call (by simpa using hc)

theorem forExprs (h : ExprSteps E A M T O) : (xs : List Expr) → ∀ x ∈ xs, E x
  | [] => List.forall_mem_nil _
  | x :: rest => List.forall_mem_cons.mpr ⟨h.forExpr x, h.forExprs rest⟩

end

end ExprSteps

/-! ### Statements -/

/-- Properties that statements and blocks have as soon as their parts have them. -/
structure StmtSteps (S : Stmt → Prop) (B : List Stmt → Prop) : Prop where
  var : ∀ vars span, S (.var vars span)
  assign : ∀ target value span, S (.assign target value span)
  expr : ∀ e, S (.expr e)
  ifThen : ∀ condition thenPart span, B thenPart → S (.cond condition thenPart none span)
  ifElse : ∀ condition thenPart elsePart span, B thenPart → B elsePart →
    S (.cond condition thenPart (some elsePart) span)
  loop : ∀ condition body span, B body → S (.loop condition body none span)
  loopStep : ∀ condition body step span, B body → B step → S (.loop condition body (some step) span)
  exit : ∀ span, S (.exit span)
  next : ∀ span, S (.next span)
  ret : ∀ value span, S (.ret value span)
  block : ∀ stmts span, B stmts → S (.block stmts span)
  nil : B []
  cons : ∀ stmt rest, S stmt → B rest → B (stmt :: rest)

namespace StmtSteps
variable {S : Stmt → Prop} {B : List Stmt → Prop}

mutual

theorem forStmt (h : StmtSteps S B) : (stmt : Stmt) → S stmt
  | .var vars span => h.var vars span
  | .assign target value span => h.assign target value span
  | .expr e => h.expr e
  | .cond condition thenPart none span => h.ifThen condition thenPart span (h.forBlock thenPart)
  | .cond condition thenPart (some elsePart) span =>
    h.ifElse condition thenPart elsePart span (h.forBlock thenPart) (h.forBlock elsePart)
  | .loop condition body none span => h.loop condition body span (h.forBlock body)
  | .loop condition body (some step) span =>
    h.loopStep condition body step span (h.forBlock body) (h.forBlock step)
  | .exit span => h.exit span
  | .next span => h.next span
  | .ret value span => h.ret value span
  | .block stmts span => h.block stmts span (h.forBlock stmts)

theorem forBlock (h : StmtSteps S B) : (stmts : List Stmt) → B stmts
  | [] => h.nil
  | stmt :: rest => h.cons stmt rest (h.forStmt stmt) (h.forBlock rest)

end

end StmtSteps

end Classwright.Source
