import Classwright.Source.Expr

/-! # Statements -/

namespace Classwright.Source

/-- One variable of a declaration. -/
structure VarDecl where
  name : Ident
  type : TypeRef
  init : Option Expr
  span : Span

inductive Stmt where
  | var (vars : List VarDecl) (span : Span)
  | assign (target : Ident) (value : Expr) (span : Span)
  | expr (value : Expr)
  | cond (condition : Expr) (thenPart : List Stmt) (elsePart : Option (List Stmt)) (span : Span)
  /-- The step runs after the body and before the condition is tested again. -/
  | loop (condition : Expr) (body : List Stmt) (step : Option (List Stmt)) (span : Span)
  | exit (span : Span)
  | next (span : Span)
  | ret (value : Option Expr) (span : Span)
  | block (stmts : List Stmt) (span : Span)

def Stmt.span : Stmt → Span
  | .var _ s | .assign _ _ s | .cond _ _ _ s | .loop _ _ _ s | .exit s | .next s | .ret _ s | .block _ s => s
  | .expr e => e.span

end Classwright.Source
