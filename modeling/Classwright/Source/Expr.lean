import Classwright.Source.Operator
import Classwright.Source.Span

/-! # Expressions

An expression has three tiers: alternatives of conjunctions of operator sequences. How the operators of a sequence
group is not part of the tree. -/

namespace Classwright.Source

structure Ident where
  name : String
  span : Span := {}
deriving DecidableEq, Repr, Inhabited

/-- A literal as written, quotes included. -/
structure Literal where
  text : String
  span : Span := {}
deriving DecidableEq, Repr, Inhabited

/-- The text stands between quotes. -/
def Literal.isString (l : Literal) : Bool :=
  match l.text.toList with
  | '"' :: rest => rest.getLast? == some '"'
  | _ => false

/-- The characters between the quotes. -/
def Literal.body (l : Literal) : List Char := (l.text.toList.drop 1).dropLast

/-- A type as written: a name, `[]` for an array, and `!` to admit a type that is only carried about. -/
structure TypeRef where
  name : String
  isArray : Bool := false
  marked : Bool := false
  span : Span := {}
deriving DecidableEq, Repr, Inhabited

/-- Reads a written type from its last character back. -/
def TypeRef.ofText (text : String) (span : Span := {}) : TypeRef :=
  let (cs, marked) := match text.toList.reverse with
    | '!' :: rest => (rest, true)
    | cs => (cs, false)
  let (cs, isArray) := match cs with
    | ']' :: '[' :: rest => (rest, true)
    | cs => (cs, false)
  { name := String.ofList cs.reverse, isArray, marked, span }

/-- Operators in front of an operand. -/
inductive UnaryOp where
  | neg
  | not
  | convert (target : TypeRef)
deriving DecidableEq, Repr

mutual

/-- Alternatives: `a || b || …`. -/
structure Expr where
  terms : List AndExpr
  span : Span

/-- A conjunction: `a && b && …`. -/
structure AndExpr where
  terms : List MathExpr
  span : Span

/-- Terms with binary operators between them. -/
structure MathExpr where
  first : Term
  rest : List Operation
  span : Span

/-- An operator and the term on its right. -/
structure Operation where
  op : BinaryOp
  term : Term

/-- An operand under unary operators, the first of which binds tightest. -/
structure Term where
  unary : List UnaryOp
  operand : Operand
  span : Span

inductive Operand where
  | literal (value : Literal)
  | chain (links : List Link) (span : Span)
  | paren (inner : Expr)

/-- One part of a chain such as `a.b(x).c`. -/
inductive Link where
  | text (value : Literal)
  | name (ident : Ident)
  | call (call : Call)
  | super (span : Span)

structure Call where
  name : Ident
  args : List Expr
  span : Span

end

def Link.span : Link → Span
  | .text l => l.span
  | .name i => i.span
  | .call c => c.span
  | .super s => s

/-- A term by itself has no span as a sequence. -/
def Term.toMath (t : Term) : MathExpr := ⟨t, [], {}⟩

def MathExpr.toAnd (m : MathExpr) : AndExpr := ⟨[m], m.span⟩

def AndExpr.toExpr (a : AndExpr) : Expr := ⟨[a], a.span⟩

/-- The single operator sequence that an expression consists of. -/
def Expr.math? (e : Expr) : Option MathExpr :=
  match e.terms with
  | [⟨[m], _⟩] => some m
  | _ => none

end Classwright.Source
