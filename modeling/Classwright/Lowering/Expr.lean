import Classwright.Lowering.Call
import Classwright.Lowering.Conversion
import Classwright.Lowering.Operator

/-! # Expressions

An expression leaves its value on the stack. Its type follows from its parts alone. -/

namespace Classwright

/-- Ends a sequence of jumps to `taken`: the truth value is `fallThrough` if none of them was taken. -/
def joinBranches (taken : Label) (fallThrough : Bool) : EmitM Unit := do
  let done ← EmitM.fresh
  EmitM.emitAll [.truth fallThrough, .jump .goto done, .mark taken, .truth !fallThrough, .mark done]

/-- Jumps on a term of a logical expression, which must be a condition. -/
def branchOn (jump : Opcode) (taken : Label) (t : Ty) (site : Span) : EmitM Unit := do
  EmitM.expectCondition t site
  EmitM.emit (.jump jump taken)

mutual

/-- Alternatives: the first that holds decides. -/
def lowerExpr (c : Context) (s : Scope) : Source.Expr → EmitM Ty
  | ⟨[], span⟩ => throw (.unsupported .emptyExpression span)
  | ⟨[single], _⟩ => lowerAnd c s single
  | ⟨first :: second :: rest, _⟩ => do
    let taken ← EmitM.fresh
    let t ← lowerAnd c s first
    branchOn .ifne taken t first.span
    let t ← lowerAnd c s second
    branchOn .ifne taken t second.span
    lowerAlternatives c s taken rest
    joinBranches taken false
    return .int

def lowerAlternatives (c : Context) (s : Scope) (taken : Label) : List Source.AndExpr → EmitM Unit
  | [] => return ()
  | term :: rest => do
    let t ← lowerAnd c s term
    branchOn .ifne taken t term.span
    lowerAlternatives c s taken rest

/-- A conjunction: the first term that fails decides. -/
def lowerAnd (c : Context) (s : Scope) : Source.AndExpr → EmitM Ty
  | ⟨[], span⟩ => throw (.unsupported .emptyExpression span)
  | ⟨[single], _⟩ => lowerMath c s single
  | ⟨first :: second :: rest, _⟩ => do
    let taken ← EmitM.fresh
    let t ← lowerMath c s first
    branchOn .ifeq taken t first.span
    let t ← lowerMath c s second
    branchOn .ifeq taken t second.span
    lowerConjuncts c s taken rest
    joinBranches taken true
    return .int

def lowerConjuncts (c : Context) (s : Scope) (taken : Label) : List Source.MathExpr → EmitM Unit
  | [] => return ()
  | term :: rest => do
    let t ← lowerMath c s term
    branchOn .ifeq taken t term.span
    lowerConjuncts c s taken rest

/-- Terms with operators between them, from left to right. -/
def lowerMath (c : Context) (s : Scope) : Source.MathExpr → EmitM Ty
  | ⟨first, rest, span⟩ => do
    let t ← lowerTerm c s first
    let p ← lowerOperations c s ⟨[t], []⟩ rest
    p.finish span

def lowerOperations (c : Context) (s : Scope) (p : Pending) : List Source.Operation → EmitM Pending
  | [] => return p
  | ⟨op, term⟩ :: rest => do
    let p ← p.makeWay op
    let t ← lowerTerm c s term
    lowerOperations c s (p.push op term.span t) rest

def lowerTerm (c : Context) (s : Scope) : Source.Term → EmitM Ty
  | ⟨unary, operand, span⟩ => do
    let t ← lowerOperand c s operand
    lowerUnaries c span t unary

def lowerOperand (c : Context) (s : Scope) : Source.Operand → EmitM Ty
  | .literal l => lowerLiteral l
  | .chain links span => do
    let state ← lowerLinks c s .start links
    finishChain span state
  | .paren inner => lowerExpr c s inner

def lowerLinks (c : Context) (s : Scope) (state : ChainState) : List Source.Link → EmitM ChainState
  | [] => return state
  | .call ⟨name, args, span⟩ :: rest => do
    let (target, method) ← callTarget c s state name span
    let types ← lowerArgs c s args
    let t ← lowerInvoke c target method types span
    lowerLinks c s (.value t) rest
  | link :: rest => do
    let state ← lowerLink c s state link
    lowerLinks c s state rest

def lowerArgs (c : Context) (s : Scope) : List Source.Expr → EmitM (List Ty)
  | [] => return []
  | arg :: rest => do
    let t ← lowerExpr c s arg
    let ts ← lowerArgs c s rest
    return t :: ts

end

/-- An expression that decides where to go. -/
def lowerCondition (c : Context) (s : Scope) (e : Source.Expr) : EmitM Unit := do
  let t ← lowerExpr c s e
  EmitM.expectCondition t e.span

end Classwright
