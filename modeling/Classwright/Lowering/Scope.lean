import Classwright.Error
import Classwright.Signature.Basic
import Std.Data.TreeMap

/-! # Scopes

The local variables of a method: the receiver, if there is one, the parameters, and then each variable as it is
declared. Slots are given out in order and never again, and a name belongs to the whole method. -/

namespace Classwright

structure Local where
  name : String
  type : Ty
  slot : UInt16
deriving DecidableEq, Repr, Inhabited

structure Scope where
  method : MethodSig
  locals : Array Local := #[]
  /-- The locals again, each under its name. -/
  byName : Std.TreeMap String Local := {}
  /-- The next slot. -/
  next : Nat := 0

namespace Scope

/-- Slots are 16-bit numbers, and so must the next one be. -/
def maxSlot : Nat := 65535

def get? (s : Scope) (name : String) : Option Local := s.byName[name]?

/-- What speaks against a local of a name and type. -/
def fault? (s : Scope) (name : String) (type : Ty) (span : Span) : Option CompileError :=
  if (s.get? name).isSome then some (.duplicateLocal name span)
  else if maxSlot < s.next + type.width then some (.unsupported .tooManyLocals span)
  else none

/-- The local that a declaration gives. -/
def candidate (s : Scope) (name : String) (type : Ty) : Local := ⟨name, type, s.next.toUInt16⟩

/-- Takes in a local that nothing speaks against. -/
def push (s : Scope) (v : Local) : Scope :=
  let { method, locals, byName, next } := s
  { method, locals := locals.push v, byName := byName.insert v.name v, next := next + v.type.width }

/-- Declares a local in the next slot. -/
def add (s : Scope) (name : String) (type : Ty) (span : Span) : Except CompileError (Local × Scope) :=
  match s.fault? name type span with
  | some e => .error e
  | none =>
    let v := s.candidate name type
    .ok (v, s.push v)

/-- A local that is asked for at `span`. -/
structure Request where
  name : String
  type : Ty
  span : Span

/-- The answer to a request, and the scope that it leaves behind. -/
def answer (s : Scope) (r : Request) : Except CompileError Local × Scope :=
  match s.fault? r.name r.type r.span with
  | some e => (.error e, s)
  | none =>
    let v := s.candidate r.name r.type
    (.ok v, s.push v)

def addAll (s : Scope) (span : Span) : List ParamSig → Except CompileError Scope
  | [] => .ok s
  | p :: rest => do
    let (_, s) ← s.add p.name p.type span
    s.addAll span rest

/-- The scope in which the body of a method of class `owner` starts. -/
def ofMethod (owner : ClassSig) (method : MethodSig) (span : Span) : Except CompileError Scope :=
  let receiver := if method.isStatic then [] else [⟨Name.this, owner.type⟩]
  addAll { method } span (receiver ++ method.params)

end Scope

end Classwright
