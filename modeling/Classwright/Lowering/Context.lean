import Classwright.Classes.Hierarchy
import Classwright.Classes.Imports
import Classwright.Lowering.Emitter
import Classwright.Options
import Classwright.Source.Expr

/-! # What a method body sees

The classes in view, the imports of its unit, its own class and the options. -/

namespace Classwright

/-- The type that a written one stands for. Whether a class exists is not looked into. Arrays and the types that are
    only carried about must be marked. -/
def Imports.resolveType (i : Imports) (t : Source.TypeRef) : Except CompileError Ty :=
  let prim := Prim.ofKeyword? t.name
  if (t.isArray || prim.any (·.isOpaque)) && !t.marked then .error (.unsupported .opaqueType t.span)
  else if prim = some .void && t.isArray then .error (.typeMismatch .voidElement t.span)
  else
    let elem := match prim with
      | some p => .prim p
      | none => .cls (i.resolve t.name)
    .ok ⟨elem, t.isArray⟩

structure Context where
  classes : ClassView
  imports : Imports
  /-- The class that is being compiled. -/
  own : ClassSig
  options : Options

namespace Context

def resolveType (c : Context) (t : Source.TypeRef) : Lookup Ty := .ofExcept (c.imports.resolveType t)

/-- The class of a name as it is written at `site`. -/
def resolveClass (c : Context) (name : String) (site : Span) : Lookup ClassSig :=
  (c.classes.resolve (c.imports.resolve name)).locate site

/-- The class of a name, if there is one. -/
def class? (c : Context) (name : String) : Lookup (Option ClassSig) :=
  (c.classes.resolve (c.imports.resolve name)).orUnknown

def field? (c : Context) (owner name : String) (site : Span) : Lookup (Option FieldSig) :=
  (c.classes.field? owner name).locate site

def method? (c : Context) (owner name : String) (args : List Ty) (site : Span) : Lookup (Option MethodSig) :=
  (c.classes.method? owner name args).locate site

/-- A field of the class that is being compiled. -/
def ownField? (c : Context) (name : String) (site : Span) : Lookup (Option FieldSig) := c.field? c.own.name name site

end Context

/-- Emitting code while looking up classes. -/
abbrev EmitM := StateT Emitter Lookup

namespace EmitM

def emit (i : Instr) : EmitM Unit := modify (·.emit i)

def emitAll (is : List Instr) : EmitM Unit := modify (·.emitAll is)

def op (o : Opcode) : EmitM Unit := emit (.op o)

def fresh : EmitM Label := modifyGet Emitter.fresh

/-- Conditions are integers. -/
def expectCondition (t : Ty) (site : Span) : EmitM Unit :=
  if t = .int then pure () else throw (.typeMismatch (.condition t) site)

end EmitM

end Classwright
