import Classwright.ClassFile.Access
import Classwright.ClassFile.Basic
import Classwright.Compiler.Declared
import Classwright.Lowering.Annotation
import Classwright.Lowering.Body

/-! # Compiling a unit

The class file of a unit whose signature is known: its header and annotations, its fields, and then its methods one by
one, each assembled before the next is looked at. -/

namespace Classwright

open Source (CompilationUnit FieldDecl MethodDecl ParamDecl)

/-- A class file with the name of its class. -/
structure CompiledClass where
  name : String
  bytes : Bytes
deriving DecidableEq, Repr, Inhabited

/-- Work on a class file: its constant pool is filled while classes are looked up. -/
abbrev UnitM := StateT PoolBuilder Lookup

/-- Work on the pool alone. -/
def UnitM.ofPool {α : Type} (x : PoolM α) : UnitM α := fun b =>
  match x.run b with
  | (.ok a, b) => pure (a, b)
  | (.error e, _) => .fail (.ofFormat e)

namespace ClassSig

/-- A class is abstract if one of its methods is. -/
def access (c : ClassSig) : UInt16 :=
  if c.isInterface then Access.isPublic ||| Access.isInterface ||| Access.isAbstract
  else Access.isPublic ||| Access.isSuper ||| Access.flagIf (c.methods.any (·.isAbstract)) Access.isAbstract

end ClassSig

def FieldSig.access (f : FieldSig) (d : Dialect) : UInt16 :=
  (if d.hasPublicFields then Access.isPublic else Access.isProtected) ||| Access.flagIf f.isStatic Access.isStatic

def MethodSig.access (m : MethodSig) : UInt16 :=
  Access.isPublic ||| Access.flagIf m.isStatic Access.isStatic ||| Access.flagIf m.isAbstract Access.isAbstract |||
    Access.flagIf m.isNative Access.isNative

namespace Context

/-- Fields with their annotations. -/
def compileFields (c : Context) : List FieldSig → List FieldDecl → Lookup (List ClassFile.Field)
  | f :: fields, d :: decls => do
    let annotations ← lowerAnnotations c d.annotations
    let rest ← c.compileFields fields decls
    return ⟨f.access c.options.dialect, f.name, f.type.descriptor, annotations⟩ :: rest
  | _, _ => return []

/-- The annotations of the parameters; nothing if none has any. -/
def paramAnnotations (c : Context) (params : List ParamDecl) : Lookup (List (List ClassFile.Annotation)) :=
  if params.any (!·.annotations.isEmpty) then lowerAnnotationLists c (params.map (·.annotations)) else return []

/-- The code of a method at `site`, and its locals. -/
def compileBody (c : Context) (m : MethodSig) (body : List Source.Stmt) (site : Span) :
    UnitM (Assembled × List ClassFile.LocalVariable) := do
  let lowered ← lowerMethod c m body site
  let head : MethodHead := ⟨c.own.name, m.name, m.descriptor, m.isStatic⟩
  let code ← UnitM.ofPool (lowered.code.assemble head (ClassFile.hasStackMaps c.options.effectiveTarget.major))
  return (code, lowered.locals.map fun v => ⟨v.name, v.type.descriptor, v.slot⟩)

/-- A method; one without a declaration is the implicit constructor, whose body is empty. -/
def compileMethod (c : Context) (m : MethodSig) (d : Option MethodDecl) : UnitM ClassFile.Method := do
  let annotations ← lowerAnnotations c (d.elim [] (·.annotations))
  let paramAnnotations ← c.paramAnnotations (d.elim [] (·.params))
  let method : ClassFile.Method :=
    { access := m.access, name := m.name, descriptor := m.descriptor, annotations, paramAnnotations }
  if m.hasCode then
    let (code, locals) ← c.compileBody m ((d.bind (·.body)).getD []) (d.elim {} (·.span))
    return { method with code := some code, locals }
  else return method

/-- Methods in order. Those that were declared come first. -/
def compileMethods (c : Context) : List MethodSig → List MethodDecl → UnitM (List ClassFile.Method)
  | [], _ => return []
  | m :: methods, decls => do
    let method ← c.compileMethod m decls.head?
    let rest ← c.compileMethods methods decls.tail
    return method :: rest

/-- The class file of a unit. -/
def classFile (c : Context) (u : CompilationUnit) : UnitM ClassFile := do
  let annotations ← lowerAnnotations c u.decl.annotations
  let fields ← c.compileFields c.own.fields u.decl.fields
  let methods ← c.compileMethods c.own.methods u.decl.methods
  return {
    major := c.options.effectiveTarget.major
    access := c.own.access
    name := c.own.name
    superName := c.own.base
    interfaces := c.own.interfaces
    fields, methods, annotations }

/-- The bytes of the class file of a unit. -/
def compileClass (c : Context) (u : CompilationUnit) : UnitM Bytes := do
  let file ← c.classFile u
  UnitM.ofPool file.write

/-- Compiles a unit after a look at the hierarchy of its class. -/
def compile (c : Context) (u : CompilationUnit) : Lookup CompiledClass := do
  c.classes.checkHierarchy c.own.name
  let (bytes, _) ← (c.compileClass u).run {}
  return ⟨c.own.name, bytes⟩

end Context

end Classwright
