import Classwright.Lowering.Context
import Classwright.Signature.Rules
import Classwright.Source.Declaration

/-! # Signatures of declared classes

The signature of a class follows from its declaration and the imports of its unit; no other class is looked at. -/

namespace Classwright

open Source (ClassDecl CompilationUnit FieldDecl MethodDecl ParamDecl)

/-- The most slots that the parameters of a method may take, its receiver included. -/
def maxParameterSlots : Nat := 255

namespace Imports

def fieldSig (i : Imports) (f : FieldDecl) : Except CompileError FieldSig := do
  let t ← i.resolveType f.type
  if t.isVoid then throw (.typeMismatch (.voidField f.name.name) f.span)
  return ⟨f.name.name, f.isStatic, t⟩

/-- The fields of a class, `before` being those in front of them. -/
def fieldSigs (i : Imports) (before : List FieldSig) : List FieldDecl → Except CompileError (List FieldSig)
  | [] => return before
  | f :: rest => do
    if before.any (·.name == f.name.name) then throw (.unsupported (.duplicateField f.name.name) f.span)
    let sig ← i.fieldSig f
    i.fieldSigs (before ++ [sig]) rest

def paramSigs (i : Imports) : List ParamDecl → Except CompileError (List ParamSig)
  | [] => return []
  | p :: rest => do
    let t ← i.resolveType p.type
    if t.isVoid then throw (.typeMismatch (.voidParameter p.name.name) p.span)
    let rest ← i.paramSigs rest
    return ⟨p.name.name, t⟩ :: rest

def methodSig (i : Imports) (m : MethodDecl) : Except CompileError MethodSig := do
  if m.isNative && m.body.isSome then throw (.unsupported (.nativeBody m.name.name) m.span)
  let returns ← i.resolveType m.returns
  let params ← i.paramSigs m.params
  let slots := params.foldr (fun p n => p.type.width + n) (if m.isStatic then 0 else 1)
  if maxParameterSlots < slots then throw (.unsupported (.parameterSlots m.name.name slots maxParameterSlots) m.span)
  MethodSig.declare m.name.name m.isStatic m.isNative m.body.isSome returns params m.span

/-- The methods of a class, `before` being those in front of them. No two have one name and the same parameters. -/
def methodSigs (i : Imports) (before : List MethodSig) : List MethodDecl → Except CompileError (List MethodSig)
  | [] => return before
  | m :: rest => do
    let sig ← i.methodSig m
    if before.any fun other => other.name == sig.name && other.paramTypes == sig.paramTypes then
      throw (.unsupported (.duplicateMethod sig.text) m.span)
    i.methodSigs (before ++ [sig]) rest

/-- The constructor of a class that declares none. -/
def implicitConstructor : MethodSig :=
  { name := Name.init, isStatic := false, isNative := false, isAbstract := false, returns := .void, params := [] }

/-- The signature of a class. Members are in the order of their declaration, an implicit constructor at the end. -/
def classSig (i : Imports) (d : ClassDecl) : Except CompileError ClassSig := do
  let fields ← i.fieldSigs [] d.fields
  let methods ← i.methodSigs [] d.methods
  let needsConstructor := !d.isInterface && !methods.any (·.isConstructor)
  return {
    name := d.name.name
    isInterface := d.isInterface
    base := some (match d.base with
      | some base => i.resolve base.name
      | none => Name.object)
    interfaces := d.interfaces.map (i.resolve ·.name)
    fields
    methods := if needsConstructor then methods ++ [implicitConstructor] else methods }

end Imports

/-- The imports of a unit. -/
def Source.CompilationUnit.scopeOfNames (u : CompilationUnit) : Except CompileError Imports :=
  Imports.ofUnit u.decl.name.name (u.imports.map fun i => (i.name, i.span))

namespace Options

/-- A dialect may have neither interfaces nor annotations. -/
def checkDialect (o : Options) (d : ClassDecl) : Except CompileError Unit := do
  if d.isInterface && !o.dialect.hasInterfaces then throw (.unsupported (.interfaces o.dialect.name) d.span)
  if !o.dialect.hasAnnotations then
    match d.firstAnnotation? with
    | some a => throw (.unsupported (.annotations o.dialect.name) a.span)
    | none => return ()

/-- Older targets do not have static methods in interfaces. -/
def checkTarget (o : Options) (c : ClassSig) (d : ClassDecl) : Except CompileError Unit :=
  let target := o.effectiveTarget
  if !c.isInterface || target.allowsStaticInterfaceMethods then .ok ()
  else
    match (c.methods.zip d.methods).find? (·.1.isStatic) with
    | some (m, decl) => .error (.unsupported (.staticInterfaceMethod m.name target.release) decl.span)
    | none => .ok ()

/-- The signature of the class that a unit declares, held to all rules of declaration, and the unit's imports. -/
def declare (o : Options) (u : CompilationUnit) : Except CompileError (ClassSig × Imports) := do
  let imports ← u.scopeOfNames
  o.checkDialect u.decl
  let sig ← imports.classSig u.decl
  sig.checkRules u.decl.base.isSome u.decl.span
  o.checkTarget sig u.decl
  return (sig, imports)

end Options

end Classwright
