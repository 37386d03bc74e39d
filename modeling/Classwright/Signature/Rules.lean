import Classwright.Error
import Classwright.Signature.Basic

/-! # Rules of declaration

What the source language asks of the methods and classes that are declared in it. Compiled classes are not held to
these rules: a compiled interface may well have constants and default methods. -/

namespace Classwright

/-- The head of a method as it is declared in source. A method without a body is abstract unless it is native. -/
def MethodSig.declare (name : String) (isStatic isNative hasBody : Bool) (returns : Ty) (params : List ParamSig)
    (span : Span) : Except CompileError MethodSig :=
  let name := if name = Name.constructorKeyword then Name.init else name
  let isAbstract := !hasBody && !isNative
  if isStatic && isAbstract then .error (.invalidAccess (.staticAbstract name) span)
  else if name = Name.init && (isStatic || !returns.isVoid) then .error (.invalidAccess .constructorShape span)
  else if name = Name.init && (isNative || !hasBody) then .error (.unsupported .constructorBody span)
  else .ok { name, isStatic, isNative, isAbstract, returns, params }

namespace ClassSig

/-- The class names itself among its supertypes. -/
def namesItself (c : ClassSig) : Bool := c.base == some c.name || c.interfaces.contains c.name

/-- The first thing in an interface that interfaces cannot have. -/
def interfaceFault? (c : ClassSig) (declaredBase : Bool) : Option Unsupported :=
  if declaredBase then some (.interfaceBase c.name)
  else match c.fields with
  | f :: _ => some (.interfaceField c.name f.name)
  | [] =>
    match c.methods.find? (fun m => m.isConstructor || m.isNative) with
    | some m => some (if m.isConstructor then .interfaceConstructor c.name else .interfaceNative c.name m.name)
    | none =>
      match c.methods.find? (fun m => !m.isAbstract && !m.isStatic) with
      | some m => some (.interfaceBody c.name m.name)
      | none => none

/-- Holds a class that is declared in source to the rules for one. Longer cycles among the supertypes run through
    several classes, so they are left to the walk through a hierarchy. -/
def checkRules (c : ClassSig) (declaredBase : Bool) (span : Span) : Except CompileError Unit :=
  if c.namesItself then .error (.malformedHierarchy c.name .ownSupertype)
  else if c.isInterface then
    match c.interfaceFault? declaredBase with
    | some fault => .error (.unsupported fault span)
    | none => .ok ()
  else .ok ()

end ClassSig

end Classwright
