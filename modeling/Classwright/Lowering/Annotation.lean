import Classwright.ClassFile.Annotation
import Classwright.Lowering.Literal
import Classwright.Source.Declaration

/-! # Annotations in source

The parameters of an annotation have the types that the methods of its interface return. Values must have exactly
those types. -/

namespace Classwright

open Source (AnnotationParam AnnotationValue)

/-- A literal as the value of an element. -/
def LiteralValue.toElement : LiteralValue → ClassFile.ElementValue
  | .int v => .int v
  | .long v => .long v
  | .float v => .float v
  | .double v => .double v
  | .str v => .string v

/-- A value must have the type that is expected at its place. -/
def expectElement (expected found : Ty) (site : Span) : Lookup Unit :=
  if found = expected then pure () else .fail (.typeMismatch (.annotationValue expected found) site)

mutual

def Source.Annotation.lower (c : Context) : Source.Annotation → Lookup ClassFile.Annotation
  | ⟨type, params, _⟩ => do
    let cls ← c.resolveClass type.name type.span
    let elements ← lowerElements c cls params
    return ⟨cls.type.descriptor, elements⟩

/-- The elements of an annotation whose interface is `cls`. -/
def lowerElements (c : Context) (cls : ClassSig) : List AnnotationParam → Lookup (List ClassFile.Element)
  | [] => return []
  | ⟨name, values, span⟩ :: rest => do
    match cls.methodNamed? name.name with
    | none => .fail (.unknownSymbol (cls.name ++ "." ++ name.name) name.span)
    | some m =>
      let value ← if m.returns.isArray then do
          let values ← lowerValues c m.returns.element values
          pure (.array values)
        else match values with
          | [v] => lowerValue c m.returns v
          | _ => .fail (.typeMismatch (.valueCount name.name m.returns values.length) span)
      let elements ← lowerElements c cls rest
      return ⟨name.name, value⟩ :: elements

def lowerValues (c : Context) (expected : Ty) : List AnnotationValue → Lookup (List ClassFile.ElementValue)
  | [] => return []
  | v :: rest => do
    let v ← lowerValue c expected v
    let vs ← lowerValues c expected rest
    return v :: vs

def lowerValue (c : Context) (expected : Ty) : AnnotationValue → Lookup ClassFile.ElementValue
  | .literal l => do
    let v ← Lookup.ofExcept l.value
    expectElement expected v.type l.span
    return v.toElement
  | .cls name => do
    expectElement expected .klass name.span
    let cls ← c.resolveClass name.name name.span
    return .cls cls.type.descriptor
  | .nested inner => do
    let a ← Source.Annotation.lower c inner
    if Ty.ofDescriptor? a.type = some expected then return .nested a
    else .fail (.typeMismatch (.nestedType expected inner.type.name) inner.span)

end

/-- Annotations one after another. -/
def Source.Annotation.lowerAll (c : Context) : List Source.Annotation → Lookup (List ClassFile.Annotation)
  | [] => return []
  | a :: rest => do
    let a ← a.lower c
    let as ← Source.Annotation.lowerAll c rest
    return a :: as

/-- The annotations of a declaration. A dialect may have none. -/
def lowerAnnotations (c : Context) (annotations : List Source.Annotation) : Lookup (List ClassFile.Annotation) := do
  match annotations with
  | [] => return []
  | first :: _ =>
    if c.options.dialect.hasAnnotations then Source.Annotation.lowerAll c annotations
    else .fail (.unsupported (.annotations c.options.dialect.name) first.span)

/-- The annotations of each of several declarations. -/
def lowerAnnotationLists (c : Context) : List (List Source.Annotation) → Lookup (List (List ClassFile.Annotation))
  | [] => return []
  | as :: rest => do
    let as ← lowerAnnotations c as
    let rest ← lowerAnnotationLists c rest
    return as :: rest

end Classwright
