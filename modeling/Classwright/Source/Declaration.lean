import Classwright.Source.Stmt

/-! # Declarations

A compilation unit declares one class and names the classes it imports. -/

namespace Classwright.Source

mutual

structure Annotation where
  type : Ident
  params : List AnnotationParam
  span : Span

structure AnnotationParam where
  name : Ident
  values : List AnnotationValue
  span : Span

inductive AnnotationValue where
  | literal (value : Literal)
  | cls (name : Ident)
  | nested (value : Annotation)

end

structure FieldDecl where
  name : Ident
  type : TypeRef
  isStatic : Bool
  annotations : List Annotation
  span : Span

structure ParamDecl where
  name : Ident
  type : TypeRef
  annotations : List Annotation
  span : Span

structure MethodDecl where
  name : Ident
  returns : TypeRef
  params : List ParamDecl
  isStatic : Bool
  isNative : Bool
  body : Option (List Stmt)
  annotations : List Annotation
  span : Span

structure ClassDecl where
  name : Ident
  isInterface : Bool
  base : Option Ident
  interfaces : List Ident
  fields : List FieldDecl
  methods : List MethodDecl
  annotations : List Annotation
  span : Span

structure CompilationUnit where
  imports : List Ident
  decl : ClassDecl

/-- The first annotation on a method or, failing that, on one of its parameters. -/
def MethodDecl.firstAnnotation? (m : MethodDecl) : Option Annotation :=
  m.annotations.head? <|> m.params.findSome? (·.annotations.head?)

/-- The first annotation of a declaration: on the class, then on its fields, then on its methods. -/
def ClassDecl.firstAnnotation? (c : ClassDecl) : Option Annotation :=
  c.annotations.head? <|> c.fields.findSome? (·.annotations.head?) <|> c.methods.findSome? (·.firstAnnotation?)

end Classwright.Source
