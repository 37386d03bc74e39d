import Classwright.ClassFile.Annotation
import Classwright.ClassFile.Assembly

/-! # Class files

A class as it is written: a header, the constant pool, fields, methods and attributes. The pool is filled while the
rest is laid out, so it is written in front of it at the end. -/

namespace Classwright

namespace ClassFile

/-- A local variable that is in scope in the whole method. -/
structure LocalVariable where
  name : String
  descriptor : String
  slot : UInt16
deriving DecidableEq, Repr

structure Field where
  access : UInt16
  name : String
  descriptor : String
  annotations : List Annotation := []

structure Method where
  access : UInt16
  name : String
  descriptor : String
  /-- Methods without a body have no code. -/
  code : Option Assembled := none
  locals : List LocalVariable := []
  annotations : List Annotation := []
  /-- One list for each parameter; left out of the file if all are empty. -/
  paramAnnotations : List (List Annotation) := []

/-- An attribute with its contents. -/
structure Attribute where
  name : String
  data : Bytes
deriving DecidableEq, Repr

/-- Attribute after attribute, each with the size of its contents. -/
def attributesBody : List Attribute → PoolM Bytes
  | [] => return []
  | a :: rest => do
    let name ← PoolM.utf8 a.name
    let rest ← attributesBody rest
    return Bytes.u2 name.toNat ++ Bytes.u4 a.data.length ++ a.data ++ rest

def attributesBytes (attributes : List Attribute) : PoolM Bytes := do
  let body ← attributesBody attributes
  return Bytes.u2 attributes.length ++ body

/-- The attribute with annotations, if there are any. -/
def annotationsAttribute (annotations : List Annotation) : PoolM (List Attribute) := do
  if annotations.isEmpty then return []
  else
    let data ← annotationsBytes annotations
    return [⟨"RuntimeVisibleAnnotations", data⟩]

/-- The attribute with the annotations of the parameters, if there are any. -/
def paramAnnotationsAttribute (params : List (List Annotation)) : PoolM (List Attribute) := do
  if params.all (·.isEmpty) then return []
  else
    let data ← paramAnnotationsBytes params
    return [⟨"RuntimeVisibleParameterAnnotations", data⟩]

/-- Variables one after another, each in scope in all `codeLength` bytes of the code. -/
def localsBody (codeLength : Nat) : List LocalVariable → PoolM Bytes
  | [] => return []
  | v :: rest => do
    let name ← PoolM.utf8 v.name
    let descriptor ← PoolM.utf8 v.descriptor
    let rest ← localsBody codeLength rest
    return Bytes.u2 0 ++ Bytes.u2 codeLength ++ Bytes.u2 name.toNat ++ Bytes.u2 descriptor.toNat ++
      Bytes.u2 v.slot.toNat ++ rest

/-- The attribute with the names of local variables, if there are any. -/
def localsAttribute (codeLength : Nat) (locals : List LocalVariable) : PoolM (List Attribute) := do
  if locals.isEmpty then return []
  else
    let body ← localsBody codeLength locals
    return [⟨"LocalVariableTable", Bytes.u2 locals.length ++ body⟩]

/-- The attribute with the frames at branch targets, if there are any. -/
def stackMapAttribute (code : Assembled) : List Attribute :=
  if code.frameCount = 0 then [] else [⟨"StackMapTable", Bytes.u2 code.frameCount.toNat ++ code.stackMap⟩]

/-- The contents of a code attribute. No exception is handled. -/
def codeBytes (code : Assembled) (locals : List LocalVariable) : PoolM Bytes := do
  let locals ← localsAttribute code.code.length locals
  let attributes ← attributesBytes (stackMapAttribute code ++ locals)
  return Bytes.u2 code.maxStack.toNat ++ Bytes.u2 code.maxLocals.toNat ++ Bytes.u4 code.code.length ++ code.code ++
    Bytes.u2 0 ++ attributes

def codeAttribute (code : Option Assembled) (locals : List LocalVariable) : PoolM (List Attribute) := do
  match code with
  | none => return []
  | some code => return [⟨"Code", ← codeBytes code locals⟩]

def Field.bytes (f : Field) : PoolM Bytes := do
  let name ← PoolM.utf8 f.name
  let descriptor ← PoolM.utf8 f.descriptor
  let annotations ← annotationsAttribute f.annotations
  let attributes ← attributesBytes annotations
  return Bytes.u2 f.access.toNat ++ Bytes.u2 name.toNat ++ Bytes.u2 descriptor.toNat ++ attributes

def Method.bytes (m : Method) : PoolM Bytes := do
  let name ← PoolM.utf8 m.name
  let descriptor ← PoolM.utf8 m.descriptor
  let code ← codeAttribute m.code m.locals
  let annotations ← annotationsAttribute m.annotations
  let paramAnnotations ← paramAnnotationsAttribute m.paramAnnotations
  let attributes ← attributesBytes (code ++ annotations ++ paramAnnotations)
  return Bytes.u2 m.access.toNat ++ Bytes.u2 name.toNat ++ Bytes.u2 descriptor.toNat ++ attributes

/-- Items one after another. -/
def sequence {α : Type} (bytes : α → PoolM Bytes) : List α → PoolM Bytes
  | [] => return []
  | x :: rest => do
    let x ← bytes x
    let rest ← sequence bytes rest
    return x ++ rest

/-- The index of a class. -/
def classBytes (name : String) : PoolM Bytes := return Bytes.u2 (← PoolM.cls name).toNat

end ClassFile

structure ClassFile where
  major : UInt16
  minor : UInt16 := 0
  access : UInt16
  name : String
  superName : Option String := some Name.object
  interfaces : List String := []
  fields : List ClassFile.Field := []
  methods : List ClassFile.Method := []
  annotations : List ClassFile.Annotation := []

namespace ClassFile

/-- The first bytes of every class file. -/
def magic : Nat := 0xcafebabe

/-- Code of this version comes with stack maps. -/
def hasStackMaps (major : UInt16) : Bool := 50 ≤ major.toNat

/-- What follows the constant pool. -/
def bodyBytes (c : ClassFile) : PoolM Bytes := do
  let name ← classBytes c.name
  let superName ← match c.superName with
    | some s => classBytes s
    | none => pure (Bytes.u2 0)
  let interfaces ← sequence classBytes c.interfaces
  let fields ← sequence Field.bytes c.fields
  let methods ← sequence Method.bytes c.methods
  let annotations ← annotationsAttribute c.annotations
  let attributes ← attributesBytes annotations
  return Bytes.u2 c.access.toNat ++ name ++ superName ++
    Bytes.u2 c.interfaces.length ++ interfaces ++
    Bytes.u2 c.fields.length ++ fields ++
    Bytes.u2 c.methods.length ++ methods ++ attributes

/-- The whole file, with a pool that already holds what assembled code refers to. -/
def write (c : ClassFile) : PoolM Bytes := do
  let body ← c.bodyBytes
  let pool := (← get).pool
  return Bytes.u4 magic ++ Bytes.u2 c.minor.toNat ++ Bytes.u2 c.major.toNat ++ pool.bytes ++ body

end ClassFile

end Classwright
