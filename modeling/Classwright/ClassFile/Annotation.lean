import Classwright.ClassFile.ConstantPool

/-! # Annotations in class files -/

namespace Classwright.ClassFile

mutual

structure Annotation where
  /-- The descriptor of the annotation interface. -/
  type : String
  elements : List Element

structure Element where
  name : String
  value : ElementValue

inductive ElementValue where
  | int (value : Int32)
  | long (value : Int64)
  | float (value : Binary32)
  | double (value : Binary64)
  /-- A boolean, byte, char or short, told apart by its tag. -/
  | scalar (tag : UInt8) (value : Int32)
  | string (value : String)
  | cls (descriptor : String)
  | enum (type name : String)
  | nested (value : Annotation)
  | array (values : List ElementValue)

end

instance : Inhabited Annotation := ⟨⟨"", []⟩⟩

instance : Inhabited ElementValue := ⟨.int 0⟩

/-- The value of the first element of a name. -/
def Annotation.get? (a : Annotation) (name : String) : Option ElementValue :=
  (a.elements.find? (·.name == name)).map (·.value)

/-! ### Writing -/

private def tag (c : Char) : Bytes := Bytes.u1 c.toNat

private def index (i : UInt16) : Bytes := Bytes.u2 i.toNat

mutual

def Annotation.bytes : Annotation → PoolM Bytes
  | ⟨type, elements⟩ => do
    let t ← PoolM.utf8 type
    let body ← elementsBytes elements
    return index t ++ Bytes.u2 elements.length ++ body

def elementsBytes : List Element → PoolM Bytes
  | [] => return []
  | ⟨name, value⟩ :: rest => do
    let n ← PoolM.utf8 name
    let v ← value.bytes
    let rest ← elementsBytes rest
    return index n ++ v ++ rest

def ElementValue.bytes : ElementValue → PoolM Bytes
  | .int v => return tag 'I' ++ index (← PoolM.integer v)
  | .long v => return tag 'J' ++ index (← PoolM.long v)
  | .float v => return tag 'F' ++ index (← PoolM.float v)
  | .double v => return tag 'D' ++ index (← PoolM.double v)
  | .scalar t v => return Bytes.u1 t.toNat ++ index (← PoolM.integer v)
  | .string s => return tag 's' ++ index (← PoolM.utf8 s)
  | .cls d => return tag 'c' ++ index (← PoolM.utf8 d)
  | .enum type name => return tag 'e' ++ index (← PoolM.utf8 type) ++ index (← PoolM.utf8 name)
  | .nested a => return tag '@' ++ (← a.bytes)
  | .array values => return tag '[' ++ Bytes.u2 values.length ++ (← valuesBytes values)

def valuesBytes : List ElementValue → PoolM Bytes
  | [] => return []
  | v :: rest => do
    let v ← v.bytes
    let rest ← valuesBytes rest
    return v ++ rest

end

/-- Annotations one after another. -/
def annotationsBody : List Annotation → PoolM Bytes
  | [] => return []
  | a :: rest => do
    let a ← a.bytes
    let rest ← annotationsBody rest
    return a ++ rest

/-- The contents of an attribute with annotations. -/
def annotationsBytes (annotations : List Annotation) : PoolM Bytes := do
  let body ← annotationsBody annotations
  return Bytes.u2 annotations.length ++ body

/-- Lists of annotations one after another. -/
def annotationListsBody : List (List Annotation) → PoolM Bytes
  | [] => return []
  | as :: rest => do
    let as ← annotationsBytes as
    let rest ← annotationListsBody rest
    return as ++ rest

/-- The contents of an attribute with the annotations of each parameter. -/
def paramAnnotationsBytes (params : List (List Annotation)) : PoolM Bytes := do
  let body ← annotationListsBody params
  return Bytes.u1 params.length ++ body

/-! ### Reading -/

mutual

/-- Reads an annotation whose values are nested less than `fuel` deep. -/
def Annotation.read (p : ConstantPool) : Nat → Reader Annotation
  | 0 => do
    let c ← get
    Reader.fail (.unexpectedEnd c.offset)
  | fuel + 1 => do
    let type ← p.readUtf8
    let elements ← Reader.counted (do
      let name ← p.readUtf8
      let value ← ElementValue.read p fuel
      return ⟨name, value⟩)
    return ⟨type, elements⟩

/-- Reads a value that is nested less than `fuel` deep. -/
def ElementValue.read (p : ConstantPool) : Nat → Reader ElementValue
  | 0 => do
    let c ← get
    Reader.fail (.unexpectedEnd c.offset)
  | fuel + 1 => do
    let tag ← Reader.u1
    match Char.ofNat tag.toNat with
    | 'I' | 'B' | 'C' | 'S' | 'Z' =>
      let i ← Reader.u2
      match p.get? i with
      | some (.integer v) => return if tag.toNat = 'I'.toNat then .int v else .scalar tag v
      | _ => Reader.malformed (.notInteger i)
    | 'J' =>
      let i ← Reader.u2
      match p.get? i with
      | some (.long v) => return .long v
      | _ => Reader.malformed (.wrongElement i tag)
    | 'F' =>
      let i ← Reader.u2
      match p.get? i with
      | some (.float v) => return .float v
      | _ => Reader.malformed (.wrongElement i tag)
    | 'D' =>
      let i ← Reader.u2
      match p.get? i with
      | some (.double v) => return .double v
      | _ => Reader.malformed (.wrongElement i tag)
    | 's' => return .string (← p.readUtf8)
    | 'c' => return .cls (← p.readUtf8)
    | 'e' => return .enum (← p.readUtf8) (← p.readUtf8)
    | '@' =>
      let a ← Annotation.read p fuel
      return .nested a
    | '[' => return .array (← Reader.counted (ElementValue.read p fuel))
    | _ => Reader.malformed (.unknownElement tag)

end

/-- Reads as many annotations as the two bytes in front of them say. -/
def readList (p : ConstantPool) (depth : Nat) : Reader (List Annotation) :=
  Reader.counted <| Annotation.read p depth

/-- Reads annotations from the contents of an attribute. Every level of nesting takes bytes of its own, so their
    number is enough depth. -/
def readAnnotations (p : ConstantPool) (data : Bytes) : Except FormatError (List Annotation) :=
  (readList p (data.length + 1)).onBytes data

/-- Reads the annotations of each parameter from the contents of an attribute. -/
def readParamAnnotations (p : ConstantPool) (data : Bytes) : Except FormatError (List (List Annotation)) :=
  Reader.onBytes (do
    let n ← Reader.u1
    Reader.many (readList p (data.length + 1)) n.toNat) data

end Classwright.ClassFile
