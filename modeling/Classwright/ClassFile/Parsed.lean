import Classwright.ClassFile.Access
import Classwright.ClassFile.Basic
import Classwright.Signature.Basic

/-! # Reading class files

Reading keeps attributes as bytes, except that code is taken apart. Annotations and local variables are read from
them when they are asked for. -/

namespace Classwright

namespace Parsed

structure Field where
  access : UInt16
  name : String
  descriptor : String
  attributes : List ClassFile.Attribute
deriving Repr

structure Code where
  maxStack : UInt16
  maxLocals : UInt16
  code : Bytes
  attributes : List ClassFile.Attribute
deriving Repr

structure Method where
  access : UInt16
  name : String
  descriptor : String
  code : Option Code
  /-- All attributes but the code. -/
  attributes : List ClassFile.Attribute
deriving Repr

/-- A local variable with the code that it is in scope in. -/
structure LocalVariable where
  start : UInt16
  length : UInt16
  name : String
  descriptor : String
  slot : UInt16
deriving DecidableEq, Repr

end Parsed

structure ParsedClass where
  minor : UInt16
  major : UInt16
  pool : ConstantPool
  access : UInt16
  name : String
  superName : Option String
  interfaces : List String
  fields : List Parsed.Field
  methods : List Parsed.Method
  attributes : List ClassFile.Attribute

namespace Parsed

/-- The contents of the first attribute of a name. -/
def attribute? (attributes : List ClassFile.Attribute) (name : String) : Option Bytes :=
  (attributes.find? (·.name == name)).map (·.data)

def readAttribute (p : ConstantPool) : Reader ClassFile.Attribute := do
  let name ← p.readUtf8
  let length ← Reader.u4
  let data ← Reader.take length
  return ⟨name, data⟩

def readAttributes (p : ConstantPool) : Reader (List ClassFile.Attribute) := Reader.counted (readAttribute p)

/-- The contents of a code attribute. Exception handlers are skipped. -/
def readCode (p : ConstantPool) : Reader Code := do
  let maxStack ← Reader.u2
  let maxLocals ← Reader.u2
  let length ← Reader.u4
  let code ← Reader.take length
  let handlers ← Reader.u2
  let _ ← Reader.take (handlers.toNat * 8)
  let attributes ← readAttributes p
  return ⟨maxStack, maxLocals, code, attributes⟩

def readField (p : ConstantPool) : Reader Field := do
  let access ← Reader.u2
  let name ← p.readUtf8
  let descriptor ← p.readUtf8
  let attributes ← readAttributes p
  return ⟨access, name, descriptor, attributes⟩

/-- The code among the attributes of a method. -/
def readMethodCode (p : ConstantPool) (attributes : List ClassFile.Attribute) : Except FormatError (Option Code) :=
  match attribute? attributes "Code" with
  | none => .ok none
  | some data => ((readCode p).onBytes data).map some

def readMethod (p : ConstantPool) : Reader Method := do
  let access ← Reader.u2
  let name ← p.readUtf8
  let descriptor ← p.readUtf8
  let attributes ← readAttributes p
  let code ← Reader.ofExcept (readMethodCode p attributes)
  return ⟨access, name, descriptor, code, attributes.eraseP (·.name == "Code")⟩

def readClassFile : Reader ParsedClass := do
  let magic ← Reader.u4
  if magic ≠ ClassFile.magic then Reader.malformed (.badMagic magic)
  else
    let minor ← Reader.u2
    let major ← Reader.u2
    let pool ← ConstantPool.read
    let access ← Reader.u2
    let name ← pool.readClass
    let superName ← pool.readClass?
    let interfaces ← Reader.counted pool.readClass
    let fields ← Reader.counted (readField pool)
    let methods ← Reader.counted (readMethod pool)
    let attributes ← readAttributes pool
    return { minor, major, pool, access, name, superName, interfaces, fields, methods, attributes }

end Parsed

namespace Parsed.Code

/-- How many frames the stack map table announces. -/
def frameCount (c : Code) : Nat :=
  match attribute? c.attributes "StackMapTable" with
  | some (a :: b :: _) => Bytes.value [a, b]
  | _ => 0

def readLocal (p : ConstantPool) : Reader LocalVariable := do
  let start ← Reader.u2
  let length ← Reader.u2
  let name ← p.readUtf8
  let descriptor ← p.readUtf8
  let slot ← Reader.u2
  return ⟨start, length, name, descriptor, slot⟩

def locals (c : Code) (p : ConstantPool) : Except FormatError (List LocalVariable) :=
  match attribute? c.attributes "LocalVariableTable" with
  | none => .ok []
  | some data => (Reader.counted (readLocal p)).onBytes data

end Parsed.Code

namespace ParsedClass

def parse (bytes : Bytes) : Except FormatError ParsedClass := Parsed.readClassFile.onBytes bytes

def field? (c : ParsedClass) (name : String) : Option Parsed.Field := c.fields.find? (·.name == name)

def method? (c : ParsedClass) (name descriptor : String) : Option Parsed.Method :=
  c.methods.find? fun m => m.name == name && m.descriptor == descriptor

/-- The annotations among some attributes of the class. -/
def annotations (c : ParsedClass) (attributes : List ClassFile.Attribute) :
    Except FormatError (List ClassFile.Annotation) :=
  match Parsed.attribute? attributes "RuntimeVisibleAnnotations" with
  | none => .ok []
  | some data => ClassFile.readAnnotations c.pool data

def paramAnnotations (c : ParsedClass) (m : Parsed.Method) : Except FormatError (List (List ClassFile.Annotation)) :=
  match Parsed.attribute? m.attributes "RuntimeVisibleParameterAnnotations" with
  | none => .ok []
  | some data => ClassFile.readParamAnnotations c.pool data

/-- A field whose descriptor is understood. -/
def fieldSig? (f : Parsed.Field) : Option FieldSig :=
  (Ty.ofDescriptor? f.descriptor).map fun type => ⟨f.name, Access.has f.access Access.isStatic, type⟩

/-- A method whose descriptor is understood, other than the class initializer. -/
def methodSig? (m : Parsed.Method) : Option MethodSig :=
  if m.name = "<clinit>" then none
  else
    (Ty.ofMethodDescriptor? m.descriptor).map fun (params, returns) =>
      { name := m.name
        isStatic := Access.has m.access Access.isStatic
        isNative := Access.has m.access Access.isNative
        isAbstract := Access.has m.access Access.isAbstract
        returns
        params := MethodSig.unnamedParams params }

/-- What other classes can see of the class. The root class has no base. -/
def signature (c : ParsedClass) : ClassSig :=
  { name := c.name
    isInterface := Access.has c.access Access.isInterface
    base := if c.name = Name.object then none else c.superName
    interfaces := c.interfaces
    fields := c.fields.filterMap fieldSig?
    methods := c.methods.filterMap methodSig? }

end ParsedClass

end Classwright
