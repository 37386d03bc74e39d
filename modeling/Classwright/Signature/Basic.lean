import Classwright.Ty.Descriptor

/-! # Signatures

What other classes can see of a class: its supertypes, its fields and the heads of its methods. A signature is the
same whether its class stands in source or was compiled before. -/

namespace Classwright

structure FieldSig where
  name : String
  isStatic : Bool
  type : Ty
deriving DecidableEq, Repr, Inhabited

structure ParamSig where
  name : String
  type : Ty
deriving DecidableEq, Repr, Inhabited

structure MethodSig where
  name : String
  isStatic : Bool
  isNative : Bool
  isAbstract : Bool
  returns : Ty
  params : List ParamSig
deriving DecidableEq, Repr, Inhabited

structure ClassSig where
  name : String
  isInterface : Bool := false
  base : Option String := some Name.object
  interfaces : List String := []
  fields : List FieldSig := []
  methods : List MethodSig := []
deriving DecidableEq, Repr, Inhabited

namespace MethodSig

def isConstructor (m : MethodSig) : Bool := m.name == Name.init

def hasCode (m : MethodSig) : Bool := !m.isAbstract && !m.isNative

def paramTypes (m : MethodSig) : List Ty := m.params.map (·.type)

/-- Arguments must have exactly the types of the parameters. -/
def accepts (m : MethodSig) (args : List Ty) : Bool := m.paramTypes == args

def descriptor (m : MethodSig) : String := Ty.methodDescriptor m.paramTypes m.returns

/-- The method as messages show it. -/
def text (m : MethodSig) : String := m.name ++ m.descriptor

/-- Parameters that are known by their types only. -/
def unnamedParams (types : List Ty) : List ParamSig :=
  types.zipIdx.map fun (t, i) => ⟨s!"arg{i}", t⟩

end MethodSig

namespace ClassSig

def type (c : ClassSig) : Ty := .object c.name

def field? (c : ClassSig) (name : String) : Option FieldSig := c.fields.find? (·.name == name)

def method? (c : ClassSig) (name : String) (args : List Ty) : Option MethodSig :=
  c.methods.find? fun m => m.name == name && m.accepts args

/-- The first method of a name. -/
def methodNamed? (c : ClassSig) (name : String) : Option MethodSig := c.methods.find? (·.name == name)

/-- The class as messages show it. -/
def text (c : ClassSig) : String := (if c.isInterface then "interface " else "class ") ++ c.name

end ClassSig

end Classwright
