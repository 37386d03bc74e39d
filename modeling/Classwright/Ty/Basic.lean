import Classwright.Name

/-! # Value types

A type is a scalar or a class, or an array of one of them. Booleans, bytes, chars, shorts and all arrays are carried
about but not computed with: they are the opaque types. -/

namespace Classwright

/-- The types that have a keyword. -/
inductive Prim where
  | void | int | long | float | double | bool | byte | char | short
deriving DecidableEq, Hashable, Repr, Inhabited

namespace Prim

def all : List Prim := [.void, .int, .long, .float, .double, .bool, .byte, .char, .short]

def keyword : Prim → String
  | .void => "void"
  | .int => "int"
  | .long => "long"
  | .float => "float"
  | .double => "double"
  | .bool => "bool"
  | .byte => "byte"
  | .char => "char"
  | .short => "short"

def ofKeyword? (word : String) : Option Prim := all.find? (·.keyword == word)

/-- The letter of a descriptor. -/
def code : Prim → Char
  | .void => 'V'
  | .int => 'I'
  | .long => 'J'
  | .float => 'F'
  | .double => 'D'
  | .bool => 'Z'
  | .byte => 'B'
  | .char => 'C'
  | .short => 'S'

def ofCode? (c : Char) : Option Prim := all.find? (·.code == c)

def isNumeric : Prim → Bool
  | .int | .long | .float | .double => true
  | _ => false

def isOpaque : Prim → Bool
  | .bool | .byte | .char | .short => true
  | _ => false

/-- Words that a value takes on the stack and among the locals. -/
def width : Prim → Nat
  | .void => 0
  | .long | .double => 2
  | _ => 1

end Prim

/-- What a value is, or what an array is made of. -/
inductive Elem where
  | prim (p : Prim)
  | cls (name : String)
deriving DecidableEq, Hashable, Repr, Inhabited

structure Ty where
  elem : Elem
  isArray : Bool := false
deriving DecidableEq, Hashable, Repr, Inhabited

namespace Ty

def prim (p : Prim) : Ty := ⟨.prim p, false⟩

def void : Ty := prim .void

def int : Ty := prim .int

def long : Ty := prim .long

def float : Ty := prim .float

def double : Ty := prim .double

/-- The type of the instances of a class. -/
def object (name : String) : Ty := ⟨.cls name, false⟩

/-- The plain type of a kind. A class of which no more is said is the root class. -/
def ofKind : Option Prim → Ty
  | some p => prim p
  | none => object Name.object

def string : Ty := object Name.string

/-- The type of class objects. -/
def klass : Ty := object Name.klass

/-- Arrays have one dimension, so an array stays itself. -/
def arrayOf (t : Ty) : Ty := { t with isArray := true }

def element (t : Ty) : Ty := { t with isArray := false }

def isVoid (t : Ty) : Bool := t.elem == .prim .void && !t.isArray

/-- The class of a type whose values have members. -/
def className? (t : Ty) : Option String :=
  match t with
  | ⟨.cls name, false⟩ => some name
  | _ => none

def isReference (t : Ty) : Bool :=
  match t with
  | ⟨.prim _, false⟩ => false
  | _ => true

def isOpaque (t : Ty) : Bool :=
  match t with
  | ⟨.prim p, false⟩ => p.isOpaque
  | ⟨.cls _, false⟩ => false
  | ⟨_, true⟩ => true

/-- The scalar that arithmetic works on. -/
def numeric? (t : Ty) : Option Prim :=
  match t with
  | ⟨.prim p, false⟩ => if p.isNumeric then some p else none
  | _ => none

/-- Words that a value takes on the stack and among the locals. -/
def width (t : Ty) : Nat :=
  match t with
  | ⟨.prim p, false⟩ => p.width
  | _ => 1

/-- The type as messages show it. -/
def text (t : Ty) : String :=
  let name := match t.elem with
    | .prim p => p.keyword
    | .cls name => name
  if t.isArray then name ++ "[]" else name

end Ty

end Classwright
