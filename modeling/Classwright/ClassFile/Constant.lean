import Classwright.Number.Rendering
import Classwright.Text.Quoted

/-! # Constants

The entries of a constant pool. References to other entries are by index. -/

namespace Classwright

inductive Constant where
  | utf8 (text : String)
  | integer (value : Int32)
  | float (value : Binary32)
  | long (value : Int64)
  | double (value : Binary64)
  | cls (name : UInt16)
  | string (value : UInt16)
  | field (cls nameAndType : UInt16)
  | method (cls nameAndType : UInt16)
  | interfaceMethod (cls nameAndType : UInt16)
  | nameAndType (name descriptor : UInt16)
  /-- An entry of a kind that only other compilers write; its contents are not kept. -/
  | other (tag : UInt8)
deriving DecidableEq, Repr, Inhabited

namespace Constant

/-- Indices that an entry takes up. -/
def width : Constant → Nat
  | .long _ | .double _ => 2
  | _ => 1

/-- The entry as a list of numbers, by which a pool finds it again. Different entries have different keys. -/
def key : Constant → List Nat
  | .utf8 s => 1 :: s.toList.map Char.toNat
  | .integer v => [3, v.toUInt32.toNat]
  | .float v => [4, v.bits.toNat]
  | .long v => [5, v.toUInt64.toNat]
  | .double v => [6, v.bits.toNat]
  | .cls name => [7, name.toNat]
  | .string value => [8, value.toNat]
  | .field c n => [9, c.toNat, n.toNat]
  | .method c n => [10, c.toNat, n.toNat]
  | .interfaceMethod c n => [11, c.toNat, n.toNat]
  | .nameAndType n d => [12, n.toNat, d.toNat]
  | .other tag => [0, tag.toNat]

/-- The entry as messages show it. -/
def text : Constant → String
  | .utf8 s => "Utf8(" ++ Text.quote s ++ ")"
  | .integer v => s!"Integer({v})"
  | .float v => "Float(" ++ v.write .constant ++ ")"
  | .long v => s!"Long({v})"
  | .double v => "Double(" ++ v.write .constant ++ ")"
  | .cls name => s!"Class \x7b name: {name} \x7d"
  | .string value => s!"String \x7b value: {value} \x7d"
  | .field c n => s!"Fieldref \x7b class: {c}, name_and_type: {n} \x7d"
  | .method c n => s!"Methodref \x7b class: {c}, name_and_type: {n} \x7d"
  | .interfaceMethod c n => s!"InterfaceMethodref \x7b class: {c}, name_and_type: {n} \x7d"
  | .nameAndType n d => s!"NameAndType \x7b name: {n}, descriptor: {d} \x7d"
  | .other tag => s!"Other \x7b tag: {tag} \x7d"

/-- What is found at an index, as messages show it. -/
def foundText : Option Constant → String
  | none => "None"
  | some c => "Some(" ++ c.text ++ ")"

/-- Equality with floating point entries compared as numbers. -/
def sameValue : Constant → Constant → Bool
  | .float x, .float y => x.value.numEq y.value
  | .double x, .double y => x.value.numEq y.value
  | a, b => a == b

end Constant

end Classwright
