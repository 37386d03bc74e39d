import Classwright.Bytecode.Opcode
import Classwright.Number.Rendering
import Classwright.Text.Quoted
import Classwright.Ty.Basic

/-! # Instructions

Code is a list of instructions that say what to push, load or call; the byte forms of constants and locals are
chosen later. Jumps go to labels, and a mark places a label in front of the instruction after it. -/

namespace Classwright

/-- How a local variable is loaded and stored. -/
inductive LocalKind where
  | int | long | float | double | ref
deriving DecidableEq, Hashable, Repr, Inhabited

namespace LocalKind

def width : LocalKind → Nat
  | .long | .double => 2
  | _ => 1

def name : LocalKind → String
  | .int => "Int"
  | .long => "Long"
  | .float => "Float"
  | .double => "Double"
  | .ref => "Ref"

/-- The load with an index, and the load of local 0. -/
def loadOps : LocalKind → Opcode × Opcode
  | .int => (.iload, .iload0)
  | .long => (.lload, .lload0)
  | .float => (.fload, .fload0)
  | .double => (.dload, .dload0)
  | .ref => (.aload, .aload0)

/-- The store with an index, and the store to local 0. -/
def storeOps : LocalKind → Opcode × Opcode
  | .int => (.istore, .istore0)
  | .long => (.lstore, .lstore0)
  | .float => (.fstore, .fstore0)
  | .double => (.dstore, .dstore0)
  | .ref => (.astore, .astore0)

end LocalKind

/-- How values of a type are loaded and stored; `void` has no values. -/
def Ty.localKind? : Ty → Option LocalKind
  | ⟨.prim .void, false⟩ => none
  | ⟨.prim .long, false⟩ => some .long
  | ⟨.prim .float, false⟩ => some .float
  | ⟨.prim .double, false⟩ => some .double
  | ⟨.prim _, false⟩ => some .int
  | _ => some .ref

structure Label where
  id : Nat
deriving DecidableEq, Hashable, Repr, Inhabited

def Label.text (l : Label) : String := s!"L{l.id}"

/-- A field or a method as an instruction names it. -/
structure MemberRef where
  owner : String
  name : String
  descriptor : String
  /-- The owner is an interface. -/
  interface : Bool := false
deriving DecidableEq, Hashable, Repr, Inhabited

def MemberRef.text (m : MemberRef) : String := s!"{m.owner}.{m.name}:{m.descriptor}"

inductive Instr where
  | op (op : Opcode)
  | int (value : Int32)
  | long (value : Int64)
  | float (value : Binary32)
  | double (value : Binary64)
  | str (value : String)
  | cls (name : String)
  | load (kind : LocalKind) (slot : UInt16)
  | store (kind : LocalKind) (slot : UInt16)
  | jump (op : Opcode) (target : Label)
  | field (op : Opcode) (member : MemberRef)
  | invoke (op : Opcode) (member : MemberRef)
  | type (op : Opcode) (name : String)
  | mark (label : Label)
deriving DecidableEq, Repr, Inhabited

namespace Instr

def isMark : Instr → Bool
  | .mark _ => true
  | _ => false

/-- The instruction as listings show it. -/
def text : Instr → String
  | .op o => o.mnemonic
  | .int v => s!"push {v}"
  | .long v => s!"push {v}L"
  | .float v => "push " ++ v.write .plain ++ "F"
  | .double v => "push " ++ v.write .plain ++ "D"
  | .str s => "ldc " ++ Text.quote s
  | .cls c => "ldc class " ++ c
  | .load k slot => "load " ++ k.name ++ s!" {slot}"
  | .store k slot => "store " ++ k.name ++ s!" {slot}"
  | .jump o l => o.mnemonic ++ " " ++ l.text
  | .field o m | .invoke o m => o.mnemonic ++ " " ++ m.text
  | .type o c => o.mnemonic ++ " " ++ c
  | .mark l => l.text ++ ":"

end Instr

/-- Instructions with the number of labels made for them. -/
structure Code where
  instrs : Array Instr := #[]
  labels : Nat := 0
deriving Inhabited

end Classwright
