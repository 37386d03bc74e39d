import Classwright.ClassFile.Constant
import Classwright.Verify.Frame

/-! # What can be wrong with a class file -/

namespace Classwright

/-- Why bytes are no class file. -/
inductive Malformation where
  | badMagic (found : Nat)
  | emptyPool
  | unknownTag (tag : UInt8) (offset : Nat)
  | wideOverrun
  | badText
  | notUtf8 (index : UInt16) (found : Option Constant)
  | notClass (index : UInt16) (found : Option Constant)
  | notInteger (index : UInt16)
  | wrongElement (index : UInt16) (tag : UInt8)
  | unknownElement (tag : UInt8)
deriving DecidableEq, Repr

/-- A number in eight hexadecimal digits. -/
private def hex32 (n : Nat) : String :=
  let ds := Nat.toDigits 16 n
  "0x" ++ String.ofList (List.replicate (8 - ds.length) '0' ++ ds)

def Malformation.message : Malformation → String
  | .badMagic found => "bad magic " ++ hex32 found
  | .emptyPool => "constant pool count is zero"
  | .unknownTag tag offset => s!"unknown constant tag {tag} at byte {offset}"
  | .wideOverrun => "wide constant overruns pool"
  | .badText => "invalid modified UTF-8"
  | .notUtf8 index found => s!"expected Utf8 at #{index}, found " ++ Constant.foundText found
  | .notClass index found => s!"expected Class at #{index}, found " ++ Constant.foundText found
  | .notInteger index => s!"element value #{index} is not an Integer"
  | .wrongElement index tag =>
    s!"element value #{index} does not match tag '" ++ (Char.ofNat tag.toNat).toString ++ "'"
  | .unknownElement tag => "unknown element value tag '" ++ (Char.ofNat tag.toNat).toString ++ "'"

/-- Why code cannot be assembled, a class not be written, or bytes not be read. -/
inductive FormatError where
  | poolOverflow (count : Nat)
  | textTooLong (length : Nat)
  | labelUnplaced (label : Label)
  | labelPlacedTwice (label : Label)
  | branchOutOfRange (offset : Int)
  | codeTooLarge (size : Nat)
  | inconsistentFrame (index : Nat) (fault : FrameFault)
  | badDescriptor (descriptor : String)
  | malformed (cause : Malformation)
  | unexpectedEnd (offset : Nat)
deriving DecidableEq, Repr

namespace FormatError

def message : FormatError → String
  | .poolOverflow count => s!"constant pool overflow ({count} entries)"
  | .textTooLong length => s!"string constant too long ({length} bytes)"
  | .labelUnplaced l => "label " ++ l.text ++ " used but never placed"
  | .labelPlacedTwice l => "label " ++ l.text ++ " placed twice"
  | .branchOutOfRange offset => s!"branch offset {offset} out of range"
  | .codeTooLarge size => s!"method code too large ({size} bytes)"
  | .inconsistentFrame index fault => s!"inconsistent frame at instruction {index}: " ++ fault.message
  | .badDescriptor d => "bad descriptor '" ++ d ++ "'"
  | .malformed cause => "malformed class file: " ++ cause.message
  | .unexpectedEnd offset => s!"unexpected end of class file at byte {offset}"

/-- A descriptor is wrong wherever it stands; other faults are faults of an instruction. -/
def ofFault (index : Nat) : FrameFault → FormatError
  | .badDescriptor d => .badDescriptor d
  | fault => .inconsistentFrame index fault

end FormatError

end Classwright
