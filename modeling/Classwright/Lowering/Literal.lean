import Classwright.Lowering.Context
import Classwright.Number.Reading

/-! # Literals

    "text"   a string, with escapes
    1.5F     a float
    7L       a long
    2.0      a double
    42       an int
-/

namespace Classwright

inductive LiteralValue where
  | int (value : Int32)
  | long (value : Int64)
  | float (value : Binary32)
  | double (value : Binary64)
  | str (value : String)
deriving DecidableEq, Repr, Inhabited

namespace LiteralValue

def type : LiteralValue → Ty
  | .int _ => .int
  | .long _ => .long
  | .float _ => .float
  | .double _ => .double
  | .str _ => .string

/-- Pushes the value. -/
def code : LiteralValue → Instr
  | .int v => .int v
  | .long v => .long v
  | .float v => .float v
  | .double v => .double v
  | .str v => .str v

end LiteralValue

namespace Source.Literal

/-- The character that a backslash and `c` stand for. -/
def escape? : Char → Option Char
  | 'n' => some '\n'
  | 't' => some '\t'
  | 'r' => some '\r'
  | '"' => some '"'
  | '\'' => some '\''
  | '\\' => some '\\'
  | _ => none

/-- Replaces escapes. `acc` is what has been read, in reverse. -/
def unescape (acc : List Char) : List Char → Except TypeFault (List Char)
  | [] => .ok acc.reverse
  | ['\\'] => .error .openEscape
  | '\\' :: c :: rest =>
    match escape? c with
    | some d => unescape (d :: acc) rest
    | none => .error (.unknownEscape c)
  | c :: rest => unescape (c :: acc) rest

/-- The value of a literal that is no string. Its last character or a point in it tells its type. -/
def number (text : String) : Except TypeFault LiteralValue :=
  let cs := text.toList
  let digits := String.ofList cs.dropLast
  let orBad {α : Type} (kind : String) (f : α → LiteralValue) : Option α → Except TypeFault LiteralValue
    | some v => .ok (f v)
    | none => .error (.badLiteral text kind)
  if cs.getLast? = some 'F' then orBad "float" .float (Reading.binary32? digits)
  else if cs.getLast? = some 'L' then orBad "long" .long (Reading.int64? digits)
  else if cs.contains '.' then orBad "double" .double (Reading.binary64? text)
  else orBad "int" .int (Reading.int32? text)

def value (l : Literal) : Except CompileError LiteralValue :=
  let result := if l.isString then (unescape [] l.body).map fun cs => .str (String.ofList cs) else number l.text
  result.mapError (.typeMismatch · l.span)

end Source.Literal

/-- Pushes a literal. -/
def lowerLiteral (l : Source.Literal) : EmitM Ty := do
  let v ← Lookup.ofExcept l.value
  EmitM.emit v.code
  return v.type

end Classwright
