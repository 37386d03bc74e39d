import Classwright.Bytecode.Instr

/-! # Verification types

What a local or a stack entry holds at one point of the code, as the verifier sees it, and how the types of two paths
that meet are joined. -/

namespace Classwright

inductive VType where
  | top
  | integer
  | float
  | long
  | double
  | null
  /-- The receiver of a constructor that has called no other constructor yet. -/
  | uninitializedThis
  /-- What the `new` instruction at this index made, before its constructor has run. -/
  | uninitialized (site : Nat)
  /-- A class name or an array descriptor. -/
  | object (name : String)
deriving DecidableEq, Hashable, Repr, Inhabited

namespace VType

def width : VType → Nat
  | .long | .double => 2
  | _ => 1

def isReference : VType → Bool
  | .null | .uninitializedThis | .uninitialized _ | .object _ => true
  | _ => false

/-- The type as messages show it. -/
def text : VType → String
  | .top => "Top"
  | .integer => "Integer"
  | .float => "Float"
  | .long => "Long"
  | .double => "Double"
  | .null => "Null"
  | .uninitializedThis => "UninitializedThis"
  | .uninitialized site => s!"uninitialized({site})"
  | .object name => name

/-- A value of the type can be loaded and stored as the kind says. -/
def hasKind : VType → LocalKind → Bool
  | t, .int => t == .integer
  | t, .long => t == .long
  | t, .float => t == .float
  | t, .double => t == .double
  | t, .ref => t.isReference

/-- The type of a field descriptor: `none` when it is none, `some none` for `void`. -/
def ofDescriptor? (d : List Char) : Option (Option VType) :=
  match d with
  | ['V'] => some none
  | ['I'] | ['Z'] | ['B'] | ['C'] | ['S'] => some (some .integer)
  | ['J'] => some (some .long)
  | ['F'] => some (some .float)
  | ['D'] => some (some .double)
  | '[' :: _ => some (some (.object (String.ofList d)))
  | 'L' :: c :: d :: rest =>
    if (d :: rest).getLast? = some ';' then some (some (.object (String.ofList (c :: d :: rest).dropLast))) else none
  | _ => none

/-- The type that two paths agree on. Two references to objects meet in the root class; other types that differ have
    nothing in common. -/
def join? (a b : VType) : Option VType :=
  if a = b then some a
  else
    match a, b with
    | .null, .object _ => some b
    | .object _, .null => some a
    | .object _, .object _ => some (.object Name.object)
    | _, _ => none

/-- Locals that have nothing in common become unusable. -/
def joinLocal (a b : VType) : VType := (join? a b).getD .top

end VType

namespace Descriptor

/-- The field descriptor at the front of a text, and what follows it: brackets, then a class name up to its
    semicolon or a single letter. -/
def next? (cs : List Char) : Option (List Char × List Char) :=
  let dims := cs.takeWhile (· == '[')
  match cs.dropWhile (· == '[') with
  | [] => none
  | 'L' :: rest =>
    match rest.dropWhile (· != ';') with
    | [] => none
    | _ :: tail => some (dims ++ 'L' :: (rest.takeWhile (· != ';') ++ [';']), tail)
  | c :: tail => some (dims ++ [c], tail)

/-- Parameter descriptors up to the closing parenthesis, behind those in `acc`, and what follows it. Each takes a
    character at least, so the length of the text is enough `fuel`. -/
def splitParams? : Nat → List (List Char) → List Char → Option (List (List Char) × List Char)
  | _, acc, ')' :: rest => some (acc.reverse, rest)
  | 0, _, _ => none
  | fuel + 1, acc, cs =>
    match next? cs with
    | some (d, rest) => splitParams? fuel (d :: acc) rest
    | none => none

/-- The parameter descriptors and the result descriptor of a method descriptor, none of them checked. -/
def split? (descriptor : String) : Option (List (List Char) × List Char) :=
  match descriptor.toList with
  | '(' :: rest => splitParams? rest.length [] rest
  | _ => none

end Descriptor

end Classwright
