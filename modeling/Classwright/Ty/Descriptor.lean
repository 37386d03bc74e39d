import Classwright.Ty.Basic

/-! # Descriptors

The class file form of types: a letter for each scalar, `L…;` around a class name, `[` before an element. A method
descriptor lists the parameters between parentheses and ends with the result. -/

namespace Classwright

namespace Elem

def descriptor : Elem → List Char
  | .prim p => [p.code]
  | .cls name => 'L' :: (name.toList ++ [';'])

/-- The element at the front of a text, and what follows it. -/
def read? : List Char → Option (Elem × List Char)
  | [] => none
  | c :: rest =>
    if c = 'L' then
      let name := rest.takeWhile (· != ';')
      match rest.dropWhile (· != ';') with
      | [] => none
      | _ :: tail => if name.isEmpty then none else some (.cls (String.ofList name), tail)
    else (Prim.ofCode? c).map fun p => (.prim p, rest)

end Elem

namespace Ty

def descriptorChars (t : Ty) : List Char :=
  if t.isArray then '[' :: t.elem.descriptor else t.elem.descriptor

def descriptor (t : Ty) : String := String.ofList t.descriptorChars

/-- The type at the front of a text, and what follows it. There is no array of `void`. -/
def read? (cs : List Char) : Option (Ty × List Char) :=
  match cs with
  | '[' :: rest =>
    match Elem.read? rest with
    | some (e, tail) => if e = .prim .void then none else some (⟨e, true⟩, tail)
    | none => none
  | _ => (Elem.read? cs).map fun (e, tail) => (⟨e, false⟩, tail)

/-- The type whose descriptor the characters are. -/
def ofChars? (cs : List Char) : Option Ty :=
  match read? cs with
  | some (t, []) => some t
  | _ => none

def ofDescriptor? (s : String) : Option Ty := ofChars? s.toList

/-- A method descriptor. -/
def methodDescriptor (params : List Ty) (result : Ty) : String :=
  String.ofList ('(' :: (params.flatMap descriptorChars ++ ')' :: result.descriptorChars))

/-- Parameters up to the closing parenthesis, in front of those in `acc`, and what follows it. Each parameter takes
    a character at least, so the length of the text is enough `fuel`. -/
def readParams? : Nat → List Ty → List Char → Option (List Ty × List Char)
  | _, acc, ')' :: rest => some (acc.reverse, rest)
  | 0, _, _ => none
  | fuel + 1, acc, cs =>
    match read? cs with
    | some (t, rest) => if t.isVoid then none else readParams? fuel (t :: acc) rest
    | none => none

/-- The parameters and the result of a method descriptor. -/
def ofMethodDescriptor? (s : String) : Option (List Ty × Ty) :=
  match s.toList with
  | '(' :: rest =>
    match readParams? rest.length [] rest with
    | some (params, tail) => (ofChars? tail).map fun result => (params, result)
    | none => none
  | _ => none

end Ty

end Classwright
