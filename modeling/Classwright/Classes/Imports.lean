import Classwright.Error

/-! # Imports

Within a unit, an imported class and the unit's own are known by the last part of their names. -/

namespace Classwright

/-- The full names behind short ones, in the order in which they came. -/
structure Imports where
  names : List (String × String) := []
deriving DecidableEq, Repr, Inhabited

namespace Imports

def find? (i : Imports) (short : String) : Option String := i.names.lookup short

/-- Importing a class again changes nothing. Two classes cannot share a short name. -/
def add (i : Imports) (full : String) (span : Span) : Except CompileError Imports :=
  let short := Name.short full
  match i.find? short with
  | none => .ok ⟨i.names ++ [(short, full)]⟩
  | some first => if first = full then .ok i else .error (.ambiguousImport short first full span)

def addAll (i : Imports) : List (String × Span) → Except CompileError Imports
  | [] => .ok i
  | (full, span) :: rest => do
    let i ← i.add full span
    i.addAll rest

/-- The imports of a unit that declares the class `own`. -/
def ofUnit (own : String) (imports : List (String × Span)) : Except CompileError Imports :=
  addAll {} ((own, {}) :: imports)

/-- The full name that a name stands for, which is the name itself where nothing is known of it. -/
def resolve (i : Imports) (name : String) : String := (i.find? name).getD name

end Imports

end Classwright
