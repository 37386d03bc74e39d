import Classwright.Classes.Hierarchy
import Classwright.Classes.Provider

/-! # Class tables

A table holds the classes that stand in source and remembers what its provider has said about the others. The
provider is asked about a name at most once, unless its answer is an error. -/

namespace Classwright

/-- A class that was put into a table. The serial number tells it from a later one of the same name. -/
structure Registration where
  serial : Nat
  sig : ClassSig
deriving DecidableEq, Repr, Inhabited

structure ClassTable where
  provider : Provider
  maxDepth : Nat := 64
  sources : List Registration := []
  /-- What the provider has said, `none` of a class that it does not know. -/
  known : List (String × Option ClassSig) := []
  /-- How often the provider was asked. -/
  loads : Nat := 0
  /-- The serial number of the next registration. -/
  next : Nat := 0

namespace ClassTable

variable {α : Type}

def source? (t : ClassTable) (name : String) : Option Registration := t.sources.find? (·.sig.name == name)

def isSource (t : ClassTable) (name : String) : Bool := (t.source? name).isSome

def sourceCount (t : ClassTable) : Nat := t.sources.length

/-- Puts a class into the table. A name can be taken only once. -/
def register (t : ClassTable) (sig : ClassSig) : Except CompileError (Registration × ClassTable) :=
  if t.isSource sig.name then .error (.duplicateClass sig.name)
  else
    let r : Registration := ⟨t.next, sig⟩
    .ok (r, { t with sources := t.sources ++ [r], next := t.next + 1 })

/-- Whether a registration is still the one of its name. -/
def holds (t : ClassTable) (r : Registration) : Bool :=
  match t.source? r.sig.name with
  | some current => current.serial == r.serial
  | none => false

/-- Takes a registration back. Nothing happens unless it is still the one of its name. -/
def unregister (t : ClassTable) (r : Registration) : ClassTable :=
  if t.holds r then { t with sources := t.sources.filter (·.sig.name != r.sig.name) } else t

/-- What the provider says about a name, or has said. -/
def answer (t : ClassTable) (name : String) : Except CompileError (Option ClassSig) :=
  match t.known.lookup name with
  | some known => .ok known
  | none => t.provider name

/-- What the table says about a name: a source goes before the provider. -/
def find (t : ClassTable) (name : String) : Except CompileError ClassSig :=
  match t.source? name with
  | some r => .ok r.sig
  | none =>
    match t.answer name with
    | .ok (some c) => .ok c
    | .ok none => .error (.unknownClass name {})
    | .error e => .error e

def view (t : ClassTable) : ClassView := ⟨t.isSource, t.find, t.maxDepth⟩

/-- Takes note that a name was asked for. -/
def settle (t : ClassTable) (name : String) : ClassTable :=
  if t.isSource name || (t.known.lookup name).isSome then t
  else
    let t := { t with loads := t.loads + 1 }
    match t.provider name with
    | .ok answer => { t with known := t.known ++ [(name, answer)] }
    | .error _ => t

/-- The result of a lookup, and the table that has taken note of it. -/
def run (t : ClassTable) (x : Lookup α) : Except CompileError α × ClassTable :=
  (x.result, x.asked.foldl settle t)

end ClassTable

end Classwright
