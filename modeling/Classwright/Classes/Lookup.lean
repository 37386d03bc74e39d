import Classwright.Error
import Classwright.Signature.Basic

/-! # Lookups

Compiling a class asks for others by name. A lookup is a result that depends on the classes in view, together with
the names that were asked for on the way, in order. A class table settles afterwards what the asking has taught it. -/

namespace Classwright

structure Lookup (α : Type) where
  result : Except CompileError α
  asked : List String := []

/-- The classes that can be seen at one moment. -/
structure ClassView where
  isSource : String → Bool
  find : String → Except CompileError ClassSig
  /-- How many steps a walk may go up a hierarchy. -/
  maxDepth : Nat

namespace Lookup

variable {α β : Type}

def ofExcept (x : Except CompileError α) : Lookup α := ⟨x, []⟩

def fail (e : CompileError) : Lookup α := ⟨.error e, []⟩

/-- What follows an error asks for nothing. -/
protected def bind (x : Lookup α) (f : α → Lookup β) : Lookup β :=
  match x with
  | ⟨.error e, asked⟩ => ⟨.error e, asked⟩
  | ⟨.ok a, asked⟩ =>
    let y := f a
    ⟨y.result, asked ++ y.asked⟩

instance : Monad Lookup where
  pure a := ⟨.ok a, []⟩
  bind := Lookup.bind

instance : MonadExceptOf CompileError Lookup where
  throw := fail
  tryCatch x handle :=
    match x with
    | ⟨.ok a, asked⟩ => ⟨.ok a, asked⟩
    | ⟨.error e, asked⟩ =>
      let y := handle e
      ⟨y.result, asked ++ y.asked⟩

instance : LawfulMonad Lookup := LawfulMonad.mk' Lookup
  (fun ⟨x, asked⟩ => by cases x <;> simp [Functor.map, Lookup.bind])
  (fun _ _ => rfl)
  (fun ⟨x, asked⟩ f g => by
    cases x with
    | error e => rfl
    | ok a =>
      simp only [bind, Lookup.bind]
      cases h : f a with | mk r more => cases r <;> simp)

/-- A failed lookup is reported at `site`. -/
def locate (x : Lookup α) (site : Span) : Lookup α :=
  ⟨x.result.mapError (·.locate site), x.asked⟩

/-- A class that is not known is no error here. -/
def orUnknown (x : Lookup α) : Lookup (Option α) :=
  match x with
  | ⟨.ok a, asked⟩ => ⟨.ok (some a), asked⟩
  | ⟨.error (.unknownClass _ _), asked⟩ => ⟨.ok none, asked⟩
  | ⟨.error e, asked⟩ => ⟨.error e, asked⟩

end Lookup

/-- The class of a name. -/
def ClassView.resolve (v : ClassView) (name : String) : Lookup ClassSig := ⟨v.find name, [name]⟩

def ClassView.isInterface (v : ClassView) (name : String) : Lookup Bool := do
  return (← v.resolve name).isInterface

end Classwright
