import Classwright.Classes.Lookup

/-! # Hierarchies

Members are looked for in a class and then up its hierarchy: a class passes on to its base class, an interface to its
interfaces, each with all that is above it before the next. A class that is reached again by another way is skipped,
and one that is reached from itself is a fault, as is a way that is too long. -/

namespace Classwright

/-- The supertypes that a class inherits members from. -/
def ClassSig.parents (c : ClassSig) : List String :=
  if c.isInterface then c.interfaces else c.base.toList

namespace ClassView

variable {α : Type}

/-- Visits names in order until one gives a hit. The names that have been visited are handed on. -/
def visitEach (visit : List String → String → Lookup (Option α × List String)) (visited : List String) :
    List String → Lookup (Option α × List String)
  | [] => pure (none, visited)
  | name :: rest => do
    let (found, visited) ← visit visited name
    match found with
    | some a => return (some a, visited)
    | none => visitEach visit visited rest

/-- The first hit at a class or above it. `ancestors` are the classes on the way from `start`, and the first argument
    is how many more classes the way may have. -/
def visit (v : ClassView) (start : String) (sourcesOnly : Bool) (pick : ClassSig → Option α) :
    Nat → List String → List String → String → Lookup (Option α × List String)
  | 0, _, _, _ => .fail (.malformedHierarchy start (.tooDeep v.maxDepth))
  | more + 1, ancestors, visited, name =>
    if ancestors.contains name then .fail (.malformedHierarchy start (.cycle name))
    else if visited.contains name then pure (none, visited)
    else if sourcesOnly && !v.isSource name then pure (none, name :: visited)
    else do
      let c ← v.resolve name
      match pick c with
      | some a => return (some a, name :: visited)
      | none => visitEach (visit v start sourcesOnly pick more (name :: ancestors)) (name :: visited) c.parents

/-- The first hit in the hierarchy of a class, and with `sourcesOnly` in the part of it that stands in source. -/
def walk (v : ClassView) (start : String) (sourcesOnly : Bool) (pick : ClassSig → Option α) : Lookup (Option α) := do
  let (found, _) ← v.visit start sourcesOnly pick (v.maxDepth + 1) [] [] start
  return found

def field? (v : ClassView) (owner name : String) : Lookup (Option FieldSig) := v.walk owner false (·.field? name)

def method? (v : ClassView) (owner name : String) (args : List Ty) : Lookup (Option MethodSig) :=
  v.walk owner false (·.method? name args)

/-- Fails if the classes above a class that stand in source form a cycle or are too many steps away. -/
def checkHierarchy (v : ClassView) (name : String) : Lookup Unit := do
  let _ ← v.walk (α := Unit) name true fun _ => none

end ClassView

end Classwright
