import Classwright.Proofs.Compiler.Tables
import Mathlib.Data.Multiset.DershowitzManna
import Mathlib.Logic.Relation

/-! # Walks with a stack

A walk up a hierarchy can be made turn by turn, with a stack of the classes that it has still to look at. Each of them
waits with the way that led to it. A turn takes the first of them off the stack and may put any number of others there,
all of which have come one step further. No way may be longer than the table allows, so with every turn the steps that
are left to those on the stack go down in the order of multisets. What has been visited plays no part in this: a provider
may have a new class for every name.

A walk with a stack ends with what the walk finds that goes up from class to class, and has asked for the same names. -/

namespace Classwright

open Relation (ReflTransGen)

/-- A class that a walk has still to look at, with those on the way to it, the last of which comes first. -/
structure Waiting where
  name : String
  ancestors : List String := []

/-- A walk that has come some way. -/
structure Walking where
  table : ClassTable
  /-- The next comes first. -/
  stack : List Waiting
  visited : List String := []

namespace Walking
variable {α : Type}

/-- What a turn comes to: the walk is over, or it goes on. -/
inductive Outcome (α : Type) where
  | ends (result : Except CompileError (Option α)) (table : ClassTable)
  | goes (next : Walking)

/-- Looks a class up. If it gives no hit, those that it inherits members from come in its place, each with all that is
    above it before the next. -/
def look (pick : ClassSig → Option α) (w : Walking) (next : Waiting) (rest : List Waiting) : Outcome α :=
  match w.table.find next.name with
  | .error e => .ends (.error e) (w.table.settle next.name)
  | .ok cls =>
    match pick cls with
    | some a => .ends (.ok (some a)) (w.table.settle next.name)
    | none => .goes
      { table := w.table.settle next.name
        stack := cls.parents.map (⟨·, next.name :: next.ancestors⟩) ++ rest
        visited := next.name :: w.visited }

/-- Takes the next class off the stack. -/
def turn (start : String) (sourcesOnly : Bool) (pick : ClassSig → Option α) (w : Walking) : Outcome α :=
  match w.stack with
  | [] => .ends (.ok none) w.table
  | ⟨name, ancestors⟩ :: rest =>
    if w.table.maxDepth < ancestors.length then
      .ends (.error (.malformedHierarchy start (.tooDeep w.table.maxDepth))) w.table
    else if ancestors.contains name then .ends (.error (.malformedHierarchy start (.cycle name))) w.table
    else if w.visited.contains name then .goes { w with stack := rest }
    else if sourcesOnly && !w.table.isSource name then .goes { w with stack := rest, visited := name :: w.visited }
    else w.look pick ⟨name, ancestors⟩ rest

variable {start : String} {sourcesOnly : Bool} {pick : ClassSig → Option α} {w w' : Walking}

/-! ### Turns come to an end -/

/-- What waits on the stack after a turn that goes on: a class has gone, and those that have come are one step further. -/
theorem turn_goes (h : w.turn start sourcesOnly pick = .goes w') :
    w'.table.maxDepth = w.table.maxDepth ∧ ∃ name ancestors rest, w.stack = ⟨name, ancestors⟩ :: rest ∧
      ancestors.length ≤ w.table.maxDepth ∧ ∃ names : List String,
        w'.stack = names.map (⟨·, name :: ancestors⟩) ++ rest := by
  unfold turn at h
  split at h
  · cases h
  · rename_i name ancestors rest hstack
    split at h
    · cases h
    · rename_i hdepth
      have hdepth := Nat.not_lt.mp hdepth
      split at h
      · cases h
      · split at h
        · cases h
          exact ⟨rfl, name, ancestors, rest, hstack, hdepth, [], rfl⟩
        · split at h
          · cases h
            exact ⟨rfl, name, ancestors, rest, hstack, hdepth, [], rfl⟩
          · unfold look at h
            split at h
            · cases h
            · rename_i cls _
              split at h
              · cases h
              · cases h
                exact ⟨(ClassTable.Extends.settle w.table name).maxDepth, name, ancestors, rest, hstack, hdepth,
                  cls.parents, rfl⟩

/-- How many steps the classes on the stack have left. -/
def stepsLeft (w : Walking) : Multiset Nat := w.stack.map fun x => w.table.maxDepth + 1 - x.ancestors.length

theorem stepsLeft_goes (h : w.turn start sourcesOnly pick = .goes w') :
    w'.stepsLeft.IsDershowitzMannaLT w.stepsLeft := by
  obtain ⟨hdepth, name, ancestors, rest, hstack, hlength, names, hstack'⟩ := turn_goes h
  let left (x : Waiting) : Nat := w.table.maxDepth + 1 - x.ancestors.length
  refine ⟨rest.map left, names.map fun _ => w.table.maxDepth + 1 - (ancestors.length + 1), {left ⟨name, ancestors⟩},
    ?_, ?_, ?_, fun y hy => ?_⟩
  · simp
  · simp [stepsLeft, hstack', hdepth, left, Function.comp_def, add_comm]
  · simp [stepsLeft, hstack, left, add_comm]
  · obtain ⟨_, -, rfl⟩ := List.mem_map.mp (Multiset.mem_coe.mp hy)
    refine ⟨_, Multiset.mem_singleton_self _, ?_⟩
    show w.table.maxDepth + 1 - (ancestors.length + 1) < w.table.maxDepth + 1 - ancestors.length
    omega

/-- From no walk whatever can one turn follow the other without end. -/
theorem wellFounded_turn (start : String) (sourcesOnly : Bool) (pick : ClassSig → Option α) :
    WellFounded fun w' w : Walking => w.turn start sourcesOnly pick = .goes w' :=
  Subrelation.wf stepsLeft_goes (InvImage.wf stepsLeft Multiset.wellFounded_isDershowitzMannaLT)

/-! ### What they come to -/

/-- Some turns lead from one walk to another. -/
def Leads (start : String) (sourcesOnly : Bool) (pick : ClassSig → Option α) : Walking → Walking → Prop :=
  ReflTransGen fun w w' => w.turn start sourcesOnly pick = .goes w'

/-- After some turns the walk is over. -/
def EndsWith (start : String) (sourcesOnly : Bool) (pick : ClassSig → Option α) (w : Walking)
    (result : Except CompileError (Option α)) (table : ClassTable) : Prop :=
  ∃ w', Leads start sourcesOnly pick w w' ∧ w'.turn start sourcesOnly pick = .ends result table

/-- What becomes of a walk while the classes in front of `rest` are taken off its stack, when going up from class to class
    gives a result and asks for some names: it ends with a failure or a hit, or `rest` is what is left. -/
inductive ComesTo (start : String) (sourcesOnly : Bool) (pick : ClassSig → Option α) (w : Walking) (rest : List Waiting) :
    Lookup (Option α × List String) → Prop
  | fails {e : CompileError} {asked : List String}
      (h : EndsWith start sourcesOnly pick w (.error e) (asked.foldl ClassTable.settle w.table)) :
      ComesTo start sourcesOnly pick w rest ⟨.error e, asked⟩
  | finds {a : α} {visited asked : List String}
      (h : EndsWith start sourcesOnly pick w (.ok (some a)) (asked.foldl ClassTable.settle w.table)) :
      ComesTo start sourcesOnly pick w rest ⟨.ok (some a, visited), asked⟩
  | passes {visited asked : List String}
      (h : Leads start sourcesOnly pick w ⟨asked.foldl ClassTable.settle w.table, rest, visited⟩) :
      ComesTo start sourcesOnly pick w rest ⟨.ok (none, visited), asked⟩

namespace ComesTo
variable {rest : List Waiting} {v : ClassView}

/-- What turns have led to goes on as it would by itself. -/
theorem after {asked visited : List String} {stack : List Waiting} {x : Lookup (Option α × List String)}
    (hleads : Leads start sourcesOnly pick w ⟨asked.foldl ClassTable.settle w.table, stack, visited⟩)
    (h : ComesTo start sourcesOnly pick ⟨asked.foldl ClassTable.settle w.table, stack, visited⟩ rest x) :
    ComesTo start sourcesOnly pick w rest ⟨x.result, asked ++ x.asked⟩ := by
  cases h with
  | fails h =>
    obtain ⟨w', hw', hend⟩ := h
    exact .fails ⟨w', hleads.trans hw', by rw [List.foldl_append]; exact hend⟩
  | finds h =>
    obtain ⟨w', hw', hend⟩ := h
    exact .finds ⟨w', hleads.trans hw', by rw [List.foldl_append]; exact hend⟩
  | passes h => exact .passes (hleads.trans (by rw [List.foldl_append]; exact h))

theorem visitEach {visit : List String → String → Lookup (Option α × List String)} {ancestors : List String}
    (hvisit : ∀ (w : Walking) name rest, w.table.view = v → w.stack = ⟨name, ancestors⟩ :: rest →
      ComesTo start sourcesOnly pick w rest (visit w.visited name))
    {names : List String} (hview : w.table.view = v) (hstack : w.stack = names.map (⟨·, ancestors⟩) ++ rest) :
    ComesTo start sourcesOnly pick w rest (ClassView.visitEach visit w.visited names) := by
  induction names generalizing w with
  | nil =>
    obtain ⟨table, stack, visited⟩ := w
    obtain rfl : stack = rest := hstack
    exact .passes .refl
  | cons name names ih =>
    have hfirst := hvisit w name _ hview hstack
    rw [ClassView.visitEach]
    generalize visit w.visited name = x at hfirst
    cases hfirst with
    | fails h => exact .fails h
    | @finds a visited asked h =>
      change ComesTo start sourcesOnly pick w rest ⟨.ok (some a, visited), asked ++ []⟩
      rw [List.append_nil]
      exact .finds h
    | passes h => exact .after h (ih ((ClassTable.Extends.settleAll _ _).view_eq.trans hview) rfl)

/-- A class is looked up and, if it gives no hit, what is above it is visited. -/
theorem look {ancestors : List String} {name : String} {visit : List String → String → Lookup (Option α × List String)}
    (hturn : w.turn start sourcesOnly pick = w.look pick ⟨name, ancestors⟩ rest)
    (hvisit : ∀ (w' : Walking) name' rest', w'.table.view = w.table.view →
      w'.stack = ⟨name', name :: ancestors⟩ :: rest' → ComesTo start sourcesOnly pick w' rest' (visit w'.visited name')) :
    ComesTo start sourcesOnly pick w rest (do
      let c ← w.table.view.resolve name
      match pick c with
      | some a => return (some a, name :: w.visited)
      | none => ClassView.visitEach visit (name :: w.visited) c.parents) := by
  unfold Walking.look at hturn
  change ComesTo start sourcesOnly pick w rest (Lookup.bind ⟨w.table.find name, [name]⟩ _)
  cases hfind : w.table.find name with
  | error e =>
    rw [hfind] at hturn
    exact .fails ⟨w, .refl, hturn⟩
  | ok cls =>
    rw [hfind] at hturn
    dsimp only [Lookup.bind]
    cases hpick : pick cls with
    | some a =>
      simp only [hpick] at hturn
      exact .finds ⟨w, .refl, hturn⟩
    | none =>
      simp only [hpick] at hturn
      have hview := (ClassTable.Extends.settle w.table name).view_eq
      exact .after (.single hturn)
        (.visitEach (fun w' name' rest' hw' hstack => hvisit w' name' rest' (hw'.trans hview) hstack) rfl rfl)

/-- A class that waits in front of others is looked at with all that is above it, and then the others are. -/
theorem visit {more : Nat} {ancestors : List String} {name : String} (hview : w.table.view = v)
    (hmore : more + ancestors.length = v.maxDepth + 1) (hstack : w.stack = ⟨name, ancestors⟩ :: rest) :
    ComesTo start sourcesOnly pick w rest (v.visit start sourcesOnly pick more ancestors w.visited name) := by
  -- on the steps that are left; each check of a visit is one of the turn
  induction more generalizing w ancestors name rest with
  | zero =>
    obtain ⟨table, stack, visited⟩ := w
    obtain rfl : stack = _ := hstack
    subst hview
    have hdepth : table.maxDepth < ancestors.length := Nat.lt_of_succ_le (Nat.zero_add ancestors.length ▸ hmore.ge)
    exact .fails ⟨_, .refl, by simp only [turn, if_pos hdepth]; rfl⟩
  | succ more ih =>
    obtain ⟨table, stack, visited⟩ := w
    obtain rfl : stack = _ := hstack
    subst hview
    have hdepth : ¬table.maxDepth < ancestors.length := by
      change more + 1 + ancestors.length = table.maxDepth + 1 at hmore
      omega
    have hmore : more + (name :: ancestors).length = table.view.maxDepth + 1 :=
      (Nat.add_right_comm more 1 _).symm.trans hmore
    rw [ClassView.visit]
    split
    · rename_i hcycle
      exact .fails ⟨_, .refl, by simp only [turn, if_neg hdepth, if_pos hcycle]; rfl⟩
    · rename_i hcycle
      split
      · rename_i hvisited
        exact .passes (.single (by simp only [turn, if_neg hdepth, if_neg hcycle, if_pos hvisited]; rfl))
      · rename_i hvisited
        split
        · rename_i hother
          exact .passes (.single (by
            simp only [turn, if_neg hdepth, if_neg hcycle, if_neg hvisited]
            exact if_pos hother))
        · rename_i hother
          refine .look ?_ fun w' name' rest' hw' hstack => ih hw' hmore hstack
          simp only [turn, if_neg hdepth, if_neg hcycle, if_neg hvisited]
          exact if_neg hother

end ComesTo

/-- However classes are found and however long their ways may be, no walk takes turns without end, not even one that
    did not begin at a single class. One that did ends with what is found by going up from class to class, in the table
    that has settled every name asked for on the way. -/
theorem walk_ends (start : String) (sourcesOnly : Bool) (pick : ClassSig → Option α) :
    (WellFounded fun w' w : Walking => w.turn start sourcesOnly pick = .goes w') ∧
      ∀ t : ClassTable, EndsWith start sourcesOnly pick { table := t, stack := [{ name := start }] }
        (t.run (t.view.walk start sourcesOnly pick)).1 (t.run (t.view.walk start sourcesOnly pick)).2 := by
  refine ⟨wellFounded_turn start sourcesOnly pick, fun t => ?_⟩
  have hvisit : ComesTo start sourcesOnly pick { table := t, stack := [{ name := start }] } [] _ :=
    .visit rfl rfl rfl
  rw [ClassView.walk]
  generalize t.view.visit start sourcesOnly pick (t.view.maxDepth + 1) [] [] start = x at hvisit
  cases hvisit with
  | fails h => exact h
  | @finds a visited asked h =>
    change EndsWith start sourcesOnly pick _ (.ok (some a)) ((asked ++ []).foldl ClassTable.settle t)
    rw [List.append_nil]
    exact h
  | @passes visited asked h =>
    change EndsWith start sourcesOnly pick _ (.ok none) ((asked ++ []).foldl ClassTable.settle t)
    rw [List.append_nil]
    exact ⟨_, h, rfl⟩

end Walking

end Classwright
