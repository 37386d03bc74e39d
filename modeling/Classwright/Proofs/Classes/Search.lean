import Classwright.Classes.Table
import Classwright.Proofs.Hierarchy

/-! # Searching a hierarchy

The plain search for a member looks at a class, and then searches everything above it, one supertype after another. It
comes to a class as often as there are ways to it. A walk comes to each class once, and still finds the same: a class
that is skipped has been searched before, with all that is above it, and had no hit. -/

namespace Classwright

theorem Lookup.result_bind {α β : Type} (x : Lookup α) (k : α → Lookup β) :
    (x >>= k).result = x.result >>= fun a => (k a).result := by
  obtain ⟨r, asked⟩ := x
  cases r <;> rfl

namespace ClassView
variable {α : Type} {v : ClassView} {pick : ClassSig → Option α} {start : String}

/-! ### Ways up a hierarchy -/

/-- The first class inherits members from the second. With `sourcesOnly` it has to stand in source itself. -/
def Inherits (v : ClassView) (sourcesOnly : Bool) (name parent : String) : Prop :=
  (sourcesOnly = true → v.isSource name = true) ∧ ∃ cls, v.find name = .ok cls ∧ parent ∈ cls.parents

theorem inherits_of_mem {name parent : String} {cls : ClassSig} (hcls : v.find name = .ok cls)
    (hparent : parent ∈ cls.parents) : v.Inherits false name parent :=
  ⟨nofun, cls, hcls, hparent⟩

/-- A way up from `start`, with a step for each class that it has passed. The last of these comes first. -/
inductive Way (v : ClassView) (sourcesOnly : Bool) (start : String) : List String → String → Prop
  | start : Way v sourcesOnly start [] start
  | up {ancestors : List String} {name parent : String} (h : Way v sourcesOnly start ancestors name)
      (hp : v.Inherits sourcesOnly name parent) : Way v sourcesOnly start (name :: ancestors) parent

namespace Way
variable {sourcesOnly : Bool} {ancestors above : List String} {name other : String}

theorem trans (h : v.Way sourcesOnly start ancestors name) (h' : v.Way sourcesOnly name above other) :
    v.Way sourcesOnly start (above ++ ancestors) other := by
  induction h' with
  | start => exact h
  | up _ hp ih => exact ih.up hp

/-- A class that was passed has a way to it, and one from it. -/
theorem split (h : v.Way sourcesOnly start ancestors name) (hmem : other ∈ ancestors) :
    ∃ before above, v.Way sourcesOnly start before other ∧ v.Way sourcesOnly other above name ∧ above ≠ [] := by
  induction h with
  | start => cases hmem
  | @up _ last _ hway hp ih =>
    rcases List.mem_cons.mp hmem with rfl | hmem
    · exact ⟨_, _, hway, .up .start hp, List.cons_ne_nil _ _⟩
    · obtain ⟨before, above, hbefore, habove, -⟩ := ih hmem
      exact ⟨before, last :: above, hbefore, habove.up hp, List.cons_ne_nil _ _⟩

/-- A way that comes back to a class which it has passed can go round as often as one likes. -/
theorem unbounded (h : v.Way sourcesOnly start ancestors name) (hmem : name ∈ ancestors) (n : Nat) :
    ∃ ancestors', v.Way sourcesOnly start ancestors' name ∧ n ≤ ancestors'.length := by
  obtain ⟨-, round, -, hround, hne⟩ := h.split hmem
  induction n with
  | zero => exact ⟨ancestors, h, Nat.zero_le _⟩
  | succ n ih =>
    obtain ⟨ancestors', h', hn⟩ := ih
    refine ⟨round ++ ancestors', h'.trans hround, ?_⟩
    have hpos := List.length_pos_iff.mpr hne
    rw [List.length_append]
    omega

/-- Where ways have an end, none comes back to a class which it has passed. -/
theorem not_mem_of_bounded {n : Nat}
    (hbound : ∀ ancestors name, v.Way sourcesOnly start ancestors name → ancestors.length ≤ n)
    (h : v.Way sourcesOnly start ancestors name) : name ∉ ancestors := by
  intro hmem
  obtain ⟨ancestors', h', hlong⟩ := h.unbounded hmem (n + 1)
  have hshort := hbound _ _ h'
  omega

/-- A way is no longer than the rank of its start, if ranks fall with each step. -/
theorem length_le {rank : String → Nat} (hrank : ∀ name parent, v.Inherits sourcesOnly name parent → rank parent < rank name)
    (h : v.Way sourcesOnly start ancestors name) : ancestors.length + rank name ≤ rank start := by
  induction h with
  | start => exact Nat.le_of_eq (Nat.zero_add _)
  | up _ hp ih =>
    have hfalls := hrank _ _ hp
    rw [List.length_cons]
    omega

end Way

/-! ### The plain search -/

mutual

/-- What is found at a class: its own hit, or else what is found above it. A name without a class ends the search. -/
inductive Search (v : ClassView) (pick : ClassSig → Option α) : String → Except CompileError (Option α) → Prop
  | unknown {name : String} {e : CompileError} (h : v.find name = .error e) : Search v pick name (.error e)
  | here {name : String} {cls : ClassSig} {a : α} (h : v.find name = .ok cls) (ha : pick cls = some a) :
      Search v pick name (.ok (some a))
  | above {name : String} {cls : ClassSig} {r : Except CompileError (Option α)} (h : v.find name = .ok cls)
      (hnone : pick cls = none) (hr : SearchEach v pick cls.parents r) : Search v pick name r

/-- What is found at the first of some names where the search does not end without a hit. -/
inductive SearchEach (v : ClassView) (pick : ClassSig → Option α) :
    List String → Except CompileError (Option α) → Prop
  | nil : SearchEach v pick [] (.ok none)
  | stop {name : String} {rest : List String} {r : Except CompileError (Option α)} (h : Search v pick name r)
      (hr : r ≠ .ok none) : SearchEach v pick (name :: rest) r
  | next {name : String} {rest : List String} {r : Except CompileError (Option α)} (h : Search v pick name (.ok none))
      (hr : SearchEach v pick rest r) : SearchEach v pick (name :: rest) r

end

mutual

theorem Search.unique {name : String} {r r' : Except CompileError (Option α)} :
    v.Search pick name r → v.Search pick name r' → r = r'
  | .unknown h, h' => by
    cases h' with
    | unknown h' => exact (Except.error.inj (h.symm.trans h')) ▸ rfl
    | here h' => cases h.symm.trans h'
    | above h' => cases h.symm.trans h'
  | .here h ha, h' => by
    cases h' with
    | unknown h' => cases h.symm.trans h'
    | here h' ha' =>
      cases h.symm.trans h'
      cases ha.symm.trans ha'
      rfl
    | above h' hnone =>
      cases h.symm.trans h'
      cases ha.symm.trans hnone
  | .above h hnone hr, h' => by
    have hunique r' (h' : v.SearchEach pick _ r') : _ = r' := hr.unique h'
    cases h' with
    | unknown h' => cases h.symm.trans h'
    | here h' ha =>
      cases h.symm.trans h'
      cases ha.symm.trans hnone
    | above h' _ hr' =>
      cases h.symm.trans h'
      exact hunique _ hr'

theorem SearchEach.unique {names : List String} {r r' : Except CompileError (Option α)} :
    v.SearchEach pick names r → v.SearchEach pick names r' → r = r'
  | .nil, h' => by
    cases h'
    rfl
  | .stop h hr, h' => by
    have hunique r' (h' : v.Search pick _ r') : _ = r' := h.unique h'
    cases h' with
    | stop h' => exact hunique _ h'
    | next h' => exact absurd (hunique _ h') hr
  | .next h hr, h' => by
    have hunique r' (h' : v.Search pick _ r') : _ = r' := h.unique h'
    have hrest r' (h' : v.SearchEach pick _ r') : _ = r' := hr.unique h'
    cases h' with
    | stop h' hr' => exact absurd (hunique _ h').symm hr'
    | next _ hr' => exact hrest _ hr'

end

/-! ### The walk -/

/-- The names that were visited are on the way, or have been searched in vain. -/
def Searched (v : ClassView) (pick : ClassSig → Option α) (ancestors visited : List String) : Prop :=
  ∀ name ∈ visited, name ∈ ancestors ∨ v.Search pick name (.ok none)

/-- What a visit has come to is what the search `S` gives, and without a hit the names are still as they should be. -/
structure Agrees (v : ClassView) (pick : ClassSig → Option α) (S : Except CompileError (Option α) → Prop)
    (ancestors : List String) (r : Except CompileError (Option α × List String)) : Prop where
  found : S (r.map Prod.fst)
  searched : ∀ visited, r = .ok (none, visited) → v.Searched pick ancestors visited

theorem visitEach_agrees {visit : List String → String → Lookup (Option α × List String)}
    {ancestors names : List String}
    (hvisit : ∀ name ∈ names, ∀ visited, v.Searched pick ancestors visited →
      v.Agrees pick (v.Search pick name) ancestors (visit visited name).result)
    {visited : List String} (hvisited : v.Searched pick ancestors visited) :
    v.Agrees pick (v.SearchEach pick names) ancestors (visitEach visit visited names).result := by
  induction names generalizing visited with
  | nil =>
    refine ⟨.nil, fun visited' h => ?_⟩
    cases h
    exact hvisited
  | cons name rest ih =>
    obtain ⟨hname, hrest⟩ := List.forall_mem_cons.mp hvisit
    obtain ⟨hfound, hsearched⟩ := hname visited hvisited
    rw [visitEach, Lookup.result_bind]
    generalize (visit visited name).result = r at hfound hsearched
    match r with
    | .error e => exact ⟨.stop hfound nofun, nofun⟩
    | .ok (some a, _) => exact ⟨.stop hfound nofun, nofun⟩
    | .ok (none, visited') =>
      obtain ⟨hfound', hsearched'⟩ := ih hrest (hsearched visited' rfl)
      exact ⟨.next hfound hfound', hsearched'⟩

/-- A visit finds what the search does. The class itself is on the way while those above it are visited, so none of
    them can be it again; once they are done, it has been searched too. -/
theorem visit_agrees
    (hbound : ∀ ancestors name, v.Way false start ancestors name → ancestors.length ≤ v.maxDepth) {more : Nat}
    {ancestors visited : List String} {name : String} (hway : v.Way false start ancestors name)
    (hmore : more + ancestors.length = v.maxDepth + 1) (hvisited : v.Searched pick ancestors visited) :
    v.Agrees pick (v.Search pick name) ancestors (v.visit start false pick more ancestors visited name).result := by
  induction more generalizing ancestors visited name with
  | zero =>
    have hshort := hbound _ _ hway
    omega
  | succ more ih =>
    have hnew := hway.not_mem_of_bounded hbound
    rw [visit, if_neg (by simpa using hnew)]
    split
    · rename_i hmem
      have hmem : name ∈ visited := by simpa using hmem
      refine ⟨(hvisited name hmem).resolve_left hnew, fun visited' h => ?_⟩
      cases h
      exact hvisited
    · rw [if_neg (by simp), Lookup.result_bind]
      change v.Agrees pick (v.Search pick name) ancestors (v.find name >>= _)
      cases hcls : v.find name with
      | error e => exact ⟨.unknown hcls, fun _ h => by cases h⟩
      | ok cls =>
        rw [ok_bind]
        split
        · rename_i a ha
          exact ⟨.here hcls ha, fun _ h => by cases h⟩
        · rename_i hnone
          have hstart : v.Searched pick (name :: ancestors) (name :: visited) := by
            intro other hother
            rcases List.mem_cons.mp hother with rfl | hother
            · exact .inl List.mem_cons_self
            · exact (hvisited other hother).imp_left (List.mem_cons_of_mem name)
          have hparents (parent : String) (hparent : parent ∈ cls.parents) (visited : List String)
              (hvisited : v.Searched pick (name :: ancestors) visited) : v.Agrees pick (v.Search pick parent)
                (name :: ancestors) (v.visit start false pick more (name :: ancestors) visited parent).result :=
            ih (hway.up (inherits_of_mem hcls hparent)) (by rw [List.length_cons]; omega) hvisited
          obtain ⟨hfound, hsearched⟩ := visitEach_agrees hparents hstart
          refine ⟨.above hcls hnone hfound, fun visited' h other hother => ?_⟩
          rw [h] at hfound
          rcases hsearched visited' h other hother with hmem | hdone
          · rcases List.mem_cons.mp hmem with rfl | hmem
            · exact .inr (.above hcls hnone hfound)
            · exact .inl hmem
          · exact .inr hdone

/-- A walk finds what the plain search does, if no way up is longer than a walk may go. -/
theorem walk_eq_iff_search
    (hbound : ∀ ancestors name, v.Way false start ancestors name → ancestors.length ≤ v.maxDepth)
    (r : Except CompileError (Option α)) : (v.walk start false pick).result = r ↔ v.Search pick start r := by
  have hsearch : v.Search pick start (v.walk start false pick).result := by
    have hvisit : v.Agrees pick (v.Search pick start) [] (v.visit start false pick (v.maxDepth + 1) [] [] start).result :=
      visit_agrees hbound .start rfl nofun
    have hfound := hvisit.found
    have hwalk : (v.walk start false pick).result =
        (v.visit start false pick (v.maxDepth + 1) [] [] start).result.map Prod.fst := Lookup.result_bind _ _
    rwa [hwalk]
  exact ⟨fun h => h ▸ hsearch, hsearch.unique⟩

/-- Fields and methods are found as the plain search finds them: in the class itself by their exact name, methods also
    by the exact types of their parameters, or else above it, where the first hit counts and the first name without a
    class ends the search. No way up may be longer than a walk may go, so none comes back to where it was. -/
theorem member_lookup_is_plain_search {owner : String}
    (hbound : ∀ ancestors name, v.Way false owner ancestors name → ancestors.length ≤ v.maxDepth) (name : String) :
    (∀ r, (v.field? owner name).result = r ↔ v.Search (fun cls => cls.fields.find? fun f => f.name = name) owner r) ∧
      ∀ args r, (v.method? owner name args).result = r ↔
        v.Search (fun cls => cls.methods.find? fun m => m.name = name ∧ m.paramTypes = args) owner r := by
  have hfield : (fun cls : ClassSig => cls.fields.find? fun f => f.name = name) = fun cls => cls.field? name := rfl
  have hmethod (args : List Ty) : (fun cls : ClassSig => cls.methods.find? fun m => m.name = name ∧ m.paramTypes = args) =
      fun cls => cls.method? name args := by
    funext cls
    unfold ClassSig.method? MethodSig.accepts
    congr 1
    funext m
    simp only [Bool.decide_and, beq_eq_decide]
  refine ⟨fun r => ?_, fun args r => ?_⟩
  · rw [hfield]
    exact walk_eq_iff_search hbound r
  · rw [hmethod args]
    exact walk_eq_iff_search hbound r

end ClassView

/-- Two interfaces between the first and the last. Only the second of them declares a method, and it extends one more,
    which nobody knows. -/
def figures : ClassTable :=
  let shape (name : String) (interfaces : List String) (methods : List MethodSig) : ClassSig :=
    { name, isInterface := true, interfaces, methods }
  { provider := .ofSignatures []
    sources :=
      [⟨0, shape "demo/Square" ["demo/Rectangle", "demo/Rhombus"] []⟩, ⟨1, shape "demo/Rectangle" ["demo/Figure"] []⟩,
        ⟨2, shape "demo/Rhombus" ["demo/Figure", "demo/Unknown"] [⟨"area", false, false, true, .prim .int, []⟩]⟩,
        ⟨3, shape "demo/Figure" [] []⟩] }

/-- How many steps there are above a figure. -/
def figureRank (name : String) : Nat :=
  if name = "demo/Square" then 2 else if name = "demo/Rectangle" ∨ name = "demo/Rhombus" then 1 else 0

theorem figureRank_lt (sourcesOnly : Bool) (name parent : String) (h : figures.view.Inherits sourcesOnly name parent) :
    figureRank parent < figureRank name := by
  obtain ⟨-, cls, hcls, hparent⟩ := h
  change figures.find name = .ok cls at hcls
  unfold ClassTable.find at hcls
  split at hcls
  · rename_i r hr
    cases hcls
    have hname : r.sig.name = name := by simpa using List.find?_some hr
    have hall : ∀ r ∈ figures.sources, ∀ parent ∈ r.sig.parents, figureRank parent < figureRank r.sig.name := by decide
    exact hname ▸ hall r (List.mem_of_find?_eq_some hr) parent hparent
  · cases hcls

theorem member_lookup_is_plain_search_figures :
    (∀ ancestors name, figures.view.Way false "demo/Square" ancestors name → ancestors.length ≤ figures.view.maxDepth) ∧
      (figures.view.method? "demo/Square" "area" []).result = .ok (some ⟨"area", false, false, true, .prim .int, []⟩) ∧
      (figures.view.method? "demo/Square" "edges" []).result = .error (.unknownClass "demo/Unknown" {}) := by
  have hbound ancestors name (h : figures.view.Way false "demo/Square" ancestors name) :
      ancestors.length ≤ figures.view.maxDepth :=
    calc ancestors.length ≤ ancestors.length + figureRank name := Nat.le_add_right _ _
      _ ≤ figureRank "demo/Square" := h.length_le (figureRank_lt false)
      _ ≤ figures.view.maxDepth := by decide
  refine ⟨hbound, ((ClassView.member_lookup_is_plain_search hbound "area").2 [] _).mpr ?_,
    ((ClassView.member_lookup_is_plain_search hbound "edges").2 [] _).mpr ?_⟩
  · exact .above rfl rfl (.next (.above rfl rfl (.next (.above rfl rfl .nil) .nil)) (.stop (.here rfl rfl) (by simp)))
  · exact .above rfl rfl (.next (.above rfl rfl (.next (.above rfl rfl .nil) .nil))
      (.stop (.above rfl rfl (.next (.above rfl rfl .nil) (.stop (.unknown rfl) (by simp)))) (by simp)))

end Classwright
