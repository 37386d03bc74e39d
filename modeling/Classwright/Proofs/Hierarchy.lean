import Classwright.Lowering.Context
import Classwright.Proofs.Lowering.Runs

/-! # What a walk up a hierarchy finds

A hit comes from the class where the walk starts or from one above it, and a hit in the class itself goes before all
others. A walk that ends without a hit has seen every class above its start. -/

namespace Classwright

namespace ClassView
variable {α : Type}

/-- The class can be reached from the name by going from a class to one that it inherits members from. -/
inductive Above (v : ClassView) : String → ClassSig → Prop where
  | self {name : String} {cls : ClassSig} (h : v.find name = .ok cls) : Above v name cls
  | parent {name parent : String} {cls above : ClassSig} (h : v.find name = .ok cls) (hp : parent ∈ cls.parents)
      (ha : Above v parent above) : Above v name above

variable {v : ClassView} {pick : ClassSig → Option α} {start : String}

/-! ### Hits -/

theorem visitEach_some {visit : List String → String → Lookup (Option α × List String)}
    {names visited visited' : List String} {a : α}
    (h : (visitEach visit visited names).result = .ok (some a, visited')) :
    ∃ name ∈ names, ∃ before after, (visit before name).result = .ok (some a, after) := by
  induction names generalizing visited with
  | nil => cases h
  | cons name rest ih =>
    obtain ⟨⟨found, visited₁⟩, hv, h⟩ := Lookup.bind_result.mp h
    dsimp only at h
    split at h
    · cases h
      exact ⟨name, List.mem_cons_self, visited, _, hv⟩
    · obtain ⟨name', hmem, hhit⟩ := ih h
      exact ⟨name', List.mem_cons_of_mem name hmem, hhit⟩

theorem visit_some {sourcesOnly : Bool} {more : Nat} {ancestors visited visited' : List String} {name : String} {a : α}
    (h : (v.visit start sourcesOnly pick more ancestors visited name).result = .ok (some a, visited')) :
    ∃ cls, v.Above name cls ∧ pick cls = some a := by
  induction more generalizing ancestors visited name visited' with
  | zero => cases h
  | succ more ih =>
    rw [visit] at h
    split at h
    · cases h
    · split at h
      · cases h
      · split at h
        · cases h
        · obtain ⟨cls, hcls, h⟩ := Lookup.bind_result.mp h
          split at h
          · rename_i a' ha
            cases h
            exact ⟨cls, .self hcls, ha⟩
          · obtain ⟨parent, hparent, before, after, hhit⟩ := visitEach_some h
            obtain ⟨above, habove, ha⟩ := ih hhit
            exact ⟨above, .parent hcls hparent habove, ha⟩

theorem walk_some {sourcesOnly : Bool} {a : α} (h : (v.walk start sourcesOnly pick).result = .ok (some a)) :
    ∃ cls, v.Above start cls ∧ pick cls = some a := by
  obtain ⟨⟨found, visited⟩, hv, h⟩ := Lookup.bind_result.mp h
  cases h
  exact visit_some hv

/-- A hit in the class itself is the first. -/
theorem walk_self {cls : ClassSig} {a : α} (hcls : v.find start = .ok cls) (ha : pick cls = some a) :
    (v.walk start false pick).result = .ok (some a) := by
  have hresolve : (v.resolve start).result = .ok cls := hcls
  refine Lookup.bind_result.mpr ⟨(some a, [start]), ?_, rfl⟩
  rw [visit, if_neg (by simp), if_neg (by simp), if_neg (by simp)]
  exact Lookup.bind_result.mpr ⟨cls, hresolve, by rw [ha]; rfl⟩

/-! ### Walks without a hit -/

/-- The names that have been added give no hit, and what is directly above them has been visited. -/
structure Explored (v : ClassView) (pick : ClassSig → Option α) (before after : List String) : Prop where
  mono : before ⊆ after
  clear : ∀ name ∈ after, name ∉ before → ∀ cls, v.find name = .ok cls → pick cls = none ∧ cls.parents ⊆ after

namespace Explored
variable {before between after : List String}

theorem refl (before : List String) : v.Explored pick before before := ⟨List.Subset.refl _, fun _ h h' => absurd h h'⟩

theorem trans (h : v.Explored pick before between) (h' : v.Explored pick between after) :
    v.Explored pick before after := by
  refine ⟨List.Subset.trans h.mono h'.mono, fun name hname hnew cls hcls => ?_⟩
  by_cases hmem : name ∈ between
  · obtain ⟨hnone, hparents⟩ := h.clear name hmem hnew cls hcls
    exact ⟨hnone, List.Subset.trans hparents h'.mono⟩
  · exact h'.clear name hname hmem cls hcls

/-- A class is done when those directly above it are. -/
theorem cons {name : String} {cls : ClassSig} (hcls : v.find name = .ok cls) (hnone : pick cls = none)
    (h : v.Explored pick (name :: before) after) (hparents : cls.parents ⊆ after) : v.Explored pick before after := by
  refine ⟨List.Subset.trans (List.subset_cons_self name before) h.mono, fun other hother hnew cls' hcls' => ?_⟩
  by_cases heq : other = name
  · subst heq
    cases hcls.symm.trans hcls'
    exact ⟨hnone, hparents⟩
  · exact h.clear other hother (by simp [heq, hnew]) cls' hcls'

/-- Nothing above a name that has been visited gives a hit, if everything was visited in this way. -/
theorem none_above (h : v.Explored pick [] after) {name : String} {cls : ClassSig} (hname : name ∈ after)
    (ha : v.Above name cls) : pick cls = none := by
  induction ha with
  | self hcls => exact (h.clear _ hname List.not_mem_nil _ hcls).1
  | parent hcls hparent _ ih => exact ih ((h.clear _ hname List.not_mem_nil _ hcls).2 hparent)

end Explored

theorem visitEach_none {visit : List String → String → Lookup (Option α × List String)}
    (hvisit : ∀ before name after, (visit before name).result = .ok (none, after) →
      name ∈ after ∧ v.Explored pick before after) {names visited visited' : List String}
    (h : (visitEach visit visited names).result = .ok (none, visited')) :
    names ⊆ visited' ∧ v.Explored pick visited visited' := by
  induction names generalizing visited with
  | nil =>
    cases h
    exact ⟨List.nil_subset _, .refl _⟩
  | cons name rest ih =>
    obtain ⟨⟨found, visited₁⟩, hv, h⟩ := Lookup.bind_result.mp h
    dsimp only at h
    split at h
    · cases h
    · obtain ⟨hname, hfirst⟩ := hvisit _ _ _ hv
      obtain ⟨hrest, hthen⟩ := ih h
      exact ⟨List.cons_subset.mpr ⟨hthen.mono hname, hrest⟩, hfirst.trans hthen⟩

theorem visit_none {more : Nat} {ancestors visited visited' : List String} {name : String}
    (h : (v.visit start false pick more ancestors visited name).result = .ok (none, visited')) :
    name ∈ visited' ∧ v.Explored pick visited visited' := by
  induction more generalizing ancestors visited name visited' with
  | zero => cases h
  | succ more ih =>
    rw [visit] at h
    split at h
    · cases h
    · split at h
      · rename_i hmem
        cases h
        exact ⟨by simpa using hmem, .refl _⟩
      · rw [if_neg (by simp)] at h
        obtain ⟨cls, hcls, h⟩ := Lookup.bind_result.mp h
        split at h
        · cases h
        · rename_i hnone
          obtain ⟨hparents, hexplored⟩ := visitEach_none (fun _ _ _ h => ih h) h
          exact ⟨hexplored.mono List.mem_cons_self, hexplored.cons hcls hnone hparents⟩

/-- Without a hit, no class above the start has one. -/
theorem walk_none (h : (v.walk start false pick).result = .ok none) {cls : ClassSig} (ha : v.Above start cls) :
    pick cls = none := by
  obtain ⟨⟨found, visited⟩, hv, h⟩ := Lookup.bind_result.mp h
  cases h
  obtain ⟨hstart, hexplored⟩ := visit_none hv
  exact hexplored.none_above hstart ha

end ClassView

theorem Lookup.locate_eq_ok {α : Type} {x : Lookup α} {site : Span} {a : α} :
    (x.locate site).result = .ok a ↔ x.result = .ok a := by
  unfold Lookup.locate
  cases x.result <;> simp [Except.mapError]

def MethodSig.constructor (params : List ParamSig) : MethodSig := ⟨Name.init, false, false, false, .void, params⟩

theorem ClassSig.method?_eq_some {cls : ClassSig} {name : String} {args : List Ty} {m : MethodSig}
    (h : cls.method? name args = some m) : m.name = name ∧ m.paramTypes = args := by
  have hsome := List.find?_some h
  simpa [MethodSig.accepts] using hsome

end Classwright
