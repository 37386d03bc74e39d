import Classwright.Proofs.Classes.Search
import Classwright.Proofs.Compiler.Schedules
import Mathlib.Logic.Relation

/-! # Cycles in a hierarchy

The check of a hierarchy goes up from a class through those that stand in source. It passes a class that it comes to
again by another way, and fails at one that it is still above. Whatever it has left behind has only ways up that end, so
once it has passed there is no cycle to be reached. -/

namespace Classwright

open Source (CompilationUnit)

namespace ClassView
variable {v : ClassView} {start : String}

/-- A way up through classes that stand in source comes back to a class which it has passed. -/
def Cyclic (v : ClassView) (name : String) : Prop :=
  ∃ ancestors other, v.Way true name ancestors other ∧ other ∈ ancestors

/-! ### A check that passes -/

/-- All ways up from the class, through those that stand in source, have an end. -/
def Grounded (v : ClassView) (name : String) : Prop := Acc (fun parent child => v.Inherits true child parent) name

theorem Way.transGen {name : String} {ancestors : List String} (h : v.Way true start ancestors name)
    (hne : ancestors ≠ []) : Relation.TransGen (fun parent child => v.Inherits true child parent) name start := by
  induction h with
  | start => exact absurd rfl hne
  | @up before _ _ hway hp ih =>
    cases hway with
    | start => exact .single hp
    | up hway' hp' => exact .head hp (ih (List.cons_ne_nil _ _))

theorem Way.grounded {name : String} {ancestors : List String} (h : v.Way true start ancestors name)
    (hg : v.Grounded start) : v.Grounded name := by
  induction h with
  | start => exact hg
  | up _ hp ih => exact ih.inv hp

theorem not_transGen_of_grounded {name : String} (h : v.Grounded name) :
    ¬Relation.TransGen (fun parent child => v.Inherits true child parent) name name := by
  have hacc : Acc (Relation.TransGen fun parent child => v.Inherits true child parent) name := Acc.transGen h
  induction hacc with
  | intro name _ ih => exact fun hround => ih name hround h hround

/-- No cycle can be reached from where all ways have an end. -/
theorem Grounded.not_cyclic (h : v.Grounded start) : ¬v.Cyclic start := by
  rintro ⟨ancestors, name, hway, hmem⟩
  obtain ⟨-, round, -, hround, hne⟩ := hway.split hmem
  exact not_transGen_of_grounded (hway.grounded h) (hround.transGen hne)

/-- The names that were visited are on the way, or all ways up from them have an end. -/
def Settled (v : ClassView) (ancestors visited : List String) : Prop :=
  ∀ name ∈ visited, name ∈ ancestors ∨ v.Grounded name

theorem visitEach_grounded {visit : List String → String → Lookup (Option Unit × List String)} {ancestors : List String}
    (hvisit : ∀ name visited found visited', (visit visited name).result = .ok (found, visited') →
      v.Settled ancestors visited → found = none ∧ v.Grounded name ∧ v.Settled ancestors visited')
    {names visited visited' : List String} {found : Option Unit}
    (h : (visitEach visit visited names).result = .ok (found, visited')) (hvisited : v.Settled ancestors visited) :
    found = none ∧ (∀ name ∈ names, v.Grounded name) ∧ v.Settled ancestors visited' := by
  induction names generalizing visited with
  | nil =>
    cases h
    exact ⟨rfl, List.forall_mem_nil _, hvisited⟩
  | cons name rest ih =>
    obtain ⟨⟨found₁, visited₁⟩, hfirst, h⟩ := Lookup.bind_result.mp h
    obtain ⟨rfl, hname, hvisited₁⟩ := hvisit _ _ _ _ hfirst hvisited
    obtain ⟨rfl, hrest, hvisited'⟩ := ih h hvisited₁
    exact ⟨rfl, List.forall_mem_cons.mpr ⟨hname, hrest⟩, hvisited'⟩

/-- A class that could be visited is grounded: it was before, it does not stand in source, or all that is directly
    above it is grounded. It cannot be on the way, where the check would have failed. -/
theorem visit_grounded {more : Nat} {ancestors visited visited' : List String} {name : String} {found : Option Unit}
    (h : (v.visit start true (fun _ => none) more ancestors visited name).result = .ok (found, visited'))
    (hvisited : v.Settled ancestors visited) : found = none ∧ v.Grounded name ∧ v.Settled ancestors visited' := by
  have hcons : v.Grounded name → v.Settled ancestors (name :: visited) := fun hname =>
    List.forall_mem_cons.mpr ⟨.inr hname, hvisited⟩
  induction more generalizing ancestors visited name found visited' with
  | zero => cases h
  | succ more ih =>
    rw [visit] at h
    split at h
    · cases h
    · rename_i hnew
      split at h
      · rename_i hmem
        cases h
        exact ⟨rfl, (hvisited name (by simpa using hmem)).resolve_left (by simpa using hnew), hvisited⟩
      · split at h
        · rename_i hhost
          cases h
          have hname : v.Grounded name := ⟨_, fun parent hp => by simp [hp.1 rfl] at hhost⟩
          exact ⟨rfl, hname, hcons hname⟩
        · obtain ⟨cls, hcls, h⟩ := Lookup.bind_result.mp h
          have hstart : v.Settled (name :: ancestors) (name :: visited) :=
            List.forall_mem_cons.mpr ⟨.inl List.mem_cons_self,
              fun other hother => (hvisited other hother).imp_left (List.mem_cons_of_mem name)⟩
          obtain ⟨rfl, hparents, hvisited'⟩ := visitEach_grounded (v := v) (fun other visited₁ found₁ visited₂ h₁ hv₁ =>
            ih h₁ hv₁ fun hother => List.forall_mem_cons.mpr ⟨.inr hother, hv₁⟩) h hstart
          have hname : v.Grounded name := by
            refine ⟨_, fun parent hinherits => ?_⟩
            obtain ⟨-, cls', hcls', hp⟩ := hinherits
            cases hcls.symm.trans hcls'
            exact hparents parent hp
          refine ⟨rfl, hname, fun other hother => ?_⟩
          rcases hvisited' other hother with hmem | hother
          · rcases List.mem_cons.mp hmem with rfl | hmem
            · exact .inr hname
            · exact .inl hmem
          · exact .inr hother

theorem grounded_of_checkHierarchy {name : String} (h : (v.checkHierarchy name).result = .ok ()) : v.Grounded name := by
  obtain ⟨_, hwalk, -⟩ := Lookup.bind_result.mp h
  obtain ⟨⟨found, visited⟩, hvisit, -⟩ := Lookup.bind_result.mp hwalk
  exact (visit_grounded hvisit nofun).2.1

/-! ### A check that fails -/

/-- The check fails where a way comes back to a class which it has passed, or where one is too long. -/
def Faulty (v : ClassView) (start : String) : Prop :=
  v.Cyclic start ∨ ∃ ancestors name, v.Way true start ancestors name ∧ v.maxDepth < ancestors.length

theorem visitEach_error {visit : List String → String → Lookup (Option Unit × List String)} {P : CompileError → Prop}
    {names visited : List String} {e : CompileError}
    (hvisit : ∀ name ∈ names, ∀ visited, (visit visited name).result = .error e → P e)
    (h : (visitEach visit visited names).result = .error e) : P e := by
  induction names generalizing visited with
  | nil => cases h
  | cons name rest ih =>
    obtain ⟨hname, hrest⟩ := List.forall_mem_cons.mp hvisit
    rcases Lookup.bind_error.mp h with h | ⟨⟨found, visited₁⟩, -, h⟩
    · exact hname visited h
    · cases found with
      | none => exact ih hrest h
      | some _ => cases h

/-- A class that stands in source can be looked up, so the hierarchy is at fault for what has failed. -/
theorem visit_error (hsources : ∀ name, v.isSource name = true → ∃ cls, v.find name = .ok cls) {more : Nat}
    {ancestors visited : List String} {name : String} {e : CompileError}
    (h : (v.visit start true (fun _ => (none : Option Unit)) more ancestors visited name).result = .error e)
    (hway : v.Way true start ancestors name) (hmore : more + ancestors.length = v.maxDepth + 1) :
    (∃ fault, e = .malformedHierarchy start fault) ∧ v.Faulty start := by
  induction more generalizing ancestors visited name with
  | zero =>
    cases h
    exact ⟨⟨_, rfl⟩, .inr ⟨ancestors, name, hway, by omega⟩⟩
  | succ more ih =>
    rw [visit] at h
    split at h
    · rename_i hmem
      cases h
      exact ⟨⟨_, rfl⟩, .inl ⟨ancestors, name, hway, by simpa using hmem⟩⟩
    · split at h
      · cases h
      · split at h
        · cases h
        · rename_i hsource
          have hsource : v.isSource name = true := by simpa using hsource
          obtain ⟨cls, hcls⟩ := hsources name hsource
          rcases Lookup.bind_error.mp h with h | ⟨cls', hcls', h⟩
          · cases hcls.symm.trans h
          · cases hcls.symm.trans hcls'
            exact visitEach_error (P := fun e => (∃ fault, e = .malformedHierarchy start fault) ∧ v.Faulty start)
              (fun parent hparent visited' h' =>
                ih h' (hway.up ⟨fun _ => hsource, cls, hcls, hparent⟩) (by rw [List.length_cons]; omega)) h

theorem checkHierarchy_cases (hsources : ∀ name, v.isSource name = true → ∃ cls, v.find name = .ok cls) (name : String) :
    (v.checkHierarchy name).result = .ok () ∧ v.Grounded name ∨
      ∃ fault, (v.checkHierarchy name).result = .error (.malformedHierarchy name fault) ∧ v.Faulty name := by
  cases h : (v.checkHierarchy name).result with
  | ok u => exact .inl ⟨rfl, grounded_of_checkHierarchy h⟩
  | error e =>
    have hvisit : (v.visit name true (fun _ => (none : Option Unit)) (v.maxDepth + 1) [] [] name).result = .error e := by
      rcases Lookup.bind_error.mp h with h | ⟨_, -, h⟩
      · rcases Lookup.bind_error.mp h with h | ⟨_, -, h⟩
        · exact h
        · cases h
      · cases h
    obtain ⟨⟨fault, rfl⟩, hfaulty⟩ := visit_error hsources hvisit .start rfl
    exact .inr ⟨fault, rfl, hfaulty⟩

end ClassView

/-! ### Tables and batches -/

theorem ClassTable.find_of_isSource (t : ClassTable) (name : String) (h : t.view.isSource name = true) :
    ∃ cls, t.view.find name = .ok cls := by
  obtain ⟨r, hr⟩ := Option.isSome_iff_exists.mp h
  refine ⟨r.sig, ?_⟩
  change t.find name = _
  rw [ClassTable.find, hr]

namespace Compiler
variable {k k' : Compiler} {units : List CompilationUnit} {classes : List CompiledClass}

theorem checkHierarchy_of_outcome {classes : ClassView} {o : Options} {r : RegisteredUnit} {cls : CompiledClass}
    (h : outcome classes o (parts r) = .ok cls) : (classes.checkHierarchy r.registration.sig.name).result = .ok () := by
  obtain ⟨_, hcheck, -⟩ := Lookup.bind_result.mp h
  exact hcheck

/-- The hierarchies of all units of a batch have been checked, among the classes that are there when it is done. -/
theorem checkHierarchy_of_compileAll (h : k.compileAll units = (.ok classes, k')) {u : CompilationUnit}
    (hu : u ∈ units) : (k'.table.view.checkHierarchy u.decl.name.name).result = .ok () := by
  have hdeclares := k.declares_of_failures units
  have hlength := length_each registerUnit k units
  unfold compileAll at h
  generalize each registerUnit k units = registered at hdeclares hlength h
  obtain ⟨results, k₁⟩ := registered
  dsimp only at hdeclares hlength h
  split at h
  · cases h
  · rename_i hnone
    obtain ⟨houtcomes, hlookups⟩ := k₁.compileAll_results (successes results)
    have hcompiled := length_each compileRegistered k₁ (successes results)
    generalize each compileRegistered k₁ (successes results) = compiled at houtcomes hlookups hcompiled h
    obtain ⟨outcomes, k₂⟩ := compiled
    dsimp only at houtcomes hlookups hcompiled h
    split at h
    · cases h
    · rename_i hnone'
      cases h
      rw [length_successes hlength hnone] at hcompiled
      -- the class of the unit was registered, and what came of it was no failure
      obtain ⟨sig, hsig, imports, hdeclare⟩ :=
        exists_of_forall₂ (hdeclares ((failures_eq_nil hlength).mp hnone)).flip hu
      obtain ⟨r, hr, rfl⟩ := List.mem_map.mp hsig
      obtain ⟨cls, hcls⟩ := (failures_eq_nil hcompiled).mp hnone' _
        (houtcomes ▸ List.mem_map_of_mem (List.mem_map_of_mem hr))
      rw [hlookups.table.view_eq, ← Options.declare_name hdeclare]
      exact checkHierarchy_of_outcome hcls

end Compiler

/-- The check of a hierarchy fails if a cycle can be reached through classes that stand in source. If none can, and no
    such way is longer than a walk may go, it passes, however many ways lead to the same class. So no unit of a batch
    that was compiled is below a cycle. -/
theorem hierarchy_check_finds_cycles (t : ClassTable) (name : String) :
    (t.view.Cyclic name → ∃ fault, (t.view.checkHierarchy name).result = .error (.malformedHierarchy name fault)) ∧
      (¬t.view.Cyclic name → (∀ ancestors other, t.view.Way true name ancestors other → ancestors.length ≤ t.maxDepth) →
        (t.view.checkHierarchy name).result = .ok ()) ∧
      ∀ (k k' : Compiler) (units : List CompilationUnit) (classes : List CompiledClass),
        k.compileAll units = (.ok classes, k') → ∀ u ∈ units, ¬k'.table.view.Cyclic u.decl.name.name := by
  refine ⟨fun hcyclic => ?_, fun hnone hbound => ?_, fun k k' units classes hcompile u hu => ?_⟩
  · rcases ClassView.checkHierarchy_cases t.find_of_isSource name with ⟨-, hgrounded⟩ | ⟨fault, herror, -⟩
    · exact absurd hcyclic hgrounded.not_cyclic
    · exact ⟨fault, herror⟩
  · rcases ClassView.checkHierarchy_cases t.find_of_isSource name with ⟨hok, -⟩ | ⟨_, -, hcyclic | ⟨_, _, hway, hlong⟩⟩
    · exact hok
    · exact absurd hcyclic hnone
    · exact absurd (hbound _ _ hway) (Nat.not_le.mpr hlong)
  · exact (ClassView.grounded_of_checkHierarchy (Compiler.checkHierarchy_of_compileAll hcompile hu)).not_cyclic

/-- Two interfaces that extend each other, and one that extends the first of them. -/
def rounds : ClassTable :=
  let round (name parent : String) : ClassSig := { name, isInterface := true, interfaces := [parent] }
  { provider := .ofSignatures []
    sources :=
      [⟨0, round "demo/Door" "demo/Left"⟩, ⟨1, round "demo/Left" "demo/Right"⟩, ⟨2, round "demo/Right" "demo/Left"⟩] }

theorem hierarchy_check_finds_cycles_rounds :
    (rounds.view.Cyclic "demo/Door" ∧
        ∃ fault, (rounds.view.checkHierarchy "demo/Door").result = .error (.malformedHierarchy "demo/Door" fault)) ∧
      (¬figures.view.Cyclic "demo/Square" ∧
        (figures.view.checkHierarchy "demo/Square").result = .ok ()) ∧
      let compiled := (Compiler.ofProvider .platform {}).compileAll pairedUnits
      compiled.1.toBool = true ∧ ∀ u ∈ pairedUnits, ¬compiled.2.table.view.Cyclic u.decl.name.name := by
  have hcyclic : rounds.view.Cyclic "demo/Door" :=
    ⟨["demo/Right", "demo/Left", "demo/Door"], "demo/Left",
      .up (.up (.up .start ⟨fun _ => rfl, _, rfl, List.mem_cons_self⟩) ⟨fun _ => rfl, _, rfl, List.mem_cons_self⟩)
        ⟨fun _ => rfl, _, rfl, List.mem_cons_self⟩, by decide⟩
  have hbound ancestors other (h : figures.view.Way true "demo/Square" ancestors other) :
      ancestors.length ≤ figures.maxDepth :=
    calc ancestors.length ≤ ancestors.length + figureRank other := Nat.le_add_right _ _
      _ ≤ figureRank "demo/Square" := h.length_le (figureRank_lt true)
      _ ≤ figures.maxDepth := by decide
  have hnone : ¬figures.view.Cyclic "demo/Square" :=
    fun ⟨_, _, hway, hmem⟩ => hway.not_mem_of_bounded hbound hmem
  refine ⟨⟨hcyclic, (hierarchy_check_finds_cycles rounds "demo/Door").1 hcyclic⟩,
    ⟨hnone, (hierarchy_check_finds_cycles figures "demo/Square").2.1 hnone hbound⟩, ?_⟩
  have hok : ((Compiler.ofProvider .platform {}).compileAll pairedUnits).1.toBool = true := by decide +kernel
  obtain ⟨classes, k', hcompile⟩ := exists_ok_of_toBool hok
  refine ⟨hok, fun u hu => ?_⟩
  rw [hcompile]
  exact (hierarchy_check_finds_cycles rounds "demo/Door").2.2 _ _ _ _ hcompile u hu

end Classwright
