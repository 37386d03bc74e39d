import Classwright.Proofs.Compiler.Tables

/-! # Compiling all units or none

A compilation adds the classes of its units to the table, or it fails and leaves the sources as they were. What comes of
it depends on the classes that can be seen, and not on their serial numbers or on what has been asked before. -/

namespace Classwright

open Source (CompilationUnit)

/-- The unit declares the class. -/
def Options.Declares (o : Options) (u : CompilationUnit) (sig : ClassSig) : Prop :=
  ∃ imports, o.declare u = .ok (sig, imports)

namespace Compiler
variable {k k₁ k' : Compiler} {sigs sigs' : List ClassSig} {u : CompilationUnit} {units : List CompilationUnit}

/-- Classes have been registered with the compiler, and lookups made. -/
structure Extends (k : Compiler) (sigs : List ClassSig) (k' : Compiler) : Prop where
  options : k'.options = k.options
  table : k.table.Extends sigs k'.table

theorem Extends.refl (k : Compiler) : k.Extends [] k := ⟨rfl, .refl _⟩

theorem Extends.trans (h : k.Extends sigs k₁) (h' : k₁.Extends sigs' k') : k.Extends (sigs ++ sigs') k' :=
  ⟨h'.options.trans h.options, h.table.trans h'.table⟩

/-- The compiler has the sources that it had, whatever was tried in between. -/
structure Restores (k k' : Compiler) : Prop where
  options : k'.options = k.options
  table : k.table.Restores k'.table

theorem Extends.restores (h : k.Extends [] k') : k.Restores k' := ⟨h.options, h.table.restores⟩

theorem extends_lookup {α : Type} (k : Compiler) (x : ClassView → Lookup α) : k.Extends [] (k.lookup x).2 :=
  ⟨rfl, .settleAll _ _⟩

/-! ### Units -/

/-- What a unit that was registered gives to compile, its serial number aside. -/
def parts (r : RegisteredUnit) : CompilationUnit × ClassSig × Imports := (r.unit, r.registration.sig, r.imports)

/-- What comes of a unit where the classes in view are these. -/
def outcome (classes : ClassView) (o : Options) (part : CompilationUnit × ClassSig × Imports) :
    Except CompileError CompiledClass :=
  (Context.compile ⟨classes, part.2.2, part.2.1, o⟩ part.1).result

theorem register_cases (k : Compiler) (sig : ClassSig) :
    (k.table.isSource sig.name = true ∧ k.register sig = (.error (.duplicateClass sig.name), k)) ∨
      ∃ k', k.table.isSource sig.name = false ∧ k.register sig = (.ok ⟨k.table.next, sig⟩, k') ∧ k.Extends [sig] k' := by
  unfold register
  cases h : k.table.register sig with
  | error e =>
    unfold ClassTable.register at h
    split at h <;> cases h
    exact .inl ⟨‹_›, rfl⟩
  | ok p =>
    obtain ⟨r, table⟩ := p
    obtain ⟨rfl, hextends⟩ := ClassTable.Extends.register h
    exact .inr ⟨_, hextends.free sig (List.mem_singleton_self sig), rfl, rfl, hextends⟩

theorem registerUnit_cases (k : Compiler) (u : CompilationUnit) :
    (∃ e, k.registerUnit u = (.error e, k)) ∨ ∃ sig imports k', k.options.declare u = .ok (sig, imports) ∧
      k.registerUnit u = (.ok ⟨u, ⟨k.table.next, sig⟩, imports⟩, k') ∧ k.Extends [sig] k' := by
  unfold registerUnit
  cases hdeclare : k.options.declare u with
  | error e => exact .inl ⟨e, rfl⟩
  | ok p =>
    obtain ⟨sig, imports⟩ := p
    rcases k.register_cases sig with ⟨-, hregister⟩ | ⟨k', -, hregister, hextends⟩
    · exact .inl ⟨.duplicateClass sig.name, by simp only [hregister]; rfl⟩
    · exact .inr ⟨sig, imports, k', rfl, by simp only [hregister]; rfl, hextends⟩

/-- What was registered stands behind the sources that were there, and the next serial numbers were given out for it. -/
theorem registerAll_extends (k : Compiler) (units : List CompilationUnit) :
    let rs := successes (each registerUnit k units).1
    k.Extends (rs.map (·.registration.sig)) (each registerUnit k units).2 ∧
      rs.map (·.registration) = numbered k.table.next (rs.map (·.registration.sig)) := by
  induction units generalizing k with
  | nil => exact ⟨.refl k, rfl⟩
  | cons u units ih =>
    rcases k.registerUnit_cases u with ⟨e, hu⟩ | ⟨sig, imports, k₁, -, hu, hextends⟩
    · obtain ⟨hrest, hnumbered⟩ := ih k
      simp only [each, hu]
      exact ⟨hrest, hnumbered⟩
    · obtain ⟨hrest, hnumbered⟩ := ih k₁
      rw [hextends.table.next] at hnumbered
      simp only [each, hu]
      exact ⟨hextends.trans hrest, congrArg (_ :: ·) hnumbered⟩

theorem compileRegistered_extends (k : Compiler) (r : RegisteredUnit) : k.Extends [] (k.compileRegistered r).2 :=
  extends_lookup k _

theorem compileRegistered_result (k : Compiler) (r : RegisteredUnit) :
    (k.compileRegistered r).1 = outcome k.table.view k.options (parts r) := rfl

/-- Compiling units one after another does not change what they see. -/
theorem compileAll_results (k : Compiler) (rs : List RegisteredUnit) :
    (each compileRegistered k rs).1 = (rs.map parts).map (outcome k.table.view k.options) ∧
      k.Extends [] (each compileRegistered k rs).2 := by
  induction rs generalizing k with
  | nil => exact ⟨rfl, .refl k⟩
  | cons r rs ih =>
    have hone := k.compileRegistered_extends r
    obtain ⟨hresults, hrest⟩ := ih (k.compileRegistered r).2
    rw [hone.table.view_eq, hone.options] at hresults
    refine ⟨?_, hone.trans hrest⟩
    rw [List.map_cons, List.map_cons, ← hresults]
    rfl

/-! ### Roll-back -/

theorem unregisterAll_eq (k : Compiler) (rs : List RegisteredUnit) :
    k.unregisterAll rs = { k with table := (rs.map (·.registration)).foldl ClassTable.unregister k.table } := by
  induction rs generalizing k with
  | nil => rfl
  | cons r rs ih => exact ih (k.unregister r.registration)

theorem Extends.unregisterAll (h : k.Extends sigs k') {rs : List RegisteredUnit}
    (hrs : rs.map (·.registration) = numbered k.table.next sigs) : k.Restores (k'.unregisterAll rs) := by
  rw [unregisterAll_eq, hrs]
  exact ⟨h.options, h.table.unregisterAll⟩

/-- A compilation fails and leaves the sources as they were, or it adds the class of its unit. -/
theorem compile_cases (k : Compiler) (u : CompilationUnit) :
    (∃ e k', k.compile u = (.error e, k') ∧ k.Restores k') ∨
      ∃ cls sig k', k.compile u = (.ok cls, k') ∧ k.options.Declares u sig ∧ k.Extends [sig] k' := by
  unfold compile
  rcases k.registerUnit_cases u with ⟨e, hu⟩ | ⟨sig, imports, k₁, hdeclare, hu, hextends⟩
  · exact .inl ⟨e, k, by rw [hu], (Extends.refl k).restores⟩
  · have hlookup := k₁.compileRegistered_extends ⟨u, ⟨k.table.next, sig⟩, imports⟩
    rw [hu]
    dsimp only
    cases hr : k₁.compileRegistered ⟨u, ⟨k.table.next, sig⟩, imports⟩ with
    | mk result k₂ =>
      rw [hr] at hlookup
      have hboth : k.Extends [sig] k₂ := by simpa using hextends.trans hlookup
      have hback : k.Restores (k₂.unregisterAll [⟨u, ⟨k.table.next, sig⟩, imports⟩]) := hboth.unregisterAll rfl
      cases result with
      | error e => exact .inl ⟨e, _, rfl, hback⟩
      | ok cls => exact .inr ⟨cls, sig, k₂, rfl, ⟨imports, hdeclare⟩, hboth⟩

/-- Where no unit has failed to be registered, the classes are those that the units declare. -/
theorem declares_of_failures (k : Compiler) (units : List CompilationUnit)
    (h : ∀ result ∈ (each registerUnit k units).1, ∃ r, result = .ok r) :
    List.Forall₂ k.options.Declares units
      ((successes (each registerUnit k units).1).map (·.registration.sig)) := by
  induction units generalizing k with
  | nil => exact .nil
  | cons u units ih =>
    rcases k.registerUnit_cases u with ⟨e, hu⟩ | ⟨sig, imports, k₁, hdeclare, hu, hextends⟩
    · simp only [each, hu] at h
      obtain ⟨r, hr⟩ := h _ List.mem_cons_self
      cases hr
    · simp only [each, hu] at h ⊢
      refine .cons ⟨imports, hdeclare⟩ ?_
      have hrest := ih k₁ fun result hresult => h result (List.mem_cons_of_mem _ hresult)
      rwa [hextends.options] at hrest

theorem length_each {α β : Type} (step : Compiler → α → Except CompileError β × Compiler) (k : Compiler) (xs : List α) :
    (each step k xs).1.length = xs.length := by
  induction xs generalizing k with
  | nil => rfl
  | cons x xs ih =>
    simp only [each, List.length_cons, ih]

theorem failures_eq_nil {α : Type} {results : List (Except CompileError α)} (hlength : results.length = units.length) :
    failures units results = [] ↔ ∀ result ∈ results, ∃ a, result = .ok a := by
  unfold failures
  rw [List.filterMap_eq_nil_iff]
  constructor
  · intro h result hresult
    obtain ⟨i, hi, rfl⟩ := List.mem_iff_getElem.mp hresult
    have hu : i < units.length := hlength ▸ hi
    have hmem : ((units[i], results[i]), i) ∈ (units.zip results).zipIdx := by
      rw [List.mk_mem_zipIdx_iff_getElem?, List.getElem?_zip_eq_some]
      simp [hu, hi]
    have hone := h _ hmem
    dsimp only at hone
    split at hone
    · exact ⟨_, ‹_›⟩
    · cases hone
  · rintro h ⟨⟨u, result⟩, i⟩ hmem
    have hzip := List.getElem?_zip_eq_some.mp (List.mk_mem_zipIdx_iff_getElem?.mp hmem)
    obtain ⟨a, rfl⟩ := h result (List.mem_of_getElem? hzip.2)
    rfl

theorem map_successes (results : List (Except CompileError RegisteredUnit)) :
    (successes results).map parts = successes (results.map (·.map parts)) := by
  unfold successes
  rw [List.map_filterMap, List.filterMap_map]
  congr 1
  funext result
  cases result <;> rfl

theorem failures_map {α β : Type} (f : α → β) (units : List CompilationUnit) (results : List (Except CompileError α)) :
    failures units (results.map (·.map f)) = failures units results := by
  unfold failures
  rw [List.zip_map_right, List.zipIdx_map, List.filterMap_map]
  congr 1
  funext ⟨⟨u, result⟩, i⟩
  cases result <;> rfl

/-- A batch fails and leaves the sources as they were, or it adds the classes of all its units. -/
theorem compileAll_cases (k : Compiler) (units : List CompilationUnit) :
    (∃ e k', k.compileAll units = (.error e, k') ∧ k.Restores k') ∨
      ∃ classes sigs k', k.compileAll units = (.ok classes, k') ∧ List.Forall₂ k.options.Declares units sigs ∧
        k.Extends sigs k' := by
  obtain ⟨hextends, hnumbered⟩ := k.registerAll_extends units
  have hdeclares := k.declares_of_failures units
  have hlength := length_each registerUnit k units
  unfold compileAll
  generalize each registerUnit k units = registered at hextends hnumbered hdeclares hlength
  obtain ⟨results, k₁⟩ := registered
  dsimp only at hextends hnumbered hdeclares hlength ⊢
  split
  · exact .inl ⟨_, _, rfl, hextends.unregisterAll hnumbered⟩
  · rename_i hnone
    obtain ⟨-, hlookups⟩ := k₁.compileAll_results (successes results)
    generalize each compileRegistered k₁ (successes results) = compiled at hlookups
    obtain ⟨outcomes, k₂⟩ := compiled
    have hboth := hextends.trans hlookups
    rw [List.append_nil] at hboth
    dsimp only
    split
    · exact .inl ⟨_, _, rfl, hboth.unregisterAll hnumbered⟩
    · exact .inr ⟨_, _, k₂, rfl, hdeclares ((failures_eq_nil hlength).mp hnone), hboth⟩

/-! ### Compilers that cannot be told apart -/

/-- The compilers see the same classes. -/
structure Alike (k k' : Compiler) : Prop where
  options : k'.options = k.options
  provider : k'.table.provider = k.table.provider
  maxDepth : k'.table.maxDepth = k.table.maxDepth
  honest : k.table.Honest
  honest' : k'.table.Honest
  sources : k'.table.sources.map (·.sig) = k.table.sources.map (·.sig)

namespace Alike
variable {l l' : Compiler}

theorem view_eq (h : k.Alike k') : k'.table.view = k.table.view :=
  h.honest.view_eq h.honest' h.provider h.maxDepth h.sources

theorem isSource_eq (h : k.Alike k') (name : String) : k'.table.isSource name = k.table.isSource name :=
  congrFun (congrArg ClassView.isSource h.view_eq) name

theorem extend (h : k.Alike k') (hl : k.Extends sigs l) (hl' : k'.Extends sigs l') : l.Alike l' where
  options := by rw [hl'.options, hl.options, h.options]
  provider := by rw [hl'.table.provider, hl.table.provider, h.provider]
  maxDepth := by rw [hl'.table.maxDepth, hl.table.maxDepth, h.maxDepth]
  honest := hl.table.honest h.honest
  honest' := hl'.table.honest h.honest'
  sources := by
    rw [hl'.table.sources, hl.table.sources, List.map_append, List.map_append, map_sig_numbered, map_sig_numbered,
      h.sources]

theorem lookup_eq (h : k.Alike k') {α : Type} (x : ClassView → Lookup α) : (k'.lookup x).1 = (k.lookup x).1 := by
  change (x k'.table.view).result = (x k.table.view).result
  rw [h.view_eq]

theorem registerUnit (h : k.Alike k') (u : CompilationUnit) :
    (k'.registerUnit u).1.map parts = (k.registerUnit u).1.map parts ∧ (k.registerUnit u).2.Alike (k'.registerUnit u).2 := by
  unfold Compiler.registerUnit
  rw [h.options]
  cases k.options.declare u with
  | error e => exact ⟨rfl, h⟩
  | ok p =>
    obtain ⟨sig, imports⟩ := p
    have hsource := h.isSource_eq sig.name
    dsimp only
    rcases k.register_cases sig with ⟨ht, hr⟩ | ⟨l, ht, hr, hextends⟩ <;>
      rcases k'.register_cases sig with ⟨ht', hr'⟩ | ⟨l', ht', hr', hextends'⟩
    · rw [hr, hr']
      exact ⟨rfl, h⟩
    · rw [ht, ht'] at hsource
      cases hsource
    · rw [ht, ht'] at hsource
      cases hsource
    · rw [hr, hr']
      exact ⟨rfl, h.extend hextends hextends'⟩

theorem registerAll (h : k.Alike k') (units : List CompilationUnit) :
    (each Compiler.registerUnit k' units).1.map (·.map parts) = (each Compiler.registerUnit k units).1.map (·.map parts) ∧
      (each Compiler.registerUnit k units).2.Alike (each Compiler.registerUnit k' units).2 := by
  induction units generalizing k k' with
  | nil => exact ⟨rfl, h⟩
  | cons u units ih =>
    obtain ⟨hone, hnext⟩ := h.registerUnit u
    obtain ⟨hresults, hrest⟩ := ih hnext
    simp only [each, List.map_cons]
    exact ⟨by rw [hone, hresults], hrest⟩

theorem compile_eq (h : k.Alike k') (u : CompilationUnit) : (k'.compile u).1 = (k.compile u).1 := by
  obtain ⟨hresult, hnext⟩ := h.registerUnit u
  unfold Compiler.compile
  generalize k.registerUnit u = p at hresult hnext
  generalize k'.registerUnit u = p' at hresult hnext
  obtain ⟨result, l⟩ := p
  obtain ⟨result', l'⟩ := p'
  cases result with
  | error e =>
    cases result' with
    | error e' =>
      cases hresult
      rfl
    | ok r' => cases hresult
  | ok r =>
    cases result' with
    | error e' => cases hresult
    | ok r' =>
      have hparts : parts r' = parts r := Except.ok.inj hresult
      have hsame : (l'.compileRegistered r').1 = (l.compileRegistered r).1 := by
        rw [compileRegistered_result, compileRegistered_result, hnext.view_eq, hnext.options, hparts]
      dsimp only
      generalize l.compileRegistered r = c at hsame
      generalize l'.compileRegistered r' = c' at hsame
      obtain ⟨x, l₁⟩ := c
      obtain ⟨x', l₁'⟩ := c'
      obtain rfl : x' = x := hsame
      cases x' <;> rfl

theorem compileAll_eq (h : k.Alike k') (units : List CompilationUnit) :
    (k'.compileAll units).1 = (k.compileAll units).1 := by
  obtain ⟨hresults, hnext⟩ := h.registerAll units
  unfold Compiler.compileAll
  generalize each Compiler.registerUnit k units = p at hresults hnext
  generalize each Compiler.registerUnit k' units = p' at hresults hnext
  obtain ⟨results, l⟩ := p
  obtain ⟨results', l'⟩ := p'
  dsimp only at hresults hnext ⊢
  have hfailures : failures units results' = failures units results := by
    rw [← failures_map parts, hresults, failures_map]
  have hparts : (successes results').map parts = (successes results).map parts := by
    rw [map_successes, hresults, map_successes]
  rw [hfailures]
  split
  · rfl
  · have hsame : (each compileRegistered l' (successes results')).1 = (each compileRegistered l (successes results)).1 := by
      have hleft := (l'.compileAll_results (successes results')).1
      have hright := (l.compileAll_results (successes results)).1
      rw [hleft, hright, hnext.view_eq, hnext.options, hparts]
    generalize each compileRegistered l (successes results) = c at hsame
    generalize each compileRegistered l' (successes results') = c' at hsame
    obtain ⟨xs, l₁⟩ := c
    obtain ⟨xs', l₁'⟩ := c'
    obtain rfl : xs' = xs := hsame
    dsimp only
    split <;> rfl

end Alike

end Compiler

end Classwright
