import Classwright.Proofs.Compiler.Batches
import Classwright.Proofs.Compiler.Declared
import Mathlib.Data.List.Induction

/-! # Batches in any order

The units of a batch may be registered in any order, and once all are registered they may be compiled in any order. If
their classes have different names, each unit meets with the same result, wherever it stands in the batch: what a unit
declares follows from the unit, and what it sees in the table follows from the set of classes that are there. -/

namespace Classwright

open Source (CompilationUnit)

/-! ### Lists in another order -/

/-- Walking through all places of a list gives the list. -/
theorem filterMap_getElem?_range {α : Type} (xs : List α) : (List.range xs.length).filterMap (xs[·]?) = xs := by
  induction xs using List.reverseRecOn with
  | nil => rfl
  | append_singleton xs x ih =>
    have hfront : (List.range xs.length).filterMap ((xs ++ [x])[·]?) = (List.range xs.length).filterMap (xs[·]?) :=
      List.filterMap_congr fun i hi => List.getElem?_append_left (List.mem_range.mp hi)
    rw [List.length_append, List.length_singleton, List.range_succ, List.filterMap_append, hfront, ih]
    simp

/-- What is noted of each place, in whatever order, can be looked up by the place. -/
theorem lookup_zip_map {α β : Type} (f : α → β) (xs : List α) (order : List Nat) (horder : ∀ i ∈ order, i < xs.length)
    (i : Nat) (hi : i ∈ order) :
    (order.zip ((order.filterMap (xs[·]?)).map f)).lookup i = (xs[i]?).map f := by
  induction order with
  | nil => cases hi
  | cons j order ih =>
    obtain ⟨hj, horder⟩ := List.forall_mem_cons.mp horder
    have hget : xs[j]? = some xs[j] := List.getElem?_eq_getElem hj
    rw [List.filterMap_cons_some hget, List.map_cons, List.zip_cons_cons, List.lookup_cons]
    cases heq : i == j with
    | true => rw [eq_of_beq heq, hget, Option.map_some]
    | false => exact ih horder ((List.mem_cons.mp hi).resolve_left (ne_of_beq_false heq))

theorem lookup_zip_map_right {α β : Type} (f : α → β) (places : List Nat) (xs : List α) (i : Nat) :
    (places.zip (xs.map f)).lookup i = ((places.zip xs).lookup i).map f := by
  induction places generalizing xs with
  | nil => rfl
  | cons j places ih =>
    cases xs with
    | nil => rfl
    | cons x xs =>
      rw [List.map_cons, List.zip_cons_cons, List.zip_cons_cons, List.lookup_cons, List.lookup_cons]
      cases i == j with
      | true => rfl
      | false => exact ih xs

/-! ### Names -/

theorem Options.declare_name {o : Options} {u : CompilationUnit} {sig : ClassSig} {imports : Imports}
    (h : o.declare u = .ok (sig, imports)) : sig.name = u.decl.name.name := by
  obtain ⟨fields, -, h⟩ := bind_eq_ok.mp (Options.declare_eq_ok h).2
  obtain ⟨methods, -, h⟩ := bind_eq_ok.mp h
  cases h
  rfl

namespace ClassTable

theorem find?_name_eq_some {sigs : List ClassSig} (hnames : (sigs.map (·.name)).Nodup) {name : String} {sig : ClassSig} :
    sigs.find? (·.name == name) = some sig ↔ sig ∈ sigs ∧ sig.name = name := by
  constructor
  · intro h
    exact ⟨List.mem_of_find?_eq_some h, by simpa using List.find?_some h⟩
  · rintro ⟨hmem, rfl⟩
    cases hfind : sigs.find? (·.name == sig.name) with
    | none => simpa using List.find?_eq_none.mp hfind sig hmem
    | some sig' =>
      have hname : sig'.name = sig.name := by simpa using List.find?_some hfind
      rw [List.inj_on_of_nodup_map hnames (List.mem_of_find?_eq_some hfind) hmem hname]

/-- The order of registrations cannot be seen. -/
theorem Extends.view_perm {t t₁ t₂ : ClassTable} {sigs sigs' : List ClassSig} (h : t.Extends sigs t₁)
    (h' : t.Extends sigs' t₂) (hperm : sigs'.Perm sigs) : t₁.view = t₂.view := by
  have hfind (name : String) : sigs.find? (·.name == name) = sigs'.find? (·.name == name) := by
    ext sig
    rw [find?_name_eq_some h.names, find?_name_eq_some h'.names, hperm.mem_iff]
  refine view_congr (fun name => ?_) (h.maxDepth.trans h'.maxDepth.symm) fun name => ?_
  · rw [h.answer, h'.answer]
  · rw [h.map_source?, h'.map_source?, hfind]

end ClassTable

namespace Compiler
variable {k k' : Compiler} {α β γ : Type} {units units' : List CompilationUnit} {order : List Nat}

/-! ### Schedules -/

/-- Does the same with each item, in the order in which `order` names their places. The results are listed by place. -/
def eachIn (order : List Nat) (step : Compiler → α → Except CompileError β × Compiler) (k : Compiler) (items : List α) :
    List (Except CompileError β) × Compiler :=
  let (results, k) := each step k (order.filterMap (items[·]?))
  ((List.range items.length).filterMap ((order.zip results).lookup ·), k)

/-- Compiles all units or none. They are registered in the order `first` and then compiled in the order `second`. -/
def compileAllIn (k : Compiler) (first second : List Nat) (units : List CompilationUnit) :
    Except BatchError (List CompiledClass) × Compiler :=
  let (registered, k) := eachIn first registerUnit k units
  match failures units registered with
  | f :: fs => (.error ⟨f :: fs⟩, k.unregisterAll (successes registered))
  | [] =>
    let (compiled, k) := eachIn second compileRegistered k (successes registered)
    match failures units compiled with
    | f :: fs => (.error ⟨f :: fs⟩, k.unregisterAll (successes registered))
    | [] => (.ok (successes compiled), k)

/-- A schedule goes through all items. -/
theorem scheduled_perm {items : List α} (horder : order.Perm (List.range items.length)) :
    (order.filterMap (items[·]?)).Perm items := by
  have hall := horder.filterMap (items[·]?)
  rwa [filterMap_getElem?_range] at hall

/-- Where the result for an item depends on the item alone, up to `g`, the order of the work does not show. -/
theorem eachIn_results {step : Compiler → α → Except CompileError β × Compiler} {items : List α}
    {g : Except CompileError β → γ} {f : α → γ} (horder : order.Perm (List.range items.length))
    (hstep : (each step k (order.filterMap (items[·]?))).1.map g = (order.filterMap (items[·]?)).map f) :
    (eachIn order step k items).1.map g = items.map f := by
  have hplaces : ∀ i ∈ order, i < items.length := fun i hi => List.mem_range.mp (horder.mem_iff.mp hi)
  have hnoted (i : Nat) (hi : i ∈ List.range items.length) :
      ((order.zip (each step k (order.filterMap (items[·]?))).1).lookup i).map g = (items[i]?).map f := by
    rw [← lookup_zip_map_right, hstep]
    exact lookup_zip_map f items order hplaces i (horder.mem_iff.mpr hi)
  calc (eachIn order step k items).1.map g
      = (List.range items.length).filterMap
          fun i => ((order.zip (each step k (order.filterMap (items[·]?))).1).lookup i).map g := List.map_filterMap
    _ = (List.range items.length).filterMap fun i => (items[i]?).map f := List.filterMap_congr hnoted
    _ = items.map f := by rw [← List.map_filterMap, filterMap_getElem?_range]

theorem eachIn_range (step : Compiler → α → Except CompileError β × Compiler) (k : Compiler) (items : List α) :
    eachIn (List.range items.length) step k items = each step k items := by
  have hlength := length_each step k items
  unfold eachIn
  rw [filterMap_getElem?_range]
  generalize each step k items = p at hlength
  obtain ⟨results, k'⟩ := p
  dsimp only at hlength ⊢
  have hnoted (i : Nat) (hi : i ∈ List.range results.length) :
      ((List.range results.length).zip results).lookup i = results[i]? := by
    have hi' := lookup_zip_map id results (List.range results.length) (fun _ => List.mem_range.mp) i hi
    rwa [filterMap_getElem?_range, List.map_id, Option.map_id_apply] at hi'
  rw [← hlength, List.filterMap_congr hnoted, filterMap_getElem?_range]

theorem length_successes {results : List (Except CompileError α)} (hlength : results.length = units.length)
    (hnone : failures units results = []) : (successes results).length = units.length := by
  have hall := (failures_eq_nil hlength).mp hnone
  rw [← hlength]
  refine List.filterMap_length_eq_length.mpr fun result hresult => ?_
  obtain ⟨a, rfl⟩ := hall result hresult
  rfl

/-- The order of the batch itself is the one that `compileAll` takes. -/
theorem compileAllIn_range (k : Compiler) (units : List CompilationUnit) :
    k.compileAllIn (List.range units.length) (List.range units.length) units = k.compileAll units := by
  have hlength := length_each registerUnit k units
  unfold compileAllIn compileAll
  rw [eachIn_range]
  generalize each registerUnit k units = p at hlength
  obtain ⟨registered, k₁⟩ := p
  dsimp only at hlength ⊢
  cases hnone : failures units registered with
  | cons f fs => rfl
  | nil =>
    have hcompiled := eachIn_range compileRegistered k₁ (successes registered)
    rw [length_successes hlength hnone] at hcompiled
    generalize eachIn (List.range units.length) compileRegistered k₁ (successes registered) = compiled at hcompiled
    subst hcompiled
    rfl

/-! ### Registering -/

/-- What a unit declares, if the table has no class of the name. -/
def declared (k : Compiler) (u : CompilationUnit) : Except CompileError (CompilationUnit × ClassSig × Imports) := do
  let (sig, imports) ← k.options.declare u
  if k.table.isSource sig.name then throw (.duplicateClass sig.name)
  return (u, sig, imports)

theorem registerUnit_result (k : Compiler) (u : CompilationUnit) : (k.registerUnit u).1.map parts = k.declared u := by
  unfold registerUnit declared
  cases k.options.declare u with
  | error e => rfl
  | ok p =>
    obtain ⟨sig, imports⟩ := p
    rw [ok_bind]
    dsimp only
    rcases k.register_cases sig with ⟨hsource, hr⟩ | ⟨k', hsource, hr, -⟩
    · rw [hr, hsource]
      rfl
    · rw [hr, hsource]
      rfl

/-- A unit is registered without regard to another whose class has another name. -/
theorem declared_registerUnit {u u' : CompilationUnit} (hne : u.decl.name.name ≠ u'.decl.name.name) :
    (k.registerUnit u).2.declared u' = k.declared u' := by
  rcases k.registerUnit_cases u with ⟨e, hu⟩ | ⟨sig, imports, k₁, hdeclare, hu, hextends⟩
  · rw [hu]
  · rw [hu]
    unfold declared
    rw [hextends.options]
    cases hdeclare' : k.options.declare u' with
    | error e => rfl
    | ok p =>
      obtain ⟨sig', imports'⟩ := p
      have hother : sig.name ≠ sig'.name := by
        rw [Options.declare_name hdeclare, Options.declare_name hdeclare']
        exact hne
      have hsource : k₁.table.isSource sig'.name = k.table.isSource sig'.name := by
        rw [Bool.eq_iff_iff, ← not_iff_not, Bool.not_eq_true, Bool.not_eq_true, hextends.table.isSource_eq_false]
        simp [hother]
      rw [ok_bind, ok_bind]
      dsimp only
      rw [hsource]

theorem registerAll_results (k : Compiler) (hnames : (units.map (·.decl.name.name)).Nodup) :
    (each registerUnit k units).1.map (·.map parts) = units.map k.declared := by
  induction units generalizing k with
  | nil => rfl
  | cons u units ih =>
    obtain ⟨hu, hnames⟩ := List.nodup_cons.mp hnames
    have hrest : units.map (k.registerUnit u).2.declared = units.map k.declared :=
      List.map_congr_left fun u' hu' => declared_registerUnit fun heq => hu (List.mem_map.mpr ⟨u', hu', heq.symm⟩)
    simp only [each, List.map_cons, registerUnit_result, ih _ hnames, hrest]

/-! ### What is in view -/

/-- The classes in view once units have been registered. -/
def seeing (k : Compiler) (units : List CompilationUnit) : ClassView := (each registerUnit k units).2.table.view

/-- The order in which units were registered cannot be seen. -/
theorem seeing_perm (k : Compiler) (hnames : (units.map (·.decl.name.name)).Nodup) (hperm : units.Perm units') :
    k.seeing units' = k.seeing units := by
  have hsigs {units : List CompilationUnit} (hnames : (units.map (·.decl.name.name)).Nodup) :
      (successes (each registerUnit k units).1).map (·.registration.sig) =
        (successes (units.map k.declared)).map (·.2.1) := by
    rw [← registerAll_results k hnames, ← map_successes, List.map_map]
    rfl
  have hextends := (k.registerAll_extends units).1
  have hextends' := (k.registerAll_extends units').1
  rw [hsigs hnames] at hextends
  rw [hsigs ((hperm.map _).nodup_iff.mp hnames)] at hextends'
  exact hextends'.table.view_perm hextends.table (((hperm.map _).filterMap _).map _)

/-! ### Results -/

/-- All results, or the failures among them. -/
def collect (units : List CompilationUnit) (results : List (Except CompileError α)) : Except BatchError (List α) :=
  match failures units results with
  | f :: fs => .error ⟨f :: fs⟩
  | [] => .ok (successes results)

/-- A batch comes to what its units declare and to what comes of that in sight of all of them. -/
theorem compileAllIn_result (k : Compiler) {first second : List Nat} (hnames : (units.map (·.decl.name.name)).Nodup)
    (hfirst : first.Perm (List.range units.length)) (hsecond : second.Perm (List.range units.length)) :
    (k.compileAllIn first second units).1 =
      collect units (units.map k.declared) >>= fun ps => collect units (ps.map (outcome (k.seeing units) k.options)) := by
  have hscheduled := scheduled_perm hfirst
  have hregistered : (eachIn first registerUnit k units).1.map (·.map parts) = units.map k.declared :=
    eachIn_results hfirst (registerAll_results k ((hscheduled.map _).nodup_iff.mpr hnames))
  have hoptions : (eachIn first registerUnit k units).2.options = k.options := (k.registerAll_extends _).1.options
  have hview : (eachIn first registerUnit k units).2.table.view = k.seeing units :=
    seeing_perm k hnames hscheduled.symm
  unfold compileAllIn collect
  rw [← hregistered, failures_map, ← map_successes]
  generalize eachIn first registerUnit k units = p at hregistered hoptions hview
  obtain ⟨registered, k₁⟩ := p
  dsimp only at hregistered hoptions hview ⊢
  split
  · rfl
  · rename_i hnone
    have hlength : registered.length = units.length := by simpa using congrArg List.length hregistered
    have hcompiled : (eachIn second compileRegistered k₁ (successes registered)).1 =
        ((successes registered).map parts).map (outcome (k.seeing units) k.options) := by
      have hresults : (eachIn second compileRegistered k₁ (successes registered)).1.map id =
          (successes registered).map (outcome k₁.table.view k₁.options ∘ parts) := by
        refine eachIn_results ?_ ?_
        · rw [length_successes hlength hnone]
          exact hsecond
        · rw [List.map_id, (k₁.compileAll_results _).1, List.map_map]
      rwa [List.map_id, hview, hoptions, ← List.map_map] at hresults
    rw [ok_bind, ← hcompiled]
    generalize eachIn second compileRegistered k₁ (successes registered) = c
    obtain ⟨compiled, k₂⟩ := c
    dsimp only
    split <;> rfl

/-- The failures of units, in the order of the units, where `errorOf` says what was wrong with a unit. -/
def failuresOf (errorOf : CompilationUnit → Option CompileError) (units : List CompilationUnit) : List UnitFailure :=
  units.zipIdx.filterMap fun (u, index) => (errorOf u).map (⟨index, u.decl.name.name, ·⟩)

/-- Two orders of a batch came to the same: both succeeded and each unit has one class in both, or both failed and
    each unit has one error in both, or none. -/
inductive Agree (units units' : List CompilationUnit) : Except BatchError (List α) → Except BatchError (List α) → Prop
  | ok (classOf : CompilationUnit → Option α) {xs xs' : List α} (h : units.map classOf = xs.map some)
      (h' : units'.map classOf = xs'.map some) : Agree units units' (.ok xs) (.ok xs')
  | error (errorOf : CompilationUnit → Option CompileError) :
      Agree units units' (.error ⟨failuresOf errorOf units⟩) (.error ⟨failuresOf errorOf units'⟩)

/-- What was wrong, if anything was. -/
def error? : Except CompileError α → Option CompileError
  | .ok _ => none
  | .error e => some e

theorem failures_map_units (f : CompilationUnit → Except CompileError α) (units : List CompilationUnit) :
    failures units (units.map f) = failuresOf (fun u => error? (f u)) units := by
  unfold failures failuresOf
  rw [← List.map_prod_left_eq_zip, List.zipIdx_map, List.filterMap_map]
  congr 1
  funext ⟨u, i⟩
  cases hf : f u <;> simp [hf, error?]

theorem collect_ok {f : CompilationUnit → Except CompileError α} (h : ∀ u ∈ units, ∃ x, f u = .ok x) :
    ∃ xs, collect units (units.map f) = .ok xs ∧ units.map f = xs.map .ok := by
  have hall : ∀ result ∈ units.map f, ∃ x, result = .ok x := List.forall_mem_map.mpr h
  refine ⟨successes (units.map f), ?_, ?_⟩
  · rw [collect, (failures_eq_nil (List.length_map f)).mpr hall]
  · generalize units.map f = results at hall
    induction results with
    | nil => rfl
    | cons result results ih =>
      obtain ⟨⟨x, rfl⟩, hrest⟩ := List.forall_mem_cons.mp hall
      exact congrArg (_ :: ·) (ih hrest)

theorem collect_error {f : CompilationUnit → Except CompileError α} (h : ¬∀ u ∈ units, ∃ x, f u = .ok x) :
    collect units (units.map f) = .error ⟨failuresOf (fun u => error? (f u)) units⟩ := by
  rw [← failures_map_units, collect]
  split
  · rename_i hsome
    rw [hsome]
  · rename_i hnone
    exact absurd (List.forall_mem_map.mp ((failures_eq_nil (List.length_map f)).mp hnone)) h

theorem Agree.collect (f : CompilationUnit → Except CompileError α) (hperm : units.Perm units') :
    Agree units units' (collect units (units.map f)) (collect units' (units'.map f)) := by
  by_cases h : ∀ u ∈ units, ∃ x, f u = .ok x
  · obtain ⟨xs, hxs, hmap⟩ := collect_ok h
    obtain ⟨xs', hxs', hmap'⟩ := collect_ok fun u hu => h u (hperm.mem_iff.mpr hu)
    have hvalues {units : List CompilationUnit} {xs : List α} (h : units.map f = xs.map .ok) :
        units.map (fun u => (f u).toOption) = xs.map some := by
      have hoptions := congrArg (List.map Except.toOption) h
      rwa [List.map_map, List.map_map] at hoptions
    rw [hxs, hxs']
    exact .ok _ (hvalues hmap) (hvalues hmap')
  · rw [collect_error h, collect_error fun h' => h fun u hu => h' u (hperm.mem_iff.mp hu)]
    exact .error _

theorem Agree.collect_bind (f : CompilationUnit → Except CompileError α) (g : α → Except CompileError β)
    (hperm : units.Perm units') :
    Agree units units' (Compiler.collect units (units.map f) >>= fun xs => Compiler.collect units (xs.map g))
      (Compiler.collect units' (units'.map f) >>= fun xs => Compiler.collect units' (xs.map g)) := by
  by_cases h : ∀ u ∈ units, ∃ x, f u = .ok x
  · obtain ⟨xs, hxs, hmap⟩ := collect_ok h
    obtain ⟨xs', hxs', hmap'⟩ := collect_ok fun u hu => h u (hperm.mem_iff.mpr hu)
    have hvalues {units : List CompilationUnit} {xs : List α} (h : units.map f = xs.map .ok) :
        xs.map g = units.map fun u => f u >>= g := by
      have hresults := congrArg (List.map (· >>= g)) h
      rw [List.map_map, List.map_map] at hresults
      exact hresults.symm
    rw [hxs, hxs', ok_bind, ok_bind, hvalues hmap, hvalues hmap']
    exact .collect _ hperm
  · rw [collect_error h, collect_error fun h' => h fun u hu => h' u (hperm.mem_iff.mp hu)]
    exact .error _

end Compiler

/-- What comes of a batch whose classes have different names does not depend on the order of its units, nor on the
    orders in which they are registered and then compiled. Left to itself the compiler does both in the order of the
    batch. -/
theorem batch_order_irrelevant (k : Compiler) {units units' : List CompilationUnit} {first second : List Nat}
    (hnames : (units.map (·.decl.name.name)).Nodup) (hperm : units.Perm units')
    (hfirst : first.Perm (List.range units'.length)) (hsecond : second.Perm (List.range units'.length)) :
    k.compileAllIn (List.range units.length) (List.range units.length) units = k.compileAll units ∧
      Compiler.Agree units units' (k.compileAll units).1 (k.compileAllIn first second units').1 := by
  have hnames' : (units'.map (·.decl.name.name)).Nodup := (hperm.map _).nodup_iff.mp hnames
  refine ⟨k.compileAllIn_range units, ?_⟩
  rw [← Compiler.compileAllIn_range, Compiler.compileAllIn_result k hnames (.refl _) (.refl _),
    Compiler.compileAllIn_result k hnames' hfirst hsecond, Compiler.seeing_perm k hnames hperm]
  exact .collect_bind _ _ hperm

/-- A class that calls a method which its derived class inherits from it, and that class. -/
def pairedUnits : List CompilationUnit :=
  let call : Source.Term := ⟨[], .chain [.name ⟨"demo/Pong", {}⟩, .call ⟨⟨"ping", {}⟩, [], {}⟩] {}, {}⟩
  let unit (name : String) (base : Option String) (method : String) : CompilationUnit :=
    { imports := []
      decl :=
        { name := ⟨name, {}⟩, isInterface := false, base := base.map (⟨·, {}⟩), interfaces := [], fields := []
          methods := [⟨⟨method, {}⟩, .ofText "void", [], true, false, some [.expr call.toMath.toAnd.toExpr], [], {}⟩]
          annotations := []
          span := {} } }
  [unit "demo/Ping" none "ping", unit "demo/Pong" (some "demo/Ping") "pong"]

theorem batch_order_irrelevant_paired :
    let k := Compiler.ofProvider .platform {}
    (k.compileAll pairedUnits).1.toBool = true ∧
      k.compileAllIn (List.range pairedUnits.length) (List.range pairedUnits.length) pairedUnits =
        k.compileAll pairedUnits ∧
      Compiler.Agree pairedUnits pairedUnits.reverse (k.compileAll pairedUnits).1
        (k.compileAllIn [1, 0] [0, 1] pairedUnits.reverse).1 :=
  ⟨by decide +kernel, batch_order_irrelevant _ (by decide +kernel) (List.reverse_perm _).symm (by decide) (by decide)⟩

end Classwright
