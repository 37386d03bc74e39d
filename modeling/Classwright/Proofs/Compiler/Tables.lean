import Classwright.Compiler.Basic
import Classwright.Proofs.Results
import Mathlib.Data.List.Nodup

/-! # What compiling does to a class table

Registering a class puts it behind those that are in the table, under the next serial number. Lookups change nothing but
what is remembered of the provider, and what is remembered is what the provider would say again. So the classes that
can be seen depend on the sources alone, and taking back what a batch has registered restores them. -/

namespace Classwright

open Source (CompilationUnit)

/-- Classes under serial numbers from `n` on. -/
def numbered (n : Nat) : List ClassSig → List Registration
  | [] => []
  | sig :: rest => ⟨n, sig⟩ :: numbered (n + 1) rest

theorem numbered_append (n : Nat) (sigs sigs' : List ClassSig) :
    numbered n (sigs ++ sigs') = numbered n sigs ++ numbered (n + sigs.length) sigs' := by
  induction sigs generalizing n with
  | nil => rfl
  | cons sig sigs ih =>
    rw [List.cons_append, numbered, ih, List.length_cons, Nat.add_right_comm, Nat.add_assoc]
    rfl

theorem map_sig_numbered (n : Nat) (sigs : List ClassSig) : (numbered n sigs).map (·.sig) = sigs := by
  induction sigs generalizing n with
  | nil => rfl
  | cons sig sigs ih => rw [numbered, List.map_cons, ih]

theorem serial_of_mem_numbered {n : Nat} {sigs : List ClassSig} {r : Registration} (h : r ∈ numbered n sigs) :
    n ≤ r.serial ∧ r.serial < n + sigs.length := by
  induction sigs generalizing n with
  | nil => cases h
  | cons sig sigs ih =>
    rcases List.mem_cons.mp h with rfl | h
    · simp
    · obtain ⟨hle, hlt⟩ := ih h
      rw [List.length_cons]
      omega

namespace ClassTable
variable {t t₁ t' : ClassTable} {sig : ClassSig} {sigs sigs' : List ClassSig} {r : Registration} {name : String}

/-! ### Sources -/

theorem source?_eq_some (h : t.source? name = some r) : r ∈ t.sources ∧ r.sig.name = name :=
  ⟨List.mem_of_find?_eq_some h, by simpa using List.find?_some h⟩

theorem isSource_eq_false : t.isSource name = false ↔ ∀ r ∈ t.sources, r.sig.name ≠ name := by
  simp [isSource, source?]

/-- The class of a name that stands in source, as it is among all of them. -/
theorem map_source? (t : ClassTable) (name : String) :
    (t.source? name).map (·.sig) = (t.sources.map (·.sig)).find? (·.name == name) := by
  rw [source?, List.find?_map]
  rfl

/-! ### What is remembered -/

/-- What is remembered is what the provider says. -/
def Honest (t : ClassTable) : Prop := ∀ name answer, t.known.lookup name = some answer → t.provider name = .ok answer

theorem Honest.answer_eq (h : t.Honest) (name : String) : t.answer name = t.provider name := by
  unfold answer
  split
  · rename_i known hknown
    exact (h name known hknown).symm
  · rfl

theorem Honest.settle (h : t.Honest) (name : String) : (t.settle name).Honest := by
  unfold ClassTable.settle
  split
  · exact h
  · dsimp only
    split
    · rename_i answer hanswer
      intro other known hlookup
      rw [show ({ t with loads := t.loads + 1 } : ClassTable).known = t.known from rfl, List.lookup_append,
        List.lookup_cons] at hlookup
      rcases Option.or_eq_some_iff.mp hlookup with hlookup | ⟨-, hlookup⟩
      · exact h other known hlookup
      · split at hlookup
        · rename_i heq
          rw [eq_of_beq heq, ← Option.some.inj hlookup]
          exact hanswer
        · cases hlookup
    · exact h

theorem answer_settle (t : ClassTable) (name other : String) : (t.settle name).answer other = t.answer other := by
  unfold ClassTable.settle
  split
  · rfl
  · rename_i hnew
    dsimp only
    split
    · rename_i answer hanswer
      unfold ClassTable.answer
      dsimp only
      rw [List.lookup_append, List.lookup_cons]
      cases hother : t.known.lookup other with
      | some known => rfl
      | none =>
        cases heq : other == name with
        | false => rfl
        | true =>
          rw [eq_of_beq heq]
          exact hanswer.symm
    · rfl

/-- Two tables with the same sources that say the same of other names show the same classes. -/
theorem view_congr (hanswer : ∀ name, t'.answer name = t.answer name) (hdepth : t'.maxDepth = t.maxDepth)
    (hsource : ∀ name, (t'.source? name).map (·.sig) = (t.source? name).map (·.sig)) : t'.view = t.view := by
  have hfind (name : String) : t'.find name = t.find name := by
    have hname := hsource name
    unfold find
    rw [hanswer]
    cases hs : t.source? name with
    | none =>
      rw [hs, Option.map_none, Option.map_eq_none_iff] at hname
      rw [hname]
    | some r =>
      rw [hs, Option.map_some] at hname
      obtain ⟨r', hr', hsig⟩ := Option.map_eq_some_iff.mp hname
      rw [hr']
      exact congrArg Except.ok hsig
  have hisSource (name : String) : t'.isSource name = t.isSource name := by
    rw [isSource, isSource, ← Option.isSome_map (f := (·.sig)), hsource, Option.isSome_map]
  unfold view
  rw [funext hfind, funext hisSource, hdepth]

/-- Two tables with the same sources, in front of the same provider, show the same classes. -/
theorem Honest.view_eq (h : t.Honest) (h' : t'.Honest) (hprovider : t'.provider = t.provider)
    (hdepth : t'.maxDepth = t.maxDepth) (hsources : t'.sources.map (·.sig) = t.sources.map (·.sig)) :
    t'.view = t.view :=
  view_congr (fun name => by rw [h.answer_eq, h'.answer_eq, hprovider]) hdepth
    fun name => by rw [map_source?, map_source?, hsources]

/-! ### Tables that grow -/

/-- What has become of a table: classes were registered that no class of their name was there before, and the provider
    was asked. -/
structure Extends (t : ClassTable) (sigs : List ClassSig) (t' : ClassTable) : Prop where
  provider : t'.provider = t.provider
  maxDepth : t'.maxDepth = t.maxDepth
  honest : t.Honest → t'.Honest
  answer : ∀ name, t'.answer name = t.answer name
  sources : t'.sources = t.sources ++ numbered t.next sigs
  next : t'.next = t.next + sigs.length
  names : (sigs.map (·.name)).Nodup
  free : ∀ sig ∈ sigs, t.isSource sig.name = false

namespace Extends

theorem refl (t : ClassTable) : t.Extends [] t := ⟨rfl, rfl, id, fun _ => rfl, (List.append_nil _).symm, rfl, .nil, nofun⟩

theorem isSource_eq_false (h : t.Extends sigs t') :
    t'.isSource name = false ↔ t.isSource name = false ∧ ∀ sig ∈ sigs, sig.name ≠ name := by
  have hsigs : (∀ r ∈ numbered t.next sigs, r.sig.name ≠ name) ↔ ∀ sig ∈ sigs, sig.name ≠ name := by
    conv_rhs => rw [← map_sig_numbered t.next sigs]
    rw [List.forall_mem_map]
  rw [ClassTable.isSource_eq_false, ClassTable.isSource_eq_false, h.sources, List.forall_mem_append, hsigs]

theorem trans (h : t.Extends sigs t₁) (h' : t₁.Extends sigs' t') : t.Extends (sigs ++ sigs') t' where
  provider := h'.provider.trans h.provider
  maxDepth := h'.maxDepth.trans h.maxDepth
  honest hh := h'.honest (h.honest hh)
  answer name := (h'.answer name).trans (h.answer name)
  sources := by rw [h'.sources, h.sources, h.next, numbered_append, List.append_assoc]
  next := by rw [h'.next, h.next, List.length_append, Nat.add_assoc]
  names := by
    rw [List.map_append, List.nodup_append]
    refine ⟨h.names, h'.names, fun a ha b hb => ?_⟩
    obtain ⟨sig, hsig, rfl⟩ := List.mem_map.mp ha
    obtain ⟨sig', hsig', rfl⟩ := List.mem_map.mp hb
    exact (h.isSource_eq_false.mp (h'.free sig' hsig')).2 sig hsig
  free sig hsig := by
    rcases List.mem_append.mp hsig with hsig | hsig
    · exact h.free sig hsig
    · exact (h.isSource_eq_false.mp (h'.free sig hsig)).1

theorem settle (t : ClassTable) (name : String) : t.Extends [] (t.settle name) := by
  refine ⟨?_, ?_, fun h => h.settle name, t.answer_settle name, ?_, ?_, .nil, nofun⟩
  all_goals
    unfold ClassTable.settle
    split
    · simp [numbered]
    · dsimp only
      split <;> simp [numbered]

theorem settleAll (t : ClassTable) (names : List String) : t.Extends [] (names.foldl ClassTable.settle t) := by
  induction names generalizing t with
  | nil => exact .refl t
  | cons name names ih => exact (settle t name).trans (ih _)

theorem register (h : t.register sig = .ok (r, t')) : r = ⟨t.next, sig⟩ ∧ t.Extends [sig] t' := by
  unfold ClassTable.register at h
  split at h
  · cases h
  · rename_i hfree
    cases h
    refine ⟨rfl, rfl, rfl, id, fun _ => rfl, rfl, rfl, List.nodup_singleton _, fun sig' hsig' => ?_⟩
    rw [List.mem_singleton.mp hsig']
    exact Bool.eq_false_iff.mpr hfree

theorem map_source? (h : t.Extends sigs t') (name : String) :
    (t'.source? name).map (·.sig) = ((t.source? name).map (·.sig)).or (sigs.find? (·.name == name)) := by
  rw [ClassTable.map_source?, ClassTable.map_source?, h.sources, List.map_append, map_sig_numbered, List.find?_append]

theorem view_eq (h : t.Extends [] t') : t'.view = t.view :=
  view_congr h.answer h.maxDepth fun name => by rw [h.map_source?, List.find?_nil, Option.or_none]

end Extends

/-! ### Taking back -/

/-- A registration in front of others is taken back, and they stay. -/
theorem sources_unregister {before after : List Registration} (h : t.sources = before ++ r :: after)
    (hbefore : ∀ x ∈ before, x.sig.name ≠ r.sig.name) (hafter : ∀ x ∈ after, x.sig.name ≠ r.sig.name) :
    (t.unregister r).sources = before ++ after := by
  have hkeep (xs : List Registration) (hxs : ∀ x ∈ xs, x.sig.name ≠ r.sig.name) :
      xs.filter (·.sig.name != r.sig.name) = xs :=
    List.filter_eq_self.mpr fun x hx => by simpa using hxs x hx
  have hnone : before.find? (·.sig.name == r.sig.name) = none :=
    List.find?_eq_none.mpr fun x hx => by simpa using hbefore x hx
  have hholds : t.holds r = true := by
    rw [holds, source?, h, List.find?_append, hnone, Option.none_or, List.find?_cons_of_pos (by simp)]
    exact beq_self_eq_true _
  rw [unregister, if_pos hholds]
  change t.sources.filter _ = _
  rw [h, List.filter_append, List.filter_cons_of_neg (by simp), hkeep before hbefore, hkeep after hafter]

theorem unregister_provider (t : ClassTable) (r : Registration) :
    (t.unregister r).provider = t.provider ∧ (t.unregister r).maxDepth = t.maxDepth ∧
      (t.unregister r).known = t.known ∧ (t.unregister r).next = t.next := by
  unfold unregister
  split <;> exact ⟨rfl, rfl, rfl, rfl⟩

/-- The table has the sources of `t` again; it may have given out serial numbers and remember more. -/
structure Restores (t t' : ClassTable) : Prop where
  provider : t'.provider = t.provider
  maxDepth : t'.maxDepth = t.maxDepth
  honest : t.Honest → t'.Honest
  sources : t'.sources = t.sources
  next : t.next ≤ t'.next

theorem Extends.restores (h : t.Extends [] t') : t.Restores t' :=
  ⟨h.provider, h.maxDepth, h.honest, by rw [h.sources]; simp [numbered], by rw [h.next]; exact Nat.le_refl _⟩

/-- All registrations of a table that has grown are taken back. -/
theorem Extends.unregisterAll (h : t.Extends sigs t') :
    t.Restores ((numbered t.next sigs).foldl unregister t') := by
  -- Behind each one that is taken back stand those that are still to be.
  suffices hall : ∀ (sigs : List ClassSig) (n : Nat) (t₁ : ClassTable), t₁.sources = t.sources ++ numbered n sigs →
      (sigs.map (·.name)).Nodup → (∀ sig ∈ sigs, t.isSource sig.name = false) →
      ((numbered n sigs).foldl unregister t₁).provider = t₁.provider ∧
      ((numbered n sigs).foldl unregister t₁).maxDepth = t₁.maxDepth ∧
      ((numbered n sigs).foldl unregister t₁).known = t₁.known ∧
      ((numbered n sigs).foldl unregister t₁).next = t₁.next ∧
      ((numbered n sigs).foldl unregister t₁).sources = t.sources by
    obtain ⟨hprovider, hdepth, hknown, hnext, hsources⟩ := hall sigs t.next t' h.sources h.names h.free
    refine ⟨hprovider.trans h.provider, hdepth.trans h.maxDepth, fun hh name answer hlookup => ?_, hsources, ?_⟩
    · rw [hknown] at hlookup
      rw [hprovider]
      exact h.honest hh name answer hlookup
    · rw [hnext, h.next]
      exact Nat.le_add_right _ _
  intro sigs
  induction sigs with
  | nil => exact fun n t₁ hsources _ _ => ⟨rfl, rfl, rfl, rfl, by simpa [numbered] using hsources⟩
  | cons sig sigs ih =>
    intro n t₁ hsources hnames hfree
    obtain ⟨hsig, hnames⟩ := List.nodup_cons.mp hnames
    obtain ⟨hfirst, hfree⟩ := List.forall_mem_cons.mp hfree
    have hrest : ∀ x ∈ numbered (n + 1) sigs, x.sig.name ≠ sig.name := by
      intro x hx hname
      refine hsig (List.mem_map.mpr ⟨x.sig, ?_, hname⟩)
      rw [← map_sig_numbered (n + 1) sigs]
      exact List.mem_map_of_mem hx
    obtain ⟨hprovider, hdepth, hknown, hnext⟩ := unregister_provider t₁ ⟨n, sig⟩
    have hone := sources_unregister hsources (ClassTable.isSource_eq_false.mp hfirst) hrest
    obtain ⟨h₁, h₂, h₃, h₄, h₅⟩ := ih (n + 1) (t₁.unregister ⟨n, sig⟩) hone hnames hfree
    exact ⟨h₁.trans hprovider, h₂.trans hdepth, h₃.trans hknown, h₄.trans hnext, h₅⟩

end ClassTable

end Classwright
