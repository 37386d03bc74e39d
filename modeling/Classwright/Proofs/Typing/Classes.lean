import Classwright.Classes.Table
import Classwright.Proofs.Descriptor
import Classwright.Proofs.Hierarchy

/-! # Classes in view

What is found in a hierarchy is a member of one of its classes. So it is well-formed if all classes are. -/

namespace Classwright

/-- Constructors belong to an instance and return nothing, parameters have values, and classes have names that can stand
    in descriptors. -/
structure MethodSig.WellFormed (m : MethodSig) : Prop where
  constructors : m.isConstructor = true → m.isStatic = false ∧ m.returns = .void
  params : ∀ t ∈ m.paramTypes, t.isVoid = false ∧ t.WellNamed
  returns : m.returns.WellNamed

instance (m : MethodSig) : Decidable m.WellFormed :=
  decidable_of_iff ((m.isConstructor = true → m.isStatic = false ∧ m.returns = .void) ∧
      (∀ t ∈ m.paramTypes, t.isVoid = false ∧ t.WellNamed) ∧ m.returns.WellNamed)
    ⟨fun ⟨hc, hp, hr⟩ => ⟨hc, hp, hr⟩, fun ⟨hc, hp, hr⟩ => ⟨hc, hp, hr⟩⟩

structure FieldSig.WellFormed (f : FieldSig) : Prop where
  value : f.type.isVoid = false
  named : f.type.WellNamed

instance (f : FieldSig) : Decidable f.WellFormed :=
  decidable_of_iff (f.type.isVoid = false ∧ f.type.WellNamed) ⟨fun ⟨hv, hn⟩ => ⟨hv, hn⟩, fun ⟨hv, hn⟩ => ⟨hv, hn⟩⟩

structure ClassSig.WellFormed (cls : ClassSig) : Prop where
  fields : ∀ f ∈ cls.fields, f.WellFormed
  methods : ∀ m ∈ cls.methods, m.WellFormed

instance (cls : ClassSig) : Decidable cls.WellFormed :=
  decidable_of_iff ((∀ f ∈ cls.fields, f.WellFormed) ∧ ∀ m ∈ cls.methods, m.WellFormed)
    ⟨fun ⟨hf, hm⟩ => ⟨hf, hm⟩, fun ⟨hf, hm⟩ => ⟨hf, hm⟩⟩

theorem ClassSig.WellFormed.method? {cls : ClassSig} (h : cls.WellFormed) {name : String} {args : List Ty}
    {m : MethodSig} (hm : cls.method? name args = some m) : m.WellFormed ∧ m.name = name ∧ m.paramTypes = args := by
  exact ⟨h.methods m (List.mem_of_find?_eq_some hm), cls.method?_eq_some hm⟩

/-- All classes that can be found are well-formed. -/
def ClassView.WellFormed (v : ClassView) : Prop := ∀ name cls, v.find name = .ok cls → cls.WellFormed

theorem ClassTable.wellFormed_view {t : ClassTable} (hs : ∀ r ∈ t.sources, r.sig.WellFormed)
    (ha : ∀ name cls, t.answer name = .ok (some cls) → cls.WellFormed) : t.view.WellFormed := by
  intro name cls h
  have h : t.find name = .ok cls := h
  unfold find at h
  split at h
  · rename_i r hr
    cases h
    exact hs r (List.mem_of_find?_eq_some hr)
  · split at h
    · rename_i cls' hanswer
      cases h
      exact ha name cls hanswer
    · cases h
    · cases h

theorem ClassView.WellFormed.above {v : ClassView} (h : v.WellFormed) {name : String} {cls : ClassSig}
    (ha : v.Above name cls) : cls.WellFormed := by
  induction ha with
  | self hcls => exact h _ _ hcls
  | parent _ _ _ ih => exact ih

namespace Context
variable {c : Context} (hc : c.classes.WellFormed) {owner name : String} {site : Span}

include hc

theorem wellFormed_field? {f : FieldSig} (h : (c.field? owner name site).result = .ok (some f)) : f.WellFormed := by
  obtain ⟨cls, habove, hf⟩ := ClassView.walk_some (Lookup.locate_eq_ok.mp h)
  exact (hc.above habove).fields f (List.mem_of_find?_eq_some hf)

theorem wellFormed_method? {args : List Ty} {m : MethodSig}
    (h : (c.method? owner name args site).result = .ok (some m)) : m.WellFormed ∧ m.name = name ∧ m.paramTypes = args := by
  obtain ⟨cls, habove, hm⟩ := ClassView.walk_some (Lookup.locate_eq_ok.mp h)
  exact (hc.above habove).method? hm

theorem wellFormed_class {cls : ClassSig} (h : (c.resolveClass name site).result = .ok cls) : cls.WellFormed :=
  hc _ cls (Lookup.locate_eq_ok.mp h)

end Context

end Classwright
