import Classwright.Classes.Table
import Classwright.Lowering.Annotation
import Classwright.Proofs.Grammar
import Classwright.Proofs.Lowering.Runs

/-! # Annotations and their interfaces

An annotation conforms to its interface if each of its elements has the type that the method of its name returns. What is
written for an annotation conforms, at every level of nesting, and an annotation is refused only if something in it does
not. -/

namespace Classwright

open Source (AnnotationParam AnnotationValue Ident)

/-- The name stands for the class where it is written. -/
def Context.Names (c : Context) (name : Ident) (cls : ClassSig) : Prop :=
  (c.resolveClass name.name name.span).result = .ok cls

mutual

/-- The annotation is what stands in source: it is of the class that is named there, and has an element for each
    parameter, in their order. -/
inductive AnnotationConforms (c : Context) : Source.Annotation → ClassFile.Annotation → Prop
  | mk {type : Ident} {params : List AnnotationParam} {span : Span} {cls : ClassSig} {elements : List ClassFile.Element}
    (hcls : c.Names type cls) (hcount : params.length = elements.length)
    (helements : ∀ p ∈ params.zip elements, ElementConforms c cls p.1 p.2) :
    AnnotationConforms c ⟨type, params, span⟩ ⟨cls.type.descriptor, elements⟩

/-- The element has the type that the first method of its name returns: arrays take any number of values, other types
    just one. -/
inductive ElementConforms (c : Context) : ClassSig → AnnotationParam → ClassFile.Element → Prop
  | array {cls : ClassSig} {name : Ident} {values : List AnnotationValue} {span : Span} {m : MethodSig}
    {vs : List ClassFile.ElementValue} (hm : cls.methodNamed? name.name = some m) (harray : m.returns.isArray = true)
    (hcount : values.length = vs.length)
    (hvalues : ∀ p ∈ values.zip vs, ValueConforms c m.returns.element p.1 p.2) :
    ElementConforms c cls ⟨name, values, span⟩ ⟨name.name, .array vs⟩
  | single {cls : ClassSig} {name : Ident} {value : AnnotationValue} {span : Span} {m : MethodSig}
    {v : ClassFile.ElementValue} (hm : cls.methodNamed? name.name = some m) (hplain : m.returns.isArray = false)
    (hvalue : ValueConforms c m.returns value v) : ElementConforms c cls ⟨name, [value], span⟩ ⟨name.name, v⟩

/-- The value is what stands in source, and has the type. -/
inductive ValueConforms (c : Context) : Ty → AnnotationValue → ClassFile.ElementValue → Prop
  | int {l : Source.Literal} {v : Int32} (hl : l.value = .ok (.int v)) : ValueConforms c .int (.literal l) (.int v)
  | long {l : Source.Literal} {v : Int64} (hl : l.value = .ok (.long v)) : ValueConforms c .long (.literal l) (.long v)
  | float {l : Source.Literal} {v : Binary32} (hl : l.value = .ok (.float v)) :
    ValueConforms c .float (.literal l) (.float v)
  | double {l : Source.Literal} {v : Binary64} (hl : l.value = .ok (.double v)) :
    ValueConforms c .double (.literal l) (.double v)
  | string {l : Source.Literal} {v : String} (hl : l.value = .ok (.str v)) :
    ValueConforms c .string (.literal l) (.string v)
  | cls {name : Ident} {cls : ClassSig} (hcls : c.Names name cls) :
    ValueConforms c .klass (.cls name) (.cls cls.type.descriptor)
  | nested {a : Source.Annotation} {out : ClassFile.Annotation} {name : String} (h : AnnotationConforms c a out)
    (hname : out.type = (Ty.object name).descriptor) : ValueConforms c (.object name) (.nested a) (.nested out)

end

mutual

/-- The names in the annotation stand for classes and methods, its values have the types that the methods return, and
    there is just one for each parameter that is no array. -/
inductive AnnotationFits (c : Context) : Source.Annotation → Prop
  | mk {type : Ident} {params : List AnnotationParam} {span : Span} {cls : ClassSig} (hcls : c.Names type cls)
    (hparams : ∀ p ∈ params, ∃ m, cls.methodNamed? p.name.name = some m ∧
      (m.returns.isArray = false → p.values.length = 1))
    (hvalues : ∀ p ∈ params, ∀ m, cls.methodNamed? p.name.name = some m →
      ∀ v ∈ p.values, ValueFits c m.returns.element v) : AnnotationFits c ⟨type, params, span⟩

/-- The value has the type. A nested annotation can be told by its descriptor, so the name of its class must be such
    that it can stand there. -/
inductive ValueFits (c : Context) : Ty → AnnotationValue → Prop
  | literal {l : Source.Literal} {v : LiteralValue} (hl : l.value = .ok v) : ValueFits c v.type (.literal l)
  | cls {name : Ident} {cls : ClassSig} (hcls : c.Names name cls) : ValueFits c .klass (.cls name)
  | nested {a : Source.Annotation} {cls : ClassSig} (h : AnnotationFits c a) (hcls : c.Names a.type cls)
    (hname : cls.type.WellNamed) : ValueFits c cls.type (.nested a)

end

/-! ### One step of lowering -/

section Steps
variable {c : Context} {t : Ty} {cls : ClassSig} {v : ClassFile.ElementValue}

/-- A result that is put together from two. -/
theorem Lookup.both_result {α β γ : Type} {x : Lookup α} {y : α → Lookup β} {f : α → β → γ} {r : γ} :
    (do let a ← x; let b ← y a; return f a b : Lookup γ).result = .ok r ↔
      ∃ a b, x.result = .ok a ∧ (y a).result = .ok b ∧ r = f a b := by
  constructor
  · intro h
    obtain ⟨a, ha, h⟩ := Lookup.bind_result.mp h
    obtain ⟨b, hb, h⟩ := Lookup.bind_result.mp h
    cases h
    exact ⟨a, b, ha, hb, rfl⟩
  · rintro ⟨a, b, ha, hb, rfl⟩
    exact Lookup.bind_result.mpr ⟨a, ha, Lookup.bind_result.mpr ⟨b, hb, rfl⟩⟩

theorem Source.Annotation.lower_result {type : Ident} {params : List AnnotationParam} {span : Span}
    {out : ClassFile.Annotation} : ((Source.Annotation.mk type params span).lower c).result = .ok out ↔
      ∃ cls elements, c.Names type cls ∧ (lowerElements c cls params).result = .ok elements ∧
        out = ⟨cls.type.descriptor, elements⟩ := by
  rw [Source.Annotation.lower]
  exact Lookup.both_result

theorem lowerValues_cons_result {value : AnnotationValue} {values : List AnnotationValue}
    {vs : List ClassFile.ElementValue} : (lowerValues c t (value :: values)).result = .ok vs ↔
      ∃ v rest, (lowerValue c t value).result = .ok v ∧ (lowerValues c t values).result = .ok rest ∧ vs = v :: rest := by
  rw [lowerValues]
  exact Lookup.both_result

theorem lowerValues_length {values : List AnnotationValue} {vs : List ClassFile.ElementValue}
    (h : (lowerValues c t values).result = .ok vs) : vs.length = values.length := by
  induction values generalizing vs with
  | nil =>
    cases h
    rfl
  | cons value values ih =>
    obtain ⟨v, rest, -, hrest, rfl⟩ := lowerValues_cons_result.mp h
    rw [List.length_cons, List.length_cons, ih hrest]

theorem lowerValues_singleton {values : List AnnotationValue} :
    (lowerValues c t values).result = .ok [v] ↔ ∃ value, values = [value] ∧ (lowerValue c t value).result = .ok v := by
  constructor
  · intro h
    obtain ⟨value, rfl⟩ := List.length_eq_one_iff.mp (lowerValues_length h).symm
    obtain ⟨_, rest, hv, hrest, heq⟩ := lowerValues_cons_result.mp h
    cases heq
    exact ⟨value, rfl, hv⟩
  · rintro ⟨value, rfl, hv⟩
    exact lowerValues_cons_result.mpr ⟨v, [], hv, rfl, rfl⟩

theorem Ty.element_of_plain (h : t.isArray = false) : t.element = t := by
  obtain ⟨e, isArray⟩ := t
  cases h
  rfl

/-- A parameter gives an array of its values, or else its only value. -/
theorem lowerElements_cons_result {name : Ident} {values : List AnnotationValue} {span : Span}
    {params : List AnnotationParam} {elements : List ClassFile.Element} :
    (lowerElements c cls (⟨name, values, span⟩ :: params)).result = .ok elements ↔
      ∃ m vs v rest, cls.methodNamed? name.name = some m ∧
        (lowerValues c m.returns.element values).result = .ok vs ∧
        (m.returns.isArray = true ∧ v = .array vs ∨ m.returns.isArray = false ∧ vs = [v]) ∧
        (lowerElements c cls params).result = .ok rest ∧ elements = ⟨name.name, v⟩ :: rest := by
  rw [lowerElements]
  constructor
  · intro h
    split at h
    · cases h
    · rename_i m hm
      dsimp only at h
      split at h
      · rename_i harray
        obtain ⟨vs, hvs, h⟩ := Lookup.bind_result.mp h
        rw [pure_bind] at h
        obtain ⟨rest, hrest, h⟩ := Lookup.bind_result.mp h
        cases h
        exact ⟨m, vs, _, rest, hm, hvs, .inl ⟨harray, rfl⟩, hrest, rfl⟩
      · rename_i hplain
        have hplain : m.returns.isArray = false := by simpa using hplain
        split at h
        · obtain ⟨v, hv, h⟩ := Lookup.bind_result.mp h
          obtain ⟨rest, hrest, h⟩ := Lookup.bind_result.mp h
          cases h
          rw [← Ty.element_of_plain hplain] at hv
          exact ⟨m, [v], v, rest, hm, lowerValues_singleton.mpr ⟨_, rfl, hv⟩, .inr ⟨hplain, rfl⟩, hrest, rfl⟩
        · cases h
  · rintro ⟨m, vs, v, rest, hm, hvs, hv, hrest, rfl⟩
    rw [hm]
    dsimp only
    rcases hv with ⟨harray, rfl⟩ | ⟨hplain, rfl⟩
    · rw [if_pos harray]
      refine Lookup.bind_result.mpr ⟨vs, hvs, ?_⟩
      rw [pure_bind]
      exact Lookup.bind_result.mpr ⟨rest, hrest, rfl⟩
    · rw [Ty.element_of_plain hplain] at hvs
      obtain ⟨value, rfl, hv⟩ := lowerValues_singleton.mp hvs
      rw [if_neg (by simp [hplain])]
      exact Lookup.bind_result.mpr ⟨v, hv, Lookup.bind_result.mpr ⟨rest, hrest, rfl⟩⟩

theorem expectElement_result {expected found : Ty} {site : Span} {u : Unit} :
    (expectElement expected found site).result = .ok u ↔ found = expected := by
  unfold expectElement
  split <;> simp_all [pure, Lookup.fail]

theorem lowerValue_literal_result {l : Source.Literal} : (lowerValue c t (.literal l)).result = .ok v ↔
    ∃ w, l.value = .ok w ∧ w.type = t ∧ v = w.toElement := by
  rw [lowerValue, Lookup.both_result]
  simp only [Lookup.ofExcept, expectElement_result, exists_const]

theorem lowerValue_cls_result {name : Ident} : (lowerValue c t (.cls name)).result = .ok v ↔
    t = .klass ∧ ∃ cls, c.Names name cls ∧ v = .cls cls.type.descriptor := by
  rw [lowerValue, Lookup.both_result]
  simp only [expectElement_result, exists_and_left, exists_const, eq_comm (a := Ty.klass)]
  rfl

theorem lowerValue_nested_result {a : Source.Annotation} : (lowerValue c t (.nested a)).result = .ok v ↔
    ∃ out, (a.lower c).result = .ok out ∧ Ty.ofDescriptor? out.type = some t ∧ v = .nested out := by
  rw [lowerValue]
  constructor
  · intro h
    obtain ⟨out, hout, h⟩ := Lookup.bind_result.mp h
    split at h
    · cases h
      exact ⟨out, hout, ‹_›, rfl⟩
    · cases h
  · rintro ⟨out, hout, ht, rfl⟩
    exact Lookup.bind_result.mpr ⟨out, hout, by rw [if_pos ht]; rfl⟩

end Steps

/-! ### What is written conforms -/

section Soundness
variable {c : Context}

-- The recursion is on what stands in source. A single value is taken as a list of one, so that the values of a parameter
-- are always handed on together.
mutual

theorem annotationConforms_of_lower : (a : Source.Annotation) → ∀ {out : ClassFile.Annotation},
    (a.lower c).result = .ok out → AnnotationConforms c a out ∧ AnnotationFits c a
  | ⟨type, params, span⟩, out, h => by
    obtain ⟨cls, elements, hcls, helements, rfl⟩ := Source.Annotation.lower_result.mp h
    obtain ⟨hconforms, hfits⟩ := elementsConform_of_lower params helements
    obtain ⟨hcount, hzip⟩ := List.forall₂_iff_zip.mp hconforms
    exact ⟨.mk hcls hcount fun p hp => hzip hp, .mk hcls (fun p hp => (hfits p hp).1) fun p hp => (hfits p hp).2⟩

theorem elementsConform_of_lower : (params : List AnnotationParam) → ∀ {cls : ClassSig}
    {elements : List ClassFile.Element}, (lowerElements c cls params).result = .ok elements →
    List.Forall₂ (ElementConforms c cls) params elements ∧
      ∀ p ∈ params, (∃ m, cls.methodNamed? p.name.name = some m ∧ (m.returns.isArray = false → p.values.length = 1)) ∧
        ∀ m, cls.methodNamed? p.name.name = some m → ∀ v ∈ p.values, ValueFits c m.returns.element v
  | [], cls, elements, h => by
    cases h
    exact ⟨.nil, nofun⟩
  | ⟨name, values, span⟩ :: params, cls, elements, h => by
    obtain ⟨m, vs, v, rest, hm, hvs, hv, hrest, rfl⟩ := lowerElements_cons_result.mp h
    obtain ⟨hconforms, hfits⟩ := valuesConform_of_lower values hvs
    obtain ⟨hrest, hrestFits⟩ := elementsConform_of_lower params hrest
    have hcount := lowerValues_length hvs
    refine ⟨.cons ?_ hrest, List.forall_mem_cons.mpr ⟨⟨⟨m, hm, fun hplain => ?_⟩, fun m' hm' => ?_⟩, hrestFits⟩⟩
    · rcases hv with ⟨harray, rfl⟩ | ⟨hplain, rfl⟩
      · exact .array hm harray hcount.symm fun p hp => (List.forall₂_iff_zip.mp hconforms).2 hp
      · rw [Ty.element_of_plain hplain] at hconforms
        cases hconforms with
        | cons hvalue hnone =>
          cases hnone
          exact .single hm hplain hvalue
    · rcases hv with ⟨harray, -⟩ | ⟨-, rfl⟩
      · rw [hplain] at harray
        cases harray
      · exact hcount.symm
    · rw [hm] at hm'
      cases hm'
      exact hfits

theorem valuesConform_of_lower : (values : List AnnotationValue) → ∀ {t : Ty} {vs : List ClassFile.ElementValue},
    (lowerValues c t values).result = .ok vs →
    List.Forall₂ (ValueConforms c t) values vs ∧ ∀ v ∈ values, ValueFits c t v
  | [], t, vs, h => by
    cases h
    exact ⟨.nil, nofun⟩
  | value :: values, t, vs, h => by
    obtain ⟨v, rest, hv, hrest, rfl⟩ := lowerValues_cons_result.mp h
    obtain ⟨hconforms, hfits⟩ := valueConforms_of_lower value hv
    obtain ⟨hrest, hrestFits⟩ := valuesConform_of_lower values hrest
    exact ⟨.cons hconforms hrest, List.forall_mem_cons.mpr ⟨hfits, hrestFits⟩⟩

theorem valueConforms_of_lower : (value : AnnotationValue) → ∀ {t : Ty} {v : ClassFile.ElementValue},
    (lowerValue c t value).result = .ok v → ValueConforms c t value v ∧ ValueFits c t value
  | .literal l, t, v, h => by
    obtain ⟨w, hw, rfl, rfl⟩ := lowerValue_literal_result.mp h
    refine ⟨?_, .literal hw⟩
    cases w with
    | int w => exact .int hw
    | long w => exact .long hw
    | float w => exact .float hw
    | double w => exact .double hw
    | str w => exact .string hw
  | .cls name, t, v, h => by
    obtain ⟨rfl, cls, hcls, rfl⟩ := lowerValue_cls_result.mp h
    exact ⟨.cls hcls, .cls hcls⟩
  | .nested a, t, v, h => by
    obtain ⟨out, hout, ht, rfl⟩ := lowerValue_nested_result.mp h
    obtain ⟨hconforms, hfits⟩ := annotationConforms_of_lower a hout
    obtain ⟨hlegible, hd⟩ := Ty.ofDescriptor?_eq_some_iff.mp ht
    cases hconforms with
    | mk hcls hcount helements =>
      obtain rfl := Ty.eq_object_of_descriptor hd
      exact ⟨.nested (.mk hcls hcount helements) rfl, .nested hfits hcls hlegible.1⟩

end

end Soundness

/-! ### What fits is accepted -/

section Completeness
variable {c : Context}

mutual

theorem lower_of_annotationFits : (a : Source.Annotation) → AnnotationFits c a → ∃ out, (a.lower c).result = .ok out
  | ⟨type, params, span⟩, h => by
    cases h with
    | @mk _ _ _ cls hcls hparams hvalues =>
      obtain ⟨elements, helements⟩ := lowerElements_of_fit params hparams hvalues
      exact ⟨_, Source.Annotation.lower_result.mpr ⟨cls, elements, hcls, helements, rfl⟩⟩

theorem lowerElements_of_fit : (params : List AnnotationParam) → ∀ {cls : ClassSig},
    (∀ p ∈ params, ∃ m, cls.methodNamed? p.name.name = some m ∧ (m.returns.isArray = false → p.values.length = 1)) →
    (∀ p ∈ params, ∀ m, cls.methodNamed? p.name.name = some m → ∀ v ∈ p.values, ValueFits c m.returns.element v) →
    ∃ elements, (lowerElements c cls params).result = .ok elements
  | [], cls, _, _ => ⟨[], rfl⟩
  | ⟨name, values, span⟩ :: params, cls, hparams, hvalues => by
    obtain ⟨⟨m, hm, hone⟩, hparams⟩ := List.forall_mem_cons.mp hparams
    obtain ⟨hfits, hvalues⟩ := List.forall_mem_cons.mp hvalues
    obtain ⟨vs, hvs⟩ := lowerValues_of_fit values (hfits m hm)
    obtain ⟨rest, hrest⟩ := lowerElements_of_fit params hparams hvalues
    cases hkind : m.returns.isArray with
    | true => exact ⟨_, lowerElements_cons_result.mpr ⟨m, vs, _, rest, hm, hvs, .inl ⟨hkind, rfl⟩, hrest, rfl⟩⟩
    | false =>
      obtain ⟨v, rfl⟩ := List.length_eq_one_iff.mp ((lowerValues_length hvs).trans (hone hkind))
      exact ⟨_, lowerElements_cons_result.mpr ⟨m, [v], v, rest, hm, hvs, .inr ⟨hkind, rfl⟩, hrest, rfl⟩⟩

theorem lowerValues_of_fit : (values : List AnnotationValue) → ∀ {t : Ty}, (∀ v ∈ values, ValueFits c t v) →
    ∃ vs, (lowerValues c t values).result = .ok vs
  | [], t, _ => ⟨[], rfl⟩
  | value :: values, t, h => by
    obtain ⟨hvalue, hvalues⟩ := List.forall_mem_cons.mp h
    obtain ⟨v, hv⟩ := lowerValue_of_fits value hvalue
    obtain ⟨rest, hrest⟩ := lowerValues_of_fit values hvalues
    exact ⟨v :: rest, lowerValues_cons_result.mpr ⟨v, rest, hv, hrest, rfl⟩⟩

theorem lowerValue_of_fits : (value : AnnotationValue) → ∀ {t : Ty}, ValueFits c t value →
    ∃ v, (lowerValue c t value).result = .ok v
  | .literal l, t, h => by
    cases h with
    | literal hl => exact ⟨_, lowerValue_literal_result.mpr ⟨_, hl, rfl, rfl⟩⟩
  | .cls name, t, h => by
    cases h with
    | cls hcls => exact ⟨_, lowerValue_cls_result.mpr ⟨rfl, _, hcls, rfl⟩⟩
  | .nested a, t, h => by
    cases h with
    | @nested _ cls h hcls hname =>
      obtain ⟨out, hout⟩ := lower_of_annotationFits a h
      have htype : out.type = cls.type.descriptor := by
        cases (annotationConforms_of_lower a hout).1 with
        | mk hcls' _ _ => rw [Except.ok.inj (hcls.symm.trans hcls')]
      refine ⟨_, lowerValue_nested_result.mpr ⟨out, hout, ?_, rfl⟩⟩
      rw [htype]
      exact Ty.ofDescriptor?_descriptor ⟨hname, nofun⟩

end

end Completeness

/-! ### All annotations of a declaration -/

section All
variable {c : Context} {as : List Source.Annotation}

theorem lowerAll_cons_result {a : Source.Annotation} {outs : List ClassFile.Annotation} :
    (Source.Annotation.lowerAll c (a :: as)).result = .ok outs ↔
      ∃ out rest, (a.lower c).result = .ok out ∧ (Source.Annotation.lowerAll c as).result = .ok rest ∧
        outs = out :: rest := by
  rw [Source.Annotation.lowerAll]
  exact Lookup.both_result

theorem conform_of_lowerAll {outs : List ClassFile.Annotation} (h : (Source.Annotation.lowerAll c as).result = .ok outs) :
    List.Forall₂ (AnnotationConforms c) as outs ∧ ∀ a ∈ as, AnnotationFits c a := by
  induction as generalizing outs with
  | nil =>
    cases h
    exact ⟨.nil, nofun⟩
  | cons a as ih =>
    obtain ⟨out, rest, hout, hrest, rfl⟩ := lowerAll_cons_result.mp h
    obtain ⟨hconforms, hfits⟩ := annotationConforms_of_lower a hout
    obtain ⟨hrest, hrestFits⟩ := ih hrest
    exact ⟨.cons hconforms hrest, List.forall_mem_cons.mpr ⟨hfits, hrestFits⟩⟩

theorem lowerAll_of_fit (h : ∀ a ∈ as, AnnotationFits c a) :
    ∃ outs, (Source.Annotation.lowerAll c as).result = .ok outs := by
  induction as with
  | nil => exact ⟨[], rfl⟩
  | cons a as ih =>
    obtain ⟨ha, has⟩ := List.forall_mem_cons.mp h
    obtain ⟨out, hout⟩ := lower_of_annotationFits a ha
    obtain ⟨rest, hrest⟩ := ih has
    exact ⟨out :: rest, lowerAll_cons_result.mpr ⟨out, rest, hout, hrest, rfl⟩⟩

/-- Only a dialect that has annotations lets any through. -/
theorem lowerAnnotations_result {outs : List ClassFile.Annotation} : (lowerAnnotations c as).result = .ok outs ↔
    (as = [] ∨ c.options.dialect.hasAnnotations = true) ∧ (Source.Annotation.lowerAll c as).result = .ok outs := by
  cases as with
  | nil => simp [lowerAnnotations, Source.Annotation.lowerAll]
  | cons a as =>
    rw [lowerAnnotations]
    split
    · simp_all
    · simp_all [Lookup.fail]

/-- What is written for annotations conforms to their interfaces, level by level. And they are accepted exactly if there
    are none, or the dialect has annotations and each of them fits its interface. -/
theorem annotations_conform_to_interfaces (c : Context) (as : List Source.Annotation) :
    (∀ outs, (lowerAnnotations c as).result = .ok outs → List.Forall₂ (AnnotationConforms c) as outs) ∧
      ((∃ outs, (lowerAnnotations c as).result = .ok outs) ↔
        as = [] ∨ c.options.dialect.hasAnnotations = true ∧ ∀ a ∈ as, AnnotationFits c a) := by
  refine ⟨fun outs h => (conform_of_lowerAll (lowerAnnotations_result.mp h).2).1, ?_, ?_⟩
  · rintro ⟨outs, h⟩
    obtain ⟨rfl | hdialect, h⟩ := lowerAnnotations_result.mp h
    · exact .inl rfl
    · exact .inr ⟨hdialect, (conform_of_lowerAll h).2⟩
  · rintro (rfl | ⟨hdialect, hfits⟩)
    · exact ⟨[], rfl⟩
    · obtain ⟨outs, h⟩ := lowerAll_of_fit hfits
      exact ⟨outs, lowerAnnotations_result.mpr ⟨.inr hdialect, h⟩⟩

end All

/-! ### Annotations of three interfaces -/

def markInterface : ClassSig where
  name := "demo/Mark"
  isInterface := true
  methods := [⟨"weight", false, false, true, .long, []⟩]

def noteInterface : ClassSig where
  name := "demo/Note"
  isInterface := true
  methods := [⟨"tags", false, false, true, Ty.string.arrayOf, []⟩, ⟨"about", false, false, true, .klass, []⟩,
    ⟨"mark", false, false, true, markInterface.type, []⟩]

/-- The name of this interface cannot be told from its descriptor. -/
def joinedInterface : ClassSig where
  name := "A;B"
  isInterface := true
  methods := [⟨"inner", false, false, true, .object "A;B", []⟩]

def notesContext (dialect : Dialect) : Context where
  classes := ClassTable.view
    { provider := fun _ => .ok none, sources := [⟨0, markInterface⟩, ⟨1, noteInterface⟩, ⟨2, joinedInterface⟩] }
  imports := {}
  own := noteInterface
  options := { dialect }

def heavyMark : Source.Annotation :=
  ⟨⟨"demo/Mark", {}⟩, [⟨⟨"weight", {}⟩, [.literal ⟨"2L", {}⟩], {}⟩], {}⟩

def longNote : Source.Annotation :=
  ⟨⟨"demo/Note", {}⟩,
    [⟨⟨"tags", {}⟩, [.literal ⟨"\"a\"", {}⟩, .literal ⟨"\"b\"", {}⟩], {}⟩, ⟨⟨"about", {}⟩, [.cls ⟨"demo/Mark", {}⟩], {}⟩,
      ⟨⟨"mark", {}⟩, [.nested heavyMark], {}⟩], {}⟩

theorem annotations_conform_to_interfaces_note :
    ∃ outs, (lowerAnnotations (notesContext .current) [longNote]).result = .ok outs ∧
      List.Forall₂ (AnnotationConforms (notesContext .current)) [longNote] outs ∧
      ∀ a ∈ [longNote], AnnotationFits (notesContext .current) a := by
  have hsome : (lowerAnnotations (notesContext .current) [longNote]).result.toOption.isSome = true := by
    decide +kernel
  obtain ⟨outs, houts⟩ := Option.isSome_iff_exists.mp hsome
  have houts := toOption_eq_some.mp houts
  obtain ⟨hconforms, hiff⟩ := annotations_conform_to_interfaces (notesContext .current) [longNote]
  obtain ⟨-, hfits⟩ := (hiff.mp ⟨outs, houts⟩).resolve_left (by simp)
  exact ⟨outs, houts, hconforms outs houts, hfits⟩

/-- What is refused for the dialect alone fits all the same. -/
theorem heavyMark_fits (dialect : Dialect) : AnnotationFits (notesContext dialect) heavyMark := by
  have hsome : (heavyMark.lower (notesContext dialect)).result.toOption.isSome = true := by
    cases dialect <;> decide +kernel
  obtain ⟨out, hout⟩ := Option.isSome_iff_exists.mp hsome
  exact (annotationConforms_of_lower heavyMark (toOption_eq_some.mp hout)).2

/-- An annotation that fits its interface is refused in the earlier dialect, and one that is nested in an annotation of
    its own class, where a value of this class is expected, is refused if the name of the class cannot stand in a
    descriptor. -/
theorem fitting_annotations_refused :
    (AnnotationFits (notesContext .forward) heavyMark ∧
      (lowerAnnotations (notesContext .forward) [heavyMark]).result =
        .error (.unsupported (.annotations "Forward") {})) ∧
    (AnnotationFits (notesContext .current) ⟨⟨"A;B", {}⟩, [], {}⟩ ∧
      (notesContext .current).Names ⟨"A;B", {}⟩ joinedInterface ∧
      (joinedInterface.methodNamed? "inner").map (·.returns) = some joinedInterface.type ∧
      (lowerAnnotations (notesContext .current)
        [⟨⟨"A;B", {}⟩, [⟨⟨"inner", {}⟩, [.nested ⟨⟨"A;B", {}⟩, [], {}⟩], {}⟩], {}⟩]).result =
          .error (.typeMismatch (.nestedType joinedInterface.type "A;B") {})) :=
  ⟨⟨heavyMark_fits .forward, rfl⟩, .mk rfl (by simp) (by simp), rfl, rfl, rfl⟩

end Classwright
