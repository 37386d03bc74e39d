import Classwright.ClassFile.Basic
import Classwright.Proofs.ClassFile.PoolBytes
import Mathlib.Data.List.Forall2

/-! # Reading annotations back

Annotations nest to any depth. Each level takes bytes of its own, so reading comes to their end before it runs out of
depth. -/

namespace Classwright.ClassFile

open PoolM Reader

variable {b : PoolBuilder} {bytes : Bytes} {fuel : Nat}

/-! ### Items one after another -/

section Sequences
variable {α β : Type} {write : α → PoolM Bytes}

theorem sequence_interns (h : ∀ x, (write x).Interns) (xs : List α) : (sequence write xs).Interns := by
  induction xs with
  | nil => exact .pure _
  | cons x xs ih => exact .bind (h x) fun _ => .bind ih fun _ => .pure _

/-- If what is written for an item is read as something that is related to it, so are all items. -/
theorem reads_sequence {item : Reader β} {R : α → β → Prop} {size : Nat} {xs : List α} (hi : ∀ x, (write x).Interns)
    (hread : ∀ x ∈ xs, ∀ bytes, (write x).Gives b bytes → bytes.length < size → ∃ y, R x y ∧ item.Reads bytes y)
    (h : (sequence write xs).Gives b bytes) (hsize : bytes.length < size) :
    ∃ ys, List.Forall₂ R xs ys ∧ (many item xs.length).Reads bytes ys := by
  induction xs generalizing bytes with
  | nil =>
    obtain rfl := gives_pure.mp h
    exact ⟨[], .nil, .pure []⟩
  | cons x xs ih =>
    obtain ⟨front, hfront, h⟩ := (gives_bind (hi x) fun _ => .bind (sequence_interns hi xs) fun _ => .pure _).mp h
    obtain ⟨rest, hrest, h⟩ := (gives_bind (sequence_interns hi xs) fun _ => .pure _).mp h
    obtain rfl := gives_pure.mp h
    rw [List.length_append] at hsize
    obtain ⟨y, hy, hone⟩ := hread x List.mem_cons_self front hfront (by omega)
    obtain ⟨ys, hys, hmore⟩ := ih (fun x hx => hread x (List.mem_cons_of_mem _ hx)) hrest (by omega)
    exact ⟨y :: ys, .cons hy hys, Reads.many_cons hone hmore⟩

theorem gives_of_mem_sequence {xs : List α} (hi : ∀ x, (write x).Interns) (h : (sequence write xs).Gives b bytes) {x : α}
    (hx : x ∈ xs) : ∃ part, (write x).Gives b part ∧ part.length ≤ bytes.length := by
  induction xs generalizing bytes with
  | nil => cases hx
  | cons y xs ih =>
    obtain ⟨front, hfront, h⟩ := (gives_bind (hi y) fun _ => .bind (sequence_interns hi xs) fun _ => .pure _).mp h
    obtain ⟨rest, hrest, h⟩ := (gives_bind (sequence_interns hi xs) fun _ => .pure _).mp h
    obtain rfl := gives_pure.mp h
    rw [List.length_append]
    rcases List.mem_cons.mp hx with rfl | hx
    · exact ⟨front, hfront, Nat.le_add_right _ _⟩
    · obtain ⟨part, hpart, hle⟩ := ih hrest hx
      exact ⟨part, hpart, Nat.le_trans hle (Nat.le_add_left _ _)⟩

end Sequences

/-! ### Annotations that can be read -/

mutual

/-- Lists are short enough to be counted, and scalars have the tag of a boolean, a byte, a char or a short. -/
def Annotation.Fits : Annotation → Prop
  | ⟨_, elements⟩ => elements.length ≤ 65535 ∧ elementsFit elements

def elementsFit : List Element → Prop
  | [] => True
  | ⟨_, value⟩ :: rest => value.Fits ∧ elementsFit rest

def ElementValue.Fits : ElementValue → Prop
  | .scalar tag _ => Char.ofNat tag.toNat ∈ ['B', 'C', 'S', 'Z']
  | .nested a => a.Fits
  | .array values => values.length ≤ 65535 ∧ valuesFit values
  | _ => True

def valuesFit : List ElementValue → Prop
  | [] => True
  | v :: rest => v.Fits ∧ valuesFit rest

end

/-! ### Asking the pool -/

mutual

theorem Annotation.interns : (a : Annotation) → a.bytes.Interns
  | ⟨type, elements⟩ =>
    .bind (.utf8 type) fun _ => .bind (elementsBytes_interns elements) fun _ => .pure _

theorem elementsBytes_interns : (es : List Element) → (elementsBytes es).Interns
  | [] => .pure _
  | ⟨name, value⟩ :: rest =>
    .bind (.utf8 name) fun _ => .bind value.interns fun _ => .bind (elementsBytes_interns rest) fun _ => .pure _

theorem ElementValue.interns : (v : ElementValue) → v.bytes.Interns
  | .int v => .bind (.intern (.integer v) trivial) fun _ => .pure _
  | .long v => .bind (.intern (.long v) trivial) fun _ => .pure _
  | .float v => .bind (.intern (.float v) trivial) fun _ => .pure _
  | .double v => .bind (.intern (.double v) trivial) fun _ => .pure _
  | .scalar _ v => .bind (.intern (.integer v) trivial) fun _ => .pure _
  | .string s => .bind (.utf8 s) fun _ => .pure _
  | .cls d => .bind (.utf8 d) fun _ => .pure _
  | .enum type name => .bind (.utf8 type) fun _ => .bind (.utf8 name) fun _ => .pure _
  | .nested a => .bind a.interns fun _ => .pure _
  | .array values => .bind (valuesBytes_interns values) fun _ => .pure _

theorem valuesBytes_interns : (vs : List ElementValue) → (valuesBytes vs).Interns
  | [] => .pure _
  | v :: rest => .bind v.interns fun _ => .bind (valuesBytes_interns rest) fun _ => .pure _

end

/-! ### Reading -/

/-- A value with a tag in front of the index that it has in the pool. -/
theorem gives_constant {tag : Nat} {c : Constant} (hc : c.Writable) (hb : b.Sound)
    (h : Gives (do return Bytes.u1 tag ++ Bytes.u2 (← intern c).toNat) b bytes) :
    ∃ i, bytes = Bytes.u1 tag ++ Bytes.u2 i.toNat ∧ b.pool.get? i = some c := by
  obtain ⟨i, hi, h⟩ := (gives_bind (.intern c hc) fun _ => .pure _).mp h
  exact ⟨i, gives_pure.mp h, hi.get? hb⟩

mutual

theorem Annotation.reads (hb : b.Sound) : (a : Annotation) → a.Fits → ∀ {bytes : Bytes} {fuel : Nat},
    a.bytes.Gives b bytes → bytes.length < fuel → (ClassFile.Annotation.read b.pool fuel).Reads bytes a
  | ⟨type, elements⟩, ⟨hcount, hfits⟩, bytes, fuel + 1, h, hfuel => by
    obtain ⟨t, ht, h⟩ := (gives_bind (.utf8 type) fun _ => .bind (elementsBytes_interns elements) fun _ => .pure _).mp h
    obtain ⟨body, hbody, h⟩ := (gives_bind (elementsBytes_interns elements) fun _ => .pure _).mp h
    obtain rfl : bytes = Bytes.u2 t.toNat ++ Bytes.u2 elements.length ++ body := gives_pure.mp h
    simp only [List.length_append, Bytes.u2, Bytes.length_word] at hfuel
    rw [List.append_assoc]
    exact (ht.reads_utf8 hb).bind (Reads.counted hcount (elements_read hb elements hfits hbody (by omega))).map

theorem elements_read (hb : b.Sound) : (es : List Element) → elementsFit es → ∀ {bytes : Bytes} {fuel : Nat},
    (elementsBytes es).Gives b bytes → bytes.length < fuel →
    (many (do
      let name ← b.pool.readUtf8
      let value ← ElementValue.read b.pool fuel
      return Element.mk name value) es.length).Reads bytes es
  | [], _, bytes, fuel, h, _ => by
    obtain rfl := gives_pure.mp h
    exact .pure []
  | ⟨name, value⟩ :: rest, ⟨hv, hrest⟩, bytes, fuel, h, hfuel => by
    obtain ⟨n, hn, h⟩ := (gives_bind (.utf8 name) fun _ =>
      .bind value.interns fun _ => .bind (elementsBytes_interns rest) fun _ => .pure _).mp h
    obtain ⟨vs, hvs, h⟩ := (gives_bind value.interns fun _ => .bind (elementsBytes_interns rest) fun _ => .pure _).mp h
    obtain ⟨more, hmore, h⟩ := (gives_bind (elementsBytes_interns rest) fun _ => .pure _).mp h
    obtain rfl := gives_pure.mp h
    simp only [List.length_append] at hfuel
    exact Reads.many_cons ((hn.reads_utf8 hb).bind (value.reads hb hv hvs (by omega)).map)
      (elements_read hb rest hrest hmore (by omega))

theorem ElementValue.reads (hb : b.Sound) : (v : ElementValue) → v.Fits → ∀ {bytes : Bytes} {fuel : Nat},
    v.bytes.Gives b bytes → bytes.length < fuel → (ElementValue.read b.pool fuel).Reads bytes v
  | .int v, _, bytes, fuel + 1, h, _ => by
    obtain ⟨i, rfl, hi⟩ := gives_constant (c := .integer v) trivial hb h
    refine (Reads.u1 _).bind ((Reads.index i).last ?_)
    rw [hi]
    exact .pure _
  | .long v, _, bytes, fuel + 1, h, _ => by
    obtain ⟨i, rfl, hi⟩ := gives_constant (c := .long v) trivial hb h
    refine (Reads.u1 _).bind ((Reads.index i).last ?_)
    rw [hi]
    exact .pure _
  | .float v, _, bytes, fuel + 1, h, _ => by
    obtain ⟨i, rfl, hi⟩ := gives_constant (c := .float v) trivial hb h
    refine (Reads.u1 _).bind ((Reads.index i).last ?_)
    rw [hi]
    exact .pure _
  | .double v, _, bytes, fuel + 1, h, _ => by
    obtain ⟨i, rfl, hi⟩ := gives_constant (c := .double v) trivial hb h
    refine (Reads.u1 _).bind ((Reads.index i).last ?_)
    rw [hi]
    exact .pure _
  | .scalar tag v, hfits, bytes, fuel + 1, h, _ => by
    obtain ⟨i, rfl, hi⟩ := gives_constant (c := .integer v) trivial hb h
    have htag : Char.ofNat tag.toNat ∈ ['B', 'C', 'S', 'Z'] := hfits
    have hint : tag.toNat ≠ 'I'.toNat := fun heq => by
      rw [heq] at htag
      revert htag
      decide
    have hentry : Reads (match b.pool.get? i with
        | some (.integer v) => return if tag.toNat = 'I'.toNat then .int v else .scalar tag v
        | _ => malformed (.notInteger i)) [] (ElementValue.scalar tag v) := by
      rw [hi]
      dsimp only
      rw [if_neg hint]
      exact .pure _
    -- All four tags are read in the same way.
    simp only [List.mem_cons, List.not_mem_nil, or_false] at htag
    refine (Reads.tag tag).bind ?_
    rcases htag with htag | htag | htag | htag <;> rw [htag] <;> exact (Reads.index i).last hentry
  | .string s, _, bytes, fuel + 1, h, _ => by
    obtain ⟨i, hi, h⟩ := (gives_bind (.utf8 s) fun _ => .pure _).mp h
    obtain rfl := gives_pure.mp h
    exact (Reads.u1 _).bind (hi.reads_utf8 hb).map
  | .cls d, _, bytes, fuel + 1, h, _ => by
    obtain ⟨i, hi, h⟩ := (gives_bind (.utf8 d) fun _ => .pure _).mp h
    obtain rfl := gives_pure.mp h
    exact (Reads.u1 _).bind (hi.reads_utf8 hb).map
  | .enum type name, _, bytes, fuel + 1, h, _ => by
    obtain ⟨i, hi, h⟩ := (gives_bind (.utf8 type) fun _ => .bind (.utf8 name) fun _ => .pure _).mp h
    obtain ⟨j, hj, h⟩ := (gives_bind (.utf8 name) fun _ => .pure _).mp h
    obtain rfl := gives_pure.mp h
    rw [List.append_assoc]
    exact (Reads.u1 _).bind ((hi.reads_utf8 hb).bind (hj.reads_utf8 hb).map)
  | .nested a, hfits, bytes, fuel + 1, h, hfuel => by
    obtain ⟨body, hbody, h⟩ := (gives_bind a.interns fun _ => .pure _).mp h
    obtain rfl : bytes = Bytes.u1 '@'.toNat ++ body := gives_pure.mp h
    simp only [List.length_append, Bytes.u1, Bytes.length_word] at hfuel
    exact (Reads.u1 _).bind (a.reads hb hfits hbody (by omega)).map
  | .array values, ⟨hcount, hfits⟩, bytes, fuel + 1, h, hfuel => by
    obtain ⟨body, hbody, h⟩ := (gives_bind (valuesBytes_interns values) fun _ => .pure _).mp h
    obtain rfl : bytes = Bytes.u1 '['.toNat ++ Bytes.u2 values.length ++ body := gives_pure.mp h
    simp only [List.length_append, Bytes.u1, Bytes.length_word] at hfuel
    rw [List.append_assoc]
    exact (Reads.u1 _).bind (Reads.counted hcount (values_read hb values hfits hbody (by omega))).map

theorem values_read (hb : b.Sound) : (vs : List ElementValue) → valuesFit vs → ∀ {bytes : Bytes} {fuel : Nat},
    (valuesBytes vs).Gives b bytes → bytes.length < fuel →
    (many (ElementValue.read b.pool fuel) vs.length).Reads bytes vs
  | [], _, bytes, fuel, h, _ => by
    obtain rfl := gives_pure.mp h
    exact .pure []
  | v :: rest, ⟨hv, hrest⟩, bytes, fuel, h, hfuel => by
    obtain ⟨vs, hvs, h⟩ := (gives_bind v.interns fun _ => .bind (valuesBytes_interns rest) fun _ => .pure _).mp h
    obtain ⟨more, hmore, h⟩ := (gives_bind (valuesBytes_interns rest) fun _ => .pure _).mp h
    obtain rfl := gives_pure.mp h
    rw [List.length_append] at hfuel
    exact Reads.many_cons (v.reads hb hv hvs (by omega)) (values_read hb rest hrest hmore (by omega))

end

/-! ### Attributes with annotations -/

theorem annotationsBody_eq (as : List Annotation) : annotationsBody as = sequence Annotation.bytes as := by
  induction as with
  | nil => rfl
  | cons a as ih => rw [annotationsBody, ih, sequence]

theorem annotationListsBody_eq (ass : List (List Annotation)) :
    annotationListsBody ass = sequence annotationsBytes ass := by
  induction ass with
  | nil => rfl
  | cons as ass ih => rw [annotationListsBody, ih, sequence]

theorem annotationsBytes_interns (as : List Annotation) : (annotationsBytes as).Interns := by
  rw [annotationsBytes, annotationsBody_eq]
  exact .bind (sequence_interns Annotation.interns as) fun _ => .pure _

theorem paramAnnotationsBytes_interns (ass : List (List Annotation)) : (paramAnnotationsBytes ass).Interns := by
  rw [paramAnnotationsBytes, annotationListsBody_eq]
  exact .bind (sequence_interns annotationsBytes_interns ass) fun _ => .pure _

/-- A list of annotations that can be counted and read. -/
def AnnotationsFit (as : List Annotation) : Prop := as.length ≤ 65535 ∧ ∀ a ∈ as, a.Fits

theorem reads_annotations (hb : b.Sound) {as : List Annotation} (hfit : AnnotationsFit as)
    (h : (annotationsBytes as).Gives b bytes) (hfuel : bytes.length < fuel) : (readList b.pool fuel).Reads bytes as := by
  rw [annotationsBytes, annotationsBody_eq] at h
  obtain ⟨body, hbody, h⟩ := (gives_bind (sequence_interns Annotation.interns as) fun _ => .pure _).mp h
  obtain rfl := gives_pure.mp h
  have hlt : body.length < fuel := by
    rw [List.length_append] at hfuel
    omega
  obtain ⟨as', has, hread⟩ := reads_sequence (R := Eq) Annotation.interns
    (fun a ha bytes h hlt => ⟨a, rfl, a.reads hb (hfit.2 a ha) h hlt⟩) hbody hlt
  rw [List.forall₂_eq_eq_eq] at has
  subst has
  exact Reads.counted hfit.1 hread

theorem readAnnotations_eq (hb : b.Sound) {as : List Annotation} (hfit : AnnotationsFit as)
    (h : (annotationsBytes as).Gives b bytes) : readAnnotations b.pool bytes = .ok as :=
  (reads_annotations hb hfit h (Nat.lt_succ_self _)).onBytes

theorem readParamAnnotations_eq (hb : b.Sound) {ass : List (List Annotation)} (hcount : ass.length ≤ 255)
    (hfit : ∀ as ∈ ass, AnnotationsFit as) (h : (paramAnnotationsBytes ass).Gives b bytes) :
    readParamAnnotations b.pool bytes = .ok ass := by
  rw [paramAnnotationsBytes, annotationListsBody_eq] at h
  obtain ⟨body, hbody, h⟩ := (gives_bind (sequence_interns annotationsBytes_interns ass) fun _ => .pure _).mp h
  obtain rfl := gives_pure.mp h
  have hlt : body.length < (Bytes.u1 ass.length ++ body).length + 1 := by
    rw [List.length_append]
    omega
  obtain ⟨ass', hass, hread⟩ := reads_sequence (R := Eq) annotationsBytes_interns
    (fun as has bytes h hlt => ⟨as, rfl, reads_annotations hb (hfit as has) h hlt⟩) hbody hlt
  rw [List.forall₂_eq_eq_eq] at hass
  subst hass
  have hn : ass.length.toUInt8.toNat = ass.length := by
    simp only [Nat.toUInt8_eq, UInt8.toNat_ofNat']
    omega
  refine Reads.onBytes ((Reads.u1 _).bind ?_)
  rwa [hn]

end Classwright.ClassFile
