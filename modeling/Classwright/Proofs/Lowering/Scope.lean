import Classwright.Lowering.Scope
import Classwright.Proofs.Results

/-! # Slots of locals

A scope only grows, by locals that are given the next slots. So every local keeps its slots to itself. -/

namespace Classwright.Scope

variable {s s' s'' : Scope}

theorem get?_push (s : Scope) (v : Local) (x : String) :
    (s.push v).get? x = if x = v.name then some v else s.get? x := by
  unfold push get?
  rw [Std.TreeMap.getElem?_insert]
  by_cases h : x = v.name
  · simp [h]
  · rw [if_neg h, if_neg]
    rw [Std.LawfulEqCmp.compare_eq_iff_eq]
    exact fun h' => h h'.symm

theorem add_eq_ok {name : String} {t : Ty} {span : Span} {v : Local} (h : s.add name t span = .ok (v, s')) :
    s.get? name = none ∧ s.next + t.width ≤ maxSlot ∧ v = s.candidate name t ∧ s' = s.push v := by
  unfold add at h
  split at h
  · cases h
  · rename_i hf
    cases h
    unfold fault? at hf
    split at hf
    · cases hf
    · rename_i hget
      split at hf
      · cases hf
      · rename_i hnext
        exact ⟨by simpa using hget, Nat.not_lt.mp hnext, rfl, rfl⟩

/-- The second scope comes from the first by declarations of values. -/
inductive Grows (s : Scope) : Scope → Prop
  | refl : Grows s s
  | add {s' s'' : Scope} {name : String} {t : Ty} {span : Span} {v : Local} (h : Grows s s')
    (ht : t.isVoid = false) (ha : s'.add name t span = .ok (v, s'')) : Grows s s''

namespace Grows

theorem trans (h : Grows s s') (h' : Grows s' s'') : Grows s s'' := by
  induction h' with
  | refl => exact h
  | add _ ht ha ih => exact ih.add ht ha

/-- Locals stay what they are. -/
theorem get? (h : Grows s s') {x : String} {v : Local} (hv : s.get? x = some v) : s'.get? x = some v := by
  induction h with
  | refl => exact hv
  | add _ _ ha ih =>
    obtain ⟨hnone, -, rfl, rfl⟩ := add_eq_ok ha
    rw [get?_push, if_neg, ih]
    rintro rfl
    rw [ih] at hnone
    cases hnone

theorem method (h : Grows s s') : s'.method = s.method := by
  induction h with
  | refl => rfl
  | add _ _ ha ih =>
    obtain ⟨-, -, -, rfl⟩ := add_eq_ok ha
    exact ih

theorem next_le (h : Grows s s') : s.next ≤ s'.next := by
  induction h with
  | refl => exact Nat.le_refl _
  | add _ _ ha ih =>
    obtain ⟨-, -, -, rfl⟩ := add_eq_ok ha
    exact Nat.le_trans ih (Nat.le_add_right _ _)

theorem get?_none (h : Grows s s') {x : String} (hx : s'.get? x = none) : s.get? x = none := by
  cases hs : s.get? x with
  | none => rfl
  | some v =>
    rw [h.get? hs] at hx
    cases hx

end Grows

/-- Each local has slots of its own, below the next one, and is found under its name. -/
structure Laid (s : Scope) : Prop where
  next_le : s.next ≤ maxSlot
  name_eq : ∀ x v, s.get? x = some v → v.name = x
  below : ∀ x v, s.get? x = some v → v.slot.toNat + v.type.width ≤ s.next
  apart : ∀ x y v w, s.get? x = some v → s.get? y = some w → x ≠ y →
    v.slot.toNat + v.type.width ≤ w.slot.toNat ∨ w.slot.toNat + w.type.width ≤ v.slot.toNat

theorem laid_empty (method : MethodSig) : Laid { method } where
  next_le := Nat.zero_le _
  name_eq x v h := by simp [get?] at h
  below x v h := by simp [get?] at h
  apart x y v w h := by simp [get?] at h

theorem slot_candidate_of_le (h : s.next ≤ maxSlot) (name : String) (t : Ty) :
    (s.candidate name t).slot.toNat = s.next := by
  simp only [candidate, Nat.toUInt16_eq, UInt16.toNat_ofNat', maxSlot] at *
  omega

theorem Laid.slot_candidate (h : Laid s) (name : String) (t : Ty) : (s.candidate name t).slot.toNat = s.next :=
  slot_candidate_of_le h.next_le name t

theorem get?_push_candidate {name x : String} {t : Ty} {w : Local}
    (h : (s.push (s.candidate name t)).get? x = some w) :
    x = name ∧ w = s.candidate name t ∨ x ≠ name ∧ s.get? x = some w := by
  rw [get?_push] at h
  split at h
  · exact .inl ⟨‹_›, (Option.some.inj h).symm⟩
  · exact .inr ⟨‹_›, h⟩

theorem Laid.add {name : String} {t : Ty} {span : Span} {v : Local} (h : Laid s)
    (ha : s.add name t span = .ok (v, s')) : Laid s' := by
  obtain ⟨-, hnext, rfl, rfl⟩ := add_eq_ok ha
  have hslot := h.slot_candidate name t
  have hnew : (s.push (s.candidate name t)).next = s.next + t.width := rfl
  refine ⟨hnext, fun x w hw => ?_, fun x w hw => ?_, fun x y w u hw hu hne => ?_⟩
  · rcases get?_push_candidate hw with ⟨rfl, rfl⟩ | ⟨-, hw⟩
    · rfl
    · exact h.name_eq x w hw
  · rcases get?_push_candidate hw with ⟨rfl, rfl⟩ | ⟨-, hw⟩
    · rw [hslot, hnew]
      exact Nat.le_refl _
    · have := h.below x w hw
      omega
  · rcases get?_push_candidate hw with ⟨rfl, rfl⟩ | ⟨-, hw'⟩ <;> rcases get?_push_candidate hu with ⟨rfl, rfl⟩ | ⟨-, hu'⟩
    · exact absurd rfl hne
    · have := h.below y u hu'
      omega
    · have := h.below x w hw'
      omega
    · exact h.apart x y w u hw' hu' hne

theorem Laid.grows (h : Laid s) (hg : Grows s s') : Laid s' := by
  induction hg with
  | refl => exact h
  | add _ _ ha ih => exact ih.add ha

/-- A local that has come since has a slot of its own. -/
theorem Grows.get?_inv (h : Grows s s') (hl : Laid s) {x : String} {v : Local} (hv : s'.get? x = some v) :
    s.get? x = some v ∨ s.get? x = none ∧ s.next ≤ v.slot.toNat := by
  induction h with
  | refl => exact .inl hv
  | add hg _ ha ih =>
    obtain ⟨hnone, -, rfl, rfl⟩ := add_eq_ok ha
    rcases get?_push_candidate hv with ⟨rfl, rfl⟩ | ⟨-, hv⟩
    · rw [(hl.grows hg).slot_candidate]
      exact .inr ⟨hg.get?_none hnone, hg.next_le⟩
    · exact ih hv

theorem addAll_cons {span : Span} {p : ParamSig} {rest : List ParamSig} (h : s.addAll span (p :: rest) = .ok s') :
    ∃ s₁, s.add p.name p.type span = .ok (s.candidate p.name p.type, s₁) ∧ s₁.addAll span rest = .ok s' := by
  obtain ⟨⟨v, s₁⟩, ha, h⟩ := bind_eq_ok.mp h
  obtain ⟨-, -, rfl, -⟩ := add_eq_ok ha
  exact ⟨s₁, ha, h⟩

/-- No local is of type `void`. -/
def Values (s : Scope) : Prop := ∀ x v, s.get? x = some v → v.type.isVoid = false

theorem Values.grows (h : s.Values) (hg : Grows s s') : s'.Values := by
  induction hg with
  | refl => exact h
  | add _ ht ha ih =>
    obtain ⟨-, -, rfl, rfl⟩ := add_eq_ok ha
    intro x v hv
    rcases get?_push_candidate hv with ⟨-, rfl⟩ | ⟨-, hv⟩
    · exact ht
    · exact ih x v hv

theorem Grows.of_addAll {span : Span} {params : List ParamSig} (hp : ∀ p ∈ params, p.type.isVoid = false)
    (h : s.addAll span params = .ok s') : Grows s s' := by
  induction params generalizing s with
  | nil =>
    cases h
    exact .refl
  | cons p rest ih =>
    obtain ⟨hp, hrest⟩ := List.forall_mem_cons.mp hp
    obtain ⟨s₁, ha, h⟩ := addAll_cons h
    exact (Grows.refl.add hp ha).trans (ih hrest h)

/-! ### The list of locals -/

theorem toList_push (s : Scope) (v : Local) : (s.push v).locals.toList = s.locals.toList ++ [v] := Array.toList_push

theorem Grows.locals_prefix (h : Grows s s') : s.locals.toList <+: s'.locals.toList := by
  induction h with
  | refl => exact List.prefix_rfl
  | add _ _ ha ih =>
    obtain ⟨-, -, -, rfl⟩ := add_eq_ok ha
    rw [toList_push]
    exact ih.trans (List.prefix_append _ _)

/-- The list holds the locals in the order of their slots. -/
structure Listed (s : Scope) : Prop extends Laid s where
  values : s.Values
  mem_iff : ∀ v, v ∈ s.locals.toList ↔ ∃ x, s.get? x = some v
  ordered : s.locals.toList.Pairwise fun v w => v.slot.toNat + v.type.width ≤ w.slot.toNat

theorem listed_empty (method : MethodSig) : Listed { method } :=
  ⟨laid_empty method, fun x v h => by simp [get?] at h, fun v => by simp [get?], .nil⟩

theorem Listed.add {name : String} {t : Ty} {span : Span} {v : Local} (h : Listed s) (ht : t.isVoid = false)
    (ha : s.add name t span = .ok (v, s')) : Listed s' := by
  have hgrows := Grows.refl.add ht ha
  obtain ⟨-, -, rfl, rfl⟩ := add_eq_ok ha
  refine ⟨h.toLaid.add ha, h.values.grows hgrows, fun w => ?_, ?_⟩
  · rw [toList_push, List.mem_append, List.mem_singleton, h.mem_iff]
    constructor
    · rintro (⟨x, hx⟩ | rfl)
      · exact ⟨x, hgrows.get? hx⟩
      · exact ⟨name, (get?_push _ _ _).trans (if_pos rfl)⟩
    · rintro ⟨x, hx⟩
      rcases get?_push_candidate hx with ⟨-, rfl⟩ | ⟨-, hx⟩
      · exact .inr rfl
      · exact .inl ⟨x, hx⟩
  · rw [toList_push, List.pairwise_append]
    refine ⟨h.ordered, List.pairwise_singleton _ _, fun w hw u hu => ?_⟩
    obtain ⟨x, hx⟩ := (h.mem_iff w).mp hw
    rw [List.mem_singleton.mp hu, h.slot_candidate]
    exact h.below x w hx

theorem Listed.grows (h : Listed s) (hg : Grows s s') : Listed s' := by
  induction hg with
  | refl => exact h
  | add _ ht ha ih => exact ih.add ht ha

theorem Listed.le_of_lt (h : Listed s) {i j : Nat} {v w : Local} (hi : s.locals.toList[i]? = some v)
    (hj : s.locals.toList[j]? = some w) (hlt : i < j) : v.slot.toNat + v.type.width ≤ w.slot.toNat := by
  obtain ⟨hi', rfl⟩ := List.getElem?_eq_some_iff.mp hi
  obtain ⟨hj', rfl⟩ := List.getElem?_eq_some_iff.mp hj
  exact List.pairwise_iff_getElem.mp h.ordered i j hi' hj' hlt

/-- The list begins with the locals that were there, and the others have come since. -/
theorem Grows.getElem?_inv (h : Grows s s') (hl : Laid s) {n : Nat} {v : Local}
    (hv : s'.locals.toList[n]? = some v) :
    s.locals.toList[n]? = some v ∨ s.locals.toList.length ≤ n ∧ s.next ≤ v.slot.toNat := by
  induction h with
  | refl => exact .inl hv
  | add hg _ ha ih =>
    obtain ⟨-, -, rfl, rfl⟩ := add_eq_ok ha
    rw [toList_push, List.getElem?_append] at hv
    split at hv
    · exact ih hv
    · rename_i hn
      have hlength := hg.locals_prefix.length_le
      rw [List.mem_singleton.mp (List.mem_of_getElem? hv), (hl.grows hg).slot_candidate]
      exact .inr ⟨Nat.le_trans hlength (Nat.not_lt.mp hn), hg.next_le⟩

theorem length_addAll {span : Span} {params : List ParamSig} (h : s.addAll span params = .ok s') :
    s'.locals.toList.length = s.locals.toList.length + params.length := by
  induction params generalizing s with
  | nil =>
    cases h
    rfl
  | cons p rest ih =>
    obtain ⟨s₁, ha, h⟩ := addAll_cons h
    obtain ⟨-, -, -, rfl⟩ := add_eq_ok ha
    rw [ih h, toList_push, List.length_append, List.length_singleton, List.length_cons]
    omega

end Classwright.Scope
