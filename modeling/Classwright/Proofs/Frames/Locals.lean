import Classwright.Verify.Frame
import Mathlib.Tactic.Common

/-! # Reading and writing locals

What a slot holds after a store and after a constructor call, and how many slots there are. -/

namespace Classwright

namespace VType
variable {t : VType} {k k' : LocalKind}

theorem width_eq_one_or_two (t : VType) : t.width = 1 ∨ t.width = 2 := by
  cases t <;> simp [width]

theorem ne_top_of_hasKind (h : t.hasKind k = true) : t ≠ .top := by
  rintro rfl
  cases k <;> cases h

theorem width_of_hasKind (h : t.hasKind k = true) : k.width = t.width := by
  cases k <;> cases t <;> cases h <;> rfl

theorem kind_unique (h : t.hasKind k = true) (h' : t.hasKind k' = true) : k = k' := by
  cases k <;> cases t <;> cases h <;> cases k' <;> cases h' <;> rfl

end VType

namespace Frame

theorem getD_pad (locals : List VType) (size slot : Nat) : (pad locals size).getD slot .top = locals.getD slot .top := by
  simp only [pad, List.getD_eq_getElem?_getD, List.getElem?_append, List.getElem?_replicate]
  split
  · rfl
  · rename_i h
    rw [List.getElem?_eq_none (by omega : locals.length ≤ slot)]
    split <;> rfl

theorem length_pad (locals : List VType) (size : Nat) : (pad locals size).length = max locals.length size := by
  simp only [pad, List.length_append, List.length_replicate]
  omega

theorem getD_set (locals : List VType) {i : Nat} (t : VType) (hi : i < locals.length) (j : Nat) :
    (locals.set i t).getD j .top = if j = i then t else locals.getD j .top := by
  simp only [List.getD_eq_getElem?_getD, List.getElem?_set]
  by_cases h : i = j
  · subst h
    simp [hi]
  · simp [h, Ne.symm h]

/-- Takes away a wide value whose second slot is `slot`. -/
def cutBefore (locals : List VType) : Nat → List VType
  | 0 => locals
  | before + 1 => if (locals.getD before .top).width = 2 then locals.set before .top else locals

theorem cutBefore_succ (locals : List VType) (before : Nat) : cutBefore locals (before + 1) =
    if (locals.getD before .top).width = 2 then locals.set before .top else locals := rfl

theorem length_cutBefore (locals : List VType) (slot : Nat) : (cutBefore locals slot).length = locals.length := by
  cases slot with
  | zero => rfl
  | succ before =>
    rw [cutBefore_succ]
    split
    · exact List.length_set
    · rfl

theorem getD_cutBefore (locals : List VType) (slot i : Nat) (h : slot ≤ locals.length) :
    (cutBefore locals slot).getD i .top =
      if i + 1 = slot ∧ (locals.getD i .top).width = 2 then .top else locals.getD i .top := by
  cases slot with
  | zero => simp [cutBefore]
  | succ before =>
    rw [cutBefore_succ]
    by_cases hw : (locals.getD before .top).width = 2
    · rw [if_pos hw, getD_set _ _ h]
      by_cases hi : i = before
      · rw [if_pos hi, if_pos ⟨congrArg (· + 1) hi, hi ▸ hw⟩]
      · rw [if_neg hi, if_neg fun h => hi (Nat.succ.inj h.1)]
    · rw [if_neg hw, if_neg]
      rintro ⟨hi, hw'⟩
      cases hi
      exact hw hw'

theorem setLocal_eq (f : Frame) (slot : Nat) (t : VType) : (f.setLocal slot t).locals =
    let locals := (cutBefore (pad f.locals (slot + t.width)) slot).set slot t
    if t.width = 2 then locals.set (slot + 1) .top else locals := by
  cases slot <;> rfl

/-- What the slots hold after a store: the slot itself the value, and nothing the slot behind a wide value and the slot
    of a wide value that lost its second slot. -/
theorem getLocal_setLocal (f : Frame) (slot : Nat) (t : VType) (i : Nat) :
    (f.setLocal slot t).getLocal i =
      if i = slot then t
      else if i = slot + 1 ∧ t.width = 2 then .top
      else if i + 1 = slot ∧ (f.getLocal i).width = 2 then .top
      else f.getLocal i := by
  have hlen : slot + t.width ≤ (cutBefore (pad f.locals (slot + t.width)) slot).length := by
    rw [length_cutBefore, length_pad]
    omega
  have hcut : ∀ j, (cutBefore (pad f.locals (slot + t.width)) slot).getD j .top =
      if j + 1 = slot ∧ (f.getLocal j).width = 2 then .top else f.getLocal j := fun j => by
    rw [getD_cutBefore _ _ _ (by rw [length_pad]; omega), getD_pad]
    rfl
  unfold getLocal at hcut ⊢
  rw [setLocal_eq]
  generalize cutBefore (pad f.locals (slot + t.width)) slot = locals at hlen hcut
  have hwidth := t.width_eq_one_or_two
  split
  · rw [getD_set _ _ (by rw [List.length_set]; omega), getD_set _ _ (by omega), hcut]
    grind
  · rw [getD_set _ _ (by omega), hcut]
    grind

theorem length_setLocal (f : Frame) (slot : Nat) (t : VType) :
    (f.setLocal slot t).locals.length = max f.locals.length (slot + t.width) := by
  rw [setLocal_eq]
  split <;> simp [length_cutBefore, length_pad]

@[simp] theorem stack_setLocal (f : Frame) (slot : Nat) (t : VType) : (f.setLocal slot t).stack = f.stack := rfl

/-- After a constructor call every slot that held the value holds it initialized. -/
theorem getLocal_markInitialized (f : Frame) {before : VType} (after : VType) (h : before ≠ .top) (i : Nat) :
    (f.markInitialized before after).getLocal i = if f.getLocal i = before then after else f.getLocal i := by
  simp only [getLocal, markInitialized, List.getD_eq_getElem?_getD, List.getElem?_map]
  cases f.locals[i]? with
  | none => simp [h.symm]
  | some t => rfl

end Frame

end Classwright
