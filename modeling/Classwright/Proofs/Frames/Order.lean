import Classwright.Proofs.Frames.Locals
import Classwright.Proofs.Results

/-! # The order of frames

One frame lies below another when every value that fits the first fits the second. On the stack `null` lies below
every object and every object below the root class; among the locals all types lie below the unusable one as well.
A slot that a list of locals does not have counts as unusable. Two frames that are joined lie below their join. -/

namespace Classwright

/-! ### Types -/

namespace VType

/-- An object whose constructor has not run. -/
def isUninitialized : VType → Bool
  | .uninitializedThis | .uninitialized _ => true
  | _ => false

/-- The order on the operand stack. -/
inductive Below : VType → VType → Prop
  | refl (t : VType) : Below t t
  | null (name : String) : Below .null (.object name)
  | root (name : String) : Below (.object name) (.object Name.object)

/-- The order among the locals. -/
inductive BelowLocal : VType → VType → Prop
  | value {a b : VType} (h : Below a b) : BelowLocal a b
  | top (t : VType) : BelowLocal t .top

namespace Below
variable {a b c : VType}

theorem trans (h₁ : Below a b) (h₂ : Below b c) : Below a c := by
  cases h₁ with
  | refl => exact h₂
  | null name =>
    cases h₂ with
    | refl => exact .null _
    | root => exact .null _
  | root name =>
    cases h₂ with
    | refl => exact .root _
    | root => exact .root _

theorem width_eq (h : Below a b) : a.width = b.width := by
  cases h <;> rfl

theorem hasKind_eq (h : Below a b) (k : LocalKind) : a.hasKind k = b.hasKind k := by
  cases h with
  | refl => rfl
  | null name => cases k <;> simp [hasKind, isReference]
  | root name => cases k <;> simp [hasKind, isReference]

/-- Only references lie strictly below another type. -/
theorem eq_or_reference (h : Below a b) : a = b ∨ (a.isReference = true ∧ ∃ name, b = .object name) := by
  cases h with
  | refl => exact Or.inl rfl
  | null name => exact Or.inr ⟨rfl, name, rfl⟩
  | root name => exact Or.inr ⟨rfl, _, rfl⟩

/-- Nothing lies strictly below or above a value whose constructor has not run. -/
theorem eq_iff (h : Below a b) (hc : c.isUninitialized = true) : a = c ↔ b = c := by
  cases h with
  | refl => rfl
  | null name => constructor <;> rintro rfl <;> cases hc
  | root name => constructor <;> rintro rfl <;> cases hc

end Below

namespace BelowLocal
variable {a b c : VType}

theorem refl (t : VType) : BelowLocal t t := .value (.refl t)

theorem trans (h₁ : BelowLocal a b) (h₂ : BelowLocal b c) : BelowLocal a c := by
  cases h₂ with
  | top => exact .top a
  | value h₂ =>
    cases h₁ with
    | value h₁ => exact .value (h₁.trans h₂)
    | top =>
      cases h₂ with
      | refl => exact .top a

theorem below_of_ne_top (h : BelowLocal a b) (hb : b ≠ .top) : Below a b := by
  cases h with
  | value h => exact h
  | top => exact absurd rfl hb

end BelowLocal

theorem join?_below {a b c : VType} (h : a.join? b = some c) : Below a c ∧ Below b c := by
  unfold join? at h
  split at h
  · rename_i hab
    cases h
    exact ⟨.refl a, hab ▸ .refl a⟩
  · split at h
    · cases h
      exact ⟨.null _, .refl _⟩
    · cases h
      exact ⟨.refl _, .null _⟩
    · cases h
      exact ⟨.root _, .root _⟩
    · cases h

@[simp] theorem joinLocal_self (a : VType) : a.joinLocal a = a := by
  simp [joinLocal, join?]

theorem joinLocal_below (a b : VType) : BelowLocal a (a.joinLocal b) ∧ BelowLocal b (a.joinLocal b) := by
  unfold joinLocal
  cases h : a.join? b with
  | none => exact ⟨.top a, .top b⟩
  | some c => exact ⟨.value (join?_below h).1, .value (join?_below h).2⟩

end VType

/-! ### Frames -/

namespace Frame

/-- A frame lies below another in every slot and every stack entry. -/
structure Below (f g : Frame) : Prop where
  locals : ∀ slot, VType.BelowLocal (f.getLocal slot) (g.getLocal slot)
  stack : List.Forall₂ VType.Below f.stack g.stack

namespace Below
variable {f g h : Frame}

theorem refl (f : Frame) : f.Below f :=
  ⟨fun _ => .refl _, List.forall₂_same.mpr fun t _ => .refl t⟩

theorem trans (h₁ : f.Below g) (h₂ : g.Below h) : f.Below h :=
  ⟨fun slot => (h₁.locals slot).trans (h₂.locals slot), stack_trans h₁.stack h₂.stack⟩
where
  stack_trans : ∀ {xs ys zs : List VType}, List.Forall₂ VType.Below xs ys → List.Forall₂ VType.Below ys zs →
      List.Forall₂ VType.Below xs zs
    | _, _, _, .nil, .nil => .nil
    | _, _, _, .cons h₁ hs₁, .cons h₂ hs₂ => .cons (h₁.trans h₂) (stack_trans hs₁ hs₂)

theorem stack_length (h : f.Below g) : f.stack.length = g.stack.length := h.stack.length_eq

end Below

/-! ### Joins -/

theorem length_joinLocals (xs ys : List VType) : (joinLocals xs ys).length = max xs.length ys.length := by
  simp only [joinLocals, List.length_zipWith, length_pad]
  omega

theorem getD_joinLocals (xs ys : List VType) (slot : Nat) :
    (joinLocals xs ys).getD slot .top = (xs.getD slot .top).joinLocal (ys.getD slot .top) := by
  rw [← getD_pad xs ys.length, ← getD_pad ys xs.length]
  have hlen : (pad xs ys.length).length = (pad ys xs.length).length := by
    rw [length_pad, length_pad, Nat.max_comm]
  unfold joinLocals
  simp only [List.getD_eq_getElem?_getD, List.getElem?_zipWith]
  by_cases h : slot < (pad xs ys.length).length
  · rw [List.getElem?_eq_getElem h, List.getElem?_eq_getElem (hlen ▸ h)]
    rfl
  · rw [List.getElem?_eq_none (Nat.le_of_not_lt h), List.getElem?_eq_none (hlen ▸ Nat.le_of_not_lt h)]
    simp

theorem joinStacks_below : ∀ {xs ys zs : List VType}, xs.length = ys.length → joinStacks xs ys = .ok zs →
    List.Forall₂ VType.Below xs zs ∧ List.Forall₂ VType.Below ys zs
  | [], [], zs, _, h => by
    cases h
    exact ⟨.nil, .nil⟩
  | x :: xs, y :: ys, zs, hlen, h => by
    unfold joinStacks at h
    split at h
    · cases h
    · rename_i t ht
      cases hs : joinStacks xs ys with
      | error e => rw [hs] at h; cases h
      | ok ts =>
        rw [hs] at h
        cases h
        obtain ⟨h₁, h₂⟩ := joinStacks_below (Nat.succ.inj hlen) hs
        exact ⟨.cons (VType.join?_below ht).1 h₁, .cons (VType.join?_below ht).2 h₂⟩

/-- What a successful join consists of. -/
theorem join_eq_ok {f g j : Frame} (h : f.join g = .ok j) :
    f.stack.length = g.stack.length ∧ j.locals = joinLocals f.locals g.locals ∧
      joinStacks f.stack.reverse g.stack.reverse = .ok j.stack.reverse := by
  unfold join at h
  split at h
  · cases h
  · rename_i hlen
    cases hs : joinStacks f.stack.reverse g.stack.reverse with
    | error e => rw [hs] at h; cases h
    | ok ts =>
      rw [hs] at h
      cases h
      exact ⟨not_not.mp hlen, rfl, by simp⟩

/-- Frames lie below their join. -/
theorem join_below {f g j : Frame} (h : f.join g = .ok j) : f.Below j ∧ g.Below j := by
  obtain ⟨hlen, hlocals, hstack⟩ := join_eq_ok h
  obtain ⟨h₁, h₂⟩ := joinStacks_below (by simp [hlen]) hstack
  have hslot : ∀ slot, j.getLocal slot = (f.getLocal slot).joinLocal (g.getLocal slot) := fun slot => by
    unfold getLocal
    rw [hlocals, getD_joinLocals]
  refine ⟨⟨fun slot => ?_, List.forall₂_reverse_iff.mp h₁⟩, ⟨fun slot => ?_, List.forall₂_reverse_iff.mp h₂⟩⟩
  · rw [hslot]
    exact (VType.joinLocal_below _ _).1
  · rw [hslot]
    exact (VType.joinLocal_below _ _).2

theorem differs_eq : ∀ {xs ys : List VType}, xs.length = ys.length → differs xs ys = decide (ys ≠ xs)
  | [], [], _ => rfl
  | x :: xs, y :: ys, h => by
    rw [differs, differs_eq (Nat.succ.inj h)]
    by_cases hxy : x = y
    · simp [hxy]
    · simp [hxy, Ne.symm hxy]

/-- The flag of a merge says just whether the join is another frame. -/
theorem merge_eq (f g : Frame) : f.merge g = (f.join g).map fun j => (j, decide (j ≠ f)) := by
  unfold merge
  cases hj : f.join g with
  | error fault => rfl
  | ok j =>
    obtain ⟨-, hlocals, -⟩ := join_eq_ok hj
    have hlength : j.locals.length = max f.locals.length g.locals.length := by rw [hlocals, length_joinLocals]
    have hne : j ≠ f ↔ j.stack ≠ f.stack ∨ j.locals ≠ f.locals := by
      obtain ⟨locals, stack⟩ := f
      obtain ⟨locals', stack'⟩ := j
      simp only [ne_eq, mk.injEq]
      tauto
    refine congrArg (fun changed => Except.ok (j, changed)) ?_
    rw [differs_eq (join_below hj).1.stack_length, differs_eq (by rw [length_pad, hlength])]
    by_cases hmore : f.locals.length < g.locals.length
    · -- new slots alone make another frame
      have hlocals : j.locals ≠ f.locals := fun heq => by
        rw [heq] at hlength
        omega
      simp [hne, hmore, hlocals]
    · have hpad : pad f.locals g.locals.length = f.locals := by
        rw [pad, Nat.sub_eq_zero_of_le (Nat.le_of_not_lt hmore)]
        exact List.append_nil _
      simp [hne, hmore, hpad]

end Frame

end Classwright
