import Mathlib.Data.List.Forall2
import Mathlib.Tactic.Common

/-! # Computations that can fail

How a result comes about step by step, and computations of which one follows the other. Lists of results are related item
by item. -/

namespace Classwright

/-! ### Steps -/

section Steps
variable {ε α β : Type}

theorem bind_eq_ok {x : Except ε α} {k : α → Except ε β} {b : β} :
    x >>= k = .ok b ↔ ∃ a, x = .ok a ∧ k a = .ok b := by
  cases x with
  | error e => simp [bind, Except.bind]
  | ok a => simp [bind, Except.bind]

@[simp] theorem ok_bind (a : α) (k : α → Except ε β) : (Except.ok a >>= k) = k a := rfl

@[simp] theorem error_bind (e : ε) (k : α → Except ε β) : (Except.error e >>= k) = .error e := rfl

theorem ite_eq_ok {p : Prop} [Decidable p] {x : Except ε α} {e : ε} {a : α} :
    (if p then x else .error e) = .ok a ↔ p ∧ x = .ok a := by
  split <;> simp_all

theorem ite_error_eq_ok {p : Prop} [Decidable p] {x : Except ε α} {e : ε} {a : α} :
    (if p then .error e else x) = .ok a ↔ ¬p ∧ x = .ok a := by
  split <;> simp_all

theorem toOption_eq_some {x : Except ε α} {a : α} : x.toOption = some a ↔ x = .ok a := by
  cases x <;> simp [Except.toOption]

theorem exists_ok_of_toBool {σ : Type} {r : Except ε α × σ} (h : r.1.toBool = true) : ∃ a s, r = (.ok a, s) := by
  obtain ⟨x, s⟩ := r
  cases x with
  | error e => cases h
  | ok a => exact ⟨a, s, rfl⟩

theorem exists_ok_of_any {σ : Type} {r : Except ε α × σ} {P : α → Bool} (h : r.1.toOption.any P = true) :
    ∃ a s, r = (.ok a, s) ∧ P a = true := by
  obtain ⟨x, s⟩ := r
  cases x with
  | error e => cases h
  | ok a => exact ⟨a, s, rfl, h⟩

end Steps

/-! ### Results and failures -/

/-- A result is as `Q` says, and a failure as `E` does. -/
def Meets {ε α : Type} (Q : α → Prop) (E : ε → Prop) : Except ε α → Prop
  | .ok a => Q a
  | .error e => E e

theorem Meets.bind {ε α β : Type} {Q : α → Prop} {R : β → Prop} {E : ε → Prop} {x : Except ε α} {k : α → Except ε β}
    (h : Meets Q E x) (hk : ∀ a, Q a → Meets R E (k a)) : Meets R E (x >>= k) :=
  match x with
  | .ok a => hk a h
  | .error _ => h

theorem Meets.imp {ε α : Type} {Q R : α → Prop} {E : ε → Prop} {x : Except ε α} (h : Meets Q E x)
    (hq : ∀ a, Q a → R a) : Meets R E x :=
  match x with
  | .ok a => hq a h
  | .error _ => h

/-! ### Computations that follow each other -/

/-- Wherever the second computation gives a result, the first gives one that is related to it. -/
def Follows {ε α β : Type} (R : α → β → Prop) (x : Except ε α) (y : Except ε β) : Prop :=
  ∀ b, y = .ok b → ∃ a, x = .ok a ∧ R a b

namespace Follows
variable {ε α β γ δ : Type} {R : α → β → Prop} {S : γ → δ → Prop}

theorem ok {a : α} {b : β} (h : R a b) : Follows R (.ok a : Except ε α) (.ok b) := by
  intro b' hb
  cases hb
  exact ⟨a, rfl, h⟩

theorem error {x : Except ε α} {e : ε} : Follows R x (.error e : Except ε β) := by
  intro b hb
  cases hb

theorem bind {x : Except ε α} {y : Except ε β} {k : α → Except ε γ} {l : β → Except ε δ} (h : Follows R x y)
    (hk : ∀ a b, R a b → Follows S (k a) (l b)) : Follows S (x >>= k) (y >>= l) := by
  intro d hd
  cases hy : y with
  | error e => rw [hy] at hd; cases hd
  | ok b =>
    obtain ⟨a, rfl, hab⟩ := h b hy
    rw [hy] at hd
    exact hk a b hab d hd

end Follows

/-! ### Lists item by item -/

section Items
variable {α β γ : Type} {R : α → β → Prop} {xs : List α} {ys : List β}

theorem exists_of_forall₂ (h : List.Forall₂ R xs ys) {y : β} (hy : y ∈ ys) : ∃ x ∈ xs, R x y := by
  induction h with
  | nil => cases hy
  | @cons x _ _ _ hxy _ ih =>
    rcases List.mem_cons.mp hy with rfl | hy
    · exact ⟨x, List.mem_cons_self, hxy⟩
    · obtain ⟨x', hx', hxy'⟩ := ih hy
      exact ⟨x', List.mem_cons_of_mem x hx', hxy'⟩

theorem forall₂_comp {S : β → γ → Prop} {zs : List γ} (h : List.Forall₂ R xs ys) (h' : List.Forall₂ S ys zs) :
    List.Forall₂ (fun x z => ∃ y, R x y ∧ S y z) xs zs := by
  induction h generalizing zs with
  | nil =>
    cases h'
    exact .nil
  | cons hxy _ ih =>
    cases h' with
    | cons hyz h' => exact .cons ⟨_, hxy, hyz⟩ (ih h')

/-- Where every item gives what it was made of, so does the list. -/
theorem filterMap_of_forall₂ {f : β → Option γ} {g : α → γ} (h : List.Forall₂ R xs ys)
    (hf : ∀ x ∈ xs, ∀ y, R x y → f y = some (g x)) : ys.filterMap f = xs.map g := by
  induction h with
  | nil => rfl
  | cons hxy _ ih =>
    obtain ⟨hone, hrest⟩ := List.forall_mem_cons.mp hf
    rw [List.filterMap_cons_some (hone _ hxy), ih hrest, List.map_cons]

end Items

end Classwright
