import Classwright.Bytecode.Placement
import Classwright.Proofs.Results

/-! # Where labels are

A placement that is found gives each label the one place where its mark stands, and every jump has a place to go. -/

namespace Classwright

namespace Placement
variable {p q : Placement} {l : Label} {i j : Nat}

theorem target_eq_ok : p.target l = .ok i ↔ p.position? l = some i := by
  unfold target
  split <;> simp_all

theorem place_eq_ok (h : p.place i l = .ok q) :
    p.position? l = none ∧ ∀ k j, q.position? k = some j ↔ (k = l ∧ j = i) ∨ p.position? k = some j := by
  unfold place at h
  split at h
  · cases h
  · cases h
  · rename_i hl
    cases h
    have hlt : l.id < p.positions.size := by
      by_contra hlt
      rw [Array.getElem?_eq_none (by omega)] at hl
      cases hl
    refine ⟨by simp [position?, hl], fun k j => ?_⟩
    unfold position?
    rw [Array.getElem?_setIfInBounds]
    by_cases hk : l.id = k.id
    · obtain rfl : l = k := by cases l; cases k; cases hk; rfl
      rw [if_pos hk, if_pos hlt, hl]
      simp [eq_comm]
    · have hne : k ≠ l := fun h => hk (by rw [h])
      simp [hk, hne]

theorem placeAll_cons {instr : Instr} (h : ∀ l, instr ≠ .mark l) (p : Placement) (i : Nat) (rest : List Instr) :
    p.placeAll i (instr :: rest) = p.placeAll (i + 1) rest := by
  cases instr with
  | mark l => exact absurd rfl (h l)
  | _ => rfl

theorem placeAll_eq_ok : ∀ {is : List Instr} {p : Placement} {i : Nat}, p.placeAll i is = .ok q →
    ∀ l j, q.position? l = some j ↔ p.position? l = some j ∨ ∃ k, is[k]? = some (.mark l) ∧ j = i + k
  | [], p, i, h => by
    cases h
    simp
  | instr :: rest, p, i, h => fun l j => by
    by_cases hm : ∃ l', instr = .mark l'
    · obtain ⟨l', rfl⟩ := hm
      unfold placeAll at h
      split at h
      · rename_i p' hp
        rw [placeAll_eq_ok h, (place_eq_ok hp).2]
        constructor
        · rintro ((⟨rfl, rfl⟩ | h) | ⟨k, hk, rfl⟩)
          · exact Or.inr ⟨0, rfl, rfl⟩
          · exact Or.inl h
          · exact Or.inr ⟨k + 1, hk, by omega⟩
        · rintro (h | ⟨k, hk, rfl⟩)
          · exact Or.inl (Or.inr h)
          · cases k with
            | zero =>
              cases hk
              exact Or.inl (Or.inl ⟨rfl, rfl⟩)
            | succ k => exact Or.inr ⟨k, hk, by omega⟩
      · cases h
    · rw [placeAll_cons (fun l' h => hm ⟨l', h⟩)] at h
      rw [placeAll_eq_ok h]
      constructor
      · rintro (h | ⟨k, hk, rfl⟩)
        · exact Or.inl h
        · exact Or.inr ⟨k + 1, hk, by omega⟩
      · rintro (h | ⟨k, hk, rfl⟩)
        · exact Or.inl h
        · cases k with
          | zero => exact absurd ⟨l, Option.some.inj hk⟩ hm
          | succ k => exact Or.inr ⟨k, hk, by omega⟩

theorem checkJumps_eq_ok {is : List Instr} (h : p.checkJumps is = .ok ()) {op : Opcode} (hj : .jump op l ∈ is) :
    ∃ j, p.position? l = some j := by
  induction is with
  | nil => cases hj
  | cons instr rest ih =>
    rcases List.mem_cons.mp hj with rfl | hj
    · unfold checkJumps at h
      split at h
      · rename_i j hl
        exact ⟨j, target_eq_ok.mp hl⟩
      · cases h
    · refine ih ?_ hj
      cases instr with
      | jump op' l' =>
        unfold checkJumps at h
        split at h
        · exact h
        · cases h
      | _ => exact h

theorem place_of_free (h : p.positions[l.id]? = some none) (i : Nat) :
    p.place i l = .ok ⟨p.positions.setIfInBounds l.id (some i)⟩ := by
  rw [place, h]

/-- Marks that stand once each, of labels that have no place yet, can be placed. -/
theorem exists_placeAll {is : List Instr} (hfree : ∀ l, .mark l ∈ is → p.positions[l.id]? = some none)
    (hone : ∀ l, is.count (.mark l) ≤ 1) (i : Nat) : ∃ q, p.placeAll i is = .ok q := by
  induction is generalizing p i with
  | nil => exact ⟨p, rfl⟩
  | cons instr rest ih =>
    have hrest : ∀ l, .mark l ∈ rest → p.positions[l.id]? = some none := fun l h => hfree l (List.mem_cons_of_mem _ h)
    have hone' : ∀ l, rest.count (.mark l) ≤ 1 := fun l => Nat.le_trans List.count_le_count_cons (hone l)
    by_cases hm : ∃ l, instr = .mark l
    · obtain ⟨l, rfl⟩ := hm
      rw [placeAll, place_of_free (hfree l List.mem_cons_self)]
      refine ih (fun k hk => ?_) hone' (i + 1)
      have hne : l.id ≠ k.id := fun heq => by
        obtain rfl : l = k := by cases l; cases k; cases heq; rfl
        have hcount := hone l
        have hpos := List.count_pos_iff.mpr hk
        rw [List.count_cons_self] at hcount
        omega
      rw [Array.getElem?_setIfInBounds, if_neg hne]
      exact hrest k hk
    · rw [placeAll_cons fun l heq => hm ⟨l, heq⟩]
      exact ih hrest hone' (i + 1)

theorem checkJumps_of_placed {is : List Instr} (h : ∀ op l, .jump op l ∈ is → ∃ j, p.position? l = some j) :
    p.checkJumps is = .ok () := by
  induction is with
  | nil => rfl
  | cons instr rest ih =>
    have hrest := ih fun op l hl => h op l (List.mem_cons_of_mem instr hl)
    cases instr with
    | jump op l =>
      obtain ⟨j, hj⟩ := h op l List.mem_cons_self
      rw [checkJumps, target_eq_ok.mpr hj]
      exact hrest
    | _ => exact hrest

end Placement

/-- A label's place is where its mark stands. -/
theorem Code.position?_eq_some {c : Code} {p : Placement} (h : c.placement = .ok p) (l : Label) (j : Nat) :
    p.position? l = some j ↔ c.instrs[j]? = some (.mark l) := by
  obtain ⟨q, hq, h⟩ := bind_eq_ok.mp h
  obtain ⟨_, -, h⟩ := bind_eq_ok.mp h
  cases h
  rw [Placement.placeAll_eq_ok hq]
  have hnone : Placement.position? ⟨Array.replicate c.labels none⟩ l = none := by
    simp only [Placement.position?, Array.getElem?_replicate]
    split <;> rfl
  simp [hnone]

/-- Every jump has a place to go. -/
theorem Code.exists_position? {c : Code} {p : Placement} (h : c.placement = .ok p) {i : Nat} {op : Opcode} {l : Label}
    (hi : c.instrs[i]? = some (.jump op l)) : ∃ j, p.position? l = some j := by
  obtain ⟨q, -, h⟩ := bind_eq_ok.mp h
  obtain ⟨_, hc, h⟩ := bind_eq_ok.mp h
  cases h
  exact Placement.checkJumps_eq_ok hc (by simpa using Array.mem_of_getElem? hi)

/-- Where each label is marked once and jumps go to labels, they have their places. -/
theorem Code.exists_placement {c : Code}
    (hmarks : ∀ l, c.instrs.toList.count (.mark l) = if l.id < c.labels then 1 else 0)
    (hjumps : ∀ op l, .jump op l ∈ c.instrs → l.id < c.labels) : ∃ p, c.placement = .ok p := by
  obtain ⟨p, hp⟩ : ∃ p, Placement.placeAll ⟨Array.replicate c.labels none⟩ 0 c.instrs.toList = .ok p := by
    refine Placement.exists_placeAll (fun l hl => ?_) (fun l => ?_) 0
    · have hcount := List.count_pos_iff.mpr hl
      rw [hmarks] at hcount
      split at hcount
      · rename_i hlt
        simp [hlt]
      · cases hcount
    · rw [hmarks]
      split <;> omega
  have hchecked : p.checkJumps c.instrs.toList = .ok () := by
    refine Placement.checkJumps_of_placed fun op l hl => ?_
    have hpos : .mark l ∈ c.instrs.toList := by
      rw [← List.count_pos_iff, hmarks, if_pos (hjumps op l (by simpa using hl))]
      exact Nat.one_pos
    obtain ⟨k, hk⟩ := List.mem_iff_getElem?.mp hpos
    exact ⟨0 + k, (Placement.placeAll_eq_ok hp l _).mpr (.inr ⟨k, hk, rfl⟩)⟩
  exact ⟨p, by rw [placement, hp, ok_bind, hchecked]; rfl⟩

end Classwright
