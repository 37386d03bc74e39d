import Classwright.Proofs.Frames.Worklist
import Mathlib.Algebra.Order.BigOperators.Group.List
import Mathlib.Algebra.Order.Group.Nat

/-! # The frames that are found

Each visit is paid for by a frame that has gone up. Slots come from stores alone, and stack entries from the instructions
that have a frame, so frames do not get larger than bounds that depend on the code and on the frame that the method starts
with, and their ranks are bounded too. So the visits come to an end. Each of them has made an instruction fit the frames
that were sent to it, and what is found in the end is a typing: it fits all of them. -/

namespace Classwright.Dataflow

variable {m : MethodHead} {code : Array Instr} {p : Placement} {entry f : Frame} {d d' : Dataflow} {n s i : Nat}
  {rest : List Nat} {instr : Instr} {R : Frame → Frame → Prop} {τ : Nat → Option Frame}

/-! ### Typings -/

/-- The frame at `i` fits the instruction there. What comes after it lies below the frames where control can go. -/
def FitsAt (R : Frame → Frame → Prop) (m : MethodHead) (code : Array Instr) (p : Placement) (τ : Nat → Option Frame)
    (i : Nat) (f : Frame) : Prop :=
  ∃ instr after, code[i]? = some instr ∧ f.apply m code i instr = .ok after ∧
    ∀ j, Edge code p i j → ∃ g, τ j = some g ∧ R after g

/-- Frames for instructions that fit them, from an entry on, in an order of frames. Only instructions have frames, and
    control stays among those that have one. -/
structure Typing (R : Frame → Frame → Prop) (m : MethodHead) (code : Array Instr) (p : Placement) (entry : Frame)
    (τ : Nat → Option Frame) : Prop where
  entry : ∃ g, τ 0 = some g ∧ R entry g
  fits : ∀ i f, τ i = some f → FitsAt R m code p τ i f

theorem Typing.size_pos (typing : Typing R m code p entry τ) : 0 < code.size := by
  obtain ⟨g, hg, -⟩ := typing.entry
  obtain ⟨instr, _, hi, -⟩ := typing.fits 0 g hg
  exact (Array.getElem?_eq_some_iff.mp hi).1

/-- The frames are a typing, but for those that are still to be visited. -/
structure Partial (R : Frame → Frame → Prop) (m : MethodHead) (code : Array Instr) (p : Placement) (entry : Frame)
    (d : Dataflow) : Prop where
  size : d.frames.size = code.size
  entry : ∃ g, d.frameAt 0 = some g ∧ R entry g
  fits : ∀ i f, d.frameAt i = some f → i ∈ d.pending ∨ FitsAt R m code p d.frameAt i f

theorem partial_start (O : Frame.JoinOrder R) (hne : 0 < code.size) :
    Partial R m code p entry (start code entry) where
  size := by simp [start]
  entry := ⟨entry, by rw [frameAt_start hne, if_pos rfl], O.refl entry⟩
  fits i f hf := by
    rw [frameAt_start hne] at hf
    split at hf
    · rename_i hi
      exact .inl (by simp [start, hi])
    · cases hf

theorem Partial.visit (O : Frame.JoinOrder R) (hp : ∀ l j, p.position? l = some j → j < code.size)
    (h : Partial R m code p entry d) (hperm : d.pending.Perm (i :: rest)) (hi : code[i]? = some instr)
    (hf : d.frameAt i = some f) (hv : Dataflow.visit m code p { d with pending := rest } i instr f = .ok d') :
    Partial R m code p entry d' := by
  obtain ⟨after, ts, ha, hts, hlt, hs⟩ := visit_eq_ok hp hi hv
  have A := hs.advances O fun t ht => h.size ▸ hlt t ht
  refine ⟨A.size.trans h.size, ?_, fun k g hg => ?_⟩
  · obtain ⟨g, hg, hR⟩ := h.entry
    obtain ⟨g', hg', hR'⟩ := A.kept 0 g hg
    exact ⟨g', hg', O.trans hR hR'⟩
  · rcases A.changed k with hsame | hpending
    · replace hsame : d'.frameAt k = d.frameAt k := hsame
      rw [hsame] at hg
      rcases h.fits k g hg with hk | ⟨instr', after', hi', ha', hnext⟩
      · rcases List.mem_cons.mp (hperm.mem_iff.mp hk) with rfl | hk
        · -- the frame that was visited, and did not change
          cases hf.symm.trans hg
          exact .inr ⟨instr, after, hi, ha, fun j hj => A.sent j ((hts j).mp hj)⟩
        · exact .inl (A.pending k hk)
      · refine .inr ⟨instr', after', hi', ha', fun j hj => ?_⟩
        obtain ⟨g', hg', hR⟩ := hnext j hj
        obtain ⟨g'', hg'', hR'⟩ := A.kept j g' hg'
        exact ⟨g'', hg'', O.trans hR hR'⟩
    · exact .inl hpending

/-! ### How large frames can get -/

/-- The slots that a method starts with, and how far its stores reach. -/
def slotBound (code : Array Instr) (entry : Frame) : Nat :=
  (code.toList.map Instr.slotsWritten).foldr max entry.locals.length

theorem le_slotBound (code : Array Instr) (entry : Frame) :
    entry.locals.length ≤ slotBound code entry ∧ ∀ instr ∈ code, instr.slotsWritten ≤ slotBound code entry := by
  have hall : ∀ instrs : List Instr, entry.locals.length ≤ (instrs.map Instr.slotsWritten).foldr max entry.locals.length ∧
      ∀ instr ∈ instrs, instr.slotsWritten ≤ (instrs.map Instr.slotsWritten).foldr max entry.locals.length := by
    intro instrs
    induction instrs with
    | nil => exact ⟨Nat.le_refl _, fun _ h => absurd h List.not_mem_nil⟩
    | cons instr instrs ih =>
      rw [List.map_cons, List.foldr_cons, List.forall_mem_cons]
      refine ⟨Nat.le_trans ih.1 (Nat.le_max_right _ _), Nat.le_max_left _ _, fun instr' h => ?_⟩
      exact Nat.le_trans (ih.2 instr' h) (Nat.le_max_right _ _)
  exact ⟨(hall code.toList).1, fun instr h => (hall code.toList).2 instr h.val⟩

theorem slotBound_le (code : Array Instr) (entry : Frame) : slotBound code entry ≤ entry.locals.length + 65537 := by
  unfold slotBound
  induction code.toList with
  | nil =>
    rw [List.map_nil, List.foldr_nil]
    omega
  | cons instr instrs ih =>
    have hwritten : instr.slotsWritten ≤ 65537 := by
      cases instr with
      | store kind slot =>
        have hslot := slot.toNat_lt
        have hwidth : kind.width ≤ 2 := by cases kind <;> decide
        simp only [Instr.slotsWritten]
        omega
      | _ => exact Nat.zero_le _
    rw [List.map_cons, List.foldr_cons]
    exact Nat.max_le.mpr ⟨by omega, ih⟩

theorem live_le (d : Dataflow) : d.live ≤ d.frames.size := by
  refine Nat.le_trans (List.sum_le_card_nsmul _ 1 (List.forall_mem_map.mpr fun o _ => ?_)) (by simp)
  cases o <;> simp

/-- The ranks of bounded frames are bounded. -/
theorem potential_le (h : Bounded n s d) :
    d.potential ≤ d.frames.size * (1 + 4 * n + 3 * s + 6 * d.frames.size) := by
  unfold potential
  refine Nat.le_trans (List.sum_le_card_nsmul _ (1 + 4 * n + 3 * s + 6 * d.frames.size)
    (List.forall_mem_map.mpr fun o ho => ?_)) (by simp)
  cases o with
  | none => simp
  | some g =>
    obtain ⟨i, hi⟩ := Array.getElem?_of_mem (Array.mem_toList_iff.mp ho)
    have hg : d.frameAt i = some g := by simp [frameAt, hi]
    have hlocals := h.locals i g hg
    have hstack := h.stack i g hg
    have hlive := d.live_le
    have hrank := g.rank_le
    simp only [Option.elim]
    omega

/-- Every instruction has a place for its frame, and frames are not larger than the bounds say. -/
structure Within (code : Array Instr) (n s : Nat) (d : Dataflow) : Prop where
  size : d.frames.size = code.size
  bounded : Bounded n s d

theorem Within.potential_le (h : Within code n s d) :
    d.potential ≤ code.size * (1 + 4 * n + 3 * s + 6 * code.size) := by
  have hle := Dataflow.potential_le h.bounded
  rwa [h.size] at hle

theorem within_start (hne : 0 < code.size) :
    Within code (slotBound code entry) entry.stack.length (start code entry) := by
  have hlive := live_set ⟨Array.replicate code.size none, [], 0, entry.locals.length⟩ (t := 0) (by simpa using hne)
    entry [0]
  have hone : 1 ≤ (start code entry).live := by
    simp only [frameAt, Array.getElem?_replicate, hne, if_true, Option.join_some, Option.elim] at hlive
    unfold start
    omega
  refine ⟨by simp [start], fun i g h => ?_, fun i g h => ?_⟩
  · rw [frameAt_start hne] at h
    split at h
    · cases h
      exact (le_slotBound code entry).1
    · cases h
  · rw [frameAt_start hne] at h
    split at h
    · cases h
      omega
    · cases h

/-- A visit keeps to the bounds, and the places that it adds to those to visit are paid for by frames that have gone up. -/
theorem Within.visit (hn : ∀ instr ∈ code, instr.slotsWritten ≤ n) (hp : ∀ l j, p.position? l = some j → j < code.size)
    (h : Within code n s d) (hi : code[i]? = some instr) (hf : d.frameAt i = some f)
    (hv : Dataflow.visit m code p { d with pending := rest } i instr f = .ok d') :
    Within code n s d' ∧ d'.pending.length + d.potential ≤ rest.length + d'.potential := by
  obtain ⟨after, ts, ha, -, hlt, hs⟩ := visit_eq_ok hp hi hv
  have hts : ∀ t ∈ ts, t < d.frames.size := fun t ht => h.size ▸ hlt t ht
  have A := hs.advances Frame.joinOrder_below hts
  refine ⟨⟨A.size.trans h.size, hs.bounded hts ⟨h.bounded.locals, h.bounded.stack⟩ ?_ ?_⟩, A.paid⟩
  · rw [Frame.length_apply ha]
    exact Nat.max_le.mpr ⟨h.bounded.locals i f hf, hn instr (Array.mem_of_getElem? hi)⟩
  · have hstack := h.bounded.stack i f hf
    have hgrow := (Frame.apply_grows ha).2
    show after.stack.length ≤ s + 2 * d.live
    omega

/-! ### The end of the visits -/

/-- The most turns that the loop can take. -/
def turnBound (code : Array Instr) (entry : Frame) : Nat :=
  code.size * (1 + 4 * slotBound code entry + 3 * entry.stack.length + 6 * code.size)

/-- The budget is enough for the frames of a method to reach their highest ranks. -/
theorem turnBound_lt (code : Array Instr) (entry : Frame) :
    turnBound code entry < budget code.size (entry.locals.length + entry.stack.length) := by
  have hslots := slotBound_le code entry
  have hmul : turnBound code entry ≤
      code.size * (4 * (entry.locals.length + entry.stack.length + 65538) + 8 * code.size + 8) :=
    Nat.mul_le_mul_left code.size (by omega)
  have hsucc := Nat.add_one_mul code.size (4 * (entry.locals.length + entry.stack.length + 65538) + 8 * code.size + 8)
  unfold budget
  omega

/-- Nothing is left to visit in the end. -/
theorem pending_of_analyzeIn {order : Nat → Nat} (hp : ∀ l j, p.position? l = some j → j < code.size)
    (h : analyzeIn order m code p entry = .ok d) : d.pending = [] := by
  have hne := size_pos_of_analyzeIn h
  rw [analyzeIn_eq_runIn order hne] at h
  -- the visits that are left are enough for all the changes that are still possible
  let I (k : Nat) (d : Dataflow) : Prop := Within code (slotBound code entry) entry.stack.length d ∧
    turnBound code entry + d.pending.length ≤ k + d.potential
  have hvisit {k : Nat} {d : Dataflow} {i : Nat} {rest : List Nat} {instr : Instr} {f : Frame} (hI : I (k + 1) d)
      (hperm : d.pending.Perm (i :: rest)) (hi : code[i]? = some instr) (hf : d.frameAt i = some f) :
      Meets (I k) (fun _ => True) (visit m code p { d with pending := rest } i instr f) := by
    obtain ⟨hd, hleft⟩ := hI
    cases hv : visit m code p { d with pending := rest } i instr f with
    | error e => trivial
    | ok d' =>
      obtain ⟨hd', hpaid⟩ := hd.visit (le_slotBound code entry).2 hp hi hf hv
      have hlength := hperm.length_eq
      rw [List.length_cons] at hlength
      exact ⟨hd', by omega⟩
  have hbudget := turnBound_lt code entry
  have hstart : I (budget code.size (entry.locals.length + entry.stack.length)) (start code entry) := by
    have hone : (start code entry).pending.length = 1 := rfl
    exact ⟨within_start hne, by omega⟩
  have hmeets := runIn_meets order hp hvisit _ (live_start hne) hstart
  rw [h] at hmeets
  obtain ⟨k, ⟨hd, hleft⟩, rfl | hnil⟩ := hmeets
  · have hle := hd.potential_le
    unfold turnBound at hleft
    exact List.eq_nil_of_length_eq_zero (by omega)
  · exact hnil

theorem typing_of_analyzeIn (O : Frame.JoinOrder R) {order : Nat → Nat}
    (hp : ∀ l j, p.position? l = some j → j < code.size) (h : analyzeIn order m code p entry = .ok d) :
    Typing R m code p entry d.frameAt := by
  have hd : Partial R m code p entry d := analyzeIn_keeps hp (partial_start O) (fun hd => hd.visit O hp) h
  refine ⟨hd.entry, fun i f hf => (hd.fits i f hf).resolve_left fun hi => ?_⟩
  rw [pending_of_analyzeIn hp h] at hi
  cases hi

/-- What is found at the end: a typing, with a place for the frame of every instruction. -/
structure Fixpoint (m : MethodHead) (code : Array Instr) (p : Placement) (entry : Frame) (d : Dataflow) : Prop
    extends Typing Frame.Below m code p entry d.frameAt where
  size : d.frames.size = code.size

theorem size_of_analyzeIn {order : Nat → Nat} (hp : ∀ l j, p.position? l = some j → j < code.size)
    (h : analyzeIn order m code p entry = .ok d) : d.frames.size = code.size :=
  (analyzeIn_keeps hp live_start (fun live hperm hi _ hv => live.visit hp hperm hi hv) h : Live code d).size

theorem fixpoint_of_analyzeIn {order : Nat → Nat} (hp : ∀ l j, p.position? l = some j → j < code.size)
    (h : analyzeIn order m code p entry = .ok d) : Fixpoint m code p entry d :=
  ⟨typing_of_analyzeIn Frame.joinOrder_below hp h, size_of_analyzeIn hp h⟩

theorem analyze_fixpoint (hp : ∀ l j, p.position? l = some j → j < code.size)
    (h : analyze m code p entry = .ok d) : Fixpoint m code p entry d :=
  fixpoint_of_analyzeIn hp (analyzeIn_first.trans h)

end Classwright.Dataflow
