import Classwright.Proofs.Frames.Paths

/-! # The visits come to an end

Instructions of a loop are visited again and again, but only as long as frames change. A merge that reports a change has
moved a frame up: some slot or stack entry from `null` to an object, from an object to the root class or, among the locals,
from anything to the unusable type, or it has given the frame slots that it did not have. Slots come from stores alone, and
stack entries from the instructions that have a frame, so there is only so far to go, whatever the frame is that the first
instruction starts with. Hence the loop takes a bounded number of turns, and the fuel of the analysis never runs out. -/

namespace Classwright

/-! ### An order of finite height -/

namespace Frame
variable {f g j : Frame} {changed : Bool}

/-- One frame lies under another that is not the same. -/
def Rises (f g : Frame) : Prop := f.Under g ∧ g ≠ f

/-- A merge reports a change just if the frame has moved up, and otherwise has left it as it was. -/
theorem rises_of_merge (h : f.merge g = .ok (j, changed)) : if changed then f.Rises j else j = f := by
  rw [merge_eq] at h
  cases hj : f.join g with
  | error fault =>
    rw [hj] at h
    cases h
  | ok k =>
    rw [hj] at h
    cases h
    by_cases hne : j = f
    · simp [hne]
    · have hrises : f.Rises j := ⟨⟨(join_below hj).1, length_le_of_join hj⟩, hne⟩
      simpa [hne] using hrises

theorem Rises.rank_lt (h : f.Rises g) : f.rank < g.rank := Frame.rank_lt h.1.below h.1.length h.2

/-- Frames that rise one after another are not many. -/
theorem length_le_of_rises {n s : Nat} {fs : List Frame} (h : fs.IsChain Rises)
    (hsize : ∀ f ∈ fs, f.locals.length ≤ n ∧ f.stack.length ≤ s) : fs.length ≤ 4 * n + 3 * s + 1 := by
  -- each of them has a higher rank than the one before it
  have hrank : ∀ (fs : List Frame) (f : Frame), (f :: fs).IsChain Rises →
      (∀ g ∈ f :: fs, g.locals.length ≤ n ∧ g.stack.length ≤ s) → f.rank + fs.length ≤ 1 + 4 * n + 3 * s := by
    intro fs
    induction fs with
    | nil =>
      intro f _ hsize
      obtain ⟨hlocals, hstack⟩ := hsize f List.mem_cons_self
      have hle := f.rank_le
      rw [List.length_nil]
      omega
    | cons g fs ih =>
      intro f hchain hsize
      rw [List.isChain_cons_cons] at hchain
      have hlt := hchain.1.rank_lt
      have hrest := ih g hchain.2 fun k hk => hsize k (List.mem_cons_of_mem f hk)
      rw [List.length_cons]
      omega
  cases fs with
  | nil => exact Nat.zero_le _
  | cons f fs =>
    have hle := hrank fs f h hsize
    have hpos : 1 ≤ f.rank := by
      unfold rank
      omega
    rw [List.length_cons]
    omega

end Frame

namespace Dataflow
variable {m : MethodHead} {code : Array Instr} {p : Placement} {entry : Frame} {d d' : Dataflow} {n s k : Nat}

/-! ### Turns of the loop -/

/-- A turn of the loop keeps to the bounds. It takes one instruction off the list, and any that it puts there are paid for
    by frames that have gone up. -/
theorem Within.turn (hn : ∀ instr ∈ code, instr.slotsWritten ≤ n) (hp : ∀ l j, p.position? l = some j → j < code.size)
    (h : Within code n s d) (hpending : d.pending ≠ []) (hrun : run m code p 1 d = .ok d') :
    Within code n s d' ∧ 1 + d'.pending.length + d.potential ≤ d.pending.length + d'.potential := by
  obtain ⟨i, rest, hcons⟩ := List.exists_cons_of_ne_nil hpending
  rw [hcons, List.length_cons]
  rw [run, hcons] at hrun
  dsimp only at hrun
  split at hrun
  · rename_i instr f hi hf
    split at hrun
    · rename_i d₁ hv
      cases hrun
      obtain ⟨hd', hpaid⟩ := h.visit hn hp hi hf hv
      exact ⟨hd', by omega⟩
    · cases hrun
  · cases hrun
    refine ⟨⟨h.size, h.bounded.locals, h.bounded.stack⟩, ?_⟩
    show 1 + rest.length + d.potential ≤ rest.length + 1 + d.potential
    omega

/-- So many turns of the loop lead from one state to another. -/
inductive Turns (m : MethodHead) (code : Array Instr) (p : Placement) : Nat → Dataflow → Dataflow → Prop
  | done (d : Dataflow) : Turns m code p 0 d d
  | turn {k : Nat} {d d₁ d' : Dataflow} (hpending : d.pending ≠ []) (hrun : run m code p 1 d = .ok d₁)
      (h : Turns m code p k d₁ d') : Turns m code p (k + 1) d d'

theorem Turns.within (hn : ∀ instr ∈ code, instr.slotsWritten ≤ n) (hp : ∀ l j, p.position? l = some j → j < code.size)
    (h : Turns m code p k d d') (hd : Within code n s d) :
    Within code n s d' ∧ k + d'.pending.length + d.potential ≤ d.pending.length + d'.potential := by
  induction h with
  | done d => exact ⟨hd, by omega⟩
  | turn hpending hrun _ ih =>
    obtain ⟨hd₁, hpaid⟩ := hd.turn hn hp hpending hrun
    obtain ⟨hd', hrest⟩ := ih hd₁
    exact ⟨hd', by omega⟩

/-- The loop stops at `d` with a result: nothing is left to visit, or the next visit fails. -/
def Stops (m : MethodHead) (code : Array Instr) (p : Placement) (d : Dataflow) (r : Except FormatError Dataflow) : Prop :=
  d.pending = [] ∧ r = .ok d ∨ d.pending ≠ [] ∧ ∃ e, run m code p 1 d = .error e ∧ r = .error e

/-- With fuel for so many turns the loop takes them all, unless it stops before. -/
theorem exists_turns (fuel : Nat) (d : Dataflow) : ∃ k d', Turns m code p k d d' ∧
    (k = fuel ∨ Stops m code p d' (run m code p fuel d)) := by
  induction fuel generalizing d with
  | zero => exact ⟨0, d, .done d, .inl rfl⟩
  | succ fuel ih =>
    by_cases hpending : d.pending = []
    · exact ⟨0, d, .done d, .inr (.inl ⟨hpending, run_nil hpending _⟩)⟩
    · rw [run_succ]
      cases hrun : run m code p 1 d with
      | error e => exact ⟨0, d, .done d, .inr (.inr ⟨hpending, e, hrun, rfl⟩)⟩
      | ok d₁ =>
        obtain ⟨k, d', hturns, hend⟩ := ih d₁
        exact ⟨k + 1, d', .turn hpending hrun hturns, hend.imp_left (congrArg (· + 1))⟩

/-- What holds after any number of turns. -/
theorem Turns.of_start (hp : ∀ l j, p.position? l = some j → j < code.size) (hne : 0 < code.size)
    (h : Turns m code p k (start code entry) d) :
    Within code (slotBound code entry) entry.stack.length d ∧ k ≤ turnBound code entry := by
  obtain ⟨hd, hpaid⟩ := h.within (le_slotBound code entry).2 hp (within_start hne)
  have hle := hd.potential_le
  have hpos : 1 ≤ (start code entry).potential := by
    have hset := potential_set ⟨Array.replicate code.size none, [], 0, entry.locals.length⟩ (t := 0)
      (by simpa using hne) entry [0]
    simp only [frameAt, Array.getElem?_replicate, hne, if_true, Option.join_some, Option.elim, Frame.rank] at hset
    unfold start
    omega
  have hpending : (start code entry).pending.length = 1 := rfl
  refine ⟨hd, ?_⟩
  unfold turnBound
  omega

/-- The frames of a method are found in a bounded number of turns, whatever code it has and whatever frame it starts with.
    A merge that reports a change has moved a frame up in an order of finite height, and one that reports none has left it
    as it was. No frame gets more slots than it started with or stores reach, nor more stack entries than it started with
    and two for every instruction. So there is a last turn, and what the analysis gives is what the loop has come to. -/
theorem visits_end (m : MethodHead) {c : Code} {p : Placement} (hp : c.placement = .ok p) (entry : Frame) :
    (∀ f g j changed, Frame.merge f g = .ok (j, changed) → if changed then f.Rises j else j = f) ∧
      (∀ n s (fs : List Frame), fs.IsChain Frame.Rises → (∀ f ∈ fs, f.locals.length ≤ n ∧ f.stack.length ≤ s) →
        fs.length ≤ 4 * n + 3 * s + 1) ∧
      (c.instrs.size = 0 → analyze m c.instrs p entry = .error (.inconsistentFrame 0 .emptyBody)) ∧
      (0 < c.instrs.size →
        (∀ k d, Turns m c.instrs p k (start c.instrs entry) d → k ≤ turnBound c.instrs entry ∧
          ∀ i f, d.frameAt i = some f → f.locals.length ≤ slotBound c.instrs entry ∧
            f.stack.length ≤ entry.stack.length + 2 * c.instrs.size) ∧
        ∃ k d, Turns m c.instrs p k (start c.instrs entry) d ∧
          Stops m c.instrs p d (analyze m c.instrs p entry)) := by
  have hlt := c.position?_lt hp
  refine ⟨fun f g j changed h => Frame.rises_of_merge h, fun n s fs hchain hsize => Frame.length_le_of_rises hchain hsize,
    fun hempty => ?_, fun hne => ⟨fun k d h => ?_, ?_⟩⟩
  · unfold analyze
    rw [if_pos (Array.isEmpty_iff_size_eq_zero.mpr hempty)]
  · obtain ⟨hd, hk⟩ := h.of_start hlt hne
    refine ⟨hk, fun i f hf => ⟨hd.bounded.locals i f hf, ?_⟩⟩
    have hstack := hd.bounded.stack i f hf
    have hlive := d.live_le
    rw [hd.size] at hlive
    omega
  · rw [analyze_eq_run hne]
    generalize hfuel : budget c.instrs.size (entry.locals.length + entry.stack.length) = fuel
    obtain ⟨k, d, hturns, hend⟩ : ∃ k d, Turns m c.instrs p k (start c.instrs entry) d ∧
        (k = fuel ∨ Stops m c.instrs p d (run m c.instrs p fuel (start c.instrs entry))) := exists_turns fuel _
    have hk := (hturns.of_start hlt hne).2
    have hbudget := turnBound_lt c.instrs entry
    exact ⟨k, d, hturns, hend.resolve_left fun heq => by omega⟩

/-- A loop that counts down is left after some turns, also if there is something on the stack when it starts. -/
theorem visits_end_countdown :
    countdown.placement = .ok countdownLabels ∧
      ∃ k d, k ≤ turnBound countdown.instrs { locals := [.integer], stack := [.null] } ∧
        Turns countdownHead countdown.instrs countdownLabels k
          (start countdown.instrs { locals := [.integer], stack := [.null] }) d ∧
        analyze countdownHead countdown.instrs countdownLabels { locals := [.integer], stack := [.null] } = .ok d := by
  have hok : (analyze countdownHead countdown.instrs countdownLabels
      { locals := [.integer], stack := [.null] }).toBool = true := by
    decide +kernel
  obtain ⟨-, -, -, hends⟩ := visits_end countdownHead (show countdown.placement = .ok countdownLabels from rfl)
    { locals := [.integer], stack := [.null] }
  obtain ⟨hbound, k, d, hturns, hstops⟩ := hends (by decide)
  refine ⟨rfl, k, d, (hbound k d hturns).1, hturns, ?_⟩
  rcases hstops with ⟨-, hd⟩ | ⟨-, e, -, he⟩
  · exact hd
  · rw [he] at hok
    cases hok

end Dataflow

end Classwright
