import Classwright.Proofs.Frames.Paths

/-! # What holds of all frames

A property that holds of the frame at the entry, that instructions carry along the ways control can go, and that joins
keep, holds of every frame that is found. Where typing fails, it does so at frames with the property. -/

namespace Classwright.Dataflow

variable {m : MethodHead} {code : Array Instr} {p : Placement} {P : Nat → Frame → Prop} {d : Dataflow} {f : Frame}

/-- Instructions and joins keep what is said of the frames before each instruction. -/
structure Carried (m : MethodHead) (code : Array Instr) (p : Placement) (P : Nat → Frame → Prop) : Prop where
  apply : ∀ ⦃i j instr f g⦄, code[i]? = some instr → P i f → f.apply m code i instr = .ok g → Edge code p i j → P j g
  join : ∀ ⦃i f g h⦄, P i f → P i g → Frame.join f g = .ok h → P i h

/-- How typing fails at frames with a property. -/
inductive Failure (m : MethodHead) (code : Array Instr) (p : Placement) (P : Nat → Frame → Prop) : FormatError → Prop
  | apply {i : Nat} {instr : Instr} {f : Frame} {fault : FrameFault} (hi : code[i]? = some instr) (hf : P i f)
      (h : f.apply m code i instr = .error fault) : Failure m code p P (.ofFault i fault)
  | join {i : Nat} {f g : Frame} {fault : FrameFault} (hf : P i f) (hg : P i g) (h : f.join g = .error fault) :
      Failure m code p P (.ofFault i fault)
  | unplaced {i : Nat} {op : Opcode} {l : Label} (hi : code[i]? = some (.jump op l)) (h : p.position? l = none) :
      Failure m code p P (.labelUnplaced l)
  | fallsOff {i : Nat} {instr : Instr} {f : Frame} (hi : code[i]? = some instr) (hf : P i f)
      (hfalls : instr.fallsThrough = true) (h : code.size ≤ i + 1) :
      Failure m code p P (.inconsistentFrame i .fallsOff)
  | empty (h : code.size = 0) : Failure m code p P (.inconsistentFrame 0 .emptyBody)

def All (P : Nat → Frame → Prop) (d : Dataflow) : Prop := ∀ i f, d.frameAt i = some f → P i f

theorem All.set (h : All P d) {t : Nat} (hf : P t f) (pending : List Nat) :
    All P { d with frames := d.frames.setIfInBounds t (some f), pending } := by
  intro i g hg
  unfold frameAt at hg
  rw [Array.getElem?_setIfInBounds] at hg
  split at hg
  · rename_i heq
    split at hg
    · cases hg
      exact heq ▸ hf
    · cases hg
  · exact h i g hg

theorem All.reach (hc : Carried m code p P) (h : All P d) {t : Nat} (hf : P t f) :
    Meets (All P) (Failure m code p P) (d.reach t f) := by
  rw [Dataflow.reach_eq]
  split
  · exact h.set hf _
  · rename_i present hpresent
    split
    · rename_i fault hj
      exact .join (h t present hpresent) hf hj
    · rename_i joined hj
      split
      · exact h
      · exact h.set (hc.join (h t present hpresent) hf hj) _

theorem All.visit (hc : Carried m code p P) (h : All P d) {i : Nat} {instr : Instr} (hi : code[i]? = some instr)
    (hf : P i f) : Meets (All P) (Failure m code p P) (visit m code p d i instr f) := by
  unfold Dataflow.visit
  split
  · rename_i fault ha
    exact .apply hi hf ha
  · rename_i after ha
    refine Meets.bind (Q := All P) ?_ fun d' h' => ?_
    · unfold branch
      split
      · rename_i op l
        unfold Placement.target
        split
        · rename_i j hl
          exact All.reach hc (d := d.observe _ f after) h (hc.apply hi hf ha (.jump hi hl))
        · rename_i hl
          exact .unplaced hi hl
      · exact h
    · split
      · rename_i hfalls
        split
        · exact h'.reach hc (hc.apply hi hf ha (.next hi hfalls))
        · rename_i hend
          exact .fallsOff hi hf hfalls (Nat.not_lt.mp hend)
      · exact h'

theorem All.run (hc : Carried m code p P) (fuel : Nat) (h : All P d) :
    Meets (All P) (Failure m code p P) (run m code p fuel d) := by
  induction fuel generalizing d with
  | zero => exact h
  | succ fuel ih =>
    unfold Dataflow.run
    split
    · exact h
    · rename_i i rest _
      dsimp only
      split
      · rename_i instr f hi hf
        have hv := All.visit hc (d := { d with pending := rest }) h hi (h i f hf)
        split
        · rename_i d' hd
          rw [hd] at hv
          exact ih hv
        · rename_i e he
          rw [he] at hv
          exact hv
      · exact ih (d := { d with pending := rest }) h

theorem all_start {entry : Frame} (hentry : P 0 entry) : All P (start code entry) := by
  intro i f hf
  have hpos : 0 < code.size := by
    have hlt := lt_size_of_frameAt hf
    simp only [start, Array.size_setIfInBounds, Array.size_replicate] at hlt
    omega
  rw [frameAt_start hpos] at hf
  split at hf
  · rename_i hi
    cases hf
    exact hi ▸ hentry
  · cases hf

/-- The frames that are found have the property, and typing fails at such frames only. -/
theorem analyze_meets {entry : Frame} (hc : Carried m code p P) (hentry : P 0 entry) :
    Meets (All P) (Failure m code p P) (analyze m code p entry) := by
  by_cases hne : code.size = 0
  · unfold analyze
    rw [if_pos (Array.isEmpty_iff_size_eq_zero.mpr hne)]
    exact .empty hne
  · have hpos := Nat.pos_of_ne_zero hne
    rw [analyze_eq_run hpos]
    exact All.run hc _ (all_start hentry)

/-! ### Live instructions -/

theorem Fixpoint.isLive {entry : Frame} (fix : Fixpoint m code p entry d) {is : List Nat} {i : Nat}
    (path : Path code p is i) : d.isLive i = true := by
  induction path with
  | start =>
    obtain ⟨g, hg, -⟩ := fix.entry
    exact Option.isSome_iff_exists.mpr ⟨g, hg⟩
  | step _ he ih =>
    obtain ⟨f, hf⟩ := Option.isSome_iff_exists.mp ih
    obtain ⟨_, _, _, _, hedge⟩ := fix.fits _ f hf
    obtain ⟨g, hg, -⟩ := hedge _ he
    exact Option.isSome_iff_exists.mpr ⟨g, hg⟩

/-- An instruction is live if control can come to it. -/
theorem isLive_iff {entry : Frame} (hp : ∀ l j, p.position? l = some j → j < code.size)
    (h : analyze m code p entry = .ok d) (i : Nat) : d.isLive i = true ↔ ∃ is, Path code p is i := by
  constructor
  · intro hi
    obtain ⟨f, hf⟩ := Option.isSome_iff_exists.mp hi
    have hc : Carried m code p fun i _ => ∃ is, Path code p is i :=
      ⟨fun _ _ _ _ _ _ ⟨_, path⟩ _ he => ⟨_, path.step he⟩, fun _ _ _ _ h _ _ => h⟩
    have hall : Meets _ _ (analyze m code p entry) := analyze_meets hc ⟨[], .start⟩
    rw [h] at hall
    exact hall i f hf
  · rintro ⟨is, path⟩
    exact (analyze_fixpoint hp h).isLive path

end Classwright.Dataflow
