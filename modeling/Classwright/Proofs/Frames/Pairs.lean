import Classwright.Proofs.Frames.Slots
import Classwright.Proofs.Frames.Termination

/-! # Values of two words among the locals

A `long` or a `double` takes two slots, and nothing but a slot that cannot be used may follow it. A store may hit either
half of such a value, and joins go slot by slot, yet every frame that is kept while code is typed has its values whole.
From the values of such a frame, as stack maps list them, its slots can be told. -/

namespace Classwright

open VType

namespace Frame
variable {m : MethodHead} {code : Array Instr} {f g : Frame}

/-- Every `long` and every `double` among the locals is followed by an unusable slot. -/
def Whole (f : Frame) : Prop :=
  ∀ n, f.locals[n]? = some .long ∨ f.locals[n]? = some .double → f.locals[n + 1]? = some .top

theorem width_getLocal_eq_two {n : Nat} :
    (f.getLocal n).width = 2 ↔ f.locals[n]? = some .long ∨ f.locals[n]? = some .double := by
  rw [getLocal, List.getD_eq_getElem?_getD]
  cases f.locals[n]? with
  | none => simp [width]
  | some t => cases t <;> simp [width]

theorem whole_iff : f.Whole ↔ Paired f.locals := by
  have htop (n : Nat) : f.locals[n]? = some .top ↔ f.locals.getD n .top = .top ∧ n < f.locals.length := by
    rw [List.getElem?_eq_some_iff, List.getD_eq_getElem?_getD]
    constructor
    · rintro ⟨hlt, heq⟩
      exact ⟨by rw [List.getElem?_eq_getElem hlt, Option.getD_some, heq], hlt⟩
    · rintro ⟨heq, hlt⟩
      rw [List.getElem?_eq_getElem hlt, Option.getD_some] at heq
      exact ⟨hlt, heq⟩
  exact forall_congr' fun n => imp_congr width_getLocal_eq_two.symm (htop (n + 1))

theorem carried_whole (p : Placement) : Dataflow.Carried m code p fun _ f => f.Whole :=
  ⟨fun _ _ _ _ _ _ hf ha _ => whole_iff.mpr ((whole_iff.mp hf).apply ha),
    fun _ _ _ _ hf hg hj => whole_iff.mpr ((whole_iff.mp hf).join (whole_iff.mp hg) hj)⟩

/-! ### Slots from values -/

theorem exists_trim_append (ts : List VType) : ∃ n, ts = trim ts ++ List.replicate n .top := by
  induction ts using List.reverseRecOn with
  | nil => exact ⟨0, rfl⟩
  | append_singleton ts t ih =>
    by_cases ht : t = .top
    · obtain ⟨n, hn⟩ := ih
      refine ⟨n + 1, ?_⟩
      rw [ht, trim_concat_top, List.replicate_succ', ← List.append_assoc, ← hn]
    · exact ⟨0, by rw [trim_concat ht, List.replicate_zero, List.append_nil]⟩

theorem spread_replicate_top (n : Nat) : spread (List.replicate n .top) = List.replicate n .top := by
  induction n with
  | zero => rfl
  | succ n ih =>
    have hw : VType.top.width ≠ 2 := nofun
    rw [List.replicate_succ, spread_cons_narrow hw, ih]

/-- The slots of whole values are those of the values that stack maps list, and unusable ones. -/
theorem Whole.exists_spread (h : f.Whole) : ∃ n, f.locals = spread f.compactLocals ++ List.replicate n .top := by
  obtain ⟨n, hn⟩ := exists_trim_append (values f.locals)
  refine ⟨n, ?_⟩
  calc f.locals = spread (values f.locals) := (spread_values (whole_iff.mp h)).symm
    _ = spread (trim (values f.locals) ++ List.replicate n .top) := congrArg spread hn
    _ = spread f.compactLocals ++ List.replicate n .top := by
      rw [spread_append, spread_replicate_top, compactLocals_eq]

end Frame

theorem MethodHead.whole_entryFrame {m : MethodHead} {entry : Frame} (h : m.entryFrame = .ok entry) : entry.Whole := by
  rw [entryFrame_eq_ok h]
  exact Frame.whole_iff.mpr (Frame.paired_spread _)

namespace Dataflow
variable {m : MethodHead} {code : Array Instr} {p : Placement} {P : Nat → Frame → Prop} {k : Nat} {d d' : Dataflow}

/-- What instructions and joins keep holds of all frames after any number of turns. -/
theorem Turns.all (hc : Carried m code p P) (h : Turns m code p k d d') (hd : All P d) : All P d' := by
  induction h with
  | done d => exact hd
  | turn hpending hrun _ ih =>
    have hall := All.run hc 1 hd
    rw [hrun] at hall
    exact ih hall

/-- Whatever the code of a method, each frame that is kept after any turn of the loop has its values of two words whole,
    and so have the frames that are found in the end. And the slots of each such frame are those of the values that stack
    maps list, with some unusable ones behind them. -/
theorem wide_locals_whole :
    (∀ (m : MethodHead) (code : Array Instr) (p : Placement) (entry : Frame), m.entryFrame = .ok entry →
      (∀ k d, Turns m code p k (start code entry) d → ∀ i f, d.frameAt i = some f → f.Whole) ∧
        ∀ d, analyze m code p entry = .ok d → ∀ i f, d.frameAt i = some f → f.Whole) ∧
      ∀ f : Frame, f.Whole → ∃ n, f.locals = spread f.compactLocals ++ List.replicate n .top := by
  refine ⟨fun m code p entry hentry => ?_, fun f h => h.exists_spread⟩
  have hwhole := m.whole_entryFrame hentry
  refine ⟨fun k d hturns => hturns.all (Frame.carried_whole p) (all_start hwhole), fun d h => ?_⟩
  have hmeets : Meets _ _ (analyze m code p entry) := analyze_meets (Frame.carried_whole p) hwhole
  rwa [h] at hmeets

/-- Stores a `double` over its integer and the first half of its `long`, and then an integer over the second half of the
    `double`, unless the integer is zero. -/
def overlapping : Code :=
  ⟨#[.load .int 0, .jump .ifeq ⟨0⟩, .op .dconst0, .store .double 0, .int 1, .store .int 1, .mark ⟨0⟩, .op .returnVoid], 1⟩

def overlappingHead : MethodHead := ⟨"demo/Main", "overlap", "(IJ)V", true⟩

def overlappingLabels : Placement := ⟨#[some 6]⟩

/-- The `double` is whole where it is stored, and neither it nor the `long` is left where the paths meet. -/
theorem wide_locals_whole_overlapping : ∃ d f g,
    overlappingHead.entryFrame = .ok { locals := [.integer, .long, .top] } ∧
      analyze overlappingHead overlapping.instrs overlappingLabels { locals := [.integer, .long, .top] } = .ok d ∧
      d.frameAt 4 = some f ∧ f.locals = [.double, .top, .top] ∧ f.Whole ∧
      (∃ n, f.locals = spread f.compactLocals ++ List.replicate n .top) ∧
      d.frameAt 6 = some g ∧ g.locals = [.top, .top, .top] ∧ g.Whole := by
  have hentry : overlappingHead.entryFrame = .ok { locals := [.integer, .long, .top] } := by decide +kernel
  have hframes : (analyze overlappingHead overlapping.instrs overlappingLabels
      { locals := [.integer, .long, .top] }).toOption.map (fun d => (d.frameAt 4, d.frameAt 6)) =
        some (some { locals := [.double, .top, .top] }, some { locals := [.top, .top, .top] }) := by
    decide +kernel
  obtain ⟨d, hd, hframes⟩ := Option.map_eq_some_iff.mp hframes
  obtain ⟨hf, hg⟩ := Prod.mk.inj hframes
  have hd := toOption_eq_some.mp hd
  obtain ⟨hwhole, hspread⟩ := wide_locals_whole
  have hall := (hwhole overlappingHead overlapping.instrs overlappingLabels _ hentry).2 d hd
  exact ⟨d, _, _, hentry, hd, hf, rfl, hall 4 _ hf, hspread _ (hall 4 _ hf), hg, rfl, hall 6 _ hg⟩

end Dataflow

end Classwright
