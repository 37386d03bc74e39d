import Classwright.Proofs.Frames.Fixpoint

/-! # Frames along paths

The frame that the instructions of a path leave, each applied to what the one before it has left, is exact: nothing is
joined. Where all instructions have been typed, no path fails or leaves the code, and the exact frame at each
instruction that a path comes to lies below the frame that was found for it. -/

namespace Classwright

/-- A way through code from the first instruction: the instructions that it has passed, and the one it has come to. -/
inductive Path (code : Array Instr) (p : Placement) : List Nat → Nat → Prop
  | start : Path code p [] 0
  | step {is : List Nat} {i j : Nat} (h : Path code p is i) (he : Edge code p i j) : Path code p (is ++ [i]) j

namespace Frame

/-- The frame after the instruction at `i`. -/
def stepAt (m : MethodHead) (code : Array Instr) (f : Frame) (i : Nat) : Except FrameFault Frame :=
  match code[i]? with
  | some instr => f.apply m code i instr
  | none => .error .fallsOff

/-- The frame after instructions in order. -/
def along (m : MethodHead) (code : Array Instr) (f : Frame) : List Nat → Except FrameFault Frame
  | [] => .ok f
  | i :: is => do
    let f ← f.stepAt m code i
    f.along m code is

/-- A slot that holds something at the start, or that one of the instructions stores to. -/
def Assigned (code : Array Instr) (f : Frame) (is : List Nat) (slot : Nat) : Prop :=
  f.getLocal slot ≠ .top ∨ ∃ i ∈ is, ∃ kind s, code[i]? = some (.store kind s) ∧ s.toNat = slot

variable {m : MethodHead} {code : Array Instr} {p : Placement} {f g : Frame}

theorem stepAt_eq {i : Nat} {instr : Instr} (h : code[i]? = some instr) :
    f.stepAt m code i = f.apply m code i instr := by
  unfold stepAt
  rw [h]

theorem along_append (is js : List Nat) :
    f.along m code (is ++ js) = f.along m code is >>= fun g => g.along m code js := by
  induction is generalizing f with
  | nil => rfl
  | cons i is ih =>
    simp only [List.cons_append, along]
    cases f.stepAt m code i with
    | error e => rfl
    | ok g => exact ih

/-- Only a store fills a slot that held nothing. -/
theorem getLocal_of_apply {i slot : Nat} {instr : Instr} (h : f.apply m code i instr = .ok g)
    (hg : g.getLocal slot ≠ .top) :
    f.getLocal slot ≠ .top ∨ ∃ kind s, instr = .store kind s ∧ s.toNat = slot := by
  cases (apply_grows h).1 with
  | same hl =>
    unfold getLocal at hg ⊢
    rw [hl] at hg
    exact Or.inl hg
  | store kind s t hi hk hl =>
    by_cases hs : s.toNat = slot
    · exact Or.inr ⟨kind, s, hi, hs⟩
    · refine Or.inl fun htop => hg ?_
      have hset := getLocal_setLocal f s.toNat t slot
      rw [if_neg (Ne.symm hs), htop] at hset
      unfold getLocal at hset ⊢
      rw [hl, hset]
      split
      · rfl
      · split <;> rfl
  | init before after hb hl =>
    refine Or.inl fun htop => hg ?_
    have hne : before ≠ .top := fun h => by
      subst h
      cases hb
    have hmark := getLocal_markInitialized f after hne slot
    rw [htop, if_neg hne.symm] at hmark
    unfold getLocal at hmark ⊢
    rw [hl, hmark]

/-- What a slot holds after a path was there at its start or has been stored on it. -/
theorem assigned_of_along {slot : Nat} : ∀ {is : List Nat} {f : Frame}, f.along m code is = .ok g →
    g.getLocal slot ≠ .top → Assigned code f is slot
  | [], f, h, hg => by
    cases h
    exact Or.inl hg
  | i :: is, f, h, hg => by
    obtain ⟨f', hs, h⟩ := bind_eq_ok.mp h
    rcases assigned_of_along h hg with hf' | ⟨k, hk, hstore⟩
    · unfold stepAt at hs
      split at hs
      · rename_i instr hi
        rcases getLocal_of_apply hs hf' with hf | ⟨kind, s, rfl, hslot⟩
        · exact Or.inl hf
        · exact Or.inr ⟨i, List.mem_cons_self, kind, s, hi, hslot⟩
      · cases hs
    · exact Or.inr ⟨k, List.mem_cons_of_mem i hk, hstore⟩

end Frame

namespace Dataflow
variable {m : MethodHead} {code : Array Instr} {p : Placement} {entry : Frame} {d : Dataflow}

/-- Exact frames lie below the frames of a fixpoint. -/
theorem Fixpoint.path (h : Fixpoint m code p entry d) (hm : m.isConstructor = false) {is : List Nat} {i : Nat}
    (path : Path code p is i) : ∃ f g, entry.along m code is = .ok f ∧ d.frameAt i = some g ∧ f.Below g := by
  induction path with
  | start =>
    obtain ⟨g, hg, hb⟩ := h.entry
    exact ⟨entry, g, rfl, hg, hb⟩
  | step _ he ih =>
    obtain ⟨f, g, hf, hg, hb⟩ := ih
    obtain ⟨instr, after, hi, ha, hsent⟩ := h.fits _ g hg
    obtain ⟨f', hf', hb'⟩ := hb.apply hm code _ instr after ha
    obtain ⟨g', hg', hb''⟩ := hsent _ he
    refine ⟨f', g', ?_, hg', hb'.trans hb''⟩
    rw [Frame.along_append, hf]
    simp [Frame.along, Frame.stepAt_eq hi, hf']

end Dataflow

theorem Code.position?_lt {c : Code} {p : Placement} (h : c.placement = .ok p) (l : Label) (j : Nat)
    (hl : p.position? l = some j) : j < c.instrs.size := by
  by_contra hlt
  rw [c.position?_eq_some h, Array.getElem?_eq_none (by omega)] at hl
  cases hl

open Dataflow in
/-- Along every path of code that has been typed, instructions fit the exact frames before them and control stays in
    the code, whatever frame it starts with. The exact frame lies below the one that was found, so the stack is as high on
    every path, and no path loads a local that is not assigned on it. -/
theorem exact_below_analyzed {m : MethodHead} {c : Code} {p : Placement} {entry : Frame} {d : Dataflow}
    (hm : m.isConstructor = false) (hp : c.placement = .ok p) (h : analyze m c.instrs p entry = .ok d) {is : List Nat}
    {i : Nat} (path : Path c.instrs p is i) :
    ∃ f g instr after, entry.along m c.instrs is = .ok f ∧ d.frameAt i = some g ∧ f.Below g ∧
      f.stack.length = g.stack.length ∧ c.instrs[i]? = some instr ∧ f.apply m c.instrs i instr = .ok after ∧
      (∀ is' f', Path c.instrs p is' i → entry.along m c.instrs is' = .ok f' → f'.stack.length = f.stack.length) ∧
      ∀ kind slot, instr = .load kind slot → entry.Assigned c.instrs is slot.toNat := by
  have fix := analyze_fixpoint (c.position?_lt hp) h
  obtain ⟨f, g, hf, hg, hb⟩ := fix.path hm path
  obtain ⟨instr, after, hi, ha, -⟩ := fix.fits i g hg
  obtain ⟨f', hf', -⟩ := hb.apply hm c.instrs i instr after ha
  refine ⟨f, g, instr, f', hf, hg, hb, hb.stack_length, hi, hf', fun is' f₁ path' hf₁ => ?_, ?_⟩
  · obtain ⟨f₂, g₂, hf₂, hg₂, hb₂⟩ := fix.path hm path'
    rw [hf₁] at hf₂
    cases hf₂
    rw [hg] at hg₂
    cases hg₂
    rw [hb₂.stack_length, hb.stack_length]
  · rintro kind slot rfl
    obtain ⟨hk, -⟩ := ite_eq_ok.mp hf'
    refine Frame.assigned_of_along hf fun htop => ?_
    rw [htop] at hk
    cases kind <;> cases hk

/-- Counts its parameter down to zero. -/
def countdown : Code :=
  ⟨#[.mark ⟨0⟩, .load .int 0, .jump .ifeq ⟨1⟩, .load .int 0, .int 1, .op .isub, .store .int 0, .jump .goto ⟨0⟩,
    .mark ⟨1⟩, .op .returnVoid], 2⟩

def countdownHead : MethodHead := ⟨"demo/Loops", "countdown", "(I)V", true⟩

def countdownLabels : Placement := ⟨#[some 0, some 8]⟩

/-- One round of the loop comes back to its start. -/
theorem countdown_round : Path countdown.instrs countdownLabels [0, 1, 2, 3, 4, 5, 6, 7] 0 := by
  have next : ∀ {is : List Nat} {i : Nat}, Path countdown.instrs countdownLabels is i →
      countdown.instrs[i]?.map Instr.fallsThrough = some true →
      Path countdown.instrs countdownLabels (is ++ [i]) (i + 1) := fun h hi => by
    obtain ⟨instr, hi, hf⟩ := Option.map_eq_some_iff.mp hi
    exact h.step (.next hi hf)
  have round : Path countdown.instrs countdownLabels [0, 1, 2, 3, 4, 5, 6] 7 :=
    next (next (next (next (next (next (next .start rfl) rfl) rfl) rfl) rfl) rfl) rfl
  exact round.step (.jump (l := ⟨0⟩) rfl rfl)

open Dataflow in
/-- After a round the counter is still an integer, as the frame at the start of the loop says. -/
theorem exact_below_analyzed_countdown :
    ∃ d f g, countdownHead.isConstructor = false ∧ countdown.placement = .ok countdownLabels ∧
      countdownHead.entryFrame = .ok { locals := [.integer] } ∧
      analyze countdownHead countdown.instrs countdownLabels { locals := [.integer] } = .ok d ∧
      Frame.along countdownHead countdown.instrs { locals := [.integer] } [0, 1, 2, 3, 4, 5, 6, 7] = .ok f ∧
      d.frameAt 0 = some g ∧ f.Below g := by
  have hok : (analyze countdownHead countdown.instrs countdownLabels { locals := [.integer] }).toBool = true := by
    decide +kernel
  have hentry : countdownHead.entryFrame = .ok { locals := [.integer] } := by decide +kernel
  cases hd : analyze countdownHead countdown.instrs countdownLabels { locals := [.integer] } with
  | error e =>
    rw [hd] at hok
    cases hok
  | ok d =>
    obtain ⟨f, g, _, _, hf, hg, hb, -⟩ := exact_below_analyzed (m := countdownHead) (c := countdown) rfl rfl hd
      countdown_round
    exact ⟨d, f, g, rfl, rfl, hentry, rfl, hf, hg, hb⟩

end Classwright
