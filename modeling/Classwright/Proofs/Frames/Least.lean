import Classwright.Proofs.Frames.Limits

/-! # The least typing

While instructions are visited, the frames that are kept lie below those of every typing. So no visit can fail where there
is a typing, and what is found in the end is the least one, in whatever order the instructions were visited. -/

namespace Classwright

namespace Dataflow
variable {R : Frame → Frame → Prop} {m : MethodHead} {code : Array Instr} {p : Placement} {entry f : Frame}
  {d d' : Dataflow} {τ : Nat → Option Frame}

/-! ### What is found lies below every typing -/

/-- The frames that are kept lie below those of a typing. -/
def LiesBelow (R : Frame → Frame → Prop) (d : Dataflow) (τ : Nat → Option Frame) : Prop :=
  ∀ i f, d.frameAt i = some f → ∃ g, τ i = some g ∧ R f g

theorem reach_of_typing (O : Frame.Ordered m code R) {t : Nat} {g : Frame} (hd : LiesBelow R d τ)
    (ht : t < d.frames.size) (hg : τ t = some g) (hf : R f g) : ∃ d', d.reach t f = .ok d' ∧ LiesBelow R d' τ := by
  have hset {j : Frame} (hj : R j g) :
      LiesBelow R { d with frames := d.frames.setIfInBounds t (some j), pending := t :: d.pending } τ := by
    intro i f' hf'
    rw [frameAt_set d ht] at hf'
    split at hf'
    · rename_i hi
      cases hf'
      exact ⟨g, hi ▸ hg, hj⟩
    · exact hd i f' hf'
  rw [reach_eq]
  cases hpresent : d.frameAt t with
  | none => exact ⟨_, rfl, hset hf⟩
  | some present =>
    obtain ⟨g', hg', hR⟩ := hd t present hpresent
    cases hg.symm.trans hg'
    obtain ⟨j, hj, hjg⟩ := O.join_least hR hf
    simp only [hj]
    split
    · exact ⟨d, rfl, hd⟩
    · exact ⟨_, rfl, hset hjg⟩

/-- Where there is a typing, a visit cannot fail. -/
theorem visit_of_typing (O : Frame.Ordered m code R) (hp : ∀ l j, p.position? l = some j → j < code.size)
    (hjump : ∀ (i : Nat) op l, code[i]? = some (Instr.jump op l) → ∃ j, p.position? l = some j)
    (typing : Typing R m code p entry τ) {i : Nat} {instr : Instr} (hd : LiesBelow R d τ)
    (hsize : d.frames.size = code.size) (hi : code[i]? = some instr) (hf : d.frameAt i = some f) :
    ∃ d', visit m code p d i instr f = .ok d' ∧ LiesBelow R d' τ := by
  obtain ⟨g, hg, hR⟩ := hd i f hf
  obtain ⟨instr', after', hi', ha', hnext⟩ := typing.fits i g hg
  cases hi.symm.trans hi'
  obtain ⟨after, ha, hRafter⟩ := O.apply hR i instr after' ha'
  -- what comes after the lower frame can be sent wherever the typing has a frame
  have hsend {d : Dataflow} {j : Nat} (hd : LiesBelow R d τ) (hj : j < d.frames.size) (he : Edge code p i j) :
      ∃ d', d.reach j after = .ok d' ∧ LiesBelow R d' τ := by
    obtain ⟨g', hg', hR'⟩ := hnext j he
    exact reach_of_typing O hd hj hg' (O.trans hRafter hR')
  have hbranch : ∃ d₁, (d.observe instr f after).branch p instr after = .ok d₁ ∧ LiesBelow R d₁ τ ∧
      d₁.frames.size = code.size := by
    by_cases hjmp : ∃ op l, instr = .jump op l
    · obtain ⟨op, l, rfl⟩ := hjmp
      obtain ⟨j, hj⟩ := hjump i op l hi
      have hlt : j < (d.observe (.jump op l) f after).frames.size := hsize ▸ hp l j hj
      obtain ⟨d₁, hr, hd₁⟩ := hsend (d := d.observe (.jump op l) f after) hd hlt (.jump hi hj)
      refine ⟨d₁, ?_, hd₁, (Advances.of_reach O.toJoinOrder hlt hr).size.trans hsize⟩
      rw [branch, Placement.target_eq_ok.mpr hj]
      exact hr
    · refine ⟨d.observe instr f after, ?_, hd, hsize⟩
      cases instr with
      | jump op l => exact absurd ⟨op, l, rfl⟩ hjmp
      | _ => rfl
  obtain ⟨d₁, hb, hd₁, hsize₁⟩ := hbranch
  unfold visit
  simp only [ha, hb, ok_bind]
  split
  · rename_i hfalls
    obtain ⟨g', hg', -⟩ := hnext (i + 1) (.next hi hfalls)
    obtain ⟨_, _, hi₁, -⟩ := typing.fits (i + 1) g' hg'
    have hlt : i + 1 < code.size := (Array.getElem?_eq_some_iff.mp hi₁).1
    rw [if_pos hlt]
    exact hsend hd₁ (hsize₁ ▸ hlt) (.next hi hfalls)
  · exact ⟨d₁, rfl, hd₁⟩

theorem runIn_of_typing (O : Frame.Ordered m code R) (order : Nat → Nat) (fuel : Nat)
    (hp : ∀ l j, p.position? l = some j → j < code.size)
    (hjump : ∀ (i : Nat) op l, code[i]? = some (Instr.jump op l) → ∃ j, p.position? l = some j) (hne : 0 < code.size)
    (typing : Typing R m code p entry τ) :
    ∃ d, runIn order m code p fuel (start code entry) = .ok d ∧ LiesBelow R d τ := by
  have hstart : LiesBelow R (start code entry) τ := by
    intro i f hf
    rw [frameAt_start hne] at hf
    split at hf
    · rename_i hi
      cases hf
      exact hi ▸ typing.entry
    · cases hf
  let I (d : Dataflow) : Prop := LiesBelow R d τ ∧ d.frames.size = code.size
  have hvisit {d : Dataflow} {i : Nat} {rest : List Nat} {instr : Instr} {f : Frame} (hd : I d)
      (_ : d.pending.Perm (i :: rest)) (hi : code[i]? = some instr) (hf : d.frameAt i = some f) :
      Meets I (fun _ => False) (visit m code p { d with pending := rest } i instr f) := by
    obtain ⟨d', hv, hd'⟩ := visit_of_typing (d := { d with pending := rest }) O hp hjump typing hd.1 hd.2 hi hf
    obtain ⟨after, ts, -, -, hlt, hs⟩ := visit_eq_ok hp hi hv
    rw [hv]
    exact ⟨hd', (hs.advances O.toJoinOrder fun t ht => hd.2 ▸ hlt t ht).size.trans hd.2⟩
  have hmeets := runIn_meets (I := fun _ => I) order hp hvisit fuel (live_start hne) ⟨hstart, by simp [start]⟩
  cases h : runIn order m code p fuel (start code entry) with
  | error e =>
    rw [h] at hmeets
    exact hmeets.elim
  | ok d =>
    rw [h] at hmeets
    obtain ⟨-, ⟨hd, -⟩, -⟩ := hmeets
    exact ⟨d, rfl, hd⟩

/-! ### The least typing -/

theorem analyzeIn_of_typing (O : Frame.Ordered m code R) (order : Nat → Nat)
    (hp : ∀ l j, p.position? l = some j → j < code.size)
    (hjump : ∀ (i : Nat) op l, code[i]? = some (Instr.jump op l) → ∃ j, p.position? l = some j)
    (typing : Typing R m code p entry τ) : ∃ d, analyzeIn order m code p entry = .ok d ∧ LiesBelow R d τ := by
  rw [analyzeIn_eq_runIn order typing.size_pos]
  exact runIn_of_typing O order _ hp hjump typing.size_pos typing

theorem frames_eq (hsize : d.frames.size = d'.frames.size) (h : ∀ i, d.frameAt i = d'.frameAt i) :
    d.frames = d'.frames := by
  refine Array.ext hsize fun i hi hi' => ?_
  have hat := h i
  unfold frameAt at hat
  rwa [Array.getElem?_eq_getElem hi, Array.getElem?_eq_getElem hi', Option.join_some, Option.join_some] at hat

theorem LiesBelow.frameAt_eq (h : LiesBelow Frame.Under d d'.frameAt) (h' : LiesBelow Frame.Under d' d.frameAt) (i : Nat) :
    d.frameAt i = d'.frameAt i := by
  cases hf : d.frameAt i with
  | some f =>
    obtain ⟨g, hg, hfg⟩ := h i f hf
    obtain ⟨f', hf', hgf⟩ := h' i g hg
    cases hf.symm.trans hf'
    rw [hg, hfg.antisymm hgf]
  | none =>
    cases hg : d'.frameAt i with
    | none => rfl
    | some g =>
      obtain ⟨f, hf', -⟩ := h' i g hg
      cases hf.symm.trans hf'

/-- Two orders of visits that come to an end find the same. -/
theorem analyzeIn_unique (hm : m.isConstructor = false) {order order' : Nat → Nat}
    (hp : ∀ l j, p.position? l = some j → j < code.size)
    (hjump : ∀ (i : Nat) op l, code[i]? = some (Instr.jump op l) → ∃ j, p.position? l = some j)
    (h : analyzeIn order m code p entry = .ok d) (h' : analyzeIn order' m code p entry = .ok d') : d = d' := by
  have hbelow {order order' : Nat → Nat} {d d' : Dataflow} (h : analyzeIn order m code p entry = .ok d)
      (h' : analyzeIn order' m code p entry = .ok d') : LiesBelow Frame.Under d d'.frameAt := by
    obtain ⟨_, hd, hbelow⟩ := analyzeIn_of_typing (Frame.ordered_under hm) order hp hjump
      (typing_of_analyzeIn Frame.joinOrder_under hp h')
    cases h.symm.trans hd
    exact hbelow
  have hat := (hbelow h h').frameAt_eq (hbelow h' h)
  -- what has been noted is the greatest of what the frames show
  obtain ⟨hstack, hlocals⟩ := limits_of_analyzeIn hp h
  obtain ⟨hstack', hlocals'⟩ := limits_of_analyzeIn hp h'
  have hwidths : d.widths m code = d'.widths m code := by simp only [widths, hat]
  have hextents : d.extents code entry = d'.extents code entry := by simp only [extents, isLive, hat]
  rw [hwidths] at hstack
  rw [hextents] at hlocals
  have hmaxStack := hstack.unique hstack'
  have hmaxLocals := hlocals.unique hlocals'
  have hnil := pending_of_analyzeIn hp h
  have hnil' := pending_of_analyzeIn hp h'
  have hframes := frames_eq ((size_of_analyzeIn hp h).trans (size_of_analyzeIn hp h').symm) hat
  obtain ⟨frames, pending, maxStack, maxLocals⟩ := d
  obtain ⟨frames', pending', maxStack', maxLocals'⟩ := d'
  dsimp only at hframes hnil hnil' hmaxStack hmaxLocals
  rw [hframes, hnil, hnil', hmaxStack, hmaxLocals]

/-- Frames are found just where there is a typing, and then they are the least one. All orders of visits find them. -/
theorem analyze_finds_least_typing {m : MethodHead} {c : Code} {p : Placement} {entry : Frame}
    (hm : m.isConstructor = false) (hp : c.placement = .ok p) :
    ((∃ d, analyze m c.instrs p entry = .ok d) ↔ ∃ τ, Typing Frame.Below m c.instrs p entry τ) ∧
      (∀ d, analyze m c.instrs p entry = .ok d → Typing Frame.Below m c.instrs p entry d.frameAt ∧
        ∀ τ, Typing Frame.Below m c.instrs p entry τ → LiesBelow Frame.Below d τ) ∧
      ∀ order d, analyzeIn order m c.instrs p entry = .ok d ↔ analyze m c.instrs p entry = .ok d := by
  have hlt := c.position?_lt hp
  have hjump (i : Nat) op l (hi : c.instrs[i]? = some (Instr.jump op l)) := c.exists_position? hp hi
  have O : Frame.Ordered m c.instrs Frame.Below := Frame.ordered_below hm
  have hfound {order : Nat → Nat} {d : Dataflow} (h : analyzeIn order m c.instrs p entry = .ok d) :=
    typing_of_analyzeIn O.toJoinOrder hlt h
  rw [← analyzeIn_first]
  refine ⟨⟨fun ⟨d, hd⟩ => ⟨_, hfound hd⟩, fun ⟨τ, hτ⟩ => ?_⟩, fun d hd => ⟨hfound hd, fun τ hτ => ?_⟩,
    fun order d => ?_⟩
  · obtain ⟨d, hd, -⟩ := analyzeIn_of_typing O _ hlt hjump hτ
    exact ⟨d, hd⟩
  · obtain ⟨_, hd', hbelow⟩ := analyzeIn_of_typing O _ hlt hjump hτ
    cases hd.symm.trans hd'
    exact hbelow
  · have hall {order order' : Nat → Nat} (h : analyzeIn order m c.instrs p entry = .ok d) :
        analyzeIn order' m c.instrs p entry = .ok d := by
      obtain ⟨d', hd', -⟩ := analyzeIn_of_typing O order' hlt hjump (hfound h)
      rwa [analyzeIn_unique hm hlt hjump h hd']
    exact ⟨hall, hall⟩

end Dataflow

/-- Leaves a text or a class on the stack, as its parameter says. -/
def meeting : Code :=
  ⟨#[.load .int 0, .jump .ifeq ⟨0⟩, .str "a", .jump .goto ⟨1⟩, .mark ⟨0⟩, .cls "demo/Main", .mark ⟨1⟩, .op .pop,
    .op .returnVoid], 2⟩

def meetingHead : MethodHead := ⟨"demo/Main", "meet", "(I)V", true⟩

def meetingLabels : Placement := ⟨#[some 4, some 6]⟩

open Dataflow in
/-- Where the paths meet there is some object, and no typing can say more about it. -/
theorem analyze_finds_least_typing_meeting :
    meetingHead.isConstructor = false ∧ meeting.placement = .ok meetingLabels ∧
      ∃ d, analyze meetingHead meeting.instrs meetingLabels { locals := [.integer] } = .ok d ∧
        d.frameAt 6 = some { locals := [.integer], stack := [.object Name.object] } ∧
        Typing Frame.Below meetingHead meeting.instrs meetingLabels { locals := [.integer] } d.frameAt ∧
        (∀ τ, Typing Frame.Below meetingHead meeting.instrs meetingLabels { locals := [.integer] } τ →
          LiesBelow Frame.Below d τ) ∧
        analyzeIn id meetingHead meeting.instrs meetingLabels { locals := [.integer] } = .ok d := by
  have hany : (analyze meetingHead meeting.instrs meetingLabels { locals := [.integer] }).toOption.any
      (fun d => decide (d.frameAt 6 = some { locals := [.integer], stack := [.object Name.object] })) = true := by
    decide +kernel
  obtain ⟨d, hd, hat⟩ := (Option.any_eq_true _ _).mp hany
  rw [toOption_eq_some] at hd
  obtain ⟨-, hleast, horder⟩ :=
    @analyze_finds_least_typing meetingHead meeting meetingLabels { locals := [.integer] } rfl rfl
  exact ⟨rfl, rfl, d, hd, of_decide_eq_true hat, (hleast d hd).1, (hleast d hd).2, (horder id d).mpr hd⟩

end Classwright
