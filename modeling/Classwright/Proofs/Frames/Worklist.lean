import Classwright.Proofs.Frames.Joins
import Classwright.Proofs.Placement
import Classwright.Verify.Dataflow
import Mathlib.Algebra.BigOperators.Group.List.Basic
import Mathlib.Data.List.Perm.Basic

/-! # Visits

Visiting an instruction sends the frame after it to every instruction that control can go to next. A frame that is
sent to a place lies below the frame that is kept there, and a place whose frame has changed is visited again. What
each visit keeps holds of what is found, in whatever order the instructions are visited. -/

namespace Classwright

/-- Control can go from instruction `i` to another. -/
inductive Edge (code : Array Instr) (p : Placement) (i : Nat) : Nat → Prop
  | next {instr : Instr} (h : code[i]? = some instr) (hf : instr.fallsThrough = true) : Edge code p i (i + 1)
  | jump {op : Opcode} {l : Label} {j : Nat} (h : code[i]? = some (.jump op l)) (hl : p.position? l = some j) :
      Edge code p i j

theorem edge_iff {code : Array Instr} {p : Placement} {i j : Nat} {instr : Instr} (hi : code[i]? = some instr) :
    Edge code p i j ↔
      (∃ op l, instr = .jump op l ∧ p.position? l = some j) ∨ (instr.fallsThrough = true ∧ j = i + 1) := by
  constructor
  · intro h
    cases h with
    | next h hf =>
      rw [hi] at h
      cases h
      exact Or.inr ⟨hf, rfl⟩
    | jump h hl =>
      rw [hi] at h
      cases h
      exact Or.inl ⟨_, _, rfl, hl⟩
  · rintro (⟨op, l, rfl, hl⟩ | ⟨hf, rfl⟩)
    · exact .jump hi hl
    · exact .next hi hf

namespace Dataflow
variable {m : MethodHead} {code : Array Instr} {p : Placement} {d d' d'' : Dataflow} {entry f : Frame}
  {R : Frame → Frame → Prop}

/-! ### Frames that are kept -/

theorem frameAt_set (d : Dataflow) {t : Nat} (ht : t < d.frames.size) (f : Frame) (ps : List Nat) (i : Nat) :
    frameAt { d with frames := d.frames.setIfInBounds t (some f), pending := ps } i =
      if i = t then some f else d.frameAt i := by
  unfold frameAt
  rw [Array.getElem?_setIfInBounds]
  by_cases h : t = i
  · subst h
    simp [ht]
  · simp [h, Ne.symm h]

theorem lt_size_of_frameAt {i : Nat} (h : d.frameAt i = some f) : i < d.frames.size := by
  by_contra hlt
  unfold frameAt at h
  rw [Array.getElem?_eq_none (by omega)] at h
  cases h

/-- How many instructions have a frame. -/
def live (d : Dataflow) : Nat := (d.frames.toList.map (·.elim 0 fun _ => 1)).sum

/-- The ranks of all frames. -/
def potential (d : Dataflow) : Nat := (d.frames.toList.map (·.elim 0 Frame.rank)).sum

/-- Sums over the kept frames change by what the changed one adds. -/
theorem sum_set (w : Option Frame → Nat) (d : Dataflow) {t : Nat} (ht : t < d.frames.size)
    (f : Frame) :
    ((d.frames.setIfInBounds t (some f)).toList.map w).sum + w (d.frameAt t) =
      (d.frames.toList.map w).sum + w (some f) := by
  have hlt : t < (d.frames.toList.map w).length := by simpa using ht
  have hold : (d.frames.toList.map w)[t] = w (d.frameAt t) := by simp [frameAt, ht]
  have hnew := List.sum_set (d.frames.toList.map w) t (w (some f))
  -- The old frame can be seen as set anew.
  have hsame := List.sum_set (d.frames.toList.map w) t (w (d.frameAt t))
  rw [if_pos hlt] at hnew hsame
  rw [← hold, List.set_getElem_self] at hsame
  rw [Array.toList_setIfInBounds, List.map_set, ← hold]
  omega

theorem live_set (d : Dataflow) {t : Nat} (ht : t < d.frames.size) (f : Frame) (ps : List Nat) :
    live { d with frames := d.frames.setIfInBounds t (some f), pending := ps } + (d.frameAt t).elim 0 (fun _ => 1) =
      d.live + 1 :=
  sum_set (·.elim 0 fun _ => 1) d ht f

theorem potential_set (d : Dataflow) {t : Nat} (ht : t < d.frames.size) (f : Frame) (ps : List Nat) :
    potential { d with frames := d.frames.setIfInBounds t (some f), pending := ps } + (d.frameAt t).elim 0 Frame.rank =
      d.potential + f.rank :=
  sum_set (·.elim 0 Frame.rank) d ht f

theorem setIfInBounds_frameAt {t : Nat} (h : d.frameAt t = some f) : d.frames.setIfInBounds t (some f) = d.frames := by
  have hget : d.frames[t]? = some (some f) := Option.join_eq_some_iff.mp h
  refine Array.ext (by simp) fun i hi hi' => ?_
  rw [Array.getElem_setIfInBounds hi']
  split
  · rename_i heq
    subst heq
    exact (Option.some.inj ((Array.getElem?_eq_getElem hi').symm.trans hget)).symm
  · rfl

/-- A merge that reports no change leaves all as it is. -/
theorem reach_eq (d : Dataflow) (t : Nat) (f : Frame) : d.reach t f =
    match d.frameAt t with
    | none => .ok { d with frames := d.frames.setIfInBounds t (some f), pending := t :: d.pending }
    | some present =>
      match present.join f with
      | .error fault => .error (.ofFault t fault)
      | .ok joined =>
        if joined = present then .ok d
        else .ok { d with frames := d.frames.setIfInBounds t (some joined), pending := t :: d.pending } := by
  unfold reach
  cases hat : d.frameAt t with
  | none => rfl
  | some present =>
    simp only [Frame.merge_eq]
    cases present.join f with
    | error fault => rfl
    | ok joined =>
      by_cases hsame : joined = present
      · subst hsame
        simp [Except.map, setIfInBounds_frameAt hat]
      · simp [Except.map, hsame]

/-- Sending a frame to a place: there was none, or it is joined with the one that was, and nothing has changed or the
    place is to be visited again. -/
theorem reach_eq_ok {t : Nat} (h : d.reach t f = .ok d') :
    (∃ g, (d.frameAt t = none ∧ g = f ∨ ∃ present, d.frameAt t = some present ∧ present.join f = .ok g ∧ g ≠ present) ∧
      d' = { d with frames := d.frames.setIfInBounds t (some g), pending := t :: d.pending }) ∨
    ∃ present, d.frameAt t = some present ∧ present.join f = .ok present ∧ d' = d := by
  rw [reach_eq] at h
  split at h
  · rename_i hnone
    cases h
    exact Or.inl ⟨f, Or.inl ⟨hnone, rfl⟩, rfl⟩
  · rename_i present hsome
    split at h
    · cases h
    · rename_i joined hj
      split at h
      · rename_i heq
        cases h
        exact Or.inr ⟨present, hsome, heq ▸ hj, rfl⟩
      · rename_i hne
        cases h
        exact Or.inl ⟨joined, Or.inr ⟨present, hsome, hj, hne⟩, rfl⟩

/-! ### One visit -/

/-- What sending the frame `f` to the places `ts` does, in an order of frames. -/
structure Advances (R : Frame → Frame → Prop) (f : Frame) (ts : List Nat) (d d' : Dataflow) : Prop where
  size : d'.frames.size = d.frames.size
  /-- Frames only go up. -/
  kept : ∀ i g, d.frameAt i = some g → ∃ g', d'.frameAt i = some g' ∧ R g g'
  sent : ∀ t ∈ ts, ∃ g, d'.frameAt t = some g ∧ R f g
  changed : ∀ i, d'.frameAt i = d.frameAt i ∨ i ∈ d'.pending
  pending : ∀ i ∈ d.pending, i ∈ d'.pending
  /-- Each place to visit is paid for by a frame that has gone up. -/
  paid : d'.pending.length + d.potential ≤ d.pending.length + d'.potential

namespace Advances

theorem refl (O : Frame.JoinOrder R) (f : Frame) (d : Dataflow) : Advances R f [] d d where
  size := rfl
  kept _ g h := ⟨g, h, O.refl g⟩
  sent _ h := by cases h
  changed _ := Or.inl rfl
  pending _ h := h
  paid := Nat.le_refl _

theorem trans (O : Frame.JoinOrder R) {ts us : List Nat} (h₁ : Advances R f ts d d') (h₂ : Advances R f us d' d'') :
    Advances R f (ts ++ us) d d'' where
  size := h₂.size.trans h₁.size
  kept i g h := by
    obtain ⟨g', h', hb'⟩ := h₁.kept i g h
    obtain ⟨g'', h'', hb''⟩ := h₂.kept i g' h'
    exact ⟨g'', h'', O.trans hb' hb''⟩
  sent t ht := by
    rcases List.mem_append.mp ht with ht | ht
    · obtain ⟨g, hg, hb⟩ := h₁.sent t ht
      obtain ⟨g', hg', hb'⟩ := h₂.kept t g hg
      exact ⟨g', hg', O.trans hb hb'⟩
    · exact h₂.sent t ht
  changed i := by
    rcases h₂.changed i with h | h
    · rcases h₁.changed i with h' | h'
      · exact Or.inl (h.trans h')
      · exact Or.inr (h₂.pending i h')
    · exact Or.inr h
  pending i h := h₂.pending i (h₁.pending i h)
  paid := by have := h₁.paid; have := h₂.paid; omega

theorem of_reach (O : Frame.JoinOrder R) {t : Nat} (ht : t < d.frames.size) (h : d.reach t f = .ok d') :
    Advances R f [t] d d' := by
  rcases reach_eq_ok h with ⟨g, hg, rfl⟩ | ⟨present, hp, hj, rfl⟩
  · have hfg : R f g := by
      rcases hg with ⟨-, rfl⟩ | ⟨present, -, hj, -⟩
      · exact O.refl g
      · exact (O.join_upper hj).2
    have hrank : (d.frameAt t).elim 0 Frame.rank < g.rank := by
      rcases hg with ⟨hnone, rfl⟩ | ⟨present, hp, hj, hne⟩
      · rw [hnone]
        simp only [Option.elim, Frame.rank]
        omega
      · rw [hp]
        exact Frame.rank_lt_of_join hj hne
    refine ⟨by simp, fun i g₀ h₀ => ?_, fun i hi => ?_, fun i => ?_, fun i hi => List.mem_cons_of_mem t hi, ?_⟩
    · rw [frameAt_set d ht]
      split
      · rename_i hi
        rcases hg with ⟨hnone, -⟩ | ⟨present, hp, hj, -⟩
        · rw [hi, hnone] at h₀
          cases h₀
        · rw [hi, hp] at h₀
          cases h₀
          exact ⟨g, rfl, (O.join_upper hj).1⟩
      · exact ⟨g₀, h₀, O.refl g₀⟩
    · obtain rfl := List.mem_singleton.mp hi
      exact ⟨g, by rw [frameAt_set d ht, if_pos rfl], hfg⟩
    · rw [frameAt_set d ht]
      split
      · rename_i hi
        exact Or.inr (hi ▸ List.mem_cons_self)
      · exact Or.inl rfl
    · have hsum := potential_set d ht g (t :: d.pending)
      simp only [List.length_cons]
      omega
  · refine ⟨rfl, fun i g h => ⟨g, h, O.refl g⟩, fun i hi => ?_, fun i => Or.inl rfl, fun i hi => hi, Nat.le_refl _⟩
    obtain rfl := List.mem_singleton.mp hi
    exact ⟨present, hp, (O.join_upper hj).2⟩

end Advances

/-- Frames have at most `n` locals, and beyond `s` every two stack entries come from another instruction that has a
    frame. -/
structure Bounded (n s : Nat) (d : Dataflow) : Prop where
  locals : ∀ i g, d.frameAt i = some g → g.locals.length ≤ n
  stack : ∀ i g, d.frameAt i = some g → g.stack.length + 2 ≤ s + 2 * d.live

theorem Bounded.reach {n s t : Nat} (hb : Bounded n s d) (ht : t < d.frames.size) (h : d.reach t f = .ok d')
    (hlocals : f.locals.length ≤ n) (hstack : f.stack.length ≤ s + 2 * d.live) :
    Bounded n s d' ∧ d.live ≤ d'.live := by
  rcases reach_eq_ok h with ⟨g, hg, rfl⟩ | ⟨present, -, -, rfl⟩
  · have hsum := live_set d ht g (t :: d.pending)
    generalize hd' : { d with frames := d.frames.setIfInBounds t (some g), pending := t :: d.pending } = d' at hsum
    have hlive : d.live ≤ d'.live ∧ g.stack.length + 2 ≤ s + 2 * d'.live := by
      rcases hg with ⟨hnone, rfl⟩ | ⟨present, hp, hj, -⟩
      · rw [hnone] at hsum
        simp only [Option.elim] at hsum
        exact ⟨by omega, by omega⟩
      · have hlen := (Frame.join_below hj).1.stack_length
        have hs := hb.stack t present hp
        rw [hp] at hsum
        simp only [Option.elim] at hsum
        exact ⟨by omega, by omega⟩
    subst hd'
    refine ⟨⟨fun i g' h' => ?_, fun i g' h' => ?_⟩, hlive.1⟩
    · rw [frameAt_set d ht] at h'
      split at h'
      · cases h'
        rcases hg with ⟨-, rfl⟩ | ⟨present, hp, hj, -⟩
        · exact hlocals
        · have := hb.locals t present hp
          rw [(Frame.join_eq_ok hj).2.1, Frame.length_joinLocals]
          omega
      · exact hb.locals i g' h'
    · rw [frameAt_set d ht] at h'
      split at h'
      · cases h'
        exact hlive.2
      · have := hb.stack i g' h'
        omega
  · exact ⟨hb, Nat.le_refl _⟩

/-- The frame `f` is sent to places one after another. -/
inductive Sent (f : Frame) : List Nat → Dataflow → Dataflow → Prop
  | nil (d : Dataflow) : Sent f [] d d
  | cons {t : Nat} {ts : List Nat} {d d' d'' : Dataflow} (h : d.reach t f = .ok d') (hs : Sent f ts d' d'') :
      Sent f (t :: ts) d d''

namespace Sent
variable {ts us : List Nat}

theorem append (h₁ : Sent f ts d d') (h₂ : Sent f us d' d'') : Sent f (ts ++ us) d d'' := by
  induction h₁ with
  | nil => exact h₂
  | cons h _ ih => exact .cons h (ih h₂)

theorem advances (O : Frame.JoinOrder R) (h : Sent f ts d d') (hts : ∀ t ∈ ts, t < d.frames.size) :
    Advances R f ts d d' := by
  induction h with
  | nil d => exact .refl O f d
  | cons hr _ ih =>
    have hfirst := Advances.of_reach O (hts _ List.mem_cons_self) hr
    exact hfirst.trans O (ih fun t ht => hfirst.size ▸ hts t (List.mem_cons_of_mem _ ht))

theorem bounded {n s : Nat} (h : Sent f ts d d') (hts : ∀ t ∈ ts, t < d.frames.size) (hb : Bounded n s d)
    (hlocals : f.locals.length ≤ n) (hstack : f.stack.length ≤ s + 2 * d.live) : Bounded n s d' := by
  induction h with
  | nil d => exact hb
  | cons hr _ ih =>
    have ht := hts _ List.mem_cons_self
    obtain ⟨hb', hlive⟩ := hb.reach ht hr hlocals hstack
    have hsize := (Advances.of_reach Frame.joinOrder_below ht hr).size
    exact ih (fun t ht => hsize ▸ hts t (List.mem_cons_of_mem _ ht)) hb' (by omega)

end Sent

theorem branch_eq_ok {instr : Instr} (h : d.branch p instr f = .ok d') :
    (∃ op l j, instr = .jump op l ∧ p.position? l = some j ∧ d.reach j f = .ok d') ∨
      ((∀ op l, instr ≠ .jump op l) ∧ d' = d) := by
  unfold branch at h
  split at h
  · rename_i op l
    obtain ⟨j, hj, h⟩ := bind_eq_ok.mp h
    exact Or.inl ⟨op, l, j, rfl, Placement.target_eq_ok.mp hj, h⟩
  · rename_i hno
    cases h
    exact Or.inr ⟨hno, rfl⟩

/-- A visit sends the frame after the instruction to all places where control can go from it. -/
theorem visit_eq_ok (hp : ∀ l j, p.position? l = some j → j < code.size) {i : Nat} {instr : Instr}
    (hi : code[i]? = some instr) (h : visit m code p d i instr f = .ok d') :
    ∃ after ts, f.apply m code i instr = .ok after ∧ (∀ j, Edge code p i j ↔ j ∈ ts) ∧ (∀ j ∈ ts, j < code.size) ∧
      Sent after ts (d.observe instr f after) d' := by
  unfold visit at h
  split at h
  · cases h
  · rename_i after ha
    obtain ⟨d₁, hb, h⟩ := bind_eq_ok.mp h
    have hbranch : ∃ ts, (∀ j, (∃ op l, instr = .jump op l ∧ p.position? l = some j) ↔ j ∈ ts) ∧
        (∀ j ∈ ts, j < code.size) ∧ Sent after ts (d.observe instr f after) d₁ := by
      rcases branch_eq_ok hb with ⟨op, l, j, rfl, hl, hr⟩ | ⟨hno, rfl⟩
      · refine ⟨[j], fun k => ?_, fun k hk => List.mem_singleton.mp hk ▸ hp l j hl, .cons hr (.nil _)⟩
        simp [hl, eq_comm]
      · exact ⟨[], fun k => by simp [hno], nofun, .nil _⟩
    obtain ⟨ts, hts, hlt, hs⟩ := hbranch
    split at h
    · rename_i hf
      split at h
      · rename_i hnext
        refine ⟨after, ts ++ [i + 1], ha, fun j => ?_, fun j hj => ?_, hs.append (.cons h (.nil _))⟩
        · rw [edge_iff hi, hts]
          simp [hf]
        · rcases List.mem_append.mp hj with hj | hj
          · exact hlt j hj
          · exact List.mem_singleton.mp hj ▸ hnext
      · cases h
    · rename_i hf
      cases h
      refine ⟨after, ts, ha, fun j => ?_, hlt, hs⟩
      rw [edge_iff hi, hts]
      simp [hf]

/-! ### Visits in any order -/

/-- What is known before the first visit. -/
def start (code : Array Instr) (entry : Frame) : Dataflow :=
  { frames := (Array.replicate code.size none).setIfInBounds 0 (some entry)
    pending := [0]
    maxStack := 0
    maxLocals := entry.locals.length }

theorem analyze_eq_run (hne : 0 < code.size) :
    analyze m code p entry =
      Dataflow.run m code p (budget code.size (entry.locals.length + entry.stack.length)) (start code entry) := by
  unfold analyze
  rw [if_neg (by rw [Array.isEmpty_iff_size_eq_zero]; omega)]
  rfl

theorem frameAt_start (hne : 0 < code.size) (i : Nat) :
    (start code entry).frameAt i = if i = 0 then some entry else none := by
  have hset := frameAt_set ⟨Array.replicate code.size none, [], 0, entry.locals.length⟩ (t := 0) (by simpa using hne)
    entry [0] i
  refine hset.trans ?_
  congr 1
  simp only [frameAt, Array.getElem?_replicate]
  split <;> rfl

/-- Visits pending instructions until none is left, or `fuel` is used up. With `n` visits left after it, the next one goes
    to the place `order n` of those that are pending, counted round. -/
def runIn (order : Nat → Nat) (m : MethodHead) (code : Array Instr) (p : Placement) :
    Nat → Dataflow → Except FormatError Dataflow
  | 0, d => .ok d
  | fuel + 1, d =>
    let k := order fuel % d.pending.length
    match d.pending[k]? with
    | none => .ok d
    | some index => do
      let d ← run m code p 1 { d with pending := index :: d.pending.eraseIdx k }
      runIn order m code p fuel d

/-- The frames of all live instructions, which are visited in any order. -/
def analyzeIn (order : Nat → Nat) (m : MethodHead) (code : Array Instr) (p : Placement) (entry : Frame) :
    Except FormatError Dataflow :=
  if code.isEmpty then .error (.inconsistentFrame 0 .emptyBody)
  else runIn order m code p (budget code.size (entry.locals.length + entry.stack.length)) (start code entry)

theorem run_nil (hpending : d.pending = []) (fuel : Nat) : run m code p fuel d = .ok d := by
  cases fuel with
  | zero => rfl
  | succ fuel => rw [run, hpending]

theorem run_one {i : Nat} {instr : Instr} (hi : code[i]? = some instr) (hf : d.frameAt i = some f) (rest : List Nat) :
    run m code p 1 { d with pending := i :: rest } = visit m code p { d with pending := rest } i instr f := by
  have hf' : frameAt { d with pending := rest } i = some f := hf
  simp only [run, hi, hf']
  cases visit m code p { d with pending := rest } i instr f <;> rfl

/-- Visits are made one after another. -/
theorem run_succ (fuel : Nat) (d : Dataflow) : run m code p (fuel + 1) d = run m code p 1 d >>= run m code p fuel := by
  rw [run, run]
  split
  · rename_i hpending
    rw [ok_bind, run_nil hpending]
  · dsimp only
    split
    · split <;> rfl
    · rfl

/-- Instructions are visited in the order of the list if the first is taken each time. -/
theorem runIn_first (fuel : Nat) (d : Dataflow) : runIn (fun _ => 0) m code p fuel d = run m code p fuel d := by
  induction fuel generalizing d with
  | zero => rfl
  | succ fuel ih =>
    obtain ⟨frames, pending, maxStack, maxLocals⟩ := d
    cases pending with
    | nil => rfl
    | cons i rest =>
      rw [run_succ, ← funext ih]
      simp only [runIn, Nat.zero_mod, List.getElem?_cons_zero, List.eraseIdx_cons_zero]

theorem analyzeIn_first : analyzeIn (fun _ => 0) m code p entry = analyze m code p entry := by
  unfold analyzeIn analyze
  rw [runIn_first]
  rfl

/-- What is pending has a frame. -/
structure Live (code : Array Instr) (d : Dataflow) : Prop where
  size : d.frames.size = code.size
  pending : ∀ i ∈ d.pending, ∃ f, d.frameAt i = some f

theorem Sent.mem_pending {ts : List Nat} (h : Sent f ts d d') {i : Nat} (hi : i ∈ d'.pending) :
    i ∈ d.pending ∨ i ∈ ts := by
  induction h with
  | nil d => exact .inl hi
  | cons hr _ ih =>
    rcases ih hi with hi | hi
    · rcases reach_eq_ok hr with ⟨g, -, rfl⟩ | ⟨_, -, -, rfl⟩
      · rcases List.mem_cons.mp hi with rfl | hi
        · exact .inr List.mem_cons_self
        · exact .inl hi
      · exact .inl hi
    · exact .inr (List.mem_cons_of_mem _ hi)

theorem Live.visit (hp : ∀ l j, p.position? l = some j → j < code.size) {i : Nat} {rest : List Nat} {instr : Instr}
    (live : Live code d) (hpending : d.pending.Perm (i :: rest)) (hi : code[i]? = some instr)
    (h : Dataflow.visit m code p { d with pending := rest } i instr f = .ok d') : Live code d' := by
  obtain ⟨after, ts, -, -, hlt, hs⟩ := visit_eq_ok hp hi h
  have A := hs.advances Frame.joinOrder_below fun t ht => live.size ▸ hlt t ht
  refine ⟨A.size.trans live.size, fun k hk => ?_⟩
  rcases hs.mem_pending hk with hk | hk
  · obtain ⟨g, hg⟩ := live.pending k (hpending.mem_iff.mpr (List.mem_cons_of_mem i hk))
    obtain ⟨g', hg', -⟩ := A.kept k g hg
    exact ⟨g', hg'⟩
  · obtain ⟨g, hg, -⟩ := A.sent k hk
    exact ⟨g, hg⟩

theorem live_start (hne : 0 < code.size) : Live code (start code entry) := by
  refine ⟨by simp [start], fun i hi => ?_⟩
  obtain rfl := List.mem_singleton.mp hi
  exact ⟨entry, by rw [frameAt_start hne, if_pos rfl]⟩

/-- What each visit keeps holds in the end, in whatever order they are made. The number is that of the visits left. -/
theorem runIn_meets {I : Nat → Dataflow → Prop} {E : FormatError → Prop} (order : Nat → Nat)
    (hp : ∀ l j, p.position? l = some j → j < code.size)
    (hvisit : ∀ {n d i rest instr f}, I (n + 1) d → d.pending.Perm (i :: rest) → code[i]? = some instr →
      d.frameAt i = some f → Meets (I n) E (visit m code p { d with pending := rest } i instr f))
    (fuel : Nat) (live : Live code d) (h : I fuel d) :
    Meets (fun d' => ∃ n, I n d' ∧ (n = 0 ∨ d'.pending = [])) E (runIn order m code p fuel d) := by
  induction fuel generalizing d with
  | zero => exact ⟨0, h, .inl rfl⟩
  | succ fuel ih =>
    unfold runIn
    dsimp only
    split
    · rename_i hnone
      refine ⟨fuel + 1, h, .inr ?_⟩
      by_contra hne
      have hlt := Nat.mod_lt (order fuel) (List.length_pos_iff.mpr hne)
      exact absurd (List.getElem?_eq_none_iff.mp hnone) (by omega)
    · rename_i i hsome
      obtain ⟨hk, rfl⟩ := List.getElem?_eq_some_iff.mp hsome
      have hperm := (List.getElem_cons_eraseIdx_perm hk).symm
      obtain ⟨f, hf⟩ := live.pending _ (List.getElem_mem hk)
      have hlt : d.pending[order fuel % d.pending.length] < code.size := live.size ▸ lt_size_of_frameAt hf
      have hi := Array.getElem?_eq_getElem hlt
      have hmeets := hvisit h hperm hi hf
      rw [run_one hi hf]
      generalize hv : Dataflow.visit m code p _ _ _ f = result at hmeets
      cases result with
      | error e => exact hmeets
      | ok d₁ => exact ih (live.visit hp hperm hi hv) hmeets

theorem analyzeIn_eq_runIn (order : Nat → Nat) (hne : 0 < code.size) : analyzeIn order m code p entry =
    runIn order m code p (budget code.size (entry.locals.length + entry.stack.length)) (start code entry) := by
  unfold analyzeIn
  rw [if_neg (by rw [Array.isEmpty_iff_size_eq_zero]; omega)]

theorem size_pos_of_analyzeIn {order : Nat → Nat} (h : analyzeIn order m code p entry = .ok d) : 0 < code.size := by
  obtain ⟨hne, -⟩ := ite_error_eq_ok.mp h
  rw [Array.isEmpty_iff_size_eq_zero] at hne
  omega

/-- What each visit keeps holds of what is found. -/
theorem analyzeIn_keeps {I : Dataflow → Prop} {order : Nat → Nat} (hp : ∀ l j, p.position? l = some j → j < code.size)
    (hstart : 0 < code.size → I (start code entry))
    (hvisit : ∀ {d d' i rest instr f}, I d → d.pending.Perm (i :: rest) → code[i]? = some instr →
      d.frameAt i = some f → visit m code p { d with pending := rest } i instr f = .ok d' → I d')
    (h : analyzeIn order m code p entry = .ok d) : I d := by
  have hne := size_pos_of_analyzeIn h
  rw [analyzeIn_eq_runIn order hne] at h
  have hstep {d : Dataflow} {i : Nat} {rest : List Nat} {instr : Instr} {f : Frame} (hd : I d)
      (hperm : d.pending.Perm (i :: rest)) (hi : code[i]? = some instr) (hf : d.frameAt i = some f) :
      Meets I (fun _ => True) (visit m code p { d with pending := rest } i instr f) := by
    cases hv : visit m code p { d with pending := rest } i instr f with
    | error e => trivial
    | ok d' => exact hvisit hd hperm hi hf hv
  have hmeets := runIn_meets (I := fun _ => I) order hp hstep
    (budget code.size (entry.locals.length + entry.stack.length)) (live_start hne) (hstart hne)
  rw [h] at hmeets
  obtain ⟨-, hd, -⟩ := hmeets
  exact hd

end Dataflow

end Classwright
