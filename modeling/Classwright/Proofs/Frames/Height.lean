import Classwright.Proofs.Frames.Monotone
import Mathlib.Algebra.GroupWithZero.Nat

/-! # How far frames can grow

An instruction adds at most two entries to the stack and no slot beyond the highest that a store can name. A frame has
a rank, which a join that changes the frame raises, so the number of changes is bounded by the size of the frame. -/

namespace Classwright

/-! ### What a pop takes -/

namespace Frame
variable {f g : Frame} {t : VType}

theorem pop_eq_ok : f.pop = .ok (t, g) ↔ f.stack = t :: g.stack ∧ f.locals = g.locals := by
  obtain ⟨locals, stack⟩ := f
  obtain ⟨locals', stack'⟩ := g
  cases stack with
  | nil => simp [pop]
  | cons u rest => simp [pop]; tauto

theorem popExpect_eq_ok {wanted : VType} (h : f.popExpect wanted = .ok g) :
    ∃ t, f.stack = t :: g.stack ∧ f.locals = g.locals := by
  obtain ⟨⟨t, f'⟩, hp, h⟩ := bind_eq_ok.mp h
  obtain ⟨-, h⟩ := ite_eq_ok.mp h
  cases h
  exact ⟨t, pop_eq_ok.mp hp⟩

theorem popKind_eq_ok {wanted : LocalKind} :
    f.popKind wanted = .ok (t, g) ↔ f.stack = t :: g.stack ∧ f.locals = g.locals ∧ t.hasKind wanted = true := by
  constructor
  · intro h
    obtain ⟨⟨u, f'⟩, hp, h⟩ := bind_eq_ok.mp h
    obtain ⟨hk, h⟩ := ite_eq_ok.mp h
    cases h
    exact ⟨(pop_eq_ok.mp hp).1, (pop_eq_ok.mp hp).2, hk⟩
  · rintro ⟨hs, hl, hk⟩
    exact bind_eq_ok.mpr ⟨(t, g), pop_eq_ok.mpr ⟨hs, hl⟩, ite_eq_ok.mpr ⟨hk, rfl⟩⟩

theorem popWord_eq_ok : f.popWord = .ok (t, g) ↔ f.stack = t :: g.stack ∧ f.locals = g.locals ∧ t.width = 1 := by
  constructor
  · intro h
    obtain ⟨⟨u, f'⟩, hp, h⟩ := bind_eq_ok.mp h
    obtain ⟨hw, h⟩ := ite_eq_ok.mp h
    cases h
    exact ⟨(pop_eq_ok.mp hp).1, (pop_eq_ok.mp hp).2, hw⟩
  · rintro ⟨hs, hl, hw⟩
    exact bind_eq_ok.mpr ⟨(t, g), pop_eq_ok.mpr ⟨hs, hl⟩, ite_eq_ok.mpr ⟨hw, rfl⟩⟩

/-! ### What an instruction adds -/

/-- From `f` to `g` the locals stay, and the stack loses `pops` entries at least and gets `pushes` at most. -/
structure Moves (pops pushes : Nat) (f g : Frame) : Prop where
  locals : g.locals = f.locals
  stack : g.stack.length + pops ≤ f.stack.length + pushes

namespace Moves
variable {h : Frame} {a b c d : Nat}

theorem refl (f : Frame) : Moves 0 0 f f := ⟨rfl, Nat.le_refl _⟩

theorem trans (h₁ : Moves a b f g) (h₂ : Moves c d g h) : Moves (a + c) (b + d) f h :=
  ⟨h₂.locals.trans h₁.locals, by have := h₁.stack; have := h₂.stack; omega⟩

theorem weaken (h : Moves a b f g) (hab : b + c ≤ a + d) : Moves c d f g :=
  ⟨h.locals, by have := h.stack; omega⟩

theorem push (f : Frame) (t : VType) : Moves 0 1 f (f.push t) := ⟨rfl, Nat.le_refl _⟩

theorem pushAll (f : Frame) (ts : List VType) : Moves 0 ts.length f (f.pushAll ts) := by
  induction ts generalizing f with
  | nil => exact .refl f
  | cons t rest ih => exact ((push f t).trans (ih _)).weaken (by simp only [List.length_cons]; omega)

theorem of_pop (h : f.pop = .ok (t, g)) : Moves 1 0 f g := by
  obtain ⟨hs, hl⟩ := pop_eq_ok.mp h
  exact ⟨hl.symm, by simp [hs]⟩

theorem of_popExpect {wanted : VType} (h : f.popExpect wanted = .ok g) : Moves 1 0 f g := by
  obtain ⟨t, hs, hl⟩ := popExpect_eq_ok h
  exact ⟨hl.symm, by simp [hs]⟩

theorem of_popKind {wanted : LocalKind} (h : f.popKind wanted = .ok (t, g)) : Moves 1 0 f g := by
  obtain ⟨hs, hl, -⟩ := popKind_eq_ok.mp h
  exact ⟨hl.symm, by simp [hs]⟩

theorem of_popWord (h : f.popWord = .ok (t, g)) : Moves 1 0 f g := by
  obtain ⟨hs, hl, -⟩ := popWord_eq_ok.mp h
  exact ⟨hl.symm, by simp [hs]⟩

theorem of_popAll {wanted : List VType} (h : f.popAll wanted = .ok g) : Moves wanted.length 0 f g := by
  induction wanted generalizing f with
  | nil =>
    cases h
    exact .refl _
  | cons t rest ih =>
    obtain ⟨f', hp, h⟩ := bind_eq_ok.mp h
    exact ((of_popExpect hp).trans (ih h)).weaken (by simp only [List.length_cons]; omega)

theorem of_popArgs {ds : List (List Char)} (h : f.popArgs ds = .ok g) : Moves 0 0 f g := by
  induction ds generalizing f with
  | nil =>
    cases h
    exact .refl _
  | cons d rest ih =>
    obtain ⟨f', hp, h⟩ := bind_eq_ok.mp h
    refine Moves.trans (b := 0) (d := 0) (c := 0) ?_ (ih h)
    unfold popArg at hp
    split at hp
    · cases hp
    · cases hp
      exact .refl _
    · exact (of_popExpect hp).weaken (by omega)

theorem of_pushResult {d : List Char} (h : f.pushResult d = .ok g) : Moves 0 1 f g := by
  unfold pushResult at h
  split at h
  · cases h
  · cases h
    exact (refl _).weaken (by omega)
  · cases h
    exact push _ _

/-- No operation of one type pushes more than one value. -/
theorem length_pushes_le_one {op : Opcode} {pops pushes : List VType} (h : op.effect? = some (pops, pushes)) :
    pushes.length ≤ 1 := by
  cases op <;> cases h <;> decide

theorem of_applyOp {m : MethodHead} {op : Opcode} (h : f.applyOp m op = .ok g) : Moves 0 2 f g := by
  unfold applyOp at h
  split at h
  · rename_i pops pushes he
    obtain ⟨f', hp, h⟩ := bind_eq_ok.mp h
    cases h
    have := length_pushes_le_one he
    exact ((of_popAll hp).trans (pushAll f' pushes)).weaken (by omega)
  · split at h
    · obtain ⟨⟨t, f'⟩, hp, h⟩ := bind_eq_ok.mp h
      cases h
      exact (of_popWord hp).weaken (by omega)
    · obtain ⟨⟨t, f'⟩, hp, h⟩ := bind_eq_ok.mp h
      dsimp only at h
      split at h
      · obtain ⟨⟨u, f''⟩, hp', h⟩ := bind_eq_ok.mp h
        cases h
        exact ((of_pop hp).trans (of_popWord hp')).weaken (by omega)
      · cases h
        exact (of_pop hp).weaken (by omega)
    · obtain ⟨⟨t, f'⟩, hp, h⟩ := bind_eq_ok.mp h
      cases h
      exact ((of_popWord hp).trans (pushAll f' _)).weaken (by simp)
    · obtain ⟨⟨t, f'⟩, hp, h⟩ := bind_eq_ok.mp h
      obtain ⟨⟨u, f''⟩, hp', h⟩ := bind_eq_ok.mp h
      cases h
      exact (((of_popWord hp).trans (of_popWord hp')).trans (pushAll f'' _)).weaken (by simp)
    · obtain ⟨⟨t, f'⟩, hp, h⟩ := bind_eq_ok.mp h
      dsimp only at h
      split at h
      · cases h
        exact ((of_pop hp).trans (pushAll f' _)).weaken (by simp)
      · obtain ⟨⟨u, f''⟩, hp', h⟩ := bind_eq_ok.mp h
        cases h
        exact (((of_pop hp).trans (of_popWord hp')).trans (pushAll f'' _)).weaken (by simp)
    · obtain ⟨⟨t, f'⟩, hp, h⟩ := bind_eq_ok.mp h
      obtain ⟨⟨u, f''⟩, hp', h⟩ := bind_eq_ok.mp h
      dsimp only at h
      split at h
      · cases h
        exact (((of_pop hp).trans (of_popWord hp')).trans (pushAll f'' _)).weaken (by simp)
      · obtain ⟨⟨v, f₃⟩, hp₃, h⟩ := bind_eq_ok.mp h
        cases h
        exact ((((of_pop hp).trans (of_popWord hp')).trans (of_popWord hp₃)).trans (pushAll f₃ _)).weaken (by simp)
    · obtain ⟨⟨t, f'⟩, hp, h⟩ := bind_eq_ok.mp h
      obtain ⟨⟨u, f''⟩, hp', h⟩ := bind_eq_ok.mp h
      cases h
      exact (((of_popWord hp).trans (of_popWord hp')).trans (pushAll f'' _)).weaken (by simp)
    · obtain ⟨⟨t, f'⟩, hp, h⟩ := bind_eq_ok.mp h
      cases h
      exact (of_popKind hp).weaken (by omega)
    · obtain ⟨⟨t, f'⟩, hp, h⟩ := bind_eq_ok.mp h
      cases h
      exact (of_popKind hp).weaken (by omega)
    · split at h
      · cases h
      · cases h
        exact (refl _).weaken (by omega)
    · cases h

theorem of_applyJump {op : Opcode} (h : f.applyJump op = .ok g) : Moves 0 0 f g := by
  have two : ∀ {f g : Frame}, (f.popKind .ref >>= fun r => r.2.popKind .ref >>= fun r => .ok r.2) = Except.ok g →
      Moves 0 0 f g := fun h => by
    obtain ⟨⟨t, f'⟩, hp, h⟩ := bind_eq_ok.mp h
    obtain ⟨⟨u, f''⟩, hp', h⟩ := bind_eq_ok.mp h
    cases h
    exact ((of_popKind hp).trans (of_popKind hp')).weaken (by omega)
  have one : ∀ {f g : Frame}, (f.popKind .ref >>= fun r => .ok r.2) = Except.ok g → Moves 0 0 f g := fun h => by
    obtain ⟨⟨t, f'⟩, hp, h⟩ := bind_eq_ok.mp h
    cases h
    exact (of_popKind hp).weaken (by omega)
  unfold applyJump at h
  split at h
  · exact two h
  · exact two h
  · exact one h
  · exact one h
  · exact (of_popAll h).weaken (by omega)

theorem of_applyField {op : Opcode} {member : MemberRef} (h : f.applyField op member = .ok g) : Moves 0 1 f g := by
  unfold applyField at h
  split at h
  · cases h
  · cases h
  · split at h
    · cases h
      exact push _ _
    · exact (of_popExpect h).weaken (by omega)
    · obtain ⟨⟨t, f'⟩, hp, h⟩ := bind_eq_ok.mp h
      cases h
      exact ((of_popKind hp).trans (push f' _)).weaken (by omega)
    · obtain ⟨f', hp, h⟩ := bind_eq_ok.mp h
      obtain ⟨⟨u, f''⟩, hp', h⟩ := bind_eq_ok.mp h
      cases h
      exact ((of_popExpect hp).trans (of_popKind hp')).weaken (by omega)
    · cases h

end Moves

/-- How the locals change from `f` to `g` at an instruction: not at all, by a store, or by a constructor call. -/
inductive LocalsChange (m : MethodHead) (code : Array Instr) (instr : Instr) (f g : Frame) : Prop
  | same (h : g.locals = f.locals)
  | store (kind : LocalKind) (slot : UInt16) (t : VType) (hi : instr = .store kind slot) (hk : t.hasKind kind = true)
      (h : g.locals = (f.setLocal slot.toNat t).locals)
  | init (before after : VType) (hb : initializedType m code before = .ok after)
      (h : g.locals = (f.markInitialized before after).locals) (hi : ∃ op member, instr = .invoke op member)

theorem hasKind_of_initializedType {m : MethodHead} {code : Array Instr} {before after : VType}
    (h : initializedType m code before = .ok after) (kind : LocalKind) : after.hasKind kind = before.hasKind kind := by
  unfold initializedType at h
  split at h
  · cases h
    cases kind <;> rfl
  · split at h
    · cases h
      cases kind <;> rfl
    · cases h
  · cases h

theorem popReceiver_grows {m : MethodHead} {code : Array Instr} (op : Opcode) {member : MemberRef}
    (h : popReceiver m code f member = .ok g) :
    LocalsChange m code (.invoke op member) f g ∧ g.stack.length ≤ f.stack.length := by
  obtain ⟨⟨t, f'⟩, hp, h⟩ := bind_eq_ok.mp h
  obtain ⟨hs, hl, -⟩ := popKind_eq_ok.mp hp
  dsimp only at h
  split at h
  · obtain ⟨after, hi, h⟩ := bind_eq_ok.mp h
    cases h
    exact ⟨.init t after hi (by simp [markInitialized, hl]) ⟨op, member, rfl⟩, by simp [markInitialized, hs]⟩
  · cases h
    exact ⟨.same hl.symm, by simp [hs]⟩

theorem applyInvoke_grows {m : MethodHead} {code : Array Instr} {op : Opcode} {member : MemberRef}
    (h : applyInvoke m code f op member = .ok g) :
    LocalsChange m code (.invoke op member) f g ∧ g.stack.length ≤ f.stack.length + 1 := by
  unfold applyInvoke at h
  split at h
  · cases h
  · obtain ⟨f₁, ha, h⟩ := bind_eq_ok.mp h
    have hargs := Moves.of_popArgs ha
    dsimp only at h
    split at h
    · have hres := Moves.of_pushResult h
      exact ⟨.same (hres.locals.trans hargs.locals), by have := hargs.stack; have := hres.stack; omega⟩
    · obtain ⟨f₂, hr, h⟩ := bind_eq_ok.mp h
      have hres := Moves.of_pushResult h
      obtain ⟨hc, hlen⟩ := popReceiver_grows op hr
      refine ⟨?_, by have := hargs.stack; have := hres.stack; omega⟩
      cases hc with
      | same hl => exact .same (hres.locals.trans (hl.trans hargs.locals))
      | store kind slot t hi hk hl =>
        exact .store kind slot t hi hk (by rw [hres.locals, hl]; simp only [setLocal, hargs.locals])
      | init before after hb hl hi =>
        exact .init before after hb (by rw [hres.locals, hl]; simp only [markInitialized, hargs.locals]) hi

/-- What an instruction does to the size of a frame. -/
theorem apply_grows {m : MethodHead} {code : Array Instr} {index : Nat} {instr : Instr}
    (h : f.apply m code index instr = .ok g) :
    LocalsChange m code instr f g ∧ g.stack.length ≤ f.stack.length + 2 := by
  have moves : ∀ {n}, n ≤ 2 → Moves 0 n f g → LocalsChange m code instr f g ∧ g.stack.length ≤ f.stack.length + 2 :=
    fun hn h => ⟨.same h.locals, by have := h.stack; omega⟩
  cases instr with
  | mark l =>
    cases h
    exact moves (by omega) (.refl _)
  | load kind slot =>
    simp only [apply] at h
    obtain ⟨-, h⟩ := ite_eq_ok.mp h
    cases h
    exact moves (by omega) (.push _ _)
  | store kind slot =>
    obtain ⟨⟨t, f'⟩, hp, h⟩ := bind_eq_ok.mp h
    cases h
    obtain ⟨hs, hl, hk⟩ := popKind_eq_ok.mp hp
    refine ⟨.store kind slot t rfl hk (by simp only [setLocal, hl]), ?_⟩
    simp only [stack_setLocal, hs, List.length_cons]
    omega
  | jump op l => exact moves (by omega) (.of_applyJump h)
  | field op member => exact moves (by omega) (.of_applyField h)
  | invoke op member =>
    obtain ⟨hc, hs⟩ := applyInvoke_grows h
    exact ⟨hc, by omega⟩
  | type op name =>
    simp only [apply] at h
    split at h
    · cases h
      exact moves (by omega) (.push _ _)
    · obtain ⟨⟨t, f'⟩, hp, h⟩ := bind_eq_ok.mp h
      cases h
      exact moves (by omega) (((Moves.of_popKind hp).trans (.push f' _)).weaken (by omega : 1 + 0 ≤ 1 + 1))
    · cases h
  | op op => exact moves (by omega) (.of_applyOp h)
  | _ =>
    cases h
    exact moves (by omega) (.push _ _)

end Frame

/-! ### Ranks -/

namespace VType
variable {a b : VType}

/-- How far up the order a type is. -/
def rank : VType → Nat
  | .top => 3
  | .object name => if name = Name.object then 2 else 1
  | _ => 0

theorem rank_le (t : VType) : t.rank ≤ 3 := by
  cases t with
  | object name =>
    simp only [rank]
    split <;> omega
  | _ => simp [rank]

theorem Below.rank_lt (h : Below a b) (hne : a ≠ b) : a.rank < b.rank := by
  cases h with
  | refl => exact absurd rfl hne
  | null name =>
    simp only [rank]
    split <;> omega
  | root name =>
    have hname : name ≠ Name.object := fun h => hne (by rw [h])
    simp [rank, hname]

theorem BelowLocal.rank_lt (h : BelowLocal a b) (hne : a ≠ b) : a.rank < b.rank := by
  cases h with
  | value h => exact h.rank_lt hne
  | top =>
    cases a with
    | top => exact absurd rfl hne
    | object name =>
      simp only [rank]
      split <;> omega
    | _ => simp [rank]

end VType

namespace Frame

/-- The ranks of slots, each with one more for the slot itself. -/
def localsRank (ts : List VType) : Nat := (ts.map fun t => t.rank + 1).sum

def stackRank (ts : List VType) : Nat := (ts.map VType.rank).sum

/-- How often a frame can have changed on the way to what it is. -/
def rank (f : Frame) : Nat := 1 + localsRank f.locals + stackRank f.stack

theorem localsRank_le (ts : List VType) : localsRank ts ≤ 4 * ts.length := by
  induction ts with
  | nil => simp [localsRank]
  | cons t ts ih =>
    have := t.rank_le
    simp only [localsRank, List.map_cons, List.sum_cons, List.length_cons] at ih ⊢
    omega

theorem stackRank_le (ts : List VType) : stackRank ts ≤ 3 * ts.length := by
  induction ts with
  | nil => simp [stackRank]
  | cons t ts ih =>
    have := t.rank_le
    simp only [stackRank, List.map_cons, List.sum_cons, List.length_cons] at ih ⊢
    omega

theorem rank_le (f : Frame) : f.rank ≤ 1 + 4 * f.locals.length + 3 * f.stack.length := by
  have := localsRank_le f.locals
  have := stackRank_le f.stack
  unfold rank
  omega

theorem localsRank_lt : ∀ {xs ys : List VType}, xs.length ≤ ys.length →
    (∀ slot, VType.BelowLocal (xs.getD slot .top) (ys.getD slot .top)) → xs = ys ∨ localsRank xs < localsRank ys
  | [], [], _, _ => Or.inl rfl
  | [], y :: ys, _, _ => by
    simp only [localsRank, List.map_nil, List.map_cons, List.sum_nil, List.sum_cons]
    omega
  | x :: xs, y :: ys, hlen, h => by
    have hhead : VType.BelowLocal x y := h 0
    have htail := localsRank_lt (Nat.le_of_succ_le_succ hlen) fun slot => h (slot + 1)
    simp only [localsRank, List.map_cons, List.sum_cons] at htail ⊢
    by_cases hxy : x = y
    · subst hxy
      rcases htail with rfl | htail
      · exact Or.inl rfl
      · exact Or.inr (by omega)
    · have := hhead.rank_lt hxy
      rcases htail with rfl | htail
      · exact Or.inr (by omega)
      · exact Or.inr (by omega)

theorem stackRank_lt {xs ys : List VType} (h : List.Forall₂ VType.Below xs ys) :
    xs = ys ∨ stackRank xs < stackRank ys := by
  induction h with
  | nil => exact Or.inl rfl
  | @cons x y xs ys hxy _ ih =>
    simp only [stackRank, List.map_cons, List.sum_cons] at ih ⊢
    by_cases heq : x = y
    · subst heq
      rcases ih with rfl | ih
      · exact Or.inl rfl
      · exact Or.inr (by omega)
    · have := hxy.rank_lt heq
      rcases ih with rfl | ih
      · exact Or.inr (by omega)
      · exact Or.inr (by omega)

/-- Of two frames the upper one has the higher rank. -/
theorem rank_lt {f j : Frame} (hbelow : f.Below j) (hlen : f.locals.length ≤ j.locals.length) (hne : j ≠ f) :
    f.rank < j.rank := by
  unfold rank
  rcases localsRank_lt hlen hbelow.locals with hl | hl
  · rcases stackRank_lt hbelow.stack with hs | hs
    · obtain ⟨locals, stack⟩ := f
      obtain ⟨locals', stack'⟩ := j
      cases hl
      cases hs
      exact absurd rfl hne
    · rw [hl]
      omega
  · rcases stackRank_lt hbelow.stack with hs | hs
    · rw [hs]
      omega
    · omega

theorem length_le_of_join {f g j : Frame} (h : f.join g = .ok j) : f.locals.length ≤ j.locals.length := by
  rw [(join_eq_ok h).2.1, length_joinLocals]
  exact Nat.le_max_left _ _

/-- A join that changes a frame raises its rank. -/
theorem rank_lt_of_join {f g j : Frame} (h : f.join g = .ok j) (hne : j ≠ f) : f.rank < j.rank :=
  rank_lt (join_below h).1 (length_le_of_join h) hne

end Frame

end Classwright
