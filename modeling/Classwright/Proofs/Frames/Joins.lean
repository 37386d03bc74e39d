import Classwright.Proofs.Frames.Height
import Classwright.Proofs.Frames.Monotone

/-! # Joins are least upper bounds

Two frames that lie below a third one can be joined, and so does their join. This holds in the order of frames, which
counts a missing slot as unusable, and in the finer order in which no slots are missing either. Frames that lie below each
other in the finer order are the same. -/

namespace Classwright

/-! ### Types -/

namespace VType
variable {a b c : VType}

theorem Below.antisymm (h : Below a b) (h' : Below b a) : a = b := by
  cases h with
  | refl => rfl
  | null name => cases h'
  | root name =>
    cases h' with
    | refl => rfl
    | root => rfl

theorem BelowLocal.antisymm (h : BelowLocal a b) (h' : BelowLocal b a) : a = b := by
  cases h with
  | value h =>
    cases h' with
    | value h' => exact h.antisymm h'
    | top =>
      cases h with
      | refl => rfl
  | top =>
    cases h' with
    | value h' =>
      cases h' with
      | refl => rfl
    | top => rfl

theorem join?_least (ha : Below a c) (hb : Below b c) : ∃ t, a.join? b = some t ∧ Below t c := by
  by_cases hab : a = b
  · exact ⟨a, if_pos hab, ha⟩
  · unfold join?
    rw [if_neg hab]
    cases ha with
    | refl =>
      cases hb with
      | refl => exact absurd rfl hab
      | null name => exact ⟨_, rfl, .refl _⟩
      | root name => exact ⟨_, rfl, .refl _⟩
    | null name =>
      cases hb with
      | refl => exact ⟨_, rfl, .refl _⟩
      | null => exact absurd rfl hab
      | root other => exact ⟨_, rfl, .root other⟩
    | root name =>
      cases hb with
      | refl => exact ⟨_, rfl, .refl _⟩
      | null => exact ⟨_, rfl, .root name⟩
      | root other => exact ⟨_, rfl, .refl _⟩

theorem joinLocal_least (ha : BelowLocal a c) (hb : BelowLocal b c) : BelowLocal (a.joinLocal b) c := by
  by_cases hc : c = .top
  · rw [hc]
    exact .top _
  · obtain ⟨t, ht, hbelow⟩ := join?_least (ha.below_of_ne_top hc) (hb.below_of_ne_top hc)
    rw [joinLocal, ht]
    exact .value hbelow

end VType

/-! ### Frames -/

namespace Frame
variable {f g h j : Frame}

theorem joinStacks_least {xs ys zs : List VType} (hx : List.Forall₂ VType.Below xs zs)
    (hy : List.Forall₂ VType.Below ys zs) : ∃ ts, joinStacks xs ys = .ok ts ∧ List.Forall₂ VType.Below ts zs := by
  induction hx generalizing ys with
  | nil =>
    cases hy
    exact ⟨[], rfl, .nil⟩
  | cons hx _ ih =>
    cases hy with
    | cons hy hys =>
      obtain ⟨t, ht, hbelow⟩ := VType.join?_least hx hy
      obtain ⟨ts, hts, hrest⟩ := ih hys
      refine ⟨t :: ts, ?_, .cons hbelow hrest⟩
      rw [joinStacks, ht, hts]
      rfl

theorem getLocal_of_join (hj : f.join g = .ok j) (slot : Nat) :
    j.getLocal slot = (f.getLocal slot).joinLocal (g.getLocal slot) := by
  unfold getLocal
  rw [(join_eq_ok hj).2.1, getD_joinLocals]

/-- Frames below a third one can be joined, and their join lies below it. -/
theorem join_least (hf : f.Below h) (hg : g.Below h) : ∃ j, f.join g = .ok j ∧ j.Below h := by
  obtain ⟨ts, hts, hstack⟩ :=
    joinStacks_least (List.forall₂_reverse_iff.mpr hf.stack) (List.forall₂_reverse_iff.mpr hg.stack)
  have hlen : f.stack.length = g.stack.length := hf.stack_length.trans hg.stack_length.symm
  have hj : f.join g = .ok { locals := joinLocals f.locals g.locals, stack := ts.reverse } := by
    rw [join, if_neg (not_not.mpr hlen), hts]
    rfl
  refine ⟨_, hj, fun slot => ?_, List.forall₂_reverse_iff.mp (by rwa [List.reverse_reverse])⟩
  rw [getLocal_of_join hj]
  exact VType.joinLocal_least (hf.locals slot) (hg.locals slot)

/-- A frame lies below another and has no slots beyond it. -/
structure Under (f g : Frame) : Prop where
  below : f.Below g
  length : f.locals.length ≤ g.locals.length

theorem getElem_locals (f : Frame) {slot : Nat} (h : slot < f.locals.length) : f.locals[slot] = f.getLocal slot := by
  rw [getLocal, List.getD_eq_getElem?_getD, List.getElem?_eq_getElem h, Option.getD_some]

/-- Frames that lie under each other are the same. -/
theorem Under.antisymm (hfg : f.Under g) (hgf : g.Under f) : f = g := by
  have hlength := Nat.le_antisymm hfg.length hgf.length
  have hlocals : f.locals = g.locals := List.ext_getElem hlength fun slot hf hg => by
    rw [getElem_locals f hf, getElem_locals g hg]
    exact (hfg.below.locals slot).antisymm (hgf.below.locals slot)
  have hstack : f.stack = g.stack := stack_antisymm hfg.below.stack hgf.below.stack
  cases f
  cases g
  cases hlocals
  cases hstack
  rfl
where
  stack_antisymm : ∀ {xs ys : List VType}, List.Forall₂ VType.Below xs ys → List.Forall₂ VType.Below ys xs → xs = ys
    | _, _, .nil, _ => rfl
    | _, _, .cons h hs, .cons h' hs' => by rw [h.antisymm h', stack_antisymm hs hs']

/-! ### Orders that the visits can go by -/

/-- Joins lie above what they join. -/
structure JoinOrder (R : Frame → Frame → Prop) : Prop where
  refl : ∀ f, R f f
  trans : ∀ {f g h}, R f g → R g h → R f h
  join_upper : ∀ {f g j}, f.join g = .ok j → R f j ∧ R g j

/-- Joins are least upper bounds in the order, and instructions keep it. -/
structure Ordered (m : MethodHead) (code : Array Instr) (R : Frame → Frame → Prop) : Prop extends JoinOrder R where
  join_least : ∀ {f g h}, R f h → R g h → ∃ j, f.join g = .ok j ∧ R j h
  apply : ∀ {f g}, R f g → ∀ i instr, Follows R (f.apply m code i instr) (g.apply m code i instr)

variable {m : MethodHead} {code : Array Instr}

theorem joinOrder_below : JoinOrder Below where
  refl := .refl
  trans := .trans
  join_upper := join_below

theorem ordered_below (hm : m.isConstructor = false) : Ordered m code Below where
  toJoinOrder := joinOrder_below
  join_least := join_least
  apply h := h.apply hm code

end Frame

/-- One more than the highest slot that the instruction writes. -/
def Instr.slotsWritten : Instr → Nat
  | .store kind slot => slot.toNat + kind.width
  | _ => 0

namespace Frame
variable {f g : Frame} {m : MethodHead} {code : Array Instr}

/-- Only stores add slots, and as many to every frame. -/
theorem length_apply {i : Nat} {instr : Instr} (h : f.apply m code i instr = .ok g) :
    g.locals.length = max f.locals.length instr.slotsWritten := by
  have hkept (hlen : g.locals.length = f.locals.length) (hzero : instr.slotsWritten = 0) :
      g.locals.length = max f.locals.length instr.slotsWritten := by omega
  cases instr with
  | store kind slot =>
    obtain ⟨⟨t, f'⟩, hpop, h⟩ := bind_eq_ok.mp h
    obtain ⟨-, hlocals, hkind⟩ := popKind_eq_ok.mp hpop
    cases h
    rw [length_setLocal, hlocals, ← VType.width_of_hasKind hkind]
    rfl
  | invoke op member =>
    refine hkept ?_ rfl
    cases (apply_grows h).1 with
    | same hl => rw [hl]
    | store _ _ _ hi => cases hi
    | init _ _ _ hl => rw [hl, markInitialized, List.length_map]
  | _ =>
    refine hkept ?_ rfl
    cases (apply_grows h).1 with
    | same hl => rw [hl]
    | store _ _ _ hi => cases hi
    | init _ _ _ hl hi =>
      obtain ⟨_, _, hi⟩ := hi
      cases hi

theorem joinOrder_under : JoinOrder Under where
  refl f := ⟨.refl f, Nat.le_refl _⟩
  trans h h' := ⟨h.below.trans h'.below, Nat.le_trans h.length h'.length⟩
  join_upper hj := by
    have hlen := congrArg List.length (join_eq_ok hj).2.1
    rw [length_joinLocals] at hlen
    exact ⟨⟨(join_below hj).1, by omega⟩, ⟨(join_below hj).2, by omega⟩⟩

theorem ordered_under (hm : m.isConstructor = false) : Ordered m code Under where
  toJoinOrder := joinOrder_under
  join_least hf hg := by
    obtain ⟨j, hj, hbelow⟩ := join_least hf.below hg.below
    have hlen := congrArg List.length (join_eq_ok hj).2.1
    rw [length_joinLocals] at hlen
    have hlength := Nat.max_le.mpr ⟨hf.length, hg.length⟩
    exact ⟨j, hj, hbelow, by omega⟩
  apply h i instr g' hg' := by
    obtain ⟨f', hf', hbelow⟩ := h.below.apply hm code i instr g' hg'
    refine ⟨f', hf', hbelow, ?_⟩
    have hlength := h.length
    rw [length_apply hf', length_apply hg']
    omega

end Frame

end Classwright
