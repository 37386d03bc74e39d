import Classwright.Proofs.Frames.Order
import Classwright.Verify.Transfer

/-! # Instructions on related frames

Two frames are related by a relation between their values: entry by entry on the stack, and slot by slot among the
locals, but for slots that are unusable in the second frame. If instructions cannot tell related values apart, then an
instruction that fits the second frame fits the first, and what it makes of them is related again. -/

namespace Classwright

namespace VType
variable {a b : VType}

theorem width_eq_ite (t : VType) : t.width = if t.hasKind .long || t.hasKind .double then 2 else 1 := by
  cases t <;> rfl

theorem width_eq_of_hasKind_eq (h : ∀ k, a.hasKind k = b.hasKind k) : a.width = b.width := by
  rw [width_eq_ite a, width_eq_ite b, h, h]

/-- A kind has one type, but for references. -/
theorem eq_or_isReference (h : ∀ k, a.hasKind k = b.hasKind k) :
    a = b ∨ a.isReference = true ∧ b.isReference = true := by
  have href : a.isReference = b.isReference := h .ref
  cases b with
  | top =>
    left
    cases a with
    | top => rfl
    | integer => cases h .int
    | float => cases h .float
    | long => cases h .long
    | double => cases h .double
    | _ => cases href
  | integer => exact .inl (eq_of_beq (h .int))
  | float => exact .inl (eq_of_beq (h .float))
  | long => exact .inl (eq_of_beq (h .long))
  | double => exact .inl (eq_of_beq (h .double))
  | _ => exact .inr ⟨href, rfl⟩

theorem ofDescriptor?_eq_some {d : List Char} {t : VType} (h : ofDescriptor? d = some (some t)) :
    t ≠ .top ∧ t.isUninitialized = false := by
  unfold ofDescriptor? at h
  split at h
  case h_11 =>
    split at h <;> cases h
    exact ⟨nofun, rfl⟩
  all_goals cases h
  all_goals exact ⟨nofun, rfl⟩

end VType

theorem Opcode.initialized_of_effect {op : Opcode} {pops pushes : List VType} (h : op.effect? = some (pops, pushes)) :
    ∀ t ∈ pushes, t.isUninitialized = false := by
  cases op <;> cases h <;> decide

namespace Frame

theorem isUninitialized_of_initializedType {m : MethodHead} {code : Array Instr} {before after : VType}
    (h : initializedType m code before = .ok after) : before.isUninitialized = true := by
  cases before with
  | uninitializedThis => rfl
  | uninitialized site => rfl
  | _ => cases h

theorem ne_top_of_initializedType {m : MethodHead} {code : Array Instr} {before after : VType}
    (h : initializedType m code before = .ok after) : before ≠ .top := by
  rintro rfl
  cases h

/-- A constructor call makes an object of its receiver. -/
theorem exists_object_of_initializedType {m : MethodHead} {code : Array Instr} {before after : VType}
    (h : initializedType m code before = .ok after) : ∃ name, after = .object name := by
  unfold initializedType at h
  split at h
  · cases h
    exact ⟨_, rfl⟩
  · split at h <;> cases h
    exact ⟨_, rfl⟩
  · cases h

/-- The frames are related in every stack entry, and in every slot that is usable in the second one. -/
structure Related (R : VType → VType → Prop) (f g : Frame) : Prop where
  locals : ∀ slot, R (f.getLocal slot) (g.getLocal slot) ∨ g.getLocal slot = .top
  stack : List.Forall₂ R f.stack g.stack

/-- Related values are of one kind. -/
def OneKind (R : VType → VType → Prop) : Prop := ∀ ⦃a b⦄, R a b → ∀ k, a.hasKind k = b.hasKind k

/-- Instructions treat related values alike. Objects of the first frame come from the instructions of `code`, and those of
    the second from `code'`. -/
structure Alike (m : MethodHead) (code code' : Array Instr) (R : VType → VType → Prop) : Prop where
  self : ∀ t, t.isUninitialized = false → R t t
  kind : OneKind R
  /-- Copies of related objects are in the same places, so a constructor call finds as many of them. -/
  init : ∀ {a b after}, R a b → initializedType m code' b = .ok after →
    initializedType m code a = .ok after ∧ ∀ {c d}, R c d → (c = a ↔ d = b)

namespace Related
variable {R : VType → VType → Prop} {m : MethodHead} {code code' : Array Instr} {f g : Frame}

/-! ### The operand stack -/

/-- Popped values are related, and so are the frames that are left. -/
def Popped (R : VType → VType → Prop) (a b : VType × Frame) : Prop := R a.1 b.1 ∧ a.2.Related R b.2

theorem push (h : f.Related R g) {a b : VType} (hab : R a b) : (f.push a).Related R (g.push b) :=
  ⟨h.locals, .cons hab h.stack⟩

theorem pushAll (h : f.Related R g) {xs ys : List VType} (hxy : List.Forall₂ R xs ys) :
    (f.pushAll xs).Related R (g.pushAll ys) := by
  induction hxy generalizing f g with
  | nil => exact h
  | cons hab _ ih => exact ih (h.push hab)

theorem pop (h : f.Related R g) : Follows (Popped R) f.pop g.pop := by
  obtain ⟨locals, stack⟩ := f
  obtain ⟨locals', stack'⟩ := g
  cases h.stack with
  | nil => exact .error
  | cons hab hs => exact .ok ⟨hab, h.locals, hs⟩

section OneKind
variable (K : OneKind R)
include K

theorem popExpect (h : f.Related R g) (wanted : VType) :
    Follows (Related R) (f.popExpect wanted) (g.popExpect wanted) := by
  refine Follows.bind h.pop fun a b hab => ?_
  by_cases hb : b.1 = wanted ∨ (wanted.isReference ∧ b.1.isReference)
  · have href : a.1.isReference = b.1.isReference := K hab.1 .ref
    have ha : a.1 = wanted ∨ (wanted.isReference ∧ a.1.isReference) := by
      rcases hb with rfl | ⟨hw, hb⟩
      · exact (VType.eq_or_isReference (K hab.1)).imp_right And.symm
      · exact .inr ⟨hw, href.trans hb⟩
    simp only [ha, hb, if_true]
    exact .ok hab.2
  · simp only [hb, if_false]
    exact .error

theorem popKind (h : f.Related R g) (wanted : LocalKind) :
    Follows (Popped R) (f.popKind wanted) (g.popKind wanted) := by
  refine Follows.bind h.pop fun a b hab => ?_
  simp only [K hab.1 wanted]
  split
  · exact .ok hab
  · exact .error

theorem width_eq {a b : VType} (hab : R a b) : a.width = b.width := VType.width_eq_of_hasKind_eq (K hab)

theorem popWord (h : f.Related R g) : Follows (Popped R) f.popWord g.popWord := by
  refine Follows.bind h.pop fun a b hab => ?_
  simp only [width_eq K hab.1]
  split
  · exact .ok hab
  · exact .error

theorem popAll (h : f.Related R g) (wanted : List VType) : Follows (Related R) (f.popAll wanted) (g.popAll wanted) := by
  induction wanted generalizing f g with
  | nil => exact .ok h
  | cons t rest ih => exact Follows.bind (h.popExpect K t) fun _ _ h => ih h

/-- Popping a reference and going on with the frame that is left. -/
theorem popRef (h : f.Related R g) {k l : Frame → Except FrameFault Frame}
    (hkl : ∀ f g : Frame, f.Related R g → Follows (Related R) (k f) (l g)) :
    Follows (Related R) (f.popKind .ref >>= fun a => k a.2) (g.popKind .ref >>= fun a => l a.2) :=
  Follows.bind (h.popKind K .ref) fun a b hab => hkl a.2 b.2 hab.2

/-! ### Locals -/

theorem setLocal (h : f.Related R g) (slot : Nat) {a b : VType} (hab : R a b) :
    (f.setLocal slot a).Related R (g.setLocal slot b) := by
  refine ⟨fun i => ?_, h.stack⟩
  rw [getLocal_setLocal, getLocal_setLocal, width_eq K hab]
  split
  · exact .inl hab
  · split
    · exact .inr rfl
    · by_cases hg : i + 1 = slot ∧ (g.getLocal i).width = 2
      · rw [if_pos hg]
        exact .inr rfl
      · rw [if_neg hg]
        rcases h.locals i with hi | htop
        · rw [if_neg fun hf => hg ⟨hf.1, width_eq K hi ▸ hf.2⟩]
          exact .inl hi
        · exact .inr htop

theorem applyJump (h : f.Related R g) (op : Opcode) : Follows (Related R) (f.applyJump op) (g.applyJump op) := by
  unfold Frame.applyJump
  split
  · exact h.popRef K fun f g h => h.popRef K fun f g h => .ok h
  · exact h.popRef K fun f g h => h.popRef K fun f g h => .ok h
  · exact h.popRef K fun f g h => .ok h
  · exact h.popRef K fun f g h => .ok h
  · exact h.popAll K _

theorem popArgs (h : f.Related R g) (ds : List (List Char)) : Follows (Related R) (f.popArgs ds) (g.popArgs ds) := by
  induction ds generalizing f g with
  | nil => exact .ok h
  | cons d rest ih =>
    refine Follows.bind ?_ fun f g h => ih h
    unfold popArg
    split
    · exact .error
    · exact .ok h
    · exact h.popExpect K _

end OneKind

section Alike
variable (A : Alike m code code' R)
include A

theorem markInitialized (h : f.Related R g) {a b after : VType} (hab : R a b)
    (hinit : initializedType m code' b = .ok after) :
    (f.markInitialized a after).Related R (g.markInitialized b after) := by
  obtain ⟨hinit', hsame⟩ := A.init hab hinit
  have hafter : R after after := by
    obtain ⟨name, rfl⟩ := exists_object_of_initializedType hinit
    exact A.self _ rfl
  have hmark {c d : VType} (hcd : R c d) : R (if c = a then after else c) (if d = b then after else d) := by
    simp only [hsame hcd]
    split
    · exact hafter
    · exact hcd
  refine ⟨fun i => ?_, ?_⟩
  · rw [getLocal_markInitialized f after (ne_top_of_initializedType hinit'),
      getLocal_markInitialized g after (ne_top_of_initializedType hinit)]
    rcases h.locals i with hi | htop
    · exact .inl (hmark hi)
    · rw [htop, if_neg (ne_top_of_initializedType hinit).symm]
      exact .inr rfl
  · exact List.forall₂_map_left_iff.mpr (List.forall₂_map_right_iff.mpr (h.stack.imp fun _ _ => hmark))

/-! ### Instructions -/

theorem pushSelf (h : f.Related R g) {t : VType} (ht : t.isUninitialized = false) : (f.push t).Related R (g.push t) :=
  h.push (A.self t ht)

theorem applyOp (h : f.Related R g) {op : Opcode} (hreturn : op = .returnVoid → m.isConstructor = false) :
    Follows (Related R) (f.applyOp m op) (g.applyOp m op) := by
  unfold Frame.applyOp
  split
  · rename_i pops pushes he
    have hpushes : List.Forall₂ R pushes pushes :=
      List.forall₂_same.mpr fun t ht => A.self t (Opcode.initialized_of_effect he t ht)
    exact Follows.bind (h.popAll A.kind pops) fun f g h => .ok (h.pushAll hpushes)
  · split
    · exact Follows.bind (h.popWord A.kind) fun a b hab => .ok hab.2
    · refine Follows.bind h.pop fun a b hab => ?_
      simp only [width_eq A.kind hab.1]
      split
      · exact Follows.bind (hab.2.popWord A.kind) fun a b hab => .ok hab.2
      · exact .ok hab.2
    · exact Follows.bind (h.popWord A.kind) fun a b ha => .ok (ha.2.pushAll (.cons ha.1 (.cons ha.1 .nil)))
    · exact Follows.bind (h.popWord A.kind) fun a _ ha => Follows.bind (ha.2.popWord A.kind) fun b _ hb =>
        .ok (hb.2.pushAll (.cons ha.1 (.cons hb.1 (.cons ha.1 .nil))))
    · refine Follows.bind h.pop fun a _ ha => ?_
      simp only [width_eq A.kind ha.1]
      split
      · exact .ok (ha.2.pushAll (.cons ha.1 (.cons ha.1 .nil)))
      · exact Follows.bind (ha.2.popWord A.kind) fun b _ hb =>
          .ok (hb.2.pushAll (.cons hb.1 (.cons ha.1 (.cons hb.1 (.cons ha.1 .nil)))))
    · refine Follows.bind h.pop fun a _ ha => Follows.bind (ha.2.popWord A.kind) fun b _ hb => ?_
      simp only [width_eq A.kind ha.1]
      split
      · exact .ok (hb.2.pushAll (.cons ha.1 (.cons hb.1 (.cons ha.1 .nil))))
      · exact Follows.bind (hb.2.popWord A.kind) fun c _ hc =>
          .ok (hc.2.pushAll (.cons hb.1 (.cons ha.1 (.cons hc.1 (.cons hb.1 (.cons ha.1 .nil))))))
    · exact Follows.bind (h.popWord A.kind) fun a _ ha => Follows.bind (ha.2.popWord A.kind) fun b _ hb =>
        .ok (hb.2.pushAll (.cons ha.1 (.cons hb.1 .nil)))
    · exact h.popRef A.kind fun f g h => .ok h
    · exact h.popRef A.kind fun f g h => .ok h
    · -- a constructor would ask for its receiver, which may be unusable in one of the frames only
      simp only [hreturn rfl, Bool.false_eq_true, false_and, if_false]
      exact .ok h
    · exact .error

theorem applyField (h : f.Related R g) (op : Opcode) (member : MemberRef) :
    Follows (Related R) (f.applyField op member) (g.applyField op member) := by
  unfold Frame.applyField
  split
  · exact .error
  · exact .error
  · rename_i t hd
    have ht := (VType.ofDescriptor?_eq_some hd).2
    split
    · exact .ok (h.pushSelf A ht)
    · exact h.popExpect A.kind t
    · exact h.popRef A.kind fun f g h => .ok (h.pushSelf A ht)
    · exact Follows.bind (h.popExpect A.kind t) fun f g h => h.popRef A.kind fun f g h => .ok h
    · exact .error

theorem pushResult (h : f.Related R g) (d : List Char) : Follows (Related R) (f.pushResult d) (g.pushResult d) := by
  unfold Frame.pushResult
  split
  · exact .error
  · exact .ok h
  · rename_i t hd
    exact .ok (h.pushSelf A (VType.ofDescriptor?_eq_some hd).2)

theorem popReceiver (h : f.Related R g) (member : MemberRef) :
    Follows (Related R) (popReceiver m code f member) (popReceiver m code' g member) := by
  refine Follows.bind (h.popKind A.kind .ref) fun a b hab => ?_
  obtain ⟨a, f⟩ := a
  obtain ⟨b, g⟩ := b
  dsimp only
  split
  · intro g' hg'
    obtain ⟨after, hinit, hg'⟩ := bind_eq_ok.mp hg'
    cases hg'
    rw [(A.init hab.1 hinit).1]
    exact ⟨_, rfl, hab.2.markInitialized A hab.1 hinit⟩
  · exact .ok hab.2

theorem applyInvoke (h : f.Related R g) (op : Opcode) (member : MemberRef) :
    Follows (Related R) (applyInvoke m code f op member) (applyInvoke m code' g op member) := by
  unfold Frame.applyInvoke
  split
  · exact .error
  · refine Follows.bind (h.popArgs A.kind _) fun f g h => ?_
    split
    · exact h.pushResult A _
    · exact Follows.bind (h.popReceiver A member) fun f g h => h.pushResult A _

/-- An instruction that fits a frame fits those related to it, and what it makes of them is related. An object that it
    makes may have another site in each of the frames. -/
theorem apply (h : f.Related R g) {index index' : Nat} {instr : Instr}
    (hnew : ∀ name, instr = .type .new name → R (.uninitialized index) (.uninitialized index'))
    (hreturn : instr = .op .returnVoid → m.isConstructor = false) :
    Follows (Related R) (f.apply m code index instr) (g.apply m code' index' instr) := by
  cases instr with
  | mark l => exact .ok h
  | load kind slot =>
    simp only [Frame.apply]
    by_cases hg : (g.getLocal slot.toNat).hasKind kind = true
    · have hab := (h.locals slot.toNat).resolve_right (VType.ne_top_of_hasKind hg)
      rw [if_pos hg, if_pos ((A.kind hab kind).trans hg)]
      exact .ok (h.push hab)
    · rw [if_neg hg]
      exact .error
  | store kind slot => exact Follows.bind (h.popKind A.kind kind) fun a b hab => .ok (hab.2.setLocal A.kind _ hab.1)
  | jump op l => exact h.applyJump A.kind op
  | field op member => exact h.applyField A op member
  | invoke op member => exact h.applyInvoke A op member
  | type op name =>
    simp only [Frame.apply]
    split
    · exact .ok (h.push (hnew name rfl))
    · exact h.popRef A.kind fun f g h => .ok (h.pushSelf A rfl)
    · exact .error
  | op op => exact h.applyOp A fun hop => hreturn (hop ▸ rfl)
  | _ => exact .ok (h.pushSelf A rfl)

end Alike

end Related

end Frame

end Classwright
