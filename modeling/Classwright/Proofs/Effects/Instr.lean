import Classwright.Proofs.Frames.Receiver
import Classwright.Proofs.Typing.Classes
import Classwright.Proofs.Typing.Shape

/-! # What instructions exchange

An instruction of an expression takes values of certain kinds from the top of the stack and puts values of other kinds
there. What lies below stays as it is, with one exception: a constructor call initializes every copy of its receiver,
wherever it is. Apart from constructor calls none of them fails. -/

namespace Classwright

/-! ### Kinds -/

/-- The values have the kinds, from the top of the stack down. -/
def OfKinds (ks : List LocalKind) (ts : List VType) : Prop := List.Forall₂ (fun k t => t.hasKind k = true) ks ts

namespace OfKinds
variable {k : LocalKind} {ks ks' : List LocalKind} {t : VType} {ts ts' : List VType}

theorem one (h : t.hasKind k = true) : OfKinds [k] [t] := .cons h .nil

theorem append (h : OfKinds ks ts) (h' : OfKinds ks' ts') : OfKinds (ks ++ ks') (ts ++ ts') := List.rel_append h h'

theorem split (h : OfKinds (ks ++ ks') ts) : ∃ us us', ts = us ++ us' ∧ OfKinds ks us ∧ OfKinds ks' us' := by
  induction ks generalizing ts with
  | nil => exact ⟨[], ts, rfl, .nil, h⟩
  | cons k ks ih =>
    cases h with
    | cons ht h =>
      obtain ⟨us, us', rfl, hus, hus'⟩ := ih h
      exact ⟨_ :: us, us', rfl, .cons ht hus, hus'⟩

theorem split_last (h : OfKinds (ks ++ [k]) ts) : ∃ us t, ts = us ++ [t] ∧ OfKinds ks us ∧ t.hasKind k = true := by
  obtain ⟨us, us', rfl, hus, hus'⟩ := h.split
  obtain _ | ⟨ht, ⟨⟩⟩ := hus'
  exact ⟨us, _, rfl, hus, ht⟩

/-- What keeps the kind of every value keeps the kinds of a list. -/
theorem map {f : VType → VType} (hf : ∀ t k, (f t).hasKind k = t.hasKind k) (h : OfKinds ks ts) :
    OfKinds ks (ts.map f) := by
  refine List.forall₂_map_right_iff.mpr (h.imp fun k t ht => ?_)
  rw [hf, ht]

end OfKinds

namespace Ty
variable {t : Ty}

/-- What a value of the type is on the stack; there is none of type `void`. -/
def kinds (t : Ty) : List LocalKind := t.localKind?.toList

theorem kinds_of_value (h : t.isVoid = false) :
    ∃ k v, t.kinds = [k] ∧ t.vtype? = some v ∧ v.hasKind k = true ∧ k.width = t.width := by
  obtain ⟨v, k, hv, hk, hkind, -, hwidth⟩ := exists_vtype? h
  exact ⟨k, v, by rw [kinds, hk, Option.toList_some], hv, hkind, hwidth⟩

theorem kinds_of_isReference (h : t.isReference = true) : t.kinds = [.ref] := by
  obtain ⟨elem, isArray⟩ := t
  cases isArray with
  | true => cases elem with
    | cls name => rfl
    | prim p => cases p <;> rfl
  | false => cases elem with
    | cls name => rfl
    | prim p => cases h

theorem ofKinds_of_vtype? {v : VType} (h : t.vtype? = some v) : OfKinds t.kinds [v] := by
  have hvoid : t.isVoid = false := by
    cases hvoid : t.isVoid with
    | false => rfl
    | true =>
      rw [eq_void hvoid] at h
      cases h
  obtain ⟨k, u, hk, hu, hkind, -⟩ := kinds_of_value hvoid
  rw [h] at hu
  cases hu
  rw [hk]
  exact .one hkind

/-- What is on the stack for a type: nothing, or one value of its kind and width. -/
theorem ofKinds_kinds {ts : List VType} (h : OfKinds t.kinds ts) :
    t = .void ∧ ts = [] ∨ ∃ v k, ts = [v] ∧ t.localKind? = some k ∧ v.hasKind k = true ∧ v.width = t.width := by
  cases hvoid : t.isVoid with
  | true =>
    obtain rfl := eq_void hvoid
    cases h
    exact .inl ⟨rfl, rfl⟩
  | false =>
    obtain ⟨-, k, -, hk, -, -, hwidth⟩ := exists_vtype? hvoid
    rw [kinds, hk, Option.toList_some] at h
    obtain _ | ⟨hv, ⟨⟩⟩ := h
    exact .inr ⟨_, k, rfl, hk, hv, (VType.width_of_hasKind hv).symm.trans hwidth⟩

end Ty

/-! ### What becomes of a value -/

/-- Whether the instruction calls a constructor. -/
def Instr.constructs : Instr → Bool
  | .invoke o member => o ≠ .invokestatic && member.name = Name.init
  | _ => false

namespace Frame
variable {m : MethodHead} {code : Array Instr} {f : Frame} {instr : Instr} {t : VType}

/-- What the instruction makes of a value that it does not take: a constructor call initializes all copies of its
    receiver. -/
def settle (m : MethodHead) (code : Array Instr) (f : Frame) (instr : Instr) (t : VType) : VType :=
  match instr with
  | .invoke op member =>
    if (Instr.invoke op member).constructs = true ∧ f.receiver? member.descriptor = some t then
      (initializedType m code t).toOption.getD t
    else t
  | _ => t

theorem settle_of_constructs (h : instr.constructs = false) : f.settle m code instr = id := by
  funext t
  cases instr with
  | invoke op member => simp [settle, h]
  | _ => rfl

theorem settle_of_receiver {op : Opcode} {member : MemberRef} {r after : VType}
    (hc : (Instr.invoke op member).constructs = true) (hr : f.receiver? member.descriptor = some r)
    (ha : initializedType m code r = .ok after) :
    f.settle m code (.invoke op member) = fun t => if t = r then after else t := by
  funext t
  simp only [settle, hc, hr, true_and, Option.some.injEq]
  by_cases ht : t = r
  · subst ht
    simp [ha, Except.toOption]
  · rw [if_neg ht, if_neg (Ne.symm ht)]

/-- A value has been settled already, or it is initialized now. -/
theorem settle_cases (m : MethodHead) (code : Array Instr) (f : Frame) (instr : Instr) (t : VType) :
    f.settle m code instr t = t ∨ initializedType m code t = .ok (f.settle m code instr t) := by
  cases instr with
  | invoke op member =>
    unfold settle
    dsimp only
    split
    · cases h : initializedType m code t with
      | error e => exact .inl rfl
      | ok u => exact .inr rfl
    · exact .inl rfl
  | _ => exact .inl rfl

theorem hasKind_settle (k : LocalKind) : (f.settle m code instr t).hasKind k = t.hasKind k := by
  rcases settle_cases m code f instr t with h | h
  · rw [h]
  · exact hasKind_of_initializedType h k

theorem settle_of_initialized (h : t.isUninitialized = false) : f.settle m code instr t = t := by
  refine (settle_cases m code f instr t).resolve_right fun hi => ?_
  rw [isUninitialized_of_initializedType hi] at h
  cases h

/-- What has become of a value that none of the instructions takes, once they have been applied in order. -/
def become (m : MethodHead) (code : Array Instr) : Frame → List Nat → VType → VType
  | _, [], t => t
  | f, i :: is, t =>
    match code[i]?, f.stepAt m code i with
    | some instr, .ok g => become m code g is (f.settle m code instr t)
    | _, _ => t

theorem become_cons {g : Frame} {i : Nat} (hi : code[i]? = some instr) (h : f.apply m code i instr = .ok g)
    (is : List Nat) : f.become m code (i :: is) = g.become m code is ∘ f.settle m code instr := by
  funext t
  rw [become, stepAt_eq hi, hi, h]
  rfl

/-- Only what has not been initialized changes. -/
theorem become_of_initialized (h : t.isUninitialized = false) (f : Frame) (is : List Nat) :
    f.become m code is t = t := by
  induction is generalizing f with
  | nil => rfl
  | cons i is ih =>
    unfold become
    split
    · rw [settle_of_initialized h, ih]
    · rfl

/-! ### Values that are popped -/

variable {k : LocalKind}

theorem popExpect_of_kind {t wanted : VType} (ht : t.hasKind k = true) (hw : wanted.hasKind k = true)
    (locals stack : List VType) : popExpect ⟨locals, t :: stack⟩ wanted = .ok ⟨locals, stack⟩ := by
  refine bind_eq_ok.mpr ⟨_, rfl, ite_eq_ok.mpr ⟨?_, rfl⟩⟩
  cases k with
  | ref => exact .inr ⟨hw, ht⟩
  | _ => exact .inl ((beq_iff_eq.mp ht).trans (beq_iff_eq.mp hw).symm)

theorem popAll_of_kinds {ks : List LocalKind} {ts wanted : List VType} (hts : OfKinds ks ts) (hw : OfKinds ks wanted)
    (locals stack : List VType) : popAll ⟨locals, ts ++ stack⟩ wanted = .ok ⟨locals, stack⟩ := by
  induction hts generalizing wanted with
  | nil =>
    cases hw
    rfl
  | cons ht _ ih =>
    cases hw with
    | cons hw hws => exact bind_eq_ok.mpr ⟨_, popExpect_of_kind ht hw locals _, ih hws⟩

theorem pushAll_eq (locals stack ts : List VType) :
    pushAll ⟨locals, stack⟩ ts = ⟨locals, ts.reverse ++ stack⟩ := by
  induction ts generalizing stack with
  | nil => rfl
  | cons t ts ih =>
    rw [pushAll, push, ih]
    simp

theorem popWord_of_width {t : VType} (ht : t.width = 1) (locals stack : List VType) :
    popWord ⟨locals, t :: stack⟩ = .ok (t, ⟨locals, stack⟩) := popWord_eq_ok.mpr ⟨rfl, rfl, ht⟩

theorem popKind_of_kind {t : VType} (ht : t.hasKind k = true) (locals stack : List VType) :
    popKind ⟨locals, t :: stack⟩ k = .ok (t, ⟨locals, stack⟩) := popKind_eq_ok.mpr ⟨rfl, rfl, ht⟩

theorem popArgs_of_kinds {ts : List Ty} (hts : ∀ t ∈ ts, t.isVoid = false ∧ t.WellNamed) {args : List VType}
    (hargs : OfKinds (ts.flatMap Ty.kinds) args) (locals stack : List VType) :
    popArgs ⟨locals, args ++ stack⟩ (ts.map Ty.descriptorChars) = .ok ⟨locals, stack⟩ := by
  induction ts generalizing args with
  | nil =>
    cases hargs
    rfl
  | cons t ts ih =>
    obtain ⟨⟨hvoid, hnamed⟩, hts⟩ := List.forall_mem_cons.mp hts
    obtain ⟨k, v, hk, hv, hkind, -⟩ := Ty.kinds_of_value hvoid
    rw [List.flatMap_cons, hk] at hargs
    cases hargs with
    | cons ha hargs =>
      rw [List.map_cons, popArgs, popArg, Ty.ofDescriptor?_descriptorChars hnamed, hv]
      exact bind_eq_ok.mpr ⟨_, popExpect_of_kind ha hkind locals _, ih hts hargs⟩

theorem pushResult_of_named {t : Ty} (hn : t.WellNamed) : ∃ top, OfKinds t.kinds top ∧
    ∀ locals stack, pushResult ⟨locals, stack⟩ t.descriptorChars = .ok ⟨locals, top ++ stack⟩ := by
  cases hvoid : t.isVoid with
  | true =>
    obtain rfl := Ty.eq_void hvoid
    exact ⟨[], .nil, fun _ _ => rfl⟩
  | false =>
    obtain ⟨-, v, -, hv, -⟩ := Ty.kinds_of_value hvoid
    refine ⟨[v], Ty.ofKinds_of_vtype? hv, fun locals stack => ?_⟩
    rw [pushResult, Ty.ofDescriptor?_descriptorChars hn, hv]
    rfl

end Frame

/-! ### Exchanges -/

/-- The instruction takes values of the kinds `pops` from the stack and leaves values of the kinds `pushes` in their
    place. It can fail only as a constructor call, or where a local that it loads is not of the kind it says. -/
def Exchanges (m : MethodHead) (code : Array Instr) (i : Nat) (instr : Instr) (pops pushes : List LocalKind) : Prop :=
  ∀ locals top base, OfKinds pops top →
    (∀ kind slot, instr = .load kind slot → (Frame.getLocal ⟨locals, top ++ base⟩ slot.toNat).hasKind kind = true) →
    (instr.constructs = false → ∃ g, Frame.apply m code i ⟨locals, top ++ base⟩ instr = .ok g) ∧
    ∀ g, Frame.apply m code i ⟨locals, top ++ base⟩ instr = .ok g →
      let settled := Frame.settle m code ⟨locals, top ++ base⟩ instr
      ∃ top', OfKinds pushes top' ∧ g = ⟨locals.map settled, top' ++ base.map settled⟩

namespace Exchanges
variable {m : MethodHead} {code : Array Instr} {i : Nat} {instr : Instr} {pops pushes : List LocalKind}
  {k k' : LocalKind}

/-- What is no constructor call leaves the locals and the rest of the stack alone. -/
theorem of_apply (hc : instr.constructs = false)
    (h : ∀ locals top base, OfKinds pops top →
      (∀ kind slot, instr = .load kind slot → (Frame.getLocal ⟨locals, top ++ base⟩ slot.toNat).hasKind kind = true) →
      ∃ top', OfKinds pushes top' ∧ Frame.apply m code i ⟨locals, top ++ base⟩ instr = .ok ⟨locals, top' ++ base⟩) :
    Exchanges m code i instr pops pushes := by
  intro locals top base htop hload
  obtain ⟨top', htop', happly⟩ := h locals top base htop hload
  refine ⟨fun _ => ⟨_, happly⟩, fun g hg => ⟨top', htop', ?_⟩⟩
  rw [happly] at hg
  cases hg
  rw [Frame.settle_of_constructs hc, List.map_id, List.map_id]

/-- What pushes a value of a certain type. -/
theorem push {t : VType} (hc : instr.constructs = false) (ht : t.hasKind k = true)
    (h : ∀ f : Frame, f.apply m code i instr = .ok (f.push t)) : Exchanges m code i instr [] [k] := by
  refine of_apply hc fun locals top base htop _ => ⟨[t], .one ht, ?_⟩
  cases htop
  exact h _

theorem load (kind : LocalKind) (slot : UInt16) : Exchanges m code i (.load kind slot) [] [kind] := by
  refine of_apply rfl fun locals top base htop hload => ?_
  have hk := hload kind slot rfl
  cases htop
  refine ⟨[_], .one hk, ?_⟩
  simp only [Frame.apply]
  rw [if_pos hk]
  rfl

theorem mark (l : Label) : Exchanges m code i (.mark l) [] [] := by
  refine of_apply rfl fun locals top base htop _ => ⟨[], .nil, ?_⟩
  cases htop
  rfl

/-! ### Operations of fixed types -/

/-- An operation that treats all values of a type alike. -/
theorem effect {op : Opcode} {takes gives : List VType} (h : op.effect? = some (takes, gives))
    (hpops : OfKinds pops takes) (hpushes : OfKinds pushes gives.reverse) :
    Exchanges m code i (.op op) pops pushes := by
  refine of_apply rfl fun locals top base htop _ => ⟨_, hpushes, ?_⟩
  simp only [Frame.apply, Frame.applyOp, h]
  rw [Frame.popAll_of_kinds htop hpops, ok_bind, Frame.pushAll_eq]

/-- A jump that looks at integers, or at nothing. -/
theorem jump {op : Opcode} {l : Label} (h : ∀ f : Frame, f.applyJump op = f.popAll op.jumpIntegers)
    (hpops : OfKinds pops op.jumpIntegers) : Exchanges m code i (.jump op l) pops [] := by
  refine of_apply rfl fun locals top base htop _ => ⟨[], .nil, ?_⟩
  change Frame.applyJump _ op = _
  rw [h, Frame.popAll_of_kinds htop hpops]
  rfl

/-! ### Moving values about -/

theorem width_eq {t : VType} {n : Nat} (ht : t.hasKind k = true) (hk : k.width = n) : t.width = n :=
  (VType.width_of_hasKind ht).symm.trans hk

theorem pop (hk : k.width = 1) : Exchanges m code i (.op .pop) [k] [] := by
  refine of_apply rfl fun locals top base htop _ => ⟨[], .nil, ?_⟩
  obtain _ | ⟨ht, ⟨⟩⟩ := htop
  change (Frame.popWord _ >>= _) = _
  exact bind_eq_ok.mpr ⟨_, Frame.popWord_of_width (width_eq ht hk) locals base, rfl⟩

theorem pop2 (hk : k.width = 2) : Exchanges m code i (.op .pop2) [k] [] := by
  refine of_apply rfl fun locals top base htop _ => ⟨[], .nil, ?_⟩
  obtain _ | ⟨ht, ⟨⟩⟩ := htop
  change (Frame.pop _ >>= _) = _
  refine bind_eq_ok.mpr ⟨_, rfl, ?_⟩
  dsimp only
  rw [if_neg (by rw [width_eq ht hk]; decide)]
  rfl

theorem dup (hk : k.width = 1) : Exchanges m code i (.op .dup) [k] [k, k] := by
  refine of_apply rfl fun locals top base htop _ => ?_
  obtain _ | ⟨ht, ⟨⟩⟩ := htop
  refine ⟨[_, _], .cons ht (.cons ht .nil), ?_⟩
  change (Frame.popWord _ >>= _) = _
  exact bind_eq_ok.mpr ⟨_, Frame.popWord_of_width (width_eq ht hk) locals base, rfl⟩

theorem swap (hk : k.width = 1) (hk' : k'.width = 1) : Exchanges m code i (.op .swap) [k, k'] [k', k] := by
  refine of_apply rfl fun locals top base htop _ => ?_
  obtain _ | ⟨ht, _ | ⟨ht', ⟨⟩⟩⟩ := htop
  refine ⟨[_, _], .cons ht' (.cons ht .nil), ?_⟩
  change (Frame.popWord _ >>= _) = _
  refine bind_eq_ok.mpr ⟨_, Frame.popWord_of_width (width_eq ht hk) locals _, ?_⟩
  exact bind_eq_ok.mpr ⟨_, Frame.popWord_of_width (width_eq ht' hk') locals base, rfl⟩

theorem dup2X1 (hk : k.width = 2) (hk' : k'.width = 1) : Exchanges m code i (.op .dup2X1) [k, k'] [k, k', k] := by
  refine of_apply rfl fun locals top base htop _ => ?_
  obtain _ | ⟨ht, _ | ⟨ht', ⟨⟩⟩⟩ := htop
  refine ⟨[_, _, _], .cons ht (.cons ht' (.cons ht .nil)), ?_⟩
  change (Frame.pop _ >>= _) = _
  refine bind_eq_ok.mpr ⟨_, rfl, bind_eq_ok.mpr ⟨_, Frame.popWord_of_width (width_eq ht' hk') locals base, ?_⟩⟩
  dsimp only
  rw [if_pos (width_eq ht hk)]
  rfl

/-! ### Classes and fields -/

theorem new (name : String) : Exchanges m code i (.type .new name) [] [.ref] := push rfl rfl fun _ => rfl

theorem checkcast (name : String) : Exchanges m code i (.type .checkcast name) [.ref] [.ref] := by
  refine of_apply rfl fun locals top base htop _ => ?_
  obtain _ | ⟨ht, ⟨⟩⟩ := htop
  refine ⟨[.object name], .one rfl, ?_⟩
  change (Frame.popKind _ .ref >>= _) = _
  exact bind_eq_ok.mpr ⟨_, Frame.popKind_of_kind ht locals base, rfl⟩

section Fields
variable {f : FieldSig} {owner : String}

theorem ofDescriptor?_field (hf : f.WellFormed) :
    ∃ v, OfKinds f.type.kinds [v] ∧ VType.ofDescriptor? f.type.descriptor.toList = some (some v) := by
  obtain ⟨-, v, -, hv, -⟩ := Ty.kinds_of_value hf.value
  refine ⟨v, Ty.ofKinds_of_vtype? hv, ?_⟩
  rw [Ty.descriptor, String.toList_ofList, Ty.ofDescriptor?_descriptorChars hf.named, hv]

theorem getstatic (hf : f.WellFormed) (hs : f.isStatic = true) :
    Exchanges m code i (f.getCode owner) [] f.type.kinds := by
  obtain ⟨v, hv, hd⟩ := ofDescriptor?_field hf
  refine of_apply rfl fun locals top base htop _ => ⟨[v], hv, ?_⟩
  cases htop
  simp only [FieldSig.getCode, hs, if_true, Frame.apply, Frame.applyField, hd]
  rfl

theorem getfield (hf : f.WellFormed) (hs : f.isStatic = false) :
    Exchanges m code i (f.getCode owner) [.ref] f.type.kinds := by
  obtain ⟨v, hv, hd⟩ := ofDescriptor?_field hf
  refine of_apply rfl fun locals top base htop _ => ⟨[v], hv, ?_⟩
  obtain _ | ⟨ht, ⟨⟩⟩ := htop
  simp only [FieldSig.getCode, hs, Bool.false_eq_true, if_false, Frame.apply, Frame.applyField, hd]
  exact bind_eq_ok.mpr ⟨_, Frame.popKind_of_kind ht locals base, rfl⟩

end Fields

/-! ### Calls -/

section Calls
variable {sig : MethodSig} {op : Opcode} {member : MemberRef} (hm : sig.WellFormed)
  (hd : member.descriptor = sig.descriptor)
include hm hd

theorem split_descriptor : Descriptor.split? member.descriptor =
    some (sig.paramTypes.map Ty.descriptorChars, sig.returns.descriptorChars) := by
  rw [hd]
  exact Ty.split?_methodDescriptor (fun t ht => (hm.params t ht).2) sig.returns

section Arguments
variable {args : List VType} (hargs : OfKinds (sig.paramTypes.reverse.flatMap Ty.kinds) args) (locals base : List VType)
include hargs

omit hd in
theorem popArgs_eq : Frame.popArgs ⟨locals, args ++ base⟩ (sig.paramTypes.map Ty.descriptorChars).reverse =
    .ok ⟨locals, base⟩ := by
  rw [← List.map_reverse]
  exact Frame.popArgs_of_kinds (fun t ht => hm.params t (List.mem_reverse.mp ht)) hargs locals base

/-- Once the arguments have been popped, the receiver is, and the result is pushed. -/
theorem apply_invoke : Frame.apply m code i ⟨locals, args ++ base⟩ (.invoke op member) = (do
    let g ← if op = .invokestatic then .ok ⟨locals, base⟩ else Frame.popReceiver m code ⟨locals, base⟩ member
    g.pushResult sig.returns.descriptorChars) := by
  simp only [Frame.apply, Frame.applyInvoke, split_descriptor hm hd]
  rw [popArgs_eq hm hargs, ok_bind]

theorem receiver?_eq : Frame.receiver? ⟨locals, args ++ base⟩ member.descriptor = base.head? :=
  Frame.receiver?_eq (split_descriptor hm hd) (popArgs_eq hm hargs locals base)

end Arguments

theorem invokestatic : Exchanges m code i (.invoke .invokestatic member) (sig.paramTypes.reverse.flatMap Ty.kinds)
    sig.returns.kinds := by
  obtain ⟨result, hresult, hpush⟩ := Frame.pushResult_of_named hm.returns
  refine of_apply rfl fun locals top base htop _ => ⟨result, hresult, ?_⟩
  rw [apply_invoke hm hd htop, if_pos rfl]
  exact hpush locals base

theorem invokeMethod (hop : op ≠ .invokestatic) (hname : member.name ≠ Name.init) :
    Exchanges m code i (.invoke op member) (sig.paramTypes.reverse.flatMap Ty.kinds ++ [.ref]) sig.returns.kinds := by
  obtain ⟨result, hresult, hpush⟩ := Frame.pushResult_of_named hm.returns
  refine of_apply (by simp [Instr.constructs, hname]) fun locals top base htop _ => ⟨result, hresult, ?_⟩
  obtain ⟨args, r, rfl, hargs, hr⟩ := htop.split_last
  rw [List.append_assoc, apply_invoke hm hd hargs, if_neg hop, Frame.popReceiver, List.singleton_append,
    Frame.popKind_of_kind hr, ok_bind]
  dsimp only
  rw [if_neg hname, ok_bind, hpush]

theorem invokeConstructor (hop : op ≠ .invokestatic) (hname : member.name = Name.init) :
    Exchanges m code i (.invoke op member) (sig.paramTypes.reverse.flatMap Ty.kinds ++ [.ref]) sig.returns.kinds := by
  have hc : (Instr.invoke op member).constructs = true := by simp [Instr.constructs, hop, hname]
  obtain ⟨result, hresult, hpush⟩ := Frame.pushResult_of_named hm.returns
  intro locals top base htop _
  refine ⟨fun hnot => absurd hc (by rw [hnot]; decide), fun g hg => ⟨result, hresult, ?_⟩⟩
  obtain ⟨args, r, rfl, hargs, hr⟩ := htop.split_last
  rw [List.append_assoc, List.singleton_append] at hg ⊢
  rw [apply_invoke hm hd hargs, if_neg hop, Frame.popReceiver, Frame.popKind_of_kind hr, ok_bind] at hg
  dsimp only at hg
  rw [if_pos hname] at hg
  obtain ⟨marked, hmark, hg⟩ := bind_eq_ok.mp hg
  obtain ⟨after, hafter, hmark⟩ := bind_eq_ok.mp hmark
  cases hmark
  -- What the call makes of all that it does not take is what the marking makes of it.
  rw [Frame.settle_of_receiver hc (receiver?_eq hm hd hargs locals (r :: base)) hafter]
  exact Except.ok.inj (hg.symm.trans (hpush _ _))

/-- The call of a method of an object, or of a constructor. -/
theorem invoke (hop : op ≠ .invokestatic) : Exchanges m code i (.invoke op member)
    (sig.paramTypes.reverse.flatMap Ty.kinds ++ [.ref]) sig.returns.kinds := by
  by_cases hname : member.name = Name.init
  · exact invokeConstructor hm hd hop hname
  · exact invokeMethod hm hd hop hname

end Calls

end Exchanges

end Classwright
