import Classwright.Proofs.ClassFile.Layout
import Classwright.Proofs.Frames.Slots

/-! # The receiver of a constructor

A constructor may return where the frame does not have its uninitialized receiver in the first slot. A path that comes
there has called another constructor on the receiver, or it has stored something else in the slot, or it meets such a
path and the slot is unusable where they meet. -/

namespace Classwright

namespace Frame
variable {m : MethodHead} {code : Array Instr} {index : Nat} {instr : Instr} {op : Opcode} {member : MemberRef}
  {f f' g g' : Frame}

/-- What a call with the descriptor finds below its arguments. -/
def receiver? (f : Frame) (descriptor : String) : Option VType :=
  match Descriptor.split? descriptor with
  | some (params, _) => (f.popArgs params.reverse).toOption.bind (·.stack.head?)
  | none => none

/-- The instruction calls a constructor on the receiver of the method, which has not been initialized. -/
def initializes (f : Frame) : Instr → Bool
  | .invoke op member =>
    op ≠ .invokestatic && member.name = Name.init && f.receiver? member.descriptor = some .uninitializedThis
  | _ => false

theorem receiver?_eq {params : List (List Char)} {result : List Char}
    (hd : Descriptor.split? member.descriptor = some (params, result)) (h : f.popArgs params.reverse = .ok g) :
    f.receiver? member.descriptor = g.stack.head? := by
  rw [receiver?, hd]
  dsimp only
  rw [h]
  rfl

/-- What a call does: it pops its arguments and, unless it is static, its receiver, and pushes its result. -/
theorem applyInvoke_eq_ok (h : applyInvoke m code f op member = .ok g) : ∃ params result f₁ f₂,
    Descriptor.split? member.descriptor = some (params, result) ∧ f.popArgs params.reverse = .ok f₁ ∧
      (op = .invokestatic ∧ f₁ = f₂ ∨ op ≠ .invokestatic ∧ popReceiver m code f₁ member = .ok f₂) ∧
      f₂.pushResult result = .ok g := by
  unfold applyInvoke at h
  split at h
  · cases h
  · rename_i params result hd
    obtain ⟨f₁, hargs, h⟩ := bind_eq_ok.mp h
    dsimp only at h
    split at h
    · exact ⟨params, result, f₁, f₁, hd, hargs, .inl ⟨‹_›, rfl⟩, h⟩
    · obtain ⟨f₂, hreceiver, h⟩ := bind_eq_ok.mp h
      exact ⟨params, result, f₁, f₂, hd, hargs, .inr ⟨‹_›, hreceiver⟩, h⟩

/-- A constructor call on another object leaves the receiver as it is. -/
theorem getLocal_popReceiver {slot : Nat} (h : popReceiver m code f member = .ok g)
    (hne : member.name = Name.init → f.stack.head? ≠ some .uninitializedThis)
    (hf : f.getLocal slot = .uninitializedThis) : g.getLocal slot = .uninitializedThis := by
  obtain ⟨⟨t, f'⟩, hpop, h⟩ := bind_eq_ok.mp h
  obtain ⟨hstack, hlocals, -⟩ := popKind_eq_ok.mp hpop
  have hf' : f'.getLocal slot = .uninitializedThis := by rwa [getLocal, ← hlocals]
  dsimp only at h
  split at h
  · rename_i hname
    obtain ⟨after, hafter, h⟩ := bind_eq_ok.mp h
    cases h
    have htop : t ≠ .top := fun htop => by rw [htop] at hafter; cases hafter
    have hthis : .uninitializedThis ≠ t := fun hthis => hne hname (by rw [hstack, hthis]; rfl)
    rw [f'.getLocal_markInitialized after htop, hf', if_neg hthis]
  · cases h
    exact hf'

/-- As long as no constructor is called on it and nothing else is stored in its place, the receiver is in the first
    slot. -/
theorem getLocal_zero_of_apply (h : f.apply m code index instr = .ok g) (hinit : f.initializes instr = false)
    (hstore : ∀ kind, instr ≠ .store kind 0) (hf : f.getLocal 0 = .uninitializedThis) :
    g.getLocal 0 = .uninitializedThis := by
  by_cases hcall : ∃ op member, instr = .invoke op member
  · obtain ⟨op, member, rfl⟩ := hcall
    obtain ⟨params, result, f₁, f₂, hd, hargs, hreceiver, hresult⟩ := applyInvoke_eq_ok h
    have hf₁ : f₁.getLocal 0 = .uninitializedThis := by rwa [getLocal, (Moves.of_popArgs hargs).locals]
    have hf₂ : f₂.getLocal 0 = .uninitializedThis := by
      rcases hreceiver with ⟨-, rfl⟩ | ⟨hop, hreceiver⟩
      · exact hf₁
      · refine getLocal_popReceiver hreceiver (fun hname hhead => ?_) hf₁
        simp [initializes, hop, hname, receiver?_eq hd hargs, hhead] at hinit
    rwa [getLocal, (Moves.of_pushResult hresult).locals]
  · cases (apply_grows h).1 with
    | same hlocals => rwa [getLocal, hlocals]
    | store kind slot t hi hk hlocals =>
      have hne : 0 ≠ slot.toNat := fun hzero => by
        have hslot : slot = 0 := UInt16.toNat_inj.mp (hzero.symm.trans UInt16.toNat_zero.symm)
        exact hstore kind (by rw [hi, hslot])
      have hset := getLocal_setLocal f slot.toNat t 0
      rw [if_neg hne, if_neg (by simp), hf, if_neg (by simp [VType.width])] at hset
      rwa [getLocal, hlocals]
    | init before after hb hlocals hi => exact absurd hi hcall

/-- Frames that lie below each other have the same receiver as long as it is uninitialized. -/
theorem Below.initializes_eq (h : f.Below g) (ha : g.apply m code index instr = .ok g') :
    f.initializes instr = g.initializes instr := by
  cases instr with
  | invoke op member =>
    obtain ⟨params, result, g₁, -, hd, hargs, -⟩ := applyInvoke_eq_ok ha
    obtain ⟨f₁, hargs', h₁⟩ := h.popArgs params.reverse g₁ hargs
    have hhead : f₁.stack.head? = some .uninitializedThis ↔ g₁.stack.head? = some .uninitializedThis := by
      obtain ⟨-, hstack⟩ := h₁
      generalize f₁.stack = xs at hstack
      generalize g₁.stack = ys at hstack
      cases hstack with
      | nil => rfl
      | cons hab _ => simpa using hab.eq_iff rfl
    simp only [initializes, receiver?_eq hd hargs, receiver?_eq hd hargs', hhead]
  | _ => rfl

end Frame

/-! ### Constructors as methods -/

/-- The method under another name, so that it is no constructor. -/
def MethodHead.ordinary (m : MethodHead) : MethodHead := { m with name := "" }

namespace Frame
variable {m : MethodHead} {code : Array Instr} {index : Nat} {instr : Instr} {f g : Frame}

/-- A constructor returns only if its uninitialized receiver is not in the first slot. -/
theorem apply_returnVoid_eq_ok (h : f.apply m code index (.op .returnVoid) = .ok g) :
    f = g ∧ (m.isConstructor = true → f.getLocal 0 ≠ .uninitializedThis) := by
  replace h : (if m.isConstructor = true ∧ f.locals.head? = some .uninitializedThis then
    .error FrameFault.returnsUninitialized else .ok f) = Except.ok g := h
  split at h
  · cases h
  · rename_i hne
    refine ⟨Except.ok.inj h, fun hm hthis => hne ⟨hm, ?_⟩⟩
    rw [List.head?_eq_getElem?]
    rw [getLocal, List.getD_eq_getElem?_getD] at hthis
    cases hhead : f.locals[0]? with
    | none =>
      rw [hhead] at hthis
      cases hthis
    | some t =>
      rw [hhead] at hthis
      exact congrArg some hthis

theorem initializedType_ordinary (m : MethodHead) (code : Array Instr) :
    initializedType m.ordinary code = initializedType m code := by
  funext t
  cases t <;> rfl

/-- A constructor differs from a method only where it returns. -/
theorem apply_ordinary_eq (h : instr ≠ .op .returnVoid) :
    f.apply m.ordinary code index instr = f.apply m code index instr := by
  cases instr with
  | invoke op member => simp only [apply, applyInvoke, popReceiver, initializedType_ordinary]
  | op op =>
    cases op with
    | returnVoid => exact absurd rfl h
    | _ => rfl
  | _ => rfl

/-- What a constructor may do, a method may do. -/
theorem apply_ordinary (h : f.apply m code index instr = .ok g) : f.apply m.ordinary code index instr = .ok g := by
  by_cases hreturn : instr = .op .returnVoid
  · subst hreturn
    rw [(apply_returnVoid_eq_ok h).1]
    rfl
  · rw [apply_ordinary_eq hreturn, h]

theorem along_concat {e : Frame} {is : List Nat} (h : e.along m code is = .ok f) (hi : code[index]? = some instr)
    (ha : f.apply m code index instr = .ok g) : e.along m code (is ++ [index]) = .ok g := by
  rw [along_append, h]
  simp [along, stepAt_eq hi, ha]

end Frame

namespace Dataflow
variable {m : MethodHead} {code : Array Instr} {p : Placement} {entry : Frame} {d : Dataflow}

theorem Fixpoint.ordinary (h : Fixpoint m code p entry d) : Fixpoint m.ordinary code p entry d where
  size := h.size
  entry := h.entry
  fits i f hf := by
    obtain ⟨instr, g, hi, ha, hsent⟩ := h.fits i f hf
    exact ⟨instr, g, hi, Frame.apply_ordinary ha, hsent⟩

/-! ### Paths to a return -/

/-- The instruction at `k` calls a constructor on the uninitialized receiver. -/
def Initializes (d : Dataflow) (code : Array Instr) (k : Nat) : Prop :=
  ∃ instr f, code[k]? = some instr ∧ d.frameAt k = some f ∧ f.initializes instr = true

instance (d : Dataflow) (code : Array Instr) (k : Nat) : Decidable (d.Initializes code k) :=
  decidable_of_iff ((code[k]?.bind fun instr => (d.frameAt k).map (·.initializes instr)) = some true) (by
    simp [Initializes, Option.bind_eq_some_iff])

end Dataflow

/-- The instruction at `k` stores a value in the first slot. -/
def Overwrites (code : Array Instr) (k : Nat) : Prop := ∃ kind, code[k]? = some (.store kind 0)

namespace Dataflow
variable {m : MethodHead} {code : Array Instr} {p : Placement} {entry : Frame} {d : Dataflow} {is : List Nat} {i : Nat}

/-- A path that neither initializes the receiver nor stores another value in the first slot finds it there. -/
theorem Fixpoint.receiver_path (fix : Fixpoint m code p entry d) (hentry : entry.getLocal 0 = .uninitializedThis)
    (path : Path code p is i) (hinit : ∀ k ∈ is, ¬d.Initializes code k) (hstore : ∀ k ∈ is, ¬Overwrites code k) :
    ∃ f, entry.along m.ordinary code is = .ok f ∧ f.getLocal 0 = .uninitializedThis := by
  induction path with
  | start => exact ⟨entry, rfl, hentry⟩
  | @step is i j path he ih =>
    obtain ⟨f, hf, hthis⟩ := ih (fun k hk => hinit k (List.mem_append_left _ hk))
      fun k hk => hstore k (List.mem_append_left _ hk)
    obtain ⟨f', g, hf', hg, hb⟩ := fix.ordinary.path rfl path
    cases hf.symm.trans hf'
    obtain ⟨instr, after, hi, ha, -⟩ := fix.ordinary.fits i g hg
    obtain ⟨f', ha', -⟩ := hb.apply rfl code i instr after ha
    refine ⟨f', Frame.along_concat hf hi ha', Frame.getLocal_zero_of_apply ha' ?_ (fun kind heq => ?_) hthis⟩
    · rw [hb.initializes_eq ha, Bool.eq_false_iff]
      exact fun htrue => hinit i (by simp) ⟨instr, g, hi, hg, htrue⟩
    · exact hstore i (by simp) ⟨kind, by rw [hi, heq]⟩

/-- A path to `i` initializes the receiver or stores another value in the first slot. -/
def Parts (d : Dataflow) (code : Array Instr) (p : Placement) (i : Nat) : Prop :=
  ∃ is k, Path code p is i ∧ k ∈ is ∧ (d.Initializes code k ∨ Overwrites code k)

/-- Where no path has parted with the receiver, it is in the first slot. -/
theorem Fixpoint.carried_receiver (fix : Fixpoint m code p entry d) : Carried m code p fun i f =>
    (∃ is e, Path code p is i ∧ entry.along m.ordinary code is = .ok e ∧ e.Below f) ∧
      (f.getLocal 0 = .uninitializedThis ∨ d.Parts code p i) where
  apply i j instr f g hi hf ha hedge := by
    obtain ⟨⟨is, e, path, halong, hb⟩, hor⟩ := hf
    have ha' := Frame.apply_ordinary ha
    obtain ⟨e', hae, hb'⟩ := hb.apply rfl code i instr g ha'
    refine ⟨⟨is ++ [i], e', path.step hedge, Frame.along_concat halong hi hae, hb'⟩, ?_⟩
    have hparts (h : d.Initializes code i ∨ Overwrites code i) : d.Parts code p j :=
      ⟨is ++ [i], i, path.step hedge, by simp, h⟩
    rcases hor with hthis | ⟨js, k, path', hk, hparted⟩
    · by_cases hstore : ∃ kind, instr = .store kind 0
      · obtain ⟨kind, rfl⟩ := hstore
        exact .inr (hparts (.inr ⟨kind, hi⟩))
      · cases hinit : f.initializes instr with
        | false => exact .inl (Frame.getLocal_zero_of_apply ha hinit (fun kind heq => hstore ⟨kind, heq⟩) hthis)
        | true =>
          -- The frame may not be the last one that was found here, but the exact one lies below both.
          obtain ⟨e₁, g₁, halong₁, hg₁, hb₁⟩ := fix.ordinary.path rfl path
          cases halong.symm.trans halong₁
          obtain ⟨instr₁, after, hi₁, ha₁, -⟩ := fix.ordinary.fits i g₁ hg₁
          cases hi.symm.trans hi₁
          rw [← hb.initializes_eq ha', hb₁.initializes_eq ha₁] at hinit
          exact .inr (hparts (.inl ⟨instr, g₁, hi, hg₁, hinit⟩))
    · exact .inr ⟨js ++ [i], k, path'.step hedge, List.mem_append_left _ hk, hparted⟩
  join i f g j hf hg hj := by
    obtain ⟨⟨is, e, path, halong, hb⟩, hor⟩ := hf
    refine ⟨⟨is, e, path, halong, hb.trans (Frame.join_below hj).1⟩, ?_⟩
    rcases hor with hthis | hparts
    · rcases hg.2 with hthis' | hparts
      · refine .inl ?_
        rw [Frame.getLocal, (Frame.join_eq_ok hj).2.1, Frame.getD_joinLocals]
        rw [Frame.getLocal] at hthis hthis'
        rw [hthis, hthis', VType.joinLocal_self]
      · exact .inr hparts
    · exact .inr hparts

end Dataflow

theorem MethodHead.entryFrame_receiver {m : MethodHead} {entry : Frame} (hm : m.isConstructor = true)
    (hs : m.isStatic = false) (h : m.entryFrame = .ok entry) : entry.getLocal 0 = .uninitializedThis := by
  have hreceiver : m.receiverTypes = [.uninitializedThis] := by simp [receiverTypes, hm, hs]
  rw [entryFrame_eq_ok h, initialValues, hreceiver]
  rfl

open Dataflow in
/-- The code of a constructor has been assembled. A path to a return calls a constructor on the uninitialized receiver,
    or it stores another value in the first slot, or that slot is unusable at the return. In the last case there is
    another path to the return that does one of the first two. -/
theorem return_path_initializes {m : MethodHead} {c : Code} {stackMaps : Bool} {b b' : PoolBuilder} {a : Assembled}
    (hm : m.isConstructor = true) (hs : m.isStatic = false) (h : (c.assemble m stackMaps).on b = (.ok a, b')) :
    ∃ p entry d, c.placement = .ok p ∧ m.entryFrame = .ok entry ∧ analyze m c.instrs p entry = .ok d ∧
      ∀ is i, Path c.instrs p is i → c.instrs[i]? = some (.op .returnVoid) → ∃ g, d.frameAt i = some g ∧
        ((∃ k ∈ is, d.Initializes c.instrs k) ∨ (∃ k ∈ is, Overwrites c.instrs k) ∨
          g.getLocal 0 = .top ∧ d.Parts c.instrs p i) := by
  obtain ⟨p, entry, d, -, -, -, -, hp, hentry, hd, -⟩ := Code.assemble_eq_ok h
  refine ⟨p, entry, d, hp, hentry, hd, fun is i path hi => ?_⟩
  have fix := analyze_fixpoint (c.position?_lt hp) hd
  have hthis := m.entryFrame_receiver hm hs hentry
  obtain ⟨f, g, halong, hg, hb⟩ := fix.ordinary.path rfl path
  have hreturns : g.getLocal 0 ≠ .uninitializedThis := by
    obtain ⟨instr, after, hi', ha, -⟩ := fix.fits i g hg
    cases hi.symm.trans hi'
    exact (Frame.apply_returnVoid_eq_ok ha).2 hm
  refine ⟨g, hg, ?_⟩
  by_cases hinit : ∃ k ∈ is, d.Initializes c.instrs k
  · exact .inl hinit
  by_cases hstore : ∃ k ∈ is, Overwrites c.instrs k
  · exact .inr (.inl hstore)
  refine .inr (.inr ⟨?_, ?_⟩)
  · obtain ⟨f', halong', hf⟩ := fix.receiver_path hthis path (fun k hk hk' => hinit ⟨k, hk, hk'⟩)
      fun k hk hk' => hstore ⟨k, hk, hk'⟩
    cases halong.symm.trans halong'
    have hbelow := hb.locals 0
    rw [hf] at hbelow
    by_contra hne
    exact hreturns (((hbelow.below_of_ne_top hne).eq_iff rfl).mp rfl)
  · have hall : Meets _ _ (analyze m c.instrs p entry) :=
      analyze_meets fix.carried_receiver ⟨⟨[], entry, .start, rfl, .refl entry⟩, .inl hthis⟩
    rw [hd] at hall
    exact (hall i g hg).2.resolve_left hreturns

/-! ### Returning without a receiver -/

def guardedHead : MethodHead := ⟨"demo/Guarded", Name.init, "(I)V", false⟩

/-- A constructor that calls another one only if its parameter is not zero. -/
def guarded : Code :=
  ⟨#[.load .int 1, .jump .ifeq ⟨0⟩, .load .ref 0, .invoke .invokespecial ⟨Name.object, Name.init, "()V", false⟩,
    .mark ⟨0⟩, .op .returnVoid], 1⟩

def guardedLabels : Placement := ⟨#[some 4]⟩

theorem guarded_assembled : ∃ a b, (guarded.assemble guardedHead true).on (.after []) = (.ok a, b) :=
  exists_ok_of_toBool (by decide +kernel)

/-- The way around the call. -/
theorem guarded_skips : Path guarded.instrs guardedLabels [0, 1, 4] 5 :=
  .step (.step (.step .start (.next rfl rfl)) (.jump (l := ⟨0⟩) rfl rfl)) (.next rfl rfl)

theorem return_path_initializes_guarded : ∃ a b p entry d g, guardedHead.isConstructor = true ∧
    guardedHead.isStatic = false ∧ (guarded.assemble guardedHead true).on (.after []) = (.ok a, b) ∧
    Dataflow.analyze guardedHead guarded.instrs p entry = .ok d ∧ d.frameAt 5 = some g ∧
    ((∃ k ∈ [0, 1, 4], d.Initializes guarded.instrs k) ∨ (∃ k ∈ [0, 1, 4], Overwrites guarded.instrs k) ∨
      g.getLocal 0 = .top ∧ d.Parts guarded.instrs p 5) := by
  obtain ⟨a, b, h⟩ := guarded_assembled
  obtain ⟨p, entry, d, hp, -, hd, hpaths⟩ := return_path_initializes (m := guardedHead) rfl rfl h
  cases hp.symm.trans (show guarded.placement = .ok guardedLabels from rfl)
  obtain ⟨g, hg, hor⟩ := hpaths _ 5 guarded_skips rfl
  exact ⟨a, b, _, entry, d, g, rfl, rfl, h, hd, hg, hor⟩

/-- The code is accepted, although no constructor is called on the way around. -/
theorem guarded_returns_uninitialized : ∃ a b p, (guarded.assemble guardedHead true).on (.after []) = (.ok a, b) ∧
    guarded.placement = .ok p ∧ Path guarded.instrs p [0, 1, 4] 5 ∧ guarded.instrs[5]? = some (.op .returnVoid) ∧
    ∀ d : Dataflow, ∀ k ∈ [0, 1, 4], ¬d.Initializes guarded.instrs k := by
  obtain ⟨a, b, h⟩ := guarded_assembled
  refine ⟨a, b, guardedLabels, h, rfl, guarded_skips, rfl, fun d k hk => ?_⟩
  rintro ⟨instr, f, hi, -, hinit⟩
  simp only [List.mem_cons, List.not_mem_nil, or_false] at hk
  rcases hk with rfl | rfl | rfl <;> cases hi <;> cases hinit

end Classwright
