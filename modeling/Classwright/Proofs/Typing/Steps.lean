import Classwright.Lowering.Body
import Classwright.Proofs.Typing.Classes
import Classwright.Proofs.Typing.Code

/-! # What instructions do to shapes -/

namespace Classwright

theorem Descriptor.arity_eq {m : MethodSig} (hm : m.WellFormed) : arity m.descriptor = m.paramTypes.length := by
  have hvalue : ∀ t ∈ m.paramTypes, (VType.ofDescriptor? t.descriptorChars).join.isSome = true := by
    intro t ht
    obtain ⟨hvoid, hnamed⟩ := hm.params t ht
    obtain ⟨v, -, hv, -⟩ := Ty.exists_vtype? hvoid
    rw [Ty.ofDescriptor?_descriptorChars hnamed, hv]
    rfl
  rw [arity, MethodSig.descriptor, Ty.split?_methodDescriptor fun t ht => (hm.params t ht).2]
  exact List.countP_map.trans (List.countP_eq_length.mpr hvalue)

namespace Subject

variable {B : Subject} {i : Nat} {b : Bool} {σ : List Entry} {e : Entry}

/-! ### Values that can be used -/

theorem usable_object : B.Usable b .object := nofun

theorem Usable.of_has {t : Ty} (h : t.Has b e) (hb : b = false → B.explicit = true) : B.Usable b e := by
  intro hu
  rcases h with rfl | ⟨rfl, -, rfl⟩
  · cases hentry : t.entry with
    | object =>
      rw [hentry] at hu
      cases hu
    | exact u =>
      have hold : t.entry.Holds u := by rw [hentry]; rfl
      obtain ⟨hthis, hnew⟩ := Ty.entry_holds hold
      rw [hentry] at hu
      cases u <;> first | exact absurd rfl hthis | exact absurd rfl (hnew _) | cases hu
  · exact ⟨rfl, rfl, hb rfl⟩

theorem Usable.of_args {ts : List Ty} {vs : List Entry} (h : List.Forall₂ (Ty.Has b) ts vs)
    (hb : b = false → B.explicit = true) : ∀ v ∈ vs, B.Usable b v := by
  induction h with
  | nil => nofun
  | cons hv _ ih => exact List.forall_mem_cons.mpr ⟨.of_has hv hb, ih⟩

theorem Uses.front {instr : Instr} {es : List Entry} (hlen : instr.uses ≤ es.length) (h : ∀ e ∈ es, B.Usable b e) :
    B.Uses instr ⟨b, es ++ σ⟩ := by
  intro e he
  rw [List.take_append_of_le_length hlen] at he
  exact h e (List.mem_of_mem_take he)

theorem Uses.top {instr : Instr} (huses : instr.uses ≤ 1) (he : B.Usable b e) : B.Uses instr ⟨b, e :: σ⟩ :=
  .front (show _ ≤ [e].length from huses) (by simpa using he)

theorem uses_op_le (op : Opcode) : (Instr.op op).uses ≤ 1 := by
  cases op <;> decide

theorem uses_of_effect? {op : Opcode} {x : List VType × List VType} (h : op.effect? = some x) :
    (Instr.op op).uses = 0 := by
  cases op with
  | areturn | athrow => cases h
  | _ => rfl

namespace Steps

/-! ### Constants and locals -/

theorem literal (v : LiteralValue) : B.Steps i v.code ⟨b, σ⟩ ⟨b, v.type.entry :: σ⟩ := by
  refine ⟨.nothing (by cases v <;> rfl), fun f hf => ?_⟩
  cases v with
  | str s => exact hf.push (e := .object) ⟨_, rfl⟩
  | _ => exact hf.push (e := .exact _) rfl

theorem truth (value : Bool) : B.Steps i (.truth value) ⟨b, σ⟩ ⟨b, .exact .integer :: σ⟩ :=
  ⟨.nothing (by cases value <;> rfl), fun _ hf => hf.push rfl⟩

theorem klass (name : String) : B.Steps i (.cls name) ⟨b, σ⟩ ⟨b, .object :: σ⟩ :=
  ⟨.nothing rfl, fun _ hf => hf.push ⟨_, rfl⟩⟩

theorem load {x : String} {v : Local} {kind : LocalKind} (hv : B.scope.get? x = some v)
    (hk : (v.entry b).sample.hasKind kind = true) : B.Steps i (.load kind v.slot) ⟨b, σ⟩ ⟨b, v.entry b :: σ⟩ := by
  refine ⟨.nothing rfl, fun f hf => ?_⟩
  simp only [Frame.apply]
  rcases hf.locals x v hv with htop | hold
  · rw [htop, if_neg (by cases kind <;> decide)]
    exact .unassigned kind v.slot
  · rw [if_pos ((hold.hasKind_eq kind).trans hk)]
    exact hf.push hold

theorem store (hl : B.scope.Laid) (hvalues : B.scope.Values) {x : String}
    {v : Local} {kind : LocalKind} (hv : B.scope.get? x = some v) (hk : v.type.entry.sample.hasKind kind = true) :
    B.Steps i (.store kind v.slot) ⟨true, v.type.entry :: σ⟩ ⟨true, σ⟩ := by
  refine ⟨.nothing rfl, fun f hf => ?_⟩
  obtain ⟨t, g, hpop, ht, hg⟩ := hf.popKind hk
  simp only [Frame.apply]
  rw [hpop, ok_bind]
  exact hg.setLocal hl hvalues hv ht

/-! ### Operations -/

theorem effect {op : Opcode} {pops pushes : List VType} (h : op.effect? = some (pops, pushes)) :
    B.Steps i (.op op) ⟨b, pops.map .of ++ σ⟩ ⟨b, (pushes.map .of).reverse ++ σ⟩ := by
  refine ⟨.nothing (uses_of_effect? h), fun f hf => ?_⟩
  have hserves : List.Forall₂ Entry.Serves (pops.map .of) pops := by
    rw [List.forall₂_map_left_iff, List.forall₂_same]
    exact fun t _ => Entry.serves_of t
  obtain ⟨g, hpop, hg⟩ := hf.popAll hserves
  simp only [Frame.apply, Frame.applyOp, h]
  rw [hpop, ok_bind]
  exact hg.pushAll pushes

theorem pop (hw : e.sample.width = 1) : B.Steps i (.op .pop) ⟨b, e :: σ⟩ ⟨b, σ⟩ := by
  refine ⟨.nothing rfl, fun f hf => ?_⟩
  obtain ⟨t, g, hpop, -, hg⟩ := hf.popWord hw
  change Meets _ _ (f.popWord >>= _)
  rw [hpop, ok_bind]
  exact hg

theorem pop2 (hw : e.sample.width = 2) : B.Steps i (.op .pop2) ⟨b, e :: σ⟩ ⟨b, σ⟩ := by
  refine ⟨.nothing rfl, fun f hf => ?_⟩
  obtain ⟨t, g, hpop, ht, hg⟩ := hf.pop
  change Meets _ _ (f.pop >>= _)
  rw [hpop, ok_bind]
  dsimp only
  rw [if_neg (by rw [ht.width_eq, hw]; decide)]
  exact hg

theorem dup (hw : e.sample.width = 1) : B.Steps i (.op .dup) ⟨b, e :: σ⟩ ⟨b, e :: e :: σ⟩ := by
  refine ⟨.nothing rfl, fun f hf => ?_⟩
  obtain ⟨t, g, hpop, ht, hg⟩ := hf.popWord hw
  change Meets _ _ (f.popWord >>= _)
  rw [hpop, ok_bind]
  exact (hg.push ht).push ht

theorem swap {e' : Entry} (hw : e.sample.width = 1) (hw' : e'.sample.width = 1) :
    B.Steps i (.op .swap) ⟨b, e :: e' :: σ⟩ ⟨b, e' :: e :: σ⟩ := by
  refine ⟨.nothing rfl, fun f hf => ?_⟩
  obtain ⟨t, g, hpop, ht, hg⟩ := hf.popWord hw
  obtain ⟨t', g', hpop', ht', hg'⟩ := hg.popWord hw'
  change Meets _ _ (f.popWord >>= _)
  rw [hpop, ok_bind]
  dsimp only
  rw [hpop', ok_bind]
  exact (hg'.push ht).push ht'

theorem dup2X1 {e' : Entry} (hw : e.sample.width = 2) (hw' : e'.sample.width = 1) :
    B.Steps i (.op .dup2X1) ⟨b, e :: e' :: σ⟩ ⟨b, e :: e' :: e :: σ⟩ := by
  refine ⟨.nothing rfl, fun f hf => ?_⟩
  obtain ⟨t, g, hpop, ht, hg⟩ := hf.pop
  obtain ⟨t', g', hpop', ht', hg'⟩ := hg.popWord hw'
  change Meets _ _ (f.pop >>= _)
  rw [hpop, ok_bind]
  dsimp only
  rw [hpop', ok_bind]
  dsimp only
  rw [if_pos (ht.width_eq.trans hw)]
  exact ((hg'.push ht).push ht').push ht

theorem popsReference {op : Opcode} (h : ∀ f : Frame, f.applyOp B.head op = (do let (_, f) ← f.popKind .ref; .ok f))
    (hr : e.sample.isReference = true) (hu : B.Usable b e) : B.Steps i (.op op) ⟨b, e :: σ⟩ ⟨b, σ⟩ := by
  refine ⟨.top (uses_op_le op) hu, fun f hf => ?_⟩
  obtain ⟨t, g, hpop, -, hg⟩ := hf.popKind (show e.sample.hasKind .ref = true from hr)
  change Meets _ _ (f.applyOp B.head op)
  rw [h f, hpop, ok_bind]
  exact hg

/-- A jump that looks at integers, or at nothing. -/
theorem branch {op : Opcode} {l : Label} (h : ∀ f : Frame, f.applyJump op = f.popAll op.jumpIntegers) :
    B.Steps i (.jump op l) ⟨b, op.jumpIntegers.map .of ++ σ⟩ ⟨b, σ⟩ := by
  refine ⟨.nothing rfl, fun f hf => ?_⟩
  have hserves : List.Forall₂ Entry.Serves (op.jumpIntegers.map .of) op.jumpIntegers := by
    rw [List.forall₂_map_left_iff, List.forall₂_same]
    exact fun t _ => Entry.serves_of t
  obtain ⟨g, hpop, hg⟩ := hf.popAll hserves
  change Meets _ _ (f.applyJump op)
  rw [h f, hpop]
  exact hg

/-! ### Classes and fields -/

theorem new (name : String) : B.Steps i (.type .new name) ⟨b, σ⟩ ⟨b, .exact (.uninitialized i) :: σ⟩ :=
  ⟨.nothing rfl, fun _ hf => hf.push rfl⟩

theorem checkcast (name : String) (hr : e.sample.isReference = true) (hu : B.Usable b e) :
    B.Steps i (.type .checkcast name) ⟨b, e :: σ⟩ ⟨b, .object :: σ⟩ := by
  refine ⟨.top (Nat.le_refl 1) hu, fun f hf => ?_⟩
  obtain ⟨t, g, hpop, -, hg⟩ := hf.popKind (show e.sample.hasKind .ref = true from hr)
  change Meets _ _ (f.popKind .ref >>= _)
  rw [hpop, ok_bind]
  exact hg.push ⟨_, rfl⟩

section Fields
variable {f : FieldSig} {owner : String} {r v : Entry}

theorem ofDescriptor?_field (hn : f.type.WellNamed) (hv : f.type.isVoid = false) :
    ∃ t, f.type.vtype? = some t ∧ VType.ofDescriptor? f.type.descriptor.toList = some (some t) := by
  obtain ⟨t, -, ht, -⟩ := Ty.exists_vtype? hv
  refine ⟨t, ht, ?_⟩
  rw [Ty.descriptor, String.toList_ofList, Ty.ofDescriptor?_descriptorChars hn, ht]

theorem getstatic (hn : f.type.WellNamed) (hv : f.type.isVoid = false) (hs : f.isStatic = true) :
    B.Steps i (f.getCode owner) ⟨b, σ⟩ ⟨b, f.type.entry :: σ⟩ := by
  refine ⟨.nothing (by rw [FieldSig.getCode, hs]; rfl), fun g hg => ?_⟩
  obtain ⟨t, ht, hd⟩ := ofDescriptor?_field hn hv
  simp only [FieldSig.getCode, hs, if_true, Frame.apply, Frame.applyField, hd]
  rw [Ty.entry_eq ht]
  exact hg.push (Entry.holds_of t)

theorem getfield (hn : f.type.WellNamed) (hv : f.type.isVoid = false) (hs : f.isStatic = false)
    (hr : r.sample.isReference = true) (hu : B.Usable b r) :
    B.Steps i (f.getCode owner) ⟨b, r :: σ⟩ ⟨b, f.type.entry :: σ⟩ := by
  refine ⟨.top (by rw [FieldSig.getCode, hs]; exact Nat.le_refl 1) hu, fun g hg => ?_⟩
  obtain ⟨t, ht, hd⟩ := ofDescriptor?_field hn hv
  obtain ⟨u, g', hpop, -, hg'⟩ := hg.popKind (show r.sample.hasKind .ref = true from hr)
  simp only [FieldSig.getCode, hs, Bool.false_eq_true, if_false, Frame.apply, Frame.applyField, hd]
  rw [hpop, ok_bind, Ty.entry_eq ht]
  exact hg'.push (Entry.holds_of t)

theorem putstatic (hn : f.type.WellNamed) (hv : f.type.isVoid = false) (hs : f.isStatic = true)
    (hval : f.type.Has b v) (hu : B.Usable b v) : B.Steps i (f.putCode owner) ⟨b, v :: σ⟩ ⟨b, σ⟩ := by
  refine ⟨.top (by rw [FieldSig.putCode, hs]; exact Nat.le_refl 1) hu, fun g hg => ?_⟩
  obtain ⟨t, ht, hd⟩ := ofDescriptor?_field hn hv
  obtain ⟨t', -, ht', -, hserves, -⟩ := hval.value hv
  rw [ht] at ht'
  cases ht'
  obtain ⟨g', hpop, hg'⟩ := hg.popExpect hserves
  simp only [FieldSig.putCode, hs, if_true, Frame.apply, Frame.applyField, hd]
  rw [hpop]
  exact hg'

theorem putfield (hn : f.type.WellNamed) (hv : f.type.isVoid = false) (hs : f.isStatic = false)
    (hval : f.type.Has b v) (hr : r.sample.isReference = true) (hu : B.Usable b v) (hur : B.Usable b r) :
    B.Steps i (f.putCode owner) ⟨b, v :: r :: σ⟩ ⟨b, σ⟩ := by
  refine ⟨.front (show _ ≤ [v, r].length by rw [FieldSig.putCode, hs]; exact Nat.le_refl 2) (by simp [hu, hur]),
    fun g hg => ?_⟩
  obtain ⟨t, ht, hd⟩ := ofDescriptor?_field hn hv
  obtain ⟨t', -, ht', -, hserves, -⟩ := hval.value hv
  rw [ht] at ht'
  cases ht'
  obtain ⟨g', hpop, hg'⟩ := hg.popExpect hserves
  obtain ⟨u, g'', hpop', -, hg''⟩ := hg'.popKind (show r.sample.hasKind .ref = true from hr)
  simp only [FieldSig.putCode, hs, Bool.false_eq_true, if_false, Frame.apply, Frame.applyField, hd]
  rw [hpop, ok_bind, hpop', ok_bind]
  exact hg''

end Fields

/-! ### Calls -/

section Calls
variable {m : MethodSig} {vs : List Entry} {op : Opcode} {member : MemberRef} {r : Entry}

theorem popArgs {ts : List Ty} (hargs : List.Forall₂ (Ty.Has b) ts vs) (hts : ∀ t ∈ ts, t.isVoid = false ∧ t.WellNamed)
    {f : Frame} (hf : B.Fits ⟨b, vs ++ σ⟩ f) :
    ∃ g, f.popArgs (ts.map Ty.descriptorChars) = .ok g ∧ B.Fits ⟨b, σ⟩ g := by
  induction hargs generalizing f with
  | nil => exact ⟨f, rfl, hf⟩
  | @cons t v ts vs hv _ ih =>
    obtain ⟨⟨hvoid, hnamed⟩, hts⟩ := List.forall_mem_cons.mp hts
    obtain ⟨u, -, hu, -, hserves, -⟩ := hv.value hvoid
    obtain ⟨g, hpop, hg⟩ := hf.popExpect hserves
    obtain ⟨g', hall, hg'⟩ := ih hts hg
    refine ⟨g', ?_, hg'⟩
    rw [List.map_cons, Frame.popArgs, Frame.popArg, Ty.ofDescriptor?_descriptorChars hnamed, hu]
    dsimp only
    rw [hpop, ok_bind, hall]

/-- Once the arguments have been popped, the receiver is, and the result is pushed. -/
theorem apply_invoke (hm : m.WellFormed) (hargs : List.Forall₂ (Ty.Has b) m.paramTypes vs)
    (hd : member.descriptor = m.descriptor) {f : Frame} (hf : B.Fits ⟨b, vs.reverse ++ σ⟩ f) :
    ∃ g, B.Fits ⟨b, σ⟩ g ∧ f.apply B.head B.code i (.invoke op member) = (do
      let g ← if op = .invokestatic then .ok g else Frame.popReceiver B.head B.code g member
      g.pushResult m.returns.descriptorChars) := by
  have hsplit := Ty.split?_methodDescriptor (fun t ht => (hm.params t ht).2) m.returns
  obtain ⟨g, hpop, hg⟩ := popArgs (List.forall₂_reverse_iff.mpr hargs)
    (fun t ht => hm.params t (List.mem_reverse.mp ht)) hf
  refine ⟨g, hg, ?_⟩
  simp only [Frame.apply, Frame.applyInvoke, hd, MethodSig.descriptor, hsplit]
  rw [← List.map_reverse, hpop, ok_bind]

theorem fits_pushResult {t : Ty} (hn : t.WellNamed) {g : Frame} (hg : B.Fits ⟨b, σ⟩ g) :
    Meets (B.Fits ⟨b, t.onto σ⟩) (Excused (.invoke op member))
      (g.pushResult t.descriptorChars) := by
  rw [Frame.pushResult, Ty.ofDescriptor?_descriptorChars hn]
  cases hv : t.isVoid with
  | true =>
    obtain rfl := Ty.eq_void hv
    exact hg
  | false =>
    obtain ⟨u, -, hu, -⟩ := Ty.exists_vtype? hv
    rw [hu, Ty.onto_of_value hv, Ty.entry_eq hu]
    exact hg.push (Entry.holds_of u)

/-- A call uses its arguments. -/
theorem uses_args (hm : m.WellFormed) (hargs : List.Forall₂ (Ty.Has b) m.paramTypes vs)
    (hd : member.descriptor = m.descriptor) (hop : op = .invokestatic ∨ member.name = Name.init)
    (hu : ∀ v ∈ vs, B.Usable b v) : B.Uses (.invoke op member) ⟨b, vs.reverse ++ σ⟩ := by
  refine .front ?_ fun v hv => hu v (List.mem_reverse.mp hv)
  rw [Instr.uses, hd, Descriptor.arity_eq hm, if_pos hop, hargs.length_eq, List.length_reverse]
  exact Nat.le_refl _

/-- The call of a method uses its receiver, too. -/
theorem uses_receiver (hm : m.WellFormed) (hargs : List.Forall₂ (Ty.Has b) m.paramTypes vs)
    (hd : member.descriptor = m.descriptor) (hu : ∀ v ∈ vs, B.Usable b v) (hur : B.Usable b r) :
    B.Uses (.invoke op member) ⟨b, vs.reverse ++ r :: σ⟩ := by
  rw [List.append_cons]
  refine .front ?_ fun v hv => ?_
  · rw [Instr.uses, hd, Descriptor.arity_eq hm, hargs.length_eq, List.length_append, List.length_reverse]
    split <;> simp
  · rcases List.mem_append.mp hv with hv | hv
    · exact hu v (List.mem_reverse.mp hv)
    · exact List.mem_singleton.mp hv ▸ hur

theorem invokestatic (hm : m.WellFormed) (hargs : List.Forall₂ (Ty.Has b) m.paramTypes vs)
    (hd : member.descriptor = m.descriptor) (hu : ∀ v ∈ vs, B.Usable b v) :
    B.Steps i (.invoke .invokestatic member) ⟨b, vs.reverse ++ σ⟩ ⟨b, m.returns.onto σ⟩ := by
  refine ⟨uses_args hm hargs hd (.inl rfl) hu, fun f hf => ?_⟩
  obtain ⟨g, hg, heq⟩ := apply_invoke hm hargs hd hf
  rw [heq, if_pos rfl, ok_bind]
  exact fits_pushResult hm.returns hg

theorem invoke (hm : m.WellFormed) (hargs : List.Forall₂ (Ty.Has b) m.paramTypes vs)
    (hd : member.descriptor = m.descriptor) (hop : op ≠ .invokestatic) (hname : member.name ≠ Name.init)
    (hr : r.sample.isReference = true) (hu : ∀ v ∈ vs, B.Usable b v) (hur : B.Usable b r) :
    B.Steps i (.invoke op member) ⟨b, vs.reverse ++ r :: σ⟩ ⟨b, m.returns.onto σ⟩ := by
  refine ⟨uses_receiver hm hargs hd hu hur, fun f hf => ?_⟩
  obtain ⟨g, hg, heq⟩ := apply_invoke hm hargs hd hf
  obtain ⟨t, g', hpop, -, hg'⟩ := hg.popKind (show r.sample.hasKind .ref = true from hr)
  rw [heq, if_neg hop, Frame.popReceiver, hpop, ok_bind]
  dsimp only
  rw [if_neg hname, ok_bind]
  exact fits_pushResult hm.returns hg'

/-- A constructor call pops what it is made on, and initializes it. -/
theorem apply_construct (hm : m.WellFormed) (hargs : List.Forall₂ (Ty.Has b) m.paramTypes vs)
    (hd : member.descriptor = m.descriptor) (hop : op ≠ .invokestatic) (hname : member.name = Name.init)
    (hr : r.sample.isReference = true) {f : Frame} (hf : B.Fits ⟨b, vs.reverse ++ r :: σ⟩ f) :
    ∃ t g, r.Holds t ∧ B.Fits ⟨b, σ⟩ g ∧ f.apply B.head B.code i (.invoke op member) = (do
      let after ← Frame.initializedType B.head B.code t
      (g.markInitialized t after).pushResult m.returns.descriptorChars) := by
  obtain ⟨g, hg, heq⟩ := apply_invoke hm hargs hd hf
  obtain ⟨t, g', hpop, ht, hg'⟩ := hg.popKind (show r.sample.hasKind .ref = true from hr)
  refine ⟨t, g', ht, hg', ?_⟩
  rw [heq, if_neg hop, Frame.popReceiver, hpop, ok_bind]
  dsimp only
  rw [if_pos hname]
  cases Frame.initializedType B.head B.code t <;> rfl

/-- The constructor of a new object is called. -/
theorem construct (hm : m.WellFormed) (hargs : List.Forall₂ (Ty.Has b) m.paramTypes vs)
    (hd : member.descriptor = m.descriptor) (hop : op ≠ .invokestatic) (hname : member.name = Name.init)
    (hvoid : m.returns = .void) (hu : ∀ v ∈ vs, B.Usable b v) {site : Nat} {name : String}
    (hsite : B.code[site]? = some (.type .new name)) (hσ : .exact (.uninitialized site) ∉ σ) :
    B.Steps i (.invoke op member)
      ⟨b, vs.reverse ++ .exact (.uninitialized site) :: .exact (.uninitialized site) :: σ⟩ ⟨b, .object :: σ⟩ := by
  refine ⟨uses_args hm hargs hd (.inr hname) hu, fun f hf => ?_⟩
  obtain ⟨t, g, ht, hg, heq⟩ := apply_construct hm hargs hd hop hname rfl hf
  obtain rfl := Entry.holds_exact.mp ht
  rw [heq, Frame.initializedType, hsite, hvoid]
  exact hg.markNew name hσ

/-- A constructor is called on an object, which has been initialized before. -/
theorem construct_object (hm : m.WellFormed) (hargs : List.Forall₂ (Ty.Has b) m.paramTypes vs)
    (hd : member.descriptor = m.descriptor) (hop : op ≠ .invokestatic) (hname : member.name = Name.init)
    (hu : ∀ v ∈ vs, B.Usable b v) (s' : Shape) : B.Steps i (.invoke op member) ⟨b, vs.reverse ++ .object :: σ⟩ s' := by
  refine ⟨uses_args hm hargs hd (.inr hname) hu, fun f hf => ?_⟩
  obtain ⟨t, g, ⟨name, rfl⟩, -, heq⟩ := apply_construct hm hargs hd hop hname rfl hf
  rw [heq]
  exact .initialized _ hname

/-- Another constructor is called by a constructor. -/
theorem construct_this (hthis : ∀ x v, B.scope.get? x = some v → v.slot.toNat = 0 → v.type.isReference = true)
    (hm : m.WellFormed) (hargs : List.Forall₂ (Ty.Has false) m.paramTypes vs)
    (hd : member.descriptor = m.descriptor) (hop : op ≠ .invokestatic) (hname : member.name = Name.init)
    (hvoid : m.returns = .void) (hu : ∀ v ∈ vs, B.Usable false v) :
    B.Steps i (.invoke op member) ⟨false, vs.reverse ++ [.exact .uninitializedThis]⟩ ⟨true, []⟩ := by
  refine ⟨uses_args hm hargs hd (.inr hname) hu, fun f hf => ?_⟩
  obtain ⟨t, g, ht, hg, heq⟩ := apply_construct hm hargs hd hop hname rfl hf
  obtain rfl := Entry.holds_exact.mp ht
  rw [heq, hvoid]
  exact hg.markThis hthis B.head.owner

end Calls

end Steps

end Subject

end Classwright
