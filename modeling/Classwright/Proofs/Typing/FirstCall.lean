import Classwright.Proofs.Frames.Once
import Classwright.Proofs.Lowering.Constructors
import Classwright.Proofs.Typing.Initialization

/-! # Constructors initialize their receiver once

The code of a constructor begins with the call of another one: the one that its body begins with, or the one without
parameters of the base class. Nothing else of it calls a constructor on the receiver, and there is no way around the
call. For that, the constructors that can be called must be such, and not static methods that go by their name. -/

namespace Classwright

open Source (Stmt)

/-! ### The code in front of the call -/

/-- The instruction does not end a method. -/
def Instr.Continues (i : Instr) : Prop := ∀ op, i = .op op → op.endsBlock = false

theorem Instr.continues_this : Instr.this.Continues := nofun

theorem Emitter.Appends.kept_continues : Kept (fun _ => True) (Appends Instr.Continues) := by
  refine kept (fun i hi op heq => ?_) (fun _ _ _ _ => nofun) (fun _ _ _ => nofun) fun _ _ => nofun
  rw [heq] at hi
  exact (Bool.not_eq_eq_eq_not ..).mp hi

theorem Emitter.Within.get_eq {e : Emitter} {code : Array Instr} (w : e.Within code) {i : Nat} (hi : i < e.size) :
    code[i]? = e.instrs[i]? := by
  obtain ⟨rest, hrest⟩ := w
  rw [← Array.getElem?_toList, ← hrest, List.getElem?_append_left hi, Array.getElem?_toList]

/-- What has been emitted up to a call is left only through it: jumps go to labels that have been marked. -/
theorem Emitter.gate {e : Emitter} {code : Array Instr} {p : Placement} {op : Opcode} {member : MemberRef}
    (hp : ∀ l j, p.position? l = some j ↔ code[j]? = some (.mark l)) (hextends : Emitter.Extends {} e)
    (hcontinues : Emitter.Appends Instr.Continues {} e) (w : (e.emit (.invoke op member)).Within code) (hpos : 0 < e.size) :
    Gate code p e.size := by
  have hget {i : Nat} (hi : i < e.size) : code[i]? = e.instrs[i]? := ((Grows.emit e _).within w).get_eq hi
  refine ⟨hpos, fun i j he hi => ?_, fun i hi => ?_⟩
  · cases he with
    | next h hf => exact hi
    | @jump op l _ h hl =>
      rw [hget hi] at h
      have hlabel : l.id < e.labels := (hextends.sealed ⟨by simp, nofun⟩).jumps op l (Array.mem_of_getElem? h)
      have hmarks : 0 < e.marks l := by
        rw [hextends.marks l, if_pos ⟨Nat.zero_le _, hlabel⟩]
        exact Nat.succ_pos _
      obtain ⟨k, hk⟩ := List.getElem?_of_mem (List.count_pos_iff.mp hmarks)
      have hlt : k < e.size := (List.getElem?_eq_some_iff.mp hk).1
      rw [Array.getElem?_toList, ← hget hlt, ← hp] at hk
      cases hl.symm.trans hk
      exact Nat.le_of_lt hlt
  · by_contra hle
    rcases Nat.lt_or_eq_of_le (Nat.not_lt.mp hle) with hlt | rfl
    · obtain ⟨added, hadded, -, hall⟩ := hcontinues
      rw [hget hlt, ← Array.getElem?_toList, hadded] at hi
      cases hall _ (List.mem_of_getElem? hi) _ rfl
    · cases hi.symm.trans w.instr

/-! ### The frame at the call -/

/-- Along a path through typed code in front of a gate, the exact frames have the shapes of the code. -/
theorem Subject.Typed.fits_of_path {B : Subject} {k : Nat} {s s' : Shape} (h : B.Typed .none 0 k s s')
    (hk : Gate B.code B.placement k) {entry f : Frame} (hentry : B.Fits s entry) {is : List Nat}
    (path : Path B.code B.placement is k) (his : ∀ j ∈ is, j < k) (hf : entry.along B.head.ordinary B.code is = .ok f) :
    B.Fits s' f := by
  obtain ⟨shapes, rfl, rfl, hall⟩ := h
  have hfits : ∀ {is i f}, Path B.code B.placement is i → (∀ j ∈ is, j < k) →
      entry.along B.head.ordinary B.code is = .ok f → B.Fits (shapes i) f := by
    intro is i f path his hf
    induction path generalizing f with
    | start =>
      cases hf
      exact hentry
    | @step is i j path he ih =>
      obtain ⟨his, hik⟩ : (∀ j ∈ is, j < k) ∧ i < k := by simpa [or_imp, forall_and] using his
      rw [Frame.along_append] at hf
      obtain ⟨g, hg, hf⟩ := bind_eq_ok.mp hf
      obtain ⟨f', hstep, hend⟩ := bind_eq_ok.mp hf
      cases hend
      obtain ⟨instr, hi, -, hrule⟩ := hall i (Nat.zero_le i) hik
      have hreturn : instr ≠ .op .returnVoid := fun heq => Nat.lt_asymm hik (hk.returns i (heq ▸ hi))
      rw [Frame.stepAt_eq hi, Frame.apply_ordinary_eq hreturn] at hstep
      have hmeets := hrule g (ih his hg)
      rw [hstep] at hmeets
      rcases hmeets j he with ⟨-, -, hfits⟩ | ⟨l, t, hport, -⟩
      · exact hfits
      · exact hport.elim
  exact hfits path his hf

/-- What a constructor has been called on was uninitialized. -/
theorem Frame.exists_receiver {m : MethodHead} {code : Array Instr} {i : Nat} {op : Opcode} {member : MemberRef}
    {f g : Frame} (h : f.apply m code i (.invoke op member) = .ok g) (hop : op ≠ .invokestatic)
    (hname : member.name = Name.init) : ∃ t, f.receiver? member.descriptor = some t ∧ t.isUninitialized = true := by
  obtain ⟨params, result, f₁, f₂, hd, hargs, ⟨hstatic, -⟩ | ⟨-, hreceiver⟩, -⟩ := applyInvoke_eq_ok h
  · exact absurd hstatic hop
  · obtain ⟨⟨t, f'⟩, hpop, hreceiver⟩ := bind_eq_ok.mp hreceiver
    obtain ⟨hstack, -, -⟩ := popKind_eq_ok.mp hpop
    dsimp only at hreceiver
    rw [if_pos hname] at hreceiver
    obtain ⟨after, hafter, -⟩ := bind_eq_ok.mp hreceiver
    refine ⟨t, by rw [receiver?_eq hd hargs, hstack]; rfl, ?_⟩
    cases t <;> first | rfl | cases hafter

/-- A constructor without arguments that is called on the first slot is called on the receiver. -/
theorem Dataflow.Fixpoint.initializes_base {m : MethodHead} {code : Array Instr} {p : Placement} {entry : Frame}
    {d : Dataflow} {member : MemberRef} {result : List Char} {is : List Nat} (fix : Fixpoint m code p entry d)
    (hentry : m.entryFrame = .ok entry) (hthis : code[0]? = some .this)
    (hcall : code[1]? = some (.invoke .invokespecial member)) (hname : member.name = Name.init)
    (hd : Descriptor.split? member.descriptor = some ([], result)) (path : Path code p is 1) (his : ∀ j ∈ is, j < 1) :
    d.Initializes code 1 := by
  obtain rfl : is = [0] := by
    rcases List.eq_nil_or_concat is with rfl | ⟨js, j, rfl⟩
    · cases path.eq_zero
    · rw [List.concat_eq_append] at path his ⊢
      obtain ⟨hjs, hj⟩ : (∀ j ∈ js, j < 1) ∧ j = 0 := by simpa [or_imp, forall_and] using his
      subst hj
      rcases List.eq_nil_or_concat js with rfl | ⟨ks, k, rfl⟩
      · rfl
      · rw [List.concat_eq_append] at path hjs
        obtain rfl : k = 0 := by simpa using hjs k (by simp)
        rcases (edge_iff hthis).mp path.last.1.last.2 with ⟨_, _, heq, -⟩ | ⟨-, heq⟩ <;> cases heq
  obtain ⟨f, g, halong, hg, hb⟩ := fix.ordinary.path rfl path
  obtain ⟨instr, after, hi, ha, -⟩ := fix.ordinary.fits 1 g hg
  cases hcall.symm.trans hi
  obtain ⟨f', hf', -⟩ := hb.apply rfl code 1 _ after ha
  obtain ⟨t, ht, hinit⟩ := Frame.exists_receiver hf' nofun hname
  have hslot : t = entry.getLocal 0 := by
    obtain ⟨f₁, hstep, hend⟩ := bind_eq_ok.mp halong
    cases hend
    rw [Frame.stepAt_eq hthis] at hstep
    obtain ⟨-, hstep⟩ := ite_eq_ok.mp hstep
    rw [Frame.receiver?_eq hd rfl, ← Except.ok.inj hstep] at ht
    exact (Option.some.inj ht).symm
  have honly : entry.Only fun t => ∀ site, t ≠ .uninitialized site :=
    MethodHead.only_entryFrame nofun (fun t ht => (MethodHead.mem_initialValues ht).2) hentry
  have hthis : t = .uninitializedThis := by
    have hsite := hslot ▸ honly.locals 0
    cases t <;> first | rfl | exact absurd rfl (hsite _) | cases hinit
  refine ⟨_, g, hcall, hg, ?_⟩
  rw [← hb.initializes_eq ha]
  simp [Frame.initializes, hname, ht, hthis]

/-- Where the arguments of a constructor lie above the uninitialized receiver, the call initializes it. -/
theorem Subject.initializes_of_fits {B : Subject} {m : MethodSig} {vs : List Entry} {op : Opcode} {member : MemberRef}
    {f : Frame} (hm : m.WellFormed) (hargs : List.Forall₂ (Ty.Has false) m.paramTypes vs)
    (hd : member.descriptor = m.descriptor) (hop : op ≠ .invokestatic) (hname : member.name = Name.init)
    (hf : B.Fits ⟨false, vs.reverse ++ [.exact .uninitializedThis]⟩ f) : f.initializes (.invoke op member) = true := by
  obtain ⟨g, hpop, hg⟩ := Steps.popArgs (List.forall₂_reverse_iff.mpr hargs)
    (fun t ht => hm.params t (List.mem_reverse.mp ht)) hf
  have hhead : g.stack.head? = some .uninitializedThis := by
    obtain ⟨t, g', hpop, rfl, -⟩ := hg.pop
    rw [(Frame.pop_eq_ok.mp hpop).1]
    rfl
  have hsplit : Descriptor.split? member.descriptor =
      some (m.paramTypes.map Ty.descriptorChars, m.returns.descriptorChars) := by
    rw [hd]
    exact Ty.split?_methodDescriptor (fun t ht => (hm.params t ht).2) m.returns
  rw [List.map_reverse] at hpop
  simp only [Frame.initializes, Bool.and_eq_true, decide_eq_true_eq]
  refine ⟨⟨hop, hname⟩, ?_⟩
  rw [Frame.receiver?_eq hsplit hpop, hhead]

/-! ### Constructors -/

/-- The constructor that a body calls first, and the statements that are not this call. -/
inductive FirstCall (c : Context) (s : Scope) (site : Span) (body : List Stmt) : MemberRef → List Stmt → Prop
  /-- The one without parameters that the base class has. -/
  | implicit {base : String} {cls : ClassSig} {m : MethodSig} (hbody : beginsWithConstructor body = false)
      (hbase : c.own.base = some base) (hcls : (c.resolveClass base site).result = .ok cls)
      (hm : cls.method? Name.init [] = some m) :
      FirstCall c s site body ⟨cls.name, Name.init, m.descriptor, false⟩ body
  /-- The one that the first statement calls. -/
  | explicit {x : Source.Expr} {rest : List Stmt} {call : Source.Call} {target : CallTarget} {types : List Ty}
      {e : Emitter} {m : MethodSig} {interface : Bool} (hbody : body = .expr x :: rest)
      (hx : ConstructorCall c x call target) (hargs : Runs (lowerArgs c s call.args) (Emitter.emit {} .this) types e)
      (hm : (c.method? target.cls.name Name.init types call.span).result = .ok (some m)) :
      FirstCall c s site body ⟨target.cls.name, Name.init, m.descriptor, interface⟩ rest

/-- The code of a constructor has the first call at `k`, and behind it the code of the other statements. -/
def Opens (c : Context) (method : MethodSig) (site : Span) (body : List Stmt) (code : Array Instr) (k : Nat) : Prop :=
  ∃ op member rest s s' e e', FirstCall c s site body member rest ∧ code[k]? = some (.invoke op member) ∧
    Runs (lowerBlock c rest) ⟨s, e⟩ () ⟨s', e'⟩ ∧ e.size = k + 1 ∧ (e'.emitAll method.closing).instrs = code

namespace Lowered
variable {c : Context} {method : MethodSig} {body : List Stmt} {site : Span} {out : MethodBody} {s₀ s : Scope}
  {e₀ e : Emitter} {p : Placement}

/-- A path initializes the receiver when it comes to `k` for the first time. -/
def InitializesAt (c : Context) (method : MethodSig) (code : Array Instr) (p : Placement) (k : Nat) : Prop :=
  ∀ entry d, (c.head method).entryFrame = .ok entry → Dataflow.Fixpoint (c.head method) code p entry d →
    ∀ is, Path code p is k → (∀ j ∈ is, j < k) → d.Initializes code k

theorem opening_implicit (h : Lowered c method body site out s₀ s e₀ e) (hp : out.code.placement = .ok p)
    (hctor : method.isConstructor = true) (hbody : beginsWithConstructor body = false) :
    ∃ k, Opens c method site body out.code.instrs k ∧ Gate out.code.instrs p k ∧
      InitializesAt c method out.code.instrs p k := by
  have hbase : Runs (lowerBaseConstructor c site) {} () e₀ := by
    rcases h.opening with ⟨-, hbase⟩ | ⟨hopen, -⟩
    · exact hbase
    · simp [hctor, hbody] at hopen
  obtain ⟨cls, m, base, hname, hcls, hm, rfl⟩ := runs_baseConstructor hbase
  have w := h.opening_within
  have hcall := w.get (k := 1) rfl
  refine ⟨1, ⟨_, _, body, s₀, s, _, e, .implicit hbody hname hcls hm, hcall, h.body, rfl, ?_⟩, ?_, ?_⟩
  · rw [h.code]
  · have hthis : Emitter.Extends {} (Emitter.emit {} .this) := .plain {} rfl
    exact Emitter.gate (out.code.position?_eq_some hp) hthis (.emit _ Instr.continues_this) w Nat.one_pos
  · intro entry d hentry fix is path his
    obtain ⟨-, hparams⟩ := cls.method?_eq_some hm
    have hsplit : Descriptor.split? m.descriptor = some ([], m.returns.descriptorChars) := by
      rw [MethodSig.descriptor, hparams]
      exact Ty.split?_methodDescriptor (List.forall_mem_nil _) m.returns
    exact fix.initializes_base hentry (w.get (k := 0) rfl) hcall rfl hsplit path his

theorem opening_explicit (h : Lowered c method body site out s₀ s e₀ e) (hp : out.code.placement = .ok p)
    (hc : c.classes.WellFormed) (hm : method.WellFormed) (hctor : method.isConstructor = true)
    (hbody : beginsWithConstructor body = true) :
    ∃ k, Opens c method site body out.code.instrs k ∧ Gate out.code.instrs p k ∧
      InitializesAt c method out.code.instrs p k := by
  obtain rfl : {} = e₀ := by
    rcases h.opening with ⟨hopen, -⟩ | ⟨-, hempty⟩
    · simp [hbody] at hopen
    · exact hempty
  have hB := h.sound hc hm hp
  have hexplicit : (subject c method body out p s).explicit = true := by simp [subject, hctor, hbody]
  obtain ⟨x, rest, call, target, types, t, e₁, e₂, hfirst, hx, hargs, hinvoke, hrest⟩ := runs_first hbody h.body
  obtain ⟨vs, hvs, hemits⟩ := Subject.emits_arguments hB hexplicit h.grows hargs hinvoke
  obtain ⟨m, interface, hfound, -, ht, rfl⟩ := runs_invoke hinvoke
  obtain ⟨hm', hname, rfl⟩ := Context.wellFormed_method? hc hfound
  obtain ⟨hstatic, hvoid⟩ := hm'.constructors (beq_iff_eq.mpr hname)
  obtain rfl : t = .void := by rw [ht, hx.isNew_eq, hvoid]; rfl
  have hop : (CallKind.of target m).opcode ≠ .invokestatic := fun hop => by
    rw [(CallKind.opcode_of target m).mp hop] at hstatic
    cases hstatic
  rw [hname] at hrest
  replace hrest : Runs (lowerBlock c rest) ⟨s₀, e₁.emit (.invoke (CallKind.of target m).opcode
      ⟨target.cls.name, Name.init, m.descriptor, interface⟩)⟩ () ⟨s, e⟩ := by
    rwa [hstatic] at hrest
  have w := (BodyM.Adds.lowerBlock c rest hrest).1.toGrows.within h.body_within
  have hgate : Gate out.code.instrs p e₁.size := by
    have hthis : Emitter.Extends {} (Emitter.emit {} .this) := .plain {} rfl
    have hadds := EmitM.Adds.lowerArgs c s₀ _ _ _ _ hargs
    have hreceiver : Emitter.Appends Instr.Continues {} (Emitter.emit {} .this) := .emit {} Instr.continues_this
    have hpushed := Emitter.Appends.kept_continues.compositional.lowerArgs (fun x _ =>
      (Emitter.Appends.kept_continues.exprSteps (fun _ => trivial) s₀).forExpr x) _ _ _ hargs
    exact Emitter.gate (out.code.position?_eq_some hp) (hthis.trans hadds) (hreceiver.trans hpushed) w hadds.size_le
  refine ⟨e₁.size, ⟨_, _, rest, s₀, s, _, e, .explicit hfirst hx hargs hfound, w.instr, hrest, Emitter.size_emit _ _, ?_⟩,
    hgate, ?_⟩
  · rw [h.code]
  · intro entry d hentry fix is path his
    obtain ⟨entry', hentry', hfits⟩ := h.exists_entry (p := p) hm
    cases hentry.symm.trans hentry'
    rw [hctor] at hfits
    obtain ⟨f, g, halong, hg, hb⟩ := fix.ordinary.path rfl path
    obtain ⟨instr, after, hi, ha, -⟩ := fix.ordinary.fits _ g hg
    cases w.instr.symm.trans hi
    have htyped := hemits.typed ((Emitter.Grows.emit e₁ _).within w)
    refine ⟨_, g, w.instr, hg, ?_⟩
    rw [← hb.initializes_eq ha]
    exact Subject.initializes_of_fits hm' hvs rfl hop rfl (htyped.fits_of_path hgate hfits path his halong)

end Lowered

/-- Each way through the code of a constructor to a return calls a constructor on the uninitialized receiver exactly
    once. It is the one that the body begins with or, if there is none, the one without parameters of the base class, and
    it is called before anything is done for the other statements. If the body begins with the call, the classes have to
    be well-formed, so that no static method is taken for a constructor. -/
theorem constructor_initializes_once {c : Context} {method : MethodSig} {body : List Stmt} {site : Span}
    {out : MethodBody} {stackMaps : Bool} {b b' : PoolBuilder} {a : Assembled} (hctor : method.isConstructor = true)
    (hwf : beginsWithConstructor body = true → c.classes.WellFormed ∧ method.WellFormed)
    (hlower : (lowerMethod c method body site).result = .ok out)
    (hassemble : (out.code.assemble (c.head method) stackMaps).on b = (.ok a, b')) :
    ∃ p entry d k, out.code.placement = .ok p ∧ (c.head method).entryFrame = .ok entry ∧
      Dataflow.analyze (c.head method) out.code.instrs p entry = .ok d ∧
      Opens c method site body out.code.instrs k ∧
      ∀ is i, Path out.code.instrs p is i → out.code.instrs[i]? = some (.op .returnVoid) →
        ∃ before after, is = before ++ k :: after ∧ (∀ j ∈ before, j < k) ∧ (∀ j ∈ after, k < j) ∧
          ∀ j ∈ is, d.Initializes out.code.instrs j ↔ j = k := by
  obtain ⟨p, entry, d, -, -, -, -, hp, hentry, hd, -⟩ := Code.assemble_eq_ok hassemble
  obtain ⟨s₀, s, e₀, e, h⟩ := exists_lowered hlower
  obtain ⟨k, hopens, hgate, hinit⟩ : ∃ k, Opens c method site body out.code.instrs k ∧ Gate out.code.instrs p k ∧
      Lowered.InitializesAt c method out.code.instrs p k := by
    cases hbody : beginsWithConstructor body with
    | false => exact h.opening_implicit hp hctor hbody
    | true =>
      obtain ⟨hc, hm⟩ := hwf hbody
      exact h.opening_explicit hp hc hm hctor hbody
  refine ⟨p, entry, d, k, hp, hentry, hd, hopens, fun is i path hi => ?_⟩
  have fix := Dataflow.analyze_fixpoint (out.code.position?_lt hp) hd
  exact fix.initializes_iff hgate path (hgate.returns i hi) (hinit entry d hentry fix)

theorem constructor_initializes_once_early : ∃ out a b p entry d k, (MethodSig.constructor []).isConstructor = true ∧
    counterContext.classes.WellFormed ∧ (MethodSig.constructor []).WellFormed ∧
    (lowerMethod counterContext (.constructor []) earlyBody {}).result = .ok out ∧
    (out.code.assemble earlyHead true).on (.after []) = (.ok a, b) ∧
    Dataflow.analyze earlyHead out.code.instrs p entry = .ok d ∧
    Opens counterContext (.constructor []) {} earlyBody out.code.instrs k ∧
    ∀ is i, Path out.code.instrs p is i → out.code.instrs[i]? = some (.op .returnVoid) →
      ∃ before after, is = before ++ k :: after ∧ (∀ j ∈ before, j < k) ∧ (∀ j ∈ after, k < j) ∧
        ∀ j ∈ is, d.Initializes out.code.instrs j ↔ j = k := by
  obtain ⟨out, a, b, hout, hcode, hassemble⟩ := earlyBody_accepted
  rw [← hcode] at hassemble
  have hm : (MethodSig.constructor []).WellFormed := by decide
  obtain ⟨p, entry, d, k, -, -, hd, hopens, hpaths⟩ :=
    constructor_initializes_once rfl (fun _ => ⟨wellFormed_counter, hm⟩) hout hassemble
  exact ⟨out, a, b, p, entry, d, k, rfl, wellFormed_counter, hm, hout, hassemble, hd, hopens, hpaths⟩

/-! ### A static method in place of a constructor -/

/-- The base class has a static method that goes by the name of a constructor. -/
def disguisedBase : ClassSig where
  name := "demo/Base"
  methods := [{ MethodSig.constructor [⟨"n", .int⟩] with isStatic := true }]

def disguisedClass : ClassSig where
  name := "demo/Counter"
  base := disguisedBase.name
  methods := [.constructor []]

def disguisedContext : Context where
  classes := ClassTable.view { provider := fun _ => .ok none, sources := [⟨0, disguisedBase⟩, ⟨1, disguisedClass⟩] }
  imports := {}
  own := disguisedClass
  options := {}

/-- Calls the static method as a constructor, and then puts a new object in the place of the receiver. -/
def disguisedBody : List Stmt :=
  let call (name : String) (args : List Source.Expr) : Source.Expr :=
    (Source.MathExpr.mk ⟨[], .chain [.call ⟨⟨name, {}⟩, args, {}⟩] {}, {}⟩ [] {}).toAnd.toExpr
  [.expr (call Name.constructorKeyword [fiveExpr]), .assign ⟨"this", {}⟩ (call "demo/Counter" []) {}]

def disguisedCode : Code :=
  ⟨#[.this, .int 5, .invoke .invokestatic ⟨"demo/Counter", Name.init, "(I)V", false⟩, .type .new "demo/Counter", .op .dup,
    .invoke .invokespecial ⟨"demo/Counter", Name.init, "()V", false⟩, .store .ref 0, .op .returnVoid], 0⟩

/-- The code is accepted, although no constructor is called on the receiver. -/
theorem disguised_returns_uninitialized : ∃ out a b p entry d, beginsWithConstructor disguisedBody = true ∧
    (lowerMethod disguisedContext (.constructor []) disguisedBody {}).result = .ok out ∧
    (out.code.assemble (disguisedContext.head (.constructor [])) true).on (.after []) = (.ok a, b) ∧
    out.code.placement = .ok p ∧ (disguisedContext.head (.constructor [])).entryFrame = .ok entry ∧
    Dataflow.analyze (disguisedContext.head (.constructor [])) out.code.instrs p entry = .ok d ∧
    Path out.code.instrs p [0, 1, 2, 3, 4, 5, 6] 7 ∧ out.code.instrs[7]? = some (.op .returnVoid) ∧
    ∀ k ∈ [0, 1, 2, 3, 4, 5, 6], ¬d.Initializes out.code.instrs k := by
  obtain ⟨out, hout, hcode⟩ : ∃ out, (lowerMethod disguisedContext (.constructor []) disguisedBody {}).result = .ok out ∧
      out.code = disguisedCode := exists_code (by decide +kernel)
  obtain ⟨a, b, hassemble⟩ : ∃ a b, (disguisedCode.assemble (disguisedContext.head (.constructor [])) true).on (.after []) =
      (.ok a, b) :=
    exists_ok_of_toBool (by decide +kernel)
  have hcalls : (Dataflow.analyze (disguisedContext.head (.constructor [])) disguisedCode.instrs ⟨#[]⟩
      { locals := [.uninitializedThis] }).toOption.any (fun d =>
        decide (∀ k : Nat, k ∈ [0, 1, 2, 3, 4, 5, 6] → ¬d.Initializes disguisedCode.instrs k)) = true := by
    decide +kernel
  obtain ⟨d, hd, hcalls⟩ := (Option.any_eq_true ..).mp hcalls
  have path : Path disguisedCode.instrs ⟨#[]⟩ [0, 1, 2, 3, 4, 5, 6] 7 :=
    .step (.step (.step (.step (.step (.step (.step .start (.next rfl rfl)) (.next rfl rfl)) (.next rfl rfl))
      (.next rfl rfl)) (.next rfl rfl)) (.next rfl rfl)) (.next rfl rfl)
  rw [← hcode] at hassemble hd hcalls path
  exact ⟨out, a, b, ⟨#[]⟩, _, d, rfl, hout, hassemble, by rw [hcode]; rfl, by decide +kernel, toOption_eq_some.mp hd, path,
    by rw [hcode]; rfl, of_decide_eq_true hcalls⟩

end Classwright
