import Classwright.Proofs.Typing.Call

/-! # Typing expressions

An expression leaves one value of its type on the stack, on top of what was there. An expression of type `void` leaves
nothing. As long as a constructor has called no other one, only expressions with a value are looked at: the others could
call it. -/

namespace Classwright

/-- What stands on the stack for what the links of a chain have come to. -/
inductive ChainState.Leaves (b : Bool) (σ : List Entry) : ChainState → List Entry → Prop
  | start : Leaves b σ .start σ
  | super (site : Span) : Leaves b σ (.super site) (.receiver b :: σ)
  | cls (c : ClassSig) : Leaves b σ (.cls c) σ
  | value {t : Ty} {σ' : List Entry} (h : t.Leaves b σ σ') : Leaves b σ (.value t) σ'

namespace Subject
variable {B : Subject} {c : Context} {s : Scope} {b : Bool} {σ σ₁ : List Entry} {e e' : Emitter}

/-- The computation leaves a value of the type that it gives. -/
def Pushes (B : Subject) (b : Bool) (x : EmitM Ty) : Prop :=
  ∀ ⦃e : Emitter⦄ ⦃t : Ty⦄ ⦃e' : Emitter⦄, Runs x e t e' → (t.isVoid = true → b = true) → ∀ σ, Sites e.size σ →
    ∃ σ', t.Leaves b σ σ' ∧ B.Emits .none e e' ⟨b, σ⟩ ⟨b, σ'⟩

theorem Pushes.value {x : EmitM Ty} (h : B.Pushes b x) {t : Ty} (hr : Runs x e t e') (hvoid : t.isVoid = false)
    (hσ : Sites e.size σ) : ∃ v, t.Has b v ∧ B.Emits .none e e' ⟨b, σ⟩ ⟨b, v :: σ⟩ := by
  obtain ⟨σ', hleaves, hemits⟩ := h hr (by simp [hvoid]) σ hσ
  obtain ⟨v, hv, rfl⟩ := hleaves.exists_value hvoid
  exact ⟨v, hv, hemits⟩

/-! ### Fields -/

theorem literal {l : Source.Literal} {t : Ty} (h : Runs (lowerLiteral l) e t e') :
    ∃ v, t.isVoid = false ∧ t.Has b v ∧ B.Emits .none e e' ⟨b, σ⟩ ⟨b, v :: σ⟩ := by
  obtain ⟨v, e₁, hv, h⟩ := Runs.bind_iff.mp (show Runs (_ >>= _) e t e' from h)
  obtain ⟨-, rfl⟩ := Runs.lift_iff.mp hv
  obtain ⟨rfl, rfl⟩ : e.emit v.code = e' ∧ v.type = t := by simpa using h
  have hvalue : v.type.isVoid = false := by cases v <;> rfl
  exact ⟨_, hvalue, .inl rfl, .emit (Steps.literal v) (by cases v <;> nofun)⟩

theorem isReference_of_memberOwner {t : Ty} {member : Source.Ident} {name : String}
    (h : (memberOwner t member).result = .ok name) : t.isReference = true := by
  obtain ⟨elem, isArray⟩ := t
  cases elem <;> cases isArray <;> first | rfl | cases h

theorem wellFormed_requireField (hc : c.classes.WellFormed) {owner : ClassSig} {ident : Source.Ident} {f : FieldSig}
    (h : (requireField c owner ident).result = .ok f) : f.WellFormed := by
  obtain ⟨found, hfound, h⟩ := Lookup.bind_result.mp h
  split at h
  · cases h
    exact Context.wellFormed_field? hc hfound
  · cases h

section Chains
variable (hB : B.Sound c)
include hB

theorem leaves_staticField {owner : ClassSig} {ident : Source.Ident} {state : ChainState}
    (h : Runs (lowerStaticField c owner ident) e state e') :
    ∃ σ', state.Leaves b σ σ' ∧ B.Emits .none e e' ⟨b, σ⟩ ⟨b, σ'⟩ := by
  obtain ⟨f, e₁, hrun, h⟩ := Runs.bind_iff.mp (show Runs (_ >>= _) e state e' from h)
  obtain ⟨hf, rfl⟩ := Runs.lift_iff.mp hrun
  obtain ⟨hvalue, hnamed⟩ := wellFormed_requireField hB.classes hf
  rcases Runs.ite_iff.mp h with ⟨-, h⟩ | ⟨hstatic, h⟩
  · simp at h
  · obtain ⟨rfl, rfl⟩ : e.emit (f.getCode owner.name) = e' ∧ .value f.type = state := by simpa using h
    exact ⟨_, .value (.value hvalue (.inl rfl)),
      .emit (Steps.getstatic hnamed hvalue (by simpa using hstatic)) nofun⟩

variable (hb : b = false → B.explicit = true)
include hb

theorem leaves_valueField {t : Ty} {ident : Source.Ident} {state : ChainState} (hσ : t.Leaves b σ σ₁)
    (h : Runs (lowerValueField c t ident) e state e') :
    ∃ σ', state.Leaves b σ σ' ∧ B.Emits .none e e' ⟨b, σ₁⟩ ⟨b, σ'⟩ := by
  obtain ⟨name, e₁, hrun, h⟩ := Runs.bind_iff.mp (show Runs (_ >>= _) e state e' from h)
  obtain ⟨hname, rfl⟩ := Runs.lift_iff.mp hrun
  obtain ⟨owner, e₁, hrun, h⟩ := Runs.bind_iff.mp h
  obtain ⟨-, rfl⟩ := Runs.lift_iff.mp hrun
  obtain ⟨f, e₁, hrun, h⟩ := Runs.bind_iff.mp h
  obtain ⟨hf, rfl⟩ := Runs.lift_iff.mp hrun
  obtain ⟨hvalue, hnamed⟩ := wellFormed_requireField hB.classes hf
  obtain ⟨_, e₁, hpop, h⟩ := Runs.bind_iff.mp h
  obtain rfl := Runs.emitAll_iff.mp hpop
  obtain ⟨rfl, rfl⟩ : _ = e' ∧ ChainState.value f.type = state := by simpa using h
  have href := isReference_of_memberOwner hname
  obtain ⟨v, hv, rfl⟩ := hσ.exists_value (Ty.isVoid_of_isReference href)
  have hvr := hv.isReference href
  refine ⟨_, .value (.value hvalue (.inl rfl)), ?_⟩
  cases hfs : f.isStatic with
  | true =>
    exact .trans (.emit (Steps.pop (VType.width_of_isReference hvr)) nofun)
      (.emit (Steps.getstatic hnamed hvalue hfs) nofun)
  | false => exact .emit (Steps.getfield hnamed hvalue hfs hvr (.of_has hv hb)) nofun

/-! ### Receivers -/

variable (hs : s.Grows B.scope)
include hs

omit hb in
theorem static_of_requireConstructor {site : Span} (h : (requireConstructor s site).result = .ok ()) :
    B.scope.method.isStatic = false := by
  unfold requireConstructor at h
  split at h
  · rename_i hctor
    rw [← hs.method] at hctor
    exact hB.constructors hctor
  · cases h

/-- A call at the start of a chain puts its receiver on the stack, if it has one. -/
theorem below_startCall {name : Source.Ident} {site : Span} {target : CallTarget × String} (hsites : Sites e.size σ)
    (h : Runs (startCall c s name site) e target e') :
    ∃ σ', B.Below b e' target.1 target.2 σ σ' ∧ Sites e'.size σ' ∧ B.Emits .none e e' ⟨b, σ⟩ ⟨b, σ'⟩ := by
  have hthis (hstatic : B.scope.method.isStatic = false) :
      Sites (e.emit .this).size (.receiver b :: σ) ∧ B.Emits .none e (e.emit .this) ⟨b, σ⟩ ⟨b, .receiver b :: σ⟩ := by
    have hemits : B.Emits .none e (e.emit .this) ⟨b, σ⟩ ⟨b, .receiver b :: σ⟩ := .emit (Steps.this hB hstatic) nofun
    exact ⟨(hsites.mono hemits.grows.size_le).receiver b, hemits⟩
  unfold startCall at h
  rcases Runs.ite_iff.mp h with ⟨-, h⟩ | ⟨-, h⟩
  · obtain ⟨_, e₁, hrun, h⟩ := Runs.bind_iff.mp h
    obtain ⟨hctor, rfl⟩ := Runs.lift_iff.mp hrun
    obtain ⟨rfl, rfl⟩ : e.emit .this = e' ∧ _ = target := by simpa using h
    exact ⟨_, .this rfl rfl, hthis (static_of_requireConstructor hB hs hctor)⟩
  · obtain ⟨found, e₁, hrun, h⟩ := Runs.bind_iff.mp h
    obtain ⟨-, rfl⟩ := Runs.lift_iff.mp hrun
    split at h
    · rename_i cls
      rcases Runs.ite_iff.mp h with ⟨-, h⟩ | ⟨-, h⟩
      · simp at h
      · obtain ⟨_, e₁, hrun, h⟩ := Runs.bind_iff.mp h
        obtain rfl := Runs.emitAll_iff.mp hrun
        obtain ⟨rfl, rfl⟩ := Runs.pure_iff.mp h
        have hnew : B.Emits .none e (e.emitAll [.type .new cls.name, .op .dup]) ⟨b, σ⟩
            ⟨b, .exact (.uninitialized e.size) :: .exact (.uninitialized e.size) :: σ⟩ :=
          .trans (.emit (Steps.new cls.name) nofun) (.emit (Steps.dup rfl) nofun)
        refine ⟨_, .new rfl rfl (fun w => w.get (k := 0) rfl) fun hmem => ?_, fun site hmem => ?_, hnew⟩
        · exact Nat.lt_irrefl _ (hsites _ hmem)
        · have hle := hnew.grows.size_le
          rw [Emitter.size_emitAll] at hle ⊢
          simp only [List.mem_cons, Entry.exact.injEq, VType.uninitialized.injEq] at hmem
          rcases hmem with rfl | rfl | hmem
          · exact Nat.lt_add_of_pos_right Nat.two_pos
          · exact Nat.lt_add_of_pos_right Nat.two_pos
          · exact Nat.lt_of_lt_of_le (hsites site hmem) hle
    · obtain ⟨_, e₁, hrun, h⟩ := Runs.bind_iff.mp h
      obtain rfl := Runs.emitAll_iff.mp hrun
      obtain ⟨rfl, rfl⟩ := Runs.pure_iff.mp h
      rw [← hs.method]
      cases hstatic : B.scope.method.isStatic with
      | true => exact ⟨_, .nothing rfl rfl rfl, hsites, .nil⟩
      | false =>
        obtain ⟨hsites, hemits⟩ := hthis hstatic
        exact ⟨_, .receiver (Entry.isReference_receiver b) (.receiver hb) (by rintro rfl; rfl) rfl rfl, hsites, hemits⟩

theorem below_callTarget {state : ChainState} {name : Source.Ident} {site : Span} {target : CallTarget × String}
    (hσ : state.Leaves b σ σ₁) (hsites : Sites e.size σ) (h : Runs (callTarget c s state name site) e target e') :
    ∃ σ', B.Below b e' target.1 target.2 σ σ' ∧ Sites e'.size σ' ∧ B.Emits .none e e' ⟨b, σ₁⟩ ⟨b, σ'⟩ := by
  unfold callTarget at h
  split at h
  · cases hσ
    exact below_startCall hB hb hs hsites h
  · cases hσ
    unfold superCall at h
    split at h
    · cases Runs.throw_iff h
    · obtain ⟨cls, e₁, hrun, h⟩ := Runs.bind_iff.mp h
      obtain ⟨-, rfl⟩ := Runs.lift_iff.mp hrun
      have hreceiver : ∃ name, ({ cls, special := true, receiverPushed := true }, name) = target ∧ e = e' := by
        rcases Runs.ite_iff.mp h with ⟨-, h⟩ | ⟨-, h⟩
        · obtain ⟨_, e₁, hrun, h⟩ := Runs.bind_iff.mp h
          obtain ⟨-, rfl⟩ := Runs.lift_iff.mp hrun
          exact ⟨_, Runs.pure_iff.mp h⟩
        · exact ⟨_, Runs.pure_iff.mp h⟩
      obtain ⟨name, rfl, rfl⟩ := hreceiver
      exact ⟨_, .receiver (Entry.isReference_receiver b) (.receiver hb) (by rintro rfl; rfl) rfl rfl, hsites.receiver b,
        .nil⟩
  · cases hσ
    obtain ⟨rfl, rfl⟩ := Runs.pure_iff.mp h
    exact ⟨_, .nothing rfl rfl rfl, hsites, .nil⟩
  · rename_i t
    obtain ⟨owner, e₁, hrun, h⟩ := Runs.bind_iff.mp h
    obtain ⟨howner, rfl⟩ := Runs.lift_iff.mp hrun
    obtain ⟨cls, e₁, hrun, h⟩ := Runs.bind_iff.mp h
    obtain ⟨-, rfl⟩ := Runs.lift_iff.mp hrun
    obtain ⟨rfl, rfl⟩ := Runs.pure_iff.mp h
    cases hσ with
    | value hσ =>
      have href := isReference_of_memberOwner howner
      obtain ⟨v, hv, rfl⟩ := hσ.exists_value (Ty.isVoid_of_isReference href)
      refine ⟨_, .receiver (hv.isReference href) (.of_has hv hb) ?_ rfl rfl, hsites.leaves hσ, .nil⟩
      rintro rfl
      rw [hv.eq_entry, Ty.entry_of_isReference href]

/-! ### Links -/

/-- A name stands for a local, for a field of the class or for a class. -/
theorem leaves_name {ident : Source.Ident} {state : ChainState} (h : Runs (lowerName c s ident) e state e') :
    ∃ σ', state.Leaves b σ σ' ∧ B.Emits .none e e' ⟨b, σ⟩ ⟨b, σ'⟩ := by
  unfold lowerName at h
  split at h
  · rename_i v hv
    obtain ⟨rfl, rfl⟩ : e.emitAll (v.type.loadCode v.slot) = e' ∧ .value v.type = state := by simpa using h
    have hv := hs.get? hv
    have hvoid := hB.values _ _ hv
    have hhas : v.type.Has b (v.entry b) := Local.has_entry fun hfalse =>
      hB.isReference_receiver (hB.explicit (hb hfalse)) hv
    obtain ⟨-, kind, -, hkind, -, hsample, -⟩ := hhas.value hvoid
    rw [Ty.loadCode, hkind]
    exact ⟨_, .value (.value hvoid hhas), .emit (Steps.load hv hsample) nofun⟩
  · obtain ⟨found, e₁, hfound, h⟩ := Runs.bind_iff.mp h
    obtain ⟨hf, rfl⟩ := Runs.lift_iff.mp hfound
    split at h
    · rename_i f
      obtain ⟨hvalue, hnamed⟩ := Context.wellFormed_field? hB.classes hf
      rcases Runs.ite_iff.mp h with ⟨-, h⟩ | ⟨hstatic, h⟩
      · simp at h
      · obtain ⟨_, e₁, hthis, h⟩ := Runs.bind_iff.mp h
        obtain rfl := Runs.emitAll_iff.mp hthis
        obtain ⟨rfl, rfl⟩ : _ = e' ∧ ChainState.value f.type = state := by simpa using h
        refine ⟨_, .value (.value hvalue (.inl rfl)), ?_⟩
        cases hfs : f.isStatic with
        | true => exact .emit (Steps.getstatic hnamed hvalue hfs) nofun
        | false =>
          have hms : B.scope.method.isStatic = false := by simpa [hfs, hs.method] using hstatic
          exact .trans (.emit (Steps.this hB hms) nofun)
            (.emit (Steps.getfield hnamed hvalue hfs (Entry.isReference_receiver b) (.receiver hb)) nofun)
    · obtain ⟨found, e₁, hfound, h⟩ := Runs.bind_iff.mp h
      obtain ⟨-, rfl⟩ := Runs.lift_iff.mp hfound
      split at h
      · obtain ⟨rfl, rfl⟩ := Runs.pure_iff.mp h
        exact ⟨_, .cls _, .nil⟩
      · cases Runs.throw_iff h

/-- A link that is no call. -/
theorem leaves_link {state state' : ChainState} {link : Source.Link} (hσ : state.Leaves b σ σ₁)
    (h : Runs (lowerLink c s state link) e state' e') :
    ∃ σ', state'.Leaves b σ σ' ∧ B.Emits .none e e' ⟨b, σ₁⟩ ⟨b, σ'⟩ := by
  unfold lowerLink at h
  split at h
  · cases hσ
    obtain ⟨t, e₁, ht, h⟩ := Runs.bind_iff.mp h
    obtain ⟨rfl, rfl⟩ := Runs.pure_iff.mp h
    obtain ⟨v, hvalue, hhas, hemits⟩ := literal ht
    exact ⟨_, .value (.value hvalue hhas), hemits⟩
  · cases hσ
    rcases Runs.ite_iff.mp h with ⟨-, h⟩ | ⟨hstatic, h⟩
    · simp at h
    · obtain ⟨rfl, rfl⟩ : e.emit .this = e' ∧ _ = state' := by simpa using h
      exact ⟨_, .super _, .emit (Steps.this hB (by simpa [hs.method] using hstatic)) nofun⟩
  · cases hσ
    exact leaves_name hB hb hs h
  · cases Runs.throw_iff h
  · cases hσ
    exact leaves_staticField hB h
  · cases hσ with
    | value hσ => exact leaves_valueField hB hb hσ h
  · cases Runs.throw_iff h

omit hB hb hs in
/-- Nothing can be made of a value that is none. -/
theorem eq_value_of_links {t : Ty} {links : List Source.Link} {state : ChainState} (hvoid : t.isVoid = true)
    (h : Runs (lowerLinks c s (.value t) links) e state e') : state = .value t := by
  obtain rfl := Ty.eq_void hvoid
  cases links with
  | nil => exact (Runs.pure_iff.mp h).1.symm
  | cons link rest =>
    cases link with
    | call call =>
      obtain ⟨name, args, span⟩ := call
      obtain ⟨target, e₁, h, -⟩ := Runs.bind_iff.mp (show Runs (_ >>= _) e state e' from h)
      obtain ⟨owner, e₂, h, -⟩ := Runs.bind_iff.mp h
      cases (Runs.lift_iff.mp h).1
    | name x =>
      obtain ⟨state', e₁, h, -⟩ := Runs.bind_iff.mp (show Runs (_ >>= _) e state e' from h)
      obtain ⟨owner, e₂, h, -⟩ := Runs.bind_iff.mp (show Runs (_ >>= _) e state' e₁ from h)
      cases (Runs.lift_iff.mp h).1
    | text l =>
      obtain ⟨state', e₁, h, -⟩ := Runs.bind_iff.mp (show Runs (_ >>= _) e state e' from h)
      cases Runs.throw_iff h
    | super site =>
      obtain ⟨state', e₁, h, -⟩ := Runs.bind_iff.mp (show Runs (_ >>= _) e state e' from h)
      cases Runs.throw_iff h

omit hB hb hs in
theorem Emits.args {args : List Source.Expr} (hargs : ∀ x ∈ args, B.Pushes b (lowerExpr c s x)) {types : List Ty}
    (h : Runs (lowerArgs c s args) e types e') (hvalues : ∀ t ∈ types, t.isVoid = false) (hsites : Sites e.size σ) :
    ∃ vs, List.Forall₂ (Ty.Has b) types vs ∧ B.Emits .none e e' ⟨b, σ⟩ ⟨b, vs.reverse ++ σ⟩ := by
  induction args generalizing e types σ with
  | nil =>
    obtain ⟨rfl, rfl⟩ := Runs.pure_iff.mp h
    exact ⟨[], .nil, .nil⟩
  | cons x rest ih =>
    obtain ⟨hx, hrest⟩ := List.forall_mem_cons.mp hargs
    obtain ⟨t, e₁, hrun, h⟩ := Runs.bind_iff.mp (show Runs (_ >>= _) e types e' from h)
    obtain ⟨ts, e₂, hruns, h⟩ := Runs.bind_iff.mp h
    obtain ⟨rfl, rfl⟩ := Runs.pure_iff.mp h
    obtain ⟨ht, hts⟩ := List.forall_mem_cons.mp hvalues
    obtain ⟨v, hv, hemits⟩ := hx.value hrun ht hsites
    obtain ⟨vs, hvs, hall⟩ := ih hrest hruns hts ((hsites.mono hemits.grows.size_le).cons hv.ne_uninitialized)
    refine ⟨v :: vs, .cons hv hvs, hemits.trans ?_⟩
    rwa [List.reverse_cons, List.append_assoc]

/-- A chain leaves what its last link stands for. -/
theorem leaves_links {links : List Source.Link}
    (hargs : ∀ call, .call call ∈ links → ∀ x ∈ call.args, B.Pushes b (lowerExpr c s x)) {state state' : ChainState}
    (hσ : state.Leaves b σ σ₁) (hsites : Sites e.size σ) (h : Runs (lowerLinks c s state links) e state' e')
    (hvoid : ∀ t, state' = .value t → t.isVoid = true → b = true) :
    ∃ σ', state'.Leaves b σ σ' ∧ B.Emits .none e e' ⟨b, σ₁⟩ ⟨b, σ'⟩ := by
  induction links generalizing e state σ₁ with
  | nil =>
    obtain ⟨rfl, rfl⟩ := Runs.pure_iff.mp h
    exact ⟨σ₁, hσ, .nil⟩
  | cons link rest ih =>
    have hargs' : ∀ call, .call call ∈ rest → ∀ x ∈ call.args, B.Pushes b (lowerExpr c s x) :=
      fun call hc => hargs call (List.mem_cons_of_mem link hc)
    have hother : ∀ {state₁ e₁}, Runs (lowerLink c s state link) e state₁ e₁ →
        Runs (lowerLinks c s state₁ rest) e₁ state' e' →
        ∃ σ', state'.Leaves b σ σ' ∧ B.Emits .none e e' ⟨b, σ₁⟩ ⟨b, σ'⟩ := fun hlink hrest => by
      obtain ⟨σ₂, hσ₂, hemits⟩ := leaves_link hB hb hs hσ hlink
      obtain ⟨σ', hσ', hall⟩ := ih hargs' hσ₂ (hsites.mono hemits.grows.size_le) hrest
      exact ⟨σ', hσ', hemits.trans hall⟩
    cases link with
    | call call =>
      obtain ⟨name, args, span⟩ := call
      obtain ⟨target, e₁, htarget, h⟩ := Runs.bind_iff.mp (show Runs (_ >>= _) e state' e' from h)
      obtain ⟨types, e₂, htypes, h⟩ := Runs.bind_iff.mp h
      obtain ⟨t, e₃, hinvoke, h⟩ := Runs.bind_iff.mp h
      obtain ⟨σ₂, hbelow, hsites₂, hfirst⟩ := below_callTarget hB hb hs hσ hsites htarget
      have hvalues := values_of_invoke hB.classes hinvoke
      obtain ⟨vs, hvs, hsecond⟩ := Emits.args (hargs _ List.mem_cons_self) htypes hvalues hsites₂
      obtain ⟨σ₃, hσ₃, hthird⟩ := Emits.invoke hB hb hinvoke hbelow hsecond.grows hvs fun ht =>
        hvoid t (eq_value_of_links ht h) ht
      have hemits := (hfirst.trans hsecond).trans hthird
      obtain ⟨σ', hσ', hall⟩ := ih hargs' (.value hσ₃) (hsites.mono hemits.grows.size_le) h
      exact ⟨σ', hσ', hemits.trans hall⟩
    | text l =>
      obtain ⟨state₁, e₁, hlink, h⟩ := Runs.bind_iff.mp (show Runs (_ >>= _) e state' e' from h)
      exact hother hlink h
    | name x =>
      obtain ⟨state₁, e₁, hlink, h⟩ := Runs.bind_iff.mp (show Runs (_ >>= _) e state' e' from h)
      exact hother hlink h
    | super site =>
      obtain ⟨state₁, e₁, hlink, h⟩ := Runs.bind_iff.mp (show Runs (_ >>= _) e state' e' from h)
      exact hother hlink h

end Chains

theorem leaves_finish {site : Span} {state : ChainState} {t : Ty} (h : Runs (finishChain site state) e t e')
    (hσ : state.Leaves b σ σ₁) : ∃ σ', t.Leaves b σ σ' ∧ B.Emits .none e e' ⟨b, σ₁⟩ ⟨b, σ'⟩ := by
  cases hσ with
  | start => cases Runs.throw_iff h
  | super site => cases Runs.throw_iff h
  | cls cls =>
    obtain ⟨rfl, rfl⟩ : e.emit (.cls cls.name) = e' ∧ .klass = t := by simpa [finishChain] using h
    exact ⟨_, .value rfl (.inl rfl), .emit (Steps.klass cls.name) nofun⟩
  | value hσ =>
    obtain ⟨rfl, rfl⟩ := Runs.pure_iff.mp h
    exact ⟨σ₁, hσ, .nil⟩

/-! ### Logical expressions -/

section Logical
variable {α : Type} {lower : α → EmitM Ty} {span : α → Span} {jump : Opcode}

/-- Each condition is popped by the jump that it decides. -/
theorem Emits.branchAll (hj : ∀ f : Frame, f.applyJump jump = f.popAll jump.jumpIntegers)
    (hints : jump.jumpIntegers = [.integer]) {taken : Label} {xs : List α} (hxs : ∀ x ∈ xs, B.Pushes b (lower x))
    {u : Unit} (h : Runs (branchAll lower span jump taken xs) e u e') (hsites : Sites e.size σ) :
    B.Emits (Ports.none.add taken ⟨b, σ⟩) e e' ⟨b, σ⟩ ⟨b, σ⟩ := by
  induction xs generalizing e with
  | nil =>
    obtain ⟨-, rfl⟩ := Runs.pure_iff.mp h
    exact .nil
  | cons x rest ih =>
    obtain ⟨hx, hrest⟩ := List.forall_mem_cons.mp hxs
    obtain ⟨t, e₁, hrun, h⟩ := Runs.bind_iff.mp (show Runs (_ >>= _) e u e' from h)
    obtain ⟨_, e₂, hbranch, h⟩ := Runs.bind_iff.mp h
    obtain ⟨rfl, rfl⟩ := Runs.branchOn_iff.mp hbranch
    obtain ⟨v, hv, hemits⟩ := hx.value hrun rfl hsites
    obtain rfl := hv.eq_entry_of_number rfl
    have hjump : B.Emits (Ports.none.add taken ⟨b, σ⟩) e₁ (e₁.emit (.jump jump taken)) ⟨b, .exact .integer :: σ⟩
        ⟨b, σ⟩ := by
      have hsteps := Steps.branch (B := B) (i := e₁.size) (b := b) (σ := σ) (l := taken) hj
      rw [hints] at hsteps
      exact .jump hsteps (Ports.self_add _ _ _) (.inr rfl)
    have hfirst := hemits.anywhere.trans hjump
    exact hfirst.trans (ih hrest h (hsites.mono hfirst.grows.size_le))

theorem pushes_logical (hB : B.Marked) (hj : ∀ f : Frame, f.applyJump jump = f.popAll jump.jumpIntegers)
    (hints : jump.jumpIntegers = [.integer]) {xs : List α} (hxs : ∀ x ∈ xs, B.Pushes b (lower x)) (fallThrough : Bool)
    (site : Span) : B.Pushes b (lowerLogical lower span jump fallThrough site xs) := by
  intro e t e' h hvoid σ hsites
  match xs with
  | [] => cases Runs.throw_iff h
  | [x] => exact hxs x List.mem_cons_self h hvoid σ hsites
  | x :: y :: rest =>
    obtain ⟨rfl, e₁, hall, hjoin⟩ := runs_logical h
    obtain rfl := runs_joinBranches hjoin
    have hbranches := Emits.branchAll hj hints hxs hall hsites
    have hfresh : B.Emits _ _ e₁.fresh.2 _ _ := hbranches.relabel rfl (Nat.le_succ _)
    exact ⟨_, .value rfl (.inl rfl), .fresh (hfresh.truths hB fallThrough (!fallThrough) _)⟩

end Logical

/-! ### All expressions -/

theorem pushes_operators (hB : B.Marked) {tree : OpTree (EmitM Ty)} (h : ∀ x ∈ tree.leaves, B.Pushes b x) :
    B.Pushes b (tree.evalM Pending.applyAt) := by
  induction tree with
  | leaf x => exact h x (by simp [OpTree.leaves])
  | node op site l r ihl ihr =>
    intro e t e' hr hvoid σ hsites
    obtain ⟨left, e₁, hleft, hr⟩ := Runs.bind_iff.mp (show Runs (_ >>= _) e t e' from hr)
    obtain ⟨right, e₂, hright, hop⟩ := Runs.bind_iff.mp hr
    obtain ⟨hl, hr, hvalue, hlast⟩ := Emits.operator (b := b) (σ := σ) hB hop
    obtain ⟨v, hv, hfirst⟩ := (ihl fun x hx => h x (List.mem_append_left _ hx)).value hleft hl.isVoid hsites
    have hsites₁ := (hsites.mono hfirst.grows.size_le).leaves (.value hl.isVoid hv)
    obtain ⟨w, hw, hsecond⟩ := (ihr fun x hx => h x (List.mem_append_right _ hx)).value hright hr.isVoid hsites₁
    obtain rfl := hv.eq_entry_of_number hl.isReference
    obtain rfl := hw.eq_entry_of_number hr.isReference
    exact ⟨_, .value hvalue (.inl rfl), (hfirst.trans hsecond).trans hlast⟩

theorem leaves_unaries (hB : B.Marked) (hb : b = false → B.explicit = true) {site : Span}
    {ops : List Source.UnaryOp} {t t' : Ty} (h : Runs (lowerUnaries c site t ops) e t' e') (hσ : t.Leaves b σ σ₁) :
    ∃ σ', t'.Leaves b σ σ' ∧ B.Emits .none e e' ⟨b, σ₁⟩ ⟨b, σ'⟩ := by
  induction ops generalizing e t σ₁ with
  | nil =>
    obtain ⟨rfl, rfl⟩ := Runs.pure_iff.mp h
    exact ⟨σ₁, hσ, .nil⟩
  | cons op rest ih =>
    obtain ⟨t₁, e₁, hop, h⟩ := Runs.bind_iff.mp (show Runs (_ >>= _) e t' e' from h)
    obtain ⟨hvalue, hvalue₁, hunary⟩ := Emits.unary (b := b) hB hb hop
    obtain ⟨v, hv, rfl⟩ := hσ.exists_value hvalue
    obtain ⟨v₁, hv₁, hfirst⟩ := hunary v σ hv
    obtain ⟨σ', hσ', hrest⟩ := ih h (.value hvalue₁ hv₁)
    exact ⟨σ', hσ', hfirst.trans hrest⟩

theorem isVoid_of_unaries (hB : B.Marked) {site : Span} {ops : List Source.UnaryOp} {t t' : Ty}
    (h : Runs (lowerUnaries c site t ops) e t' e') (ht : t.isVoid = true) : t'.isVoid = true := by
  cases ops with
  | nil =>
    obtain ⟨rfl, rfl⟩ := Runs.pure_iff.mp h
    exact ht
  | cons op rest =>
    obtain ⟨t₁, e₁, hop, -⟩ := Runs.bind_iff.mp (show Runs (_ >>= _) e t' e' from h)
    rw [(Emits.unary (b := true) hB nofun hop).1] at ht
    cases ht

theorem exprSteps (hB : B.Sound c) (hs : s.Grows B.scope) (hb : b = false → B.explicit = true) :
    Source.ExprSteps (fun x => B.Pushes b (lowerExpr c s x)) (fun x => B.Pushes b (lowerAnd c s x))
      (fun x => B.Pushes b (lowerMath c s x)) (fun x => B.Pushes b (lowerTerm c s x))
      (fun x => B.Pushes b (lowerOperand c s x)) where
  expr terms span h := by
    rw [lowerExpr_eq]
    exact pushes_logical hB.marked (fun _ => rfl) rfl h _ _
  and terms span h := by
    rw [lowerAnd_eq]
    exact pushes_logical hB.marked (fun _ => rfl) rfl h _ _
  math first rest span hfirst hrest := by
    rw [lowerMath_eq]
    refine pushes_operators hB.marked ?_
    simp only [Source.MathExpr.tree, OpTree.map_group, OpTree.leaves_group, List.map_map]
    exact List.forall_mem_cons.mpr ⟨hfirst, List.forall_mem_map.mpr hrest⟩
  term unary operand span h := by
    intro e t e' hr hvoid σ hsites
    obtain ⟨t₁, e₁, hx, hr⟩ := Runs.bind_iff.mp (show Runs (_ >>= _) e t e' from hr)
    obtain ⟨σ₁, hσ₁, hfirst⟩ := h hx (fun ht => hvoid (isVoid_of_unaries hB.marked hr ht)) σ hsites
    obtain ⟨σ', hσ', hrest⟩ := leaves_unaries hB.marked hb hr hσ₁
    exact ⟨σ', hσ', hfirst.trans hrest⟩
  literal l := by
    intro e t e' h _ σ _
    obtain ⟨v, hvalue, hhas, hemits⟩ := literal h
    exact ⟨_, .value hvalue hhas, hemits⟩
  chain links span h := by
    intro e t e' hr hvoid σ hsites
    obtain ⟨state, e₁, hlinks, hr⟩ := Runs.bind_iff.mp (show Runs (_ >>= _) e t e' from hr)
    obtain ⟨σ₁, hσ₁, hfirst⟩ := leaves_links hB hb hs h .start hsites hlinks fun t' hstate hvoid' => by
      subst hstate
      obtain ⟨rfl, rfl⟩ := Runs.pure_iff.mp hr
      exact hvoid hvoid'
    obtain ⟨σ', hσ', hlast⟩ := leaves_finish hr hσ₁
    exact ⟨σ', hσ', hfirst.trans hlast⟩
  paren _ h := h

/-- An expression leaves a value of its type. -/
theorem pushes_expr (hB : B.Sound c) (hs : s.Grows B.scope) (hb : b = false → B.explicit = true)
    (x : Source.Expr) : B.Pushes b (lowerExpr c s x) := (exprSteps hB hs hb).forExpr x

end Subject

end Classwright
