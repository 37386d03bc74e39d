import Classwright.Classes.Table
import Classwright.Proofs.Lowering.Method

/-! # Failures that are not about control flow

Lowering an expression, a declaration, an assignment or a return can fail in many ways, but not because of control flow.
Only whoever provides the classes could give such an error, and then it is handed on. Providers have errors for classes
that cannot be read, so they give none. -/

namespace Classwright

open Source (VarDecl)

/-! ### Lookups -/

/-- The error is about control flow. -/
def CompileError.isFlow : CompileError → Bool
  | .invalidControlFlow _ _ => true
  | _ => false

/-- The error is not about control flow, or it is one that the classes in view have given. -/
def ClassView.Unrelated (v : ClassView) (err : CompileError) : Prop :=
  err.isFlow = true → ∃ name, v.find name = .error err

theorem ClassView.unrelated_of (v : ClassView) {err : CompileError} (h : err.isFlow = false) : v.Unrelated err := by
  intro hflow
  rw [h] at hflow
  cases hflow

/-- No class is refused with an error about control flow. -/
def ClassView.FlowFree (v : ClassView) : Prop := ∀ name err, v.find name = .error err → err.isFlow = false

theorem ClassView.FlowFree.isFlow_eq_false {v : ClassView} (h : v.FlowFree) {err : CompileError} (hv : v.Unrelated err) :
    err.isFlow = false := by
  by_contra hflow
  obtain ⟨name, hname⟩ := hv (Bool.not_eq_false _ ▸ hflow)
  exact hflow (h name err hname)

/-- Telling the place of an error does not make it one of control flow. -/
theorem CompileError.locate_of_isFlow {e : CompileError} {site : Span} (h : (e.locate site).isFlow = true) :
    e.locate site = e := by
  unfold locate at h ⊢
  split at h
  · split at h <;> cases h
  · split at h <;> cases h
  · rfl

/-- If the lookup fails, the error is not about control flow. -/
def Lookup.Steady {α : Type} (v : ClassView) (x : Lookup α) : Prop := ∀ err, x.result = .error err → v.Unrelated err

namespace Lookup.Steady
variable {α β : Type} {v : ClassView}

theorem bind {x : Lookup α} {k : α → Lookup β} (hx : x.Steady v) (hk : ∀ a, (k a).Steady v) : (x >>= k).Steady v := by
  intro err h
  rcases Lookup.bind_error.mp h with h | ⟨a, -, h⟩
  · exact hx err h
  · exact hk a err h

theorem pure (a : α) : Lookup.Steady v (Pure.pure a) := by
  intro err h
  cases h

theorem fail {err : CompileError} (h : err.isFlow = false) : (Lookup.fail err : Lookup α).Steady v := by
  intro err' herr
  cases herr
  exact v.unrelated_of h

theorem resolve (v : ClassView) (name : String) : (v.resolve name).Steady v := fun _ h _ => ⟨name, h⟩

theorem locate {x : Lookup α} (h : x.Steady v) (site : Span) : (x.locate site).Steady v := by
  intro err herr hflow
  obtain ⟨r, asked⟩ := x
  cases r with
  | ok a => cases herr
  | error e =>
    obtain rfl : e.locate site = err := Except.error.inj herr
    have hsame := CompileError.locate_of_isFlow hflow
    rw [hsame] at hflow ⊢
    exact h e rfl hflow

theorem orUnknown {x : Lookup α} (h : x.Steady v) : x.orUnknown.Steady v := by
  intro err herr
  unfold Lookup.orUnknown at herr
  split at herr
  · cases herr
  · cases herr
  · rename_i e asked hnot
    cases herr
    exact h _ rfl

theorem visitEach {visit : List String → String → Lookup (Option α × List String)}
    (hvisit : ∀ visited name, (visit visited name).Steady v) (visited names : List String) :
    (ClassView.visitEach visit visited names).Steady v := by
  induction names generalizing visited with
  | nil => exact pure _
  | cons name names ih =>
    refine (hvisit visited name).bind fun found => ?_
    dsimp only
    split
    · exact pure _
    · exact ih _

theorem visit (v : ClassView) (start : String) (sourcesOnly : Bool) (pick : ClassSig → Option α) (more : Nat)
    (ancestors visited : List String) (name : String) :
    (v.visit start sourcesOnly pick more ancestors visited name).Steady v := by
  induction more generalizing ancestors visited name with
  | zero => exact fail rfl
  | succ more ih =>
    unfold ClassView.visit
    split
    · exact fail rfl
    · split
      · exact pure _
      · split
        · exact pure _
        · refine (resolve v name).bind fun cls => ?_
          split
          · exact pure _
          · exact visitEach (fun visited name => ih _ visited name) _ _

theorem walk (v : ClassView) (start : String) (sourcesOnly : Bool) (pick : ClassSig → Option α) :
    (v.walk start sourcesOnly pick).Steady v := (visit v start sourcesOnly pick _ _ _ _).bind fun _ => pure _

end Lookup.Steady

/-! ### Providers -/

/-- Errors are for classes that cannot be read. -/
def Provider.FailsReading (p : Provider) : Prop := ∀ name err, p name = .error err → ∃ fault, err = .classFormat fault

namespace Provider.FailsReading

theorem ofSignatures (classes : List ClassSig) : (Provider.ofSignatures classes).FailsReading := by
  intro name err h
  cases h

theorem ofFile? {file : Option Bytes} {err : CompileError} (h : Provider.ofFile? file = .error err) :
    ∃ fault, err = .classFormat fault := by
  cases file with
  | none => cases h
  | some bytes =>
    change (introspect bytes).map some = .error err at h
    unfold introspect at h
    cases hparse : ParsedClass.parse bytes with
    | ok c =>
      rw [hparse] at h
      cases h
    | error e =>
      rw [hparse] at h
      cases h
      exact ⟨_, rfl⟩

theorem directory (files : FileTree) : (Provider.directory files).FailsReading := by
  intro name err h
  unfold Provider.directory at h
  dsimp only at h
  split at h
  · cases h
    exact ⟨_, rfl⟩
  · exact ofFile? h

theorem archive (entries : List (String × Bytes)) : (Provider.archive entries).FailsReading := fun _ _ h => ofFile? h

theorem chain {ps : List Provider} (h : ∀ p ∈ ps, p.FailsReading) : (Provider.chain ps).FailsReading := by
  induction ps with
  | nil =>
    intro name err hchain
    cases hchain
  | cons p ps ih =>
    obtain ⟨hp, hps⟩ := List.forall_mem_cons.mp h
    intro name err hchain
    unfold Provider.chain at hchain
    split at hchain
    · exact ih hps name err hchain
    · exact hp name err hchain

/-- What a table says about a class is what its provider says, or that the class is not known. -/
theorem flowFree {t : ClassTable} (h : t.provider.FailsReading) : t.view.FlowFree := by
  intro name err hfind
  have hanswer : ∀ e, t.answer name = .error e → ∃ fault, e = .classFormat fault := by
    intro e he
    unfold ClassTable.answer at he
    split at he
    · cases he
    · exact h name e he
  change t.find name = .error err at hfind
  unfold ClassTable.find at hfind
  split at hfind
  · cases hfind
  · split at hfind
    · cases hfind
    · cases hfind
      rfl
    · rename_i e he
      cases hfind
      obtain ⟨fault, rfl⟩ := hanswer _ he
      rfl

end Provider.FailsReading

section Scopes
variable {v : ClassView} {s : Scope} {span : Span} {err : CompileError}

theorem Scope.unrelated_add {name : String} {t : Ty} (h : s.add name t span = .error err) : v.Unrelated err := by
  unfold Scope.add Scope.fault? at h
  split at h
  · rename_i e hfault
    cases h
    split at hfault
    · cases hfault
      exact v.unrelated_of rfl
    · split at hfault
      · cases hfault
        exact v.unrelated_of rfl
      · cases hfault
  · cases h

theorem Scope.unrelated_addAll {ps : List ParamSig} (h : s.addAll span ps = .error err) : v.Unrelated err := by
  induction ps generalizing s with
  | nil => cases h
  | cons p ps ih =>
    unfold Scope.addAll at h
    cases hadd : s.add p.name p.type span with
    | error e =>
      rw [hadd] at h
      cases h
      exact Scope.unrelated_add hadd
    | ok q =>
      rw [hadd] at h
      exact ih h

end Scopes

/-! ### Expressions -/

/-- Whatever goes wrong in the computation is not about control flow. -/
def Steady {σ α : Type} (v : ClassView) (x : StateT σ Lookup α) : Prop := ∀ s err, Fails x s err → v.Unrelated err

namespace Steady
variable {σ α β : Type} {v : ClassView} {c : Context} {s : Scope}

theorem bind {x : StateT σ Lookup α} {k : α → StateT σ Lookup β} (hx : Steady v x) (hk : ∀ a, Steady v (k a)) :
    Steady v (x >>= k) := by
  intro s err h
  rcases Fails.bind_iff.mp h with h | ⟨a, s', -, h⟩
  · exact hx s err h
  · exact hk a s' err h

theorem pure (a : α) : Steady v (Pure.pure a : StateT σ Lookup α) := fun _ _ h => absurd h Fails.pure_iff

theorem throw {err : CompileError} (h : err.isFlow = false) :
    Steady v (MonadExcept.throw err : StateT σ Lookup α) := by
  intro s err' hfails
  obtain rfl := Fails.throw_iff.mp hfails
  exact v.unrelated_of h

theorem lift {x : Lookup α} (h : x.Steady v) : Steady v (liftM x : StateT σ Lookup α) :=
  fun _ err hfails => h err (Fails.lift_iff.mp hfails)

theorem modify (f : σ → σ) : Steady v (modify f : StateT σ Lookup PUnit) := fun _ _ h => absurd h Fails.modify_iff

theorem ite {p : Prop} [Decidable p] {x y : StateT σ Lookup α} (hx : Steady v x) (hy : Steady v y) :
    Steady v (if p then x else y) := by
  split
  · exact hx
  · exact hy

theorem unlessThrown {p : Prop} [Decidable p] {err : CompileError} {x : StateT σ Lookup α}
    (h : err.isFlow = false) (hx : Steady v x) :
    Steady v (if p then MonadExcept.throw err >>= fun _ : PUnit => x else x) :=
  ite ((throw h).bind fun _ => hx) hx

theorem emit (i : Instr) : Steady v (EmitM.emit i) := modify _

theorem emitAll (is : List Instr) : Steady v (EmitM.emitAll is) := modify _

theorem fresh : Steady v EmitM.fresh := fun _ _ h => absurd h Fails.modifyGet_iff

theorem expectCondition (t : Ty) (site : Span) : Steady v (EmitM.expectCondition t site) := ite (pure ()) (throw rfl)

theorem lowerOperator (op : Source.BinaryOp) (left right : Ty) (site : Span) :
    Steady v (Classwright.lowerOperator op left right site) := by
  unfold Classwright.lowerOperator
  split
  · exact throw rfl
  · exact (emit _).bind fun _ => pure _
  · exact (emitAll _).bind fun _ => (modify _).bind fun _ => pure _

theorem resolveType (t : Source.TypeRef) : Steady v (liftM (c.resolveType t) : StateT σ Lookup Ty) := by
  refine lift fun err h => ?_
  change c.imports.resolveType t = .error err at h
  unfold Imports.resolveType at h
  dsimp only at h
  split at h
  · cases h
    exact v.unrelated_of rfl
  · split at h
    · cases h
      exact v.unrelated_of rfl
    · cases h

theorem resolveClass (name : String) (site : Span) :
    Steady c.classes (liftM (c.resolveClass name site) : StateT σ Lookup ClassSig) :=
  lift ((Lookup.Steady.resolve c.classes _).locate site)

theorem class? (name : String) : Steady c.classes (liftM (c.class? name) : StateT σ Lookup (Option ClassSig)) :=
  lift (Lookup.Steady.resolve c.classes _).orUnknown

theorem ownField? (name : String) (site : Span) :
    Steady c.classes (liftM (c.ownField? name site) : StateT σ Lookup (Option FieldSig)) :=
  lift ((Lookup.Steady.walk c.classes _ _ _).locate site)

theorem lowerUnary (t : Ty) (op : Source.UnaryOp) (site : Span) : Steady v (Classwright.lowerUnary c t op site) := by
  unfold Classwright.lowerUnary
  split
  · split
    · exact (emit _).bind fun _ => pure _
    · exact throw rfl
  · exact (expectCondition t site).bind fun _ => (modify _).bind fun _ => pure _
  · refine (resolveType _).bind fun target => ?_
    split
    · exact (emitAll _).bind fun _ => pure _
    · exact throw rfl

theorem lowerLiteral (l : Source.Literal) : Steady v (Classwright.lowerLiteral l) := by
  refine (lift fun err h => ?_).bind fun _ => (emit _).bind fun _ => pure _
  change l.value = .error err at h
  unfold Source.Literal.value at h
  dsimp only at h
  generalize (if l.isString = true then _ else _ : Except TypeFault LiteralValue) = r at h
  cases r with
  | ok value => cases h
  | error fault =>
    cases h
    exact v.unrelated_of rfl

theorem lowerName (ident : Source.Ident) : Steady c.classes (Classwright.lowerName c s ident) := by
  unfold Classwright.lowerName
  split
  · exact (emitAll _).bind fun _ => pure _
  · refine (ownField? _ _).bind fun f => ?_
    split
    · exact unlessThrown rfl ((emitAll _).bind fun _ => (emit _).bind fun _ => pure _)
    · refine (class? _).bind fun cls => ?_
      split
      · exact pure _
      · exact throw rfl

theorem requireField (owner : ClassSig) (ident : Source.Ident) :
    Steady c.classes (liftM (Classwright.requireField c owner ident) : StateT σ Lookup FieldSig) := by
  refine lift (((Lookup.Steady.walk c.classes _ _ _).locate _).bind fun f => ?_)
  split
  · exact .pure _
  · exact .fail rfl

theorem memberOwner (t : Ty) (member : Source.Ident) :
    Steady v (liftM (Classwright.memberOwner t member) : StateT σ Lookup String) := by
  refine lift ?_
  unfold Classwright.memberOwner
  split
  · exact .pure _
  · exact .fail rfl

theorem lowerLink (state : ChainState) (link : Source.Link) :
    Steady c.classes (Classwright.lowerLink c s state link) := by
  unfold Classwright.lowerLink
  split
  · exact (lowerLiteral _).bind fun _ => pure _
  · exact unlessThrown rfl ((emit _).bind fun _ => pure _)
  · exact lowerName _
  · exact throw rfl
  · exact (requireField _ _).bind fun _ => unlessThrown rfl ((emit _).bind fun _ => pure _)
  · exact (memberOwner _ _).bind fun _ => (resolveClass _ _).bind fun _ => (requireField _ _).bind fun _ =>
      (emitAll _).bind fun _ => (emit _).bind fun _ => pure _
  · exact throw rfl

theorem finishChain (site : Span) (state : ChainState) : Steady v (Classwright.finishChain site state) := by
  unfold Classwright.finishChain
  split
  · exact throw rfl
  · exact throw rfl
  · exact (emit _).bind fun _ => pure _
  · exact pure _

theorem requireConstructor (site : Span) :
    Steady v (liftM (Classwright.requireConstructor s site) : StateT σ Lookup Unit) := by
  refine lift ?_
  unfold Classwright.requireConstructor
  split
  · exact .pure _
  · exact .fail rfl

theorem callTarget (state : ChainState) (name : Source.Ident) (site : Span) :
    Steady c.classes (Classwright.callTarget c s state name site) := by
  unfold Classwright.callTarget
  split
  · refine ite ((requireConstructor _).bind fun _ => (emit _).bind fun _ => pure _) ((class? _).bind fun cls => ?_)
    split
    · exact unlessThrown rfl ((emitAll _).bind fun _ => pure _)
    · exact (emitAll _).bind fun _ => pure _
  · unfold superCall
    split
    · exact throw rfl
    · exact (resolveClass _ _).bind fun _ => ite ((requireConstructor _).bind fun _ => pure _) (pure _)
  · exact pure _
  · exact (memberOwner _ _).bind fun _ => (resolveClass _ _).bind fun _ => pure _

theorem lowerInvoke (target : CallTarget) (name : String) (args : List Ty) (site : Span) :
    Steady c.classes (Classwright.lowerInvoke c target name args site) := by
  refine (lift ((Lookup.Steady.walk c.classes _ _ _).locate site)).bind fun m => ?_
  split
  · exact throw rfl
  · exact unlessThrown rfl ((emit _).bind fun _ => (emitAll _).bind fun _ => pure _)

theorem branchAll {lower : α → EmitM Ty} {xs : List α} (hxs : ∀ x ∈ xs, Steady v (lower x)) (span : α → Span)
    (jump : Opcode) (taken : Label) : Steady v (Classwright.branchAll lower span jump taken xs) := by
  induction xs with
  | nil => exact pure _
  | cons x rest ih =>
    obtain ⟨hx, hrest⟩ := List.forall_mem_cons.mp hxs
    exact hx.bind fun t => ((expectCondition t _).bind fun _ => emit _).bind fun _ => ih hrest

theorem lowerLogical {lower : α → EmitM Ty} {xs : List α} (hxs : ∀ x ∈ xs, Steady v (lower x)) (span : α → Span)
    (jump : Opcode) (fallThrough : Bool) (site : Span) :
    Steady v (Classwright.lowerLogical lower span jump fallThrough site xs) := by
  match xs with
  | [] => exact throw rfl
  | [x] => exact hxs x List.mem_cons_self
  | x :: y :: rest =>
    exact fresh.bind fun taken => (branchAll hxs span jump taken).bind fun _ =>
      (fresh.bind fun _ => emitAll _).bind fun _ => pure _

theorem pervasive (c : Context) (s : Scope) : EmitM.Pervasive c s fun _ => Steady c.classes where
  pure := pure
  bind := bind
  logical := lowerLogical
  operator := lowerOperator
  unary := lowerUnary
  literal := lowerLiteral
  link := lowerLink
  target := callTarget
  invoke := lowerInvoke
  finish := finishChain

theorem lowerExpr (c : Context) (s : Scope) (x : Source.Expr) : Steady c.classes (Classwright.lowerExpr c s x) :=
  (pervasive c s).exprSteps.forExpr x

theorem lowerBaseConstructor (c : Context) (site : Span) :
    Steady c.classes (Classwright.lowerBaseConstructor c site) := by
  unfold Classwright.lowerBaseConstructor
  split
  · exact throw rfl
  · refine (resolveClass _ _).bind fun base => ?_
    split
    · exact throw rfl
    · exact emitAll _

theorem emitting {x : Scope → EmitM α} (h : ∀ s, Steady v (x s)) : Steady v (BodyM.emitting x) :=
  fun ⟨s, e⟩ err hfails => h s e err (Fails.emitting_iff.mp hfails)

theorem declare (name : Source.Ident) (t : Ty) : Steady v (BodyM.declare name t) :=
  fun ⟨_, _⟩ _ hfails => Scope.unrelated_add (Fails.declare_iff.mp hfails)

theorem lowerVar (c : Context) (x : VarDecl) : Steady c.classes (Classwright.lowerVar c x) := by
  unfold Classwright.lowerVar
  refine (resolveType _).bind fun t => unlessThrown rfl ?_
  split
  · exact (declare _ _).bind fun _ => pure _
  · exact (emitting fun s => lowerExpr c s _).bind fun _ => unlessThrown rfl
      ((declare _ _).bind fun _ => emitting fun _ => emitAll _)

theorem lowerVars (c : Context) (vars : List VarDecl) : Steady c.classes (Classwright.lowerVars c vars) := by
  induction vars with
  | nil => exact pure _
  | cons x rest ih => exact (lowerVar c x).bind fun _ => ih

theorem lowerAssigned (c : Context) (name : String) (t : Ty) (value : Source.Expr) :
    Steady c.classes (Classwright.lowerAssigned c name t value) :=
  (emitting fun s => lowerExpr c s value).bind fun _ => ite (throw rfl) (pure _)

theorem get : Steady v (get : StateT σ Lookup σ) := fun _ _ h => absurd h Fails.get_iff

theorem lowerAssign (c : Context) (target : Source.Ident) (value : Source.Expr) :
    Steady c.classes (Classwright.lowerAssign c target value) := by
  refine get.bind fun state => ?_
  dsimp only
  split
  · exact (lowerAssigned c _ _ value).bind fun _ => emitting fun _ => emitAll _
  · refine (ownField? _ _).bind fun f => ?_
    split
    · exact throw rfl
    · exact unlessThrown rfl ((emitting fun _ => emitAll _).bind fun _ => (lowerAssigned c _ _ value).bind fun _ =>
        emitting fun _ => emitAll _)

theorem lowerReturn (c : Context) (value : Option Source.Expr) (site : Span) :
    Steady c.classes (Classwright.lowerReturn c value site) := by
  refine get.bind fun state => ?_
  dsimp only
  cases value with
  | some x => exact (emitting fun s => lowerExpr c s x).bind fun _ => unlessThrown rfl (emitting fun _ => emitAll _)
  | none => exact (pure _).bind fun _ => unlessThrown rfl (emitting fun _ => emitAll _)

theorem lowerDecision (c : Context) (condition : Source.Expr) :
    Steady c.classes (Classwright.lowerDecision c condition) :=
  emitting fun s => (lowerExpr c s condition).bind fun _ => expectCondition _ _

end Steady

end Classwright
