import Classwright.Classes.Platform
import Classwright.Proofs.Lowering.Failures

/-! # Control flow nests

A method is refused for its control flow only if a `break` or `continue` in it stands outside of all loops. The blocks
that statements open are closed in turn, whatever stands in them, and each label has one mark. -/

namespace Classwright

open Source (Stmt)

/-- A `break` or `continue` is part of the statement and of no loop in it. -/
inductive Source.Stmt.Strays : Stmt → Prop
  | exit (span : Span) : Strays (.exit span)
  | next (span : Span) : Strays (.next span)
  | thenPart {stmt : Stmt} {condition : Source.Expr} {thenPart : List Stmt} {elsePart : Option (List Stmt)}
      {span : Span} (hmem : stmt ∈ thenPart) (h : stmt.Strays) : Strays (.cond condition thenPart elsePart span)
  | elsePart {stmt : Stmt} {condition : Source.Expr} {thenPart elsePart : List Stmt} {span : Span}
      (hmem : stmt ∈ elsePart) (h : stmt.Strays) : Strays (.cond condition thenPart (some elsePart) span)
  | block {stmt : Stmt} {stmts : List Stmt} {span : Span} (hmem : stmt ∈ stmts) (h : stmt.Strays) :
      Strays (.block stmts span)

/-! ### Statements -/

/-- A statement stands outside of all loops that must not. -/
def CompileError.Unlooped (err : CompileError) : Prop :=
  ∃ what site, (what = "break" ∨ what = "continue") ∧ err = .invalidControlFlow (.outsideLoop what) site

/-- If the computation fails because of control flow, it is not inside a loop and there is something astray in it. -/
def BodyM.Nests (v : ClassView) (astray : Prop) (x : BodyM Unit) : Prop :=
  ∀ s e err, Fails x ⟨s, e⟩ err →
    v.Unrelated err ∨ Emitter.innermostLoop? e.blocks = none ∧ astray ∧ err.Unlooped

theorem Steady.nests {v : ClassView} {astray : Prop} {x : BodyM Unit} (h : Steady v x) : x.Nests v astray :=
  fun s e err hfails => .inl (h ⟨s, e⟩ err hfails)

section Statements
variable {c : Context} {s : Scope} {e : Emitter} {err : CompileError} {condition : Source.Expr} {span : Span}

theorem fails_decision {k : Unit → BodyM Unit} (h : Fails (lowerDecision c condition >>= k) ⟨s, e⟩ err) :
    c.classes.Unrelated err ∨ ∃ e', e'.blocks = e.blocks ∧ Fails (k ()) ⟨s, e'⟩ err := by
  rcases Fails.bind_iff.mp h with h | ⟨_, ⟨s', e'⟩, hr, h⟩
  · exact .inl (Steady.lowerDecision c condition _ err h)
  · obtain ⟨hcondition, rfl⟩ := runs_decision.mp hr
    exact .inr ⟨e', (EmitM.Adds.lowerCondition c s condition _ _ _ hcondition).blocks, h⟩

theorem fails_block {stmts : List Stmt} {k : Unit → BodyM Unit}
    (h : Fails (lowerBlock c stmts >>= k) ⟨s, e⟩ err) :
    Fails (lowerBlock c stmts) ⟨s, e⟩ err ∨ ∃ s' e', e'.blocks = e.blocks ∧ Fails (k ()) ⟨s', e'⟩ err := by
  rcases Fails.bind_iff.mp h with h | ⟨_, ⟨s', e'⟩, hr, h⟩
  · exact .inl h
  · exact .inr ⟨s', e', keepsBlocks c stmts hr, h⟩

section Blocks
variable {what : String} {f : Emitter → Except BlockFault Emitter} {e' : Emitter}

theorem not_fails_blocks (hf : f e = .ok e') : ¬Fails (BodyM.blocks what span f) ⟨s, e⟩ err := by
  intro h
  obtain ⟨fault, hfault, -⟩ := Fails.blocks_iff.mp h
  cases hf.symm.trans hfault

theorem fails_blocks {k : Unit → BodyM Unit} (h : Fails (BodyM.blocks what span f >>= k) ⟨s, e⟩ err)
    (hf : f e = .ok e') : Fails (k ()) ⟨s, e'⟩ err := by
  rcases Fails.bind_iff.mp h with h | ⟨_, ⟨s₁, e₁⟩, hr, h⟩
  · exact absurd h (not_fails_blocks hf)
  · obtain ⟨he₁, rfl⟩ := Runs.blocks_iff.mp hr
    cases hf.symm.trans he₁
    exact h

end Blocks

theorem Emitter.loopLabels_eq_error {fault : BlockFault} :
    e.loopLabels = .error fault ↔ innermostLoop? e.blocks = none ∧ fault = .notInLoop := by
  unfold loopLabels
  cases innermostLoop? e.blocks <;> simp [eq_comm]

theorem Emitter.exists_enterStep {labels : Label × Label × Label} (h : innermostLoop? e.blocks = some labels) :
    ∃ e', e.enterStep = .ok e' ∧ e'.blocks = e.blocks := by
  refine ⟨_, by rw [enterStep, loopLabels, h]; rfl, ?_⟩
  split <;> rfl

/-- A statement that leaves the round of a loop is refused outside of all loops. -/
theorem nests_leaving {what : String} (hwhat : what = "break" ∨ what = "continue")
    {f : Emitter → Label × Label × Label → Emitter} {astray : Prop} (hs : astray) :
    (BodyM.blocks what span fun e => e.loopLabels >>= fun ls => .ok (f e ls)).Nests c.classes astray := by
  intro s e err h
  obtain ⟨fault, hfault, rfl⟩ := Fails.blocks_iff.mp h
  cases hl : e.loopLabels with
  | ok ls =>
    rw [hl] at hfault
    cases hfault
  | error fault' =>
    obtain ⟨hnone, rfl⟩ := Emitter.loopLabels_eq_error.mp hl
    rw [hl] at hfault
    cases hfault
    exact .inr ⟨hnone, hs, what, span, hwhat, rfl⟩

theorem nests_stmtSteps (c : Context) :
    Source.StmtSteps (fun stmt => (lowerStmt c stmt).Nests c.classes stmt.Strays)
      (fun stmts => (lowerBlock c stmts).Nests c.classes (∃ stmt ∈ stmts, stmt.Strays)) where
  var vars span := (Steady.lowerVars c vars).nests
  assign target value span := (Steady.lowerAssign c target value).nests
  expr x := ((Steady.emitting fun s => .lowerExpr c s x).bind fun _ => .emitting fun _ => .emitAll _).nests
  ifThen condition thenPart span ih := by
    intro s e err h
    rcases fails_decision h with h | ⟨e₁, hb₁, h⟩
    · exact .inl h
    have h := fails_blocks h rfl
    rcases fails_block h with h | ⟨s₂, e₂, hb₂, h⟩
    · rcases ih _ _ _ h with h | ⟨hl, ⟨stmt, hmem, hs⟩, hu⟩
      · exact .inl h
      · exact .inr ⟨hb₁ ▸ hl, .thenPart hmem hs, hu⟩
    · exact absurd h (not_fails_blocks (by rw [Emitter.endConditional, hb₂]; rfl))
  ifElse condition thenPart elsePart span ih ih' := by
    intro s e err h
    rcases fails_decision h with h | ⟨e₁, hb₁, h⟩
    · exact .inl h
    have h := fails_blocks h rfl
    rcases fails_block h with h | ⟨s₂, e₂, hb₂, h⟩
    · rcases ih _ _ _ h with h | ⟨hl, ⟨stmt, hmem, hs⟩, hu⟩
      · exact .inl h
      · exact .inr ⟨hb₁ ▸ hl, .thenPart hmem hs, hu⟩
    have h := fails_blocks h (by rw [Emitter.enterElse, hb₂]; rfl)
    rcases fails_block h with h | ⟨s₃, e₃, hb₃, h⟩
    · rcases ih' _ _ _ h with h | ⟨hl, ⟨stmt, hmem, hs⟩, hu⟩
      · exact .inl h
      · rw [Emitter.emitAll_eq, hb₂] at hl
        exact .inr ⟨hb₁ ▸ hl, .elsePart hmem hs, hu⟩
    · rw [Emitter.emitAll_eq, hb₂] at hb₃
      exact absurd h (not_fails_blocks (by rw [Emitter.endConditional, hb₃]; rfl))
  loop condition body span ih := by
    intro s e err h
    have h := fails_blocks h rfl
    rcases fails_decision h with h | ⟨e₁, hb₁, h⟩
    · exact .inl h
    have h := fails_blocks h (by rw [Emitter.loopExit, Emitter.loopLabels, hb₁]; rfl)
    rcases fails_block h with h | ⟨s₂, e₂, hb₂, h⟩
    · rcases ih _ _ _ h with h | ⟨hl, -⟩
      · exact .inl h
      · rw [Emitter.blocks_emit, hb₁] at hl
        cases hl
    · rw [Emitter.blocks_emit, hb₁] at hb₂
      exact absurd h (not_fails_blocks (by rw [Emitter.endLoop, hb₂]; rfl))
  loopStep condition body step span ih ih' := by
    intro s e err h
    have h := fails_blocks h rfl
    rcases fails_decision h with h | ⟨e₁, hb₁, h⟩
    · exact .inl h
    have h := fails_blocks h (by rw [Emitter.loopExit, Emitter.loopLabels, hb₁]; rfl)
    rcases fails_block h with h | ⟨s₂, e₂, hb₂, h⟩
    · rcases ih _ _ _ h with h | ⟨hl, -⟩
      · exact .inl h
      · rw [Emitter.blocks_emit, hb₁] at hl
        cases hl
    rw [Emitter.blocks_emit, hb₁] at hb₂
    obtain ⟨e₃, hstep, hb₃⟩ := Emitter.exists_enterStep (e := e₂) (by rw [hb₂]; rfl)
    rcases fails_block (fails_blocks h hstep) with h | ⟨s₄, e₄, hb₄, h⟩
    · rcases ih' _ _ _ h with h | ⟨hl, -⟩
      · exact .inl h
      · rw [hb₃, hb₂] at hl
        cases hl
    · rw [hb₃, hb₂] at hb₄
      exact absurd h (not_fails_blocks (by rw [Emitter.endLoop, hb₄]; rfl))
  exit span := nests_leaving (.inl rfl) (.exit span)
  next span := nests_leaving (.inr rfl) (.next span)
  ret value span := (Steady.lowerReturn c value span).nests
  block stmts span ih := by
    intro s e err h
    rcases ih s e err h with h | ⟨hl, ⟨stmt, hmem, hs⟩, hu⟩
    · exact .inl h
    · exact .inr ⟨hl, .block hmem hs, hu⟩
  nil := (Steady.pure ()).nests
  cons stmt rest ih ih' := by
    intro s e err h
    rcases Fails.bind_iff.mp h with h | ⟨_, ⟨s₁, e₁⟩, hr, h⟩
    · rcases ih s e err h with h | ⟨hl, hs, hu⟩
      · exact .inl h
      · exact .inr ⟨hl, ⟨stmt, List.mem_cons_self, hs⟩, hu⟩
    · have hb₁ := (BodyM.Adds.lowerStmt c stmt hr).1.blocks
      rcases ih' s₁ e₁ err h with h | ⟨hl, ⟨stmt', hmem, hs⟩, hu⟩
      · exact .inl h
      · exact .inr ⟨hb₁ ▸ hl, ⟨stmt', List.mem_cons_of_mem _ hmem, hs⟩, hu⟩

theorem nests_block (c : Context) (stmts : List Stmt) :
    (lowerBlock c stmts).Nests c.classes (∃ stmt ∈ stmts, stmt.Strays) := (nests_stmtSteps c).forBlock stmts

/-- What is lowered outside of all loops has nothing astray in it. -/
def BodyM.Heeds (astray : Prop) (x : BodyM Unit) : Prop :=
  ∀ ⦃s s' : Scope⦄ ⦃e e' : Emitter⦄ ⦃u : Unit⦄, Runs x ⟨s, e⟩ u ⟨s', e'⟩ → Emitter.innermostLoop? e.blocks = none →
    ¬astray

theorem heeds_stmtSteps (c : Context) :
    Source.StmtSteps (fun stmt => (lowerStmt c stmt).Heeds stmt.Strays)
      (fun stmts => (lowerBlock c stmts).Heeds (∃ stmt ∈ stmts, stmt.Strays)) where
  var vars span := fun _ _ _ _ _ _ _ => nofun
  assign target value span := fun _ _ _ _ _ _ _ => nofun
  expr x := fun _ _ _ _ _ _ _ => nofun
  ifThen condition thenPart span ih := by
    intro s s' e e' u h hl hs
    obtain ⟨e₁, e₂, h₁, h₂, -⟩ := runs_ifThen (keepsBlocks c thenPart) h
    have hb₁ : e₁.blocks = e.blocks := (EmitM.Adds.lowerCondition c s condition _ _ _ h₁).blocks
    rw [← hb₁] at hl
    cases hs with
    | thenPart hmem hs => exact ih h₂ hl ⟨_, hmem, hs⟩
  ifElse condition thenPart elsePart span ih ih' := by
    intro s s' e e' u h hl hs
    obtain ⟨s₁, e₁, e₂, e₃, h₁, h₂, h₃, -⟩ := runs_ifElse (keepsBlocks c thenPart) (keepsBlocks c elsePart) h
    have hb₁ : e₁.blocks = e.blocks := (EmitM.Adds.lowerCondition c s condition _ _ _ h₁).blocks
    have hb₂ := keepsBlocks c thenPart h₂
    rw [← hb₁] at hl
    cases hs with
    | thenPart hmem hs => exact ih h₂ hl ⟨_, hmem, hs⟩
    | elsePart hmem hs =>
      refine ih' h₃ ?_ ⟨_, hmem, hs⟩
      rw [Emitter.emitAll_eq, hb₂]
      exact hl
  loop condition body span _ := fun _ _ _ _ _ _ _ => nofun
  loopStep condition body step span _ _ := fun _ _ _ _ _ _ _ => nofun
  exit span := by
    intro s s' e e' u h hl
    obtain ⟨-, start, next, done, hsome, -⟩ := runs_exit h
    cases hl.symm.trans hsome
  next span := by
    intro s s' e e' u h hl
    obtain ⟨-, start, next, done, hsome, -⟩ := runs_next h
    cases hl.symm.trans hsome
  ret value span := fun _ _ _ _ _ _ _ => nofun
  block stmts span ih := by
    intro s s' e e' u h hl hs
    cases hs with
    | block hmem hs => exact ih h hl ⟨_, hmem, hs⟩
  nil := fun _ _ _ _ _ _ _ => nofun
  cons stmt rest ih ih' := by
    intro s s' e e' u h hl
    obtain ⟨_, ⟨s₁, e₁⟩, h₁, h₂⟩ := Runs.bind_iff.mp h
    have hb₁ := (BodyM.Adds.lowerStmt c stmt h₁).1.blocks
    rintro ⟨stmt', hmem, hs⟩
    rcases List.mem_cons.mp hmem with rfl | hmem
    · exact ih h₁ hl hs
    · exact ih' h₂ (hb₁ ▸ hl) ⟨stmt', hmem, hs⟩

end Statements

/-! ### Methods -/

theorem fails_whole {c : Context} {method : MethodSig} {body : List Stmt} {site : Span} {s₀ : Scope}
    {err : CompileError} (h : Fails (lowerWhole c method body site) ⟨s₀, {}⟩ err) :
    c.classes.Unrelated err ∨ (∃ stmt ∈ body, stmt.Strays) ∧ err.Unlooped := by
  have hbody {s : Scope} {e : Emitter}
      (h : Fails (lowerBlock c body >>= fun _ => BodyM.emitAll method.closing) ⟨s, e⟩ err) :
      c.classes.Unrelated err ∨ (∃ stmt ∈ body, stmt.Strays) ∧ err.Unlooped := by
    rcases fails_block h with h | ⟨s', e', -, h⟩
    · exact (nests_block c body _ _ _ h).imp_right And.right
    · exact .inl (Steady.emitting (fun _ => .emitAll _) _ _ h)
  unfold lowerWhole at h
  split at h
  · rcases Fails.bind_iff.mp h with h | ⟨_, ⟨s, e⟩, -, h⟩
    · exact .inl (Steady.emitting (fun _ => .lowerBaseConstructor c site) _ _ h)
    · exact hbody h
  · exact hbody h

/-- All blocks are closed at the end of a method. -/
theorem blocks_whole {c : Context} {method : MethodSig} {body : List Stmt} {site : Span} {s₀ s : Scope} {e : Emitter}
    {u : Unit} (h : Runs (lowerWhole c method body site) ⟨s₀, {}⟩ u ⟨s, e⟩) : e.blocks = [] := by
  obtain ⟨e₀, e₁, hopening, hbody, rfl⟩ := runs_whole h
  rw [Emitter.emitAll_eq]
  exact (keepsBlocks c body hbody).trans (Emitter.Extends.opening hopening).blocks

theorem fails_method {c : Context} {method : MethodSig} {body : List Stmt} {site : Span} {err : CompileError}
    (h : (lowerMethod c method body site).result = .error err) :
    c.classes.Unrelated err ∨ (∃ stmt ∈ body, stmt.Strays) ∧ err.Unlooped := by
  rcases Lookup.bind_error.mp h with h | ⟨s₀, -, h⟩
  · exact .inl (Scope.unrelated_addAll h)
  dsimp only at h
  rcases Lookup.bind_error.mp h with h | ⟨⟨u, ⟨s, e⟩⟩, hwhole, h⟩
  · exact fails_whole h
  · have hb := blocks_whole hwhole
    rw [Emitter.finish, hb] at h
    cases h

/-- A method is refused for its control flow only if a `break` or `continue` in it is outside of all loops, given that
    no class is refused with such an error; blocks are never found unclosed or out of order. A method that is accepted
    has none that is astray, its labels have one mark each, and its jumps go to them. -/
theorem control_flow_nests (c : Context) (method : MethodSig) (body : List Stmt) (site : Span) :
    (c.classes.FlowFree → ∀ fault at', (lowerMethod c method body site).result = .error (.invalidControlFlow fault at') →
      (∃ stmt ∈ body, stmt.Strays) ∧ (fault = .outsideLoop "break" ∨ fault = .outsideLoop "continue")) ∧
    ∀ out, (lowerMethod c method body site).result = .ok out →
      (¬∃ stmt ∈ body, stmt.Strays) ∧
      (∀ l, .mark l ∈ out.code.instrs → l.id < out.code.labels ∧ out.code.instrs.toList.count (.mark l) = 1) ∧
      (∀ op l, .jump op l ∈ out.code.instrs → l.id < out.code.labels ∧ out.code.instrs.toList.count (.mark l) = 1) ∧
      out.code.labels ≤ out.code.instrs.size ∧ ∃ p, out.code.placement = .ok p := by
  refine ⟨fun hclasses fault at' h => ?_, fun out h => ?_⟩
  · rcases fails_method h with h | ⟨hs, what, at'', hwhat, heq⟩
    · cases hclasses.isFlow_eq_false h
    · cases heq
      exact ⟨hs, hwhat.imp (congrArg _) (congrArg _)⟩
  · obtain ⟨s₀, s, e₀, e, hl⟩ := exists_lowered h
    obtain ⟨hmarks, hjumps⟩ := hl.labelled
    have hone (l : Label) (hlt : l.id < out.code.labels) : out.code.instrs.toList.count (.mark l) = 1 := by
      rw [hmarks, if_pos hlt]
    have hmade (l : Label) (hm : .mark l ∈ out.code.instrs) : l.id < out.code.labels := by
      have hpos := List.count_pos_iff.mpr (Array.mem_toList_iff.mpr hm)
      rw [hmarks] at hpos
      by_contra hlt
      rw [if_neg hlt] at hpos
      cases hpos
    have houtside : Emitter.innermostLoop? e₀.blocks = none := by
      rw [(Emitter.Extends.opening hl.opening).blocks]
      rfl
    exact ⟨(heeds_stmtSteps c).forBlock body hl.body houtside, fun l hm => ⟨hmade l hm, hone l (hmade l hm)⟩,
      fun op l hj => ⟨hjumps op l hj, hone l (hjumps op l hj)⟩, hl.labels_le, hl.exists_placement⟩

/-- Classes of a directory, of an archive with one that cannot be read, and of the platform. -/
def hostProviders : List Provider := [.directory {}, .archive [("demo/Broken.class", [0xca, 0xfe])], .platform]

def hostedTable : ClassTable where
  provider := .chain hostProviders

def hostedContext : Context where
  classes := hostedTable.view
  imports := {}
  own := { name := "demo/Main" }
  options := {}

theorem flowFree_hosted : hostedTable.view.FlowFree := by
  have hplatform : Provider.platform.FailsReading := .ofSignatures Platform.classes
  have hall : ∀ p ∈ hostProviders, p.FailsReading :=
    List.forall_mem_cons.mpr ⟨.directory {}, List.forall_mem_cons.mpr ⟨.archive _, List.forall_mem_singleton.mpr hplatform⟩⟩
  refine Provider.FailsReading.flowFree ?_
  dsimp only [hostedTable]
  exact .chain hall

/-- A `break` under a condition, alone or in a loop. -/
def leavingBody (looped : Bool) : List Stmt :=
  let five : Source.Expr := (Source.MathExpr.mk ⟨[], .literal ⟨"5", {}⟩, {}⟩ [] {}).toAnd.toExpr
  let leave : Stmt := .cond five [.exit {}] none {}
  if looped then [.loop five [leave] (some []) {}] else [leave]

/-- The `break` without a loop is refused, and the one in a loop has its labels placed. -/
theorem control_flow_nests_hosted : ∃ method out err fault at' p, hostedContext.classes.FlowFree ∧
    hostedContext.classes.find "demo/Broken" = .error err ∧
    (lowerMethod hostedContext method (leavingBody false) {}).result = .error (.invalidControlFlow fault at') ∧
    (∃ stmt ∈ leavingBody false, stmt.Strays) ∧
    (lowerMethod hostedContext method (leavingBody true) {}).result = .ok out ∧
    (¬∃ stmt ∈ leavingBody true, stmt.Strays) ∧ 0 < out.code.labels ∧ out.code.placement = .ok p := by
  let method : MethodSig := ⟨"run", true, false, false, .void, []⟩
  have hbroken : hostedContext.classes.find "demo/Broken" = .error (.ofFormat (.unexpectedEnd 0)) := by decide +kernel
  have halone : (lowerMethod hostedContext method (leavingBody false) {}).result =
      .error (.invalidControlFlow (.outsideLoop "break") {}) := rfl
  have hlooped : (lowerMethod hostedContext method (leavingBody true) {}).result.toOption.any (0 < ·.code.labels) = true := by
    decide +kernel
  obtain ⟨out, hout, hlabels⟩ := (Option.any_eq_true _ _).mp hlooped
  obtain ⟨hnot, -, -, -, p, hp⟩ := (control_flow_nests hostedContext method (leavingBody true) {}).2 out
    (toOption_eq_some.mp hout)
  obtain ⟨hstrays, -⟩ := (control_flow_nests hostedContext method (leavingBody false) {}).1 flowFree_hosted _ _ halone
  exact ⟨method, out, _, _, _, p, flowFree_hosted, hbroken, halone, hstrays, toOption_eq_some.mp hout, hnot,
    of_decide_eq_true hlabels, hp⟩

end Classwright
