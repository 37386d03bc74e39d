import Classwright.Proofs.Lowering.Method

/-! # Which locals code uses

The code of a method loads and stores its receiver and the locals that are declared in it, each as what it is. What is
declared later adds locals to the scope and takes none away. -/

namespace Classwright

open Source (Stmt VarDecl)

/-! ### Instructions -/

/-- If the instruction loads or stores a local, then it is one of the scope and of that kind, or the receiver. -/
def Instr.Touches (s : Scope) (i : Instr) : Prop :=
  ∀ k slot, i = .load k slot ∨ i = .store k slot →
    i = .this ∨ ∃ x v, s.get? x = some v ∧ v.slot = slot ∧ v.type.localKind? = some k

namespace Instr.Touches
variable {s s' : Scope} {i : Instr}

theorem grows (h : i.Touches s) (hg : s.Grows s') : i.Touches s' := by
  intro k slot hi
  rcases h k slot hi with hthis | ⟨x, v, hv, hslot, hkind⟩
  · exact .inl hthis
  · exact .inr ⟨x, v, hg.get? hv, hslot, hkind⟩

theorem this (s : Scope) : Instr.this.Touches s := fun _ _ _ => .inl rfl

theorem other (s : Scope) (h : i.isAccess = false) : i.Touches s := by
  rintro k slot (rfl | rfl)
  · cases h
  · cases h

theorem load {x : String} {v : Local} (hv : s.get? x = some v) (hi : i ∈ v.type.loadCode v.slot) : i.Touches s := by
  obtain ⟨k, hk, rfl⟩ := List.mem_map.mp hi
  rintro k' slot' (h | h)
  · cases h
    exact .inr ⟨x, v, hv, rfl, Option.mem_toList.mp hk⟩
  · cases h

theorem store {x : String} {v : Local} (hv : s.get? x = some v) (hi : i ∈ v.type.storeCode v.slot) : i.Touches s := by
  obtain ⟨k, hk, rfl⟩ := List.mem_map.mp hi
  rintro k' slot' (h | h)
  · cases h
  · cases h
    exact .inr ⟨x, v, hv, rfl, Option.mem_toList.mp hk⟩

end Instr.Touches

/-! ### Expressions -/

namespace Emitter.Appends
variable {P Q : Instr → Prop} {e e' : Emitter}

theorem imp (h : Appends P e e') (hPQ : ∀ i, P i → Q i) : Appends Q e e' := by
  obtain ⟨code, hcode, hlabels, hall⟩ := h
  exact ⟨code, hcode, hlabels, fun i hi => hPQ i (hall i hi)⟩

theorem beginConditional (e : Emitter) (b : Bool) (h : ∀ op l, P (.jump op l)) : Appends P e (e.beginConditional b) := by
  have hgrows := Grows.beginConditional e b
  cases b
  · exact ⟨[.jump .ifeq ⟨e.labels⟩], Array.toList_push, hgrows.labels, List.forall_mem_singleton.mpr (h _ _)⟩
  · exact ⟨[.jump .ifeq ⟨e.labels⟩], Array.toList_push, hgrows.labels, List.forall_mem_singleton.mpr (h _ _)⟩

theorem beginLoop (e : Emitter) (b : Bool) (h : ∀ l, P (.mark l)) : Appends P e (e.beginLoop b) := by
  have hgrows := Grows.beginLoop e b
  cases b
  · exact ⟨[.mark ⟨e.labels⟩], Array.toList_push, hgrows.labels, List.forall_mem_singleton.mpr (h _)⟩
  · exact ⟨[.mark ⟨e.labels⟩], Array.toList_push, hgrows.labels, List.forall_mem_singleton.mpr (h _)⟩

theorem close (e : Emitter) {is : List Instr} (blocks : List Block) (h : ∀ i ∈ is, P i) :
    Appends P e (e.close is blocks) := emitAll e h

theorem touches (s : Scope) :
    KeptIn (fun _ => True) (fun v => ∃ x, s.get? x = some v) (Appends (Instr.Touches s)) :=
  keptIn (fun _ hi => .other s (Instr.isAccess_of_isInert hi)) (.this s) (fun _ ⟨_, hv⟩ _ hi => .load hv hi)
    (fun _ _ _ => .other s rfl) (fun _ _ => .other s rfl) fun _ => .other s rfl

end Emitter.Appends

section Expressions
open Emitter (Appends)
variable (c : Context) (s : Scope)

theorem touches_lowerExpr (x : Source.Expr) : EmitM.Keeps (Appends (Instr.Touches s)) (lowerExpr c s x) :=
  ((Appends.touches s).exprSteps (fun _ => trivial) fun x _ hv => ⟨x, hv⟩).forExpr x

theorem touches_lowerCondition (x : Source.Expr) : EmitM.Keeps (Appends (Instr.Touches s)) (lowerCondition c s x) :=
  (Appends.touches s).bind (touches_lowerExpr c s x) fun t => (Appends.touches s).expectCondition t x.span

end Expressions

/-! ### Statements -/

/-- What is added uses the locals that are declared by the end. -/
def BodyM.Touches (x : BodyM Unit) : Prop :=
  ∀ ⦃s s' : Scope⦄ ⦃e e' : Emitter⦄ ⦃u : Unit⦄, Runs x ⟨s, e⟩ u ⟨s', e'⟩ → Emitter.Appends (Instr.Touches s') e e'

namespace BodyM.Touches
open Emitter (Appends)

theorem lowerVar (c : Context) (v : VarDecl) : Touches (Classwright.lowerVar c v) := by
  intro s s' e e' u h
  obtain ⟨t, x, -, hvoid, hadd, hinit⟩ := runs_var h
  have hgrows := Scope.Grows.refl.add hvoid hadd
  rcases hinit with ⟨-, rfl⟩ | ⟨init, e₁, -, h₁, rfl⟩
  · exact .refl _
  · have hx : s'.get? v.name.name = some x := by
      obtain ⟨-, -, rfl, rfl⟩ := Scope.add_eq_ok hadd
      rw [Scope.get?_push]
      exact if_pos rfl
    have htype : x.type = t := by
      obtain ⟨-, -, rfl, -⟩ := Scope.add_eq_ok hadd
      rfl
    have hvalue := (touches_lowerExpr c s init _ _ _ h₁).imp fun _ hi => hi.grows hgrows
    exact hvalue.trans (.emitAll e₁ fun i hi => .store hx (htype ▸ hi))

theorem lowerVars (c : Context) (vars : List VarDecl) : Touches (Classwright.lowerVars c vars) := by
  induction vars with
  | nil =>
    intro s s' e e' u h
    obtain ⟨-, hs⟩ := Runs.pure_iff.mp h
    cases hs
    exact .refl e
  | cons v rest ih =>
    intro s s' e e' u h
    obtain ⟨_, ⟨s₁, e₁⟩, hv, h⟩ := Runs.bind_iff.mp h
    have hgrows := (BodyM.Adds.lowerVars c rest h).2
    exact ((lowerVar c v hv).imp fun _ hi => hi.grows hgrows).trans (ih h)

theorem stmtSteps (c : Context) :
    Source.StmtSteps (fun stmt => Touches (lowerStmt c stmt)) (fun stmts => Touches (lowerBlock c stmts)) where
  var vars span := lowerVars c vars
  assign target value span := by
    intro s s' e e' u h
    obtain ⟨rfl, ⟨v, e₁, hv, h₁, rfl⟩ | ⟨f, e₁, -, -, -, h₁, rfl⟩⟩ := runs_assign h
    · exact (touches_lowerExpr c _ value _ _ _ h₁).trans (.emitAll e₁ fun _ hi => .store hv hi)
    · have hreceiver : Appends (Instr.Touches s') e (e.emitAll (if f.isStatic then [] else [.this])) := by
        refine .emitAll e fun i hi => ?_
        split at hi
        · cases hi
        · exact List.mem_singleton.mp hi ▸ .this s'
      exact (hreceiver.trans (touches_lowerExpr c _ value _ _ _ h₁)).trans (.emit e₁ (.other s' rfl))
  expr x := by
    intro s s' e e' u h
    obtain ⟨rfl, t, e₁, h₁, rfl⟩ := runs_expr h
    exact (touches_lowerExpr c _ x _ _ _ h₁).trans
      (.emitAll e₁ fun i hi => .other s' (Instr.isAccess_of_isInert (List.all_eq_true.mp t.inert_discardCode i hi)))
  ifThen condition thenPart span ih := by
    intro s s' e e' u h
    obtain ⟨e₁, e₂, h₁, h₂, rfl⟩ := runs_ifThen (keepsBlocks c thenPart) h
    have hgrows := (BodyM.Adds.lowerBlock c thenPart h₂).2
    have hcondition := (touches_lowerCondition c s condition _ _ _ h₁).imp fun _ hi => hi.grows hgrows
    exact ((hcondition.trans (.beginConditional e₁ false fun _ _ => .other s' rfl)).trans (ih h₂)).trans
      (.close e₂ _ (List.forall_mem_singleton.mpr (.other s' rfl)))
  ifElse condition thenPart elsePart span ih ih' := by
    intro s s' e e' u h
    obtain ⟨s₁, e₁, e₂, e₃, h₁, h₂, h₃, rfl⟩ := runs_ifElse (keepsBlocks c thenPart) (keepsBlocks c elsePart) h
    have hgrows := (BodyM.Adds.lowerBlock c thenPart h₂).2
    have hgrows' := (BodyM.Adds.lowerBlock c elsePart h₃).2
    have hcondition := (touches_lowerCondition c s condition _ _ _ h₁).imp fun _ hi => hi.grows (hgrows.trans hgrows')
    have hthen := (ih h₂).imp fun _ hi => hi.grows hgrows'
    have hskip : Appends (Instr.Touches s') e₂ (e₂.emitAll [.jump .goto ⟨e₁.labels + 1⟩, .mark ⟨e₁.labels⟩]) :=
      .emitAll e₂ (List.forall_mem_cons.mpr ⟨.other s' rfl, List.forall_mem_singleton.mpr (.other s' rfl)⟩)
    have hstart := hcondition.trans (.beginConditional e₁ true fun _ _ => .other s' rfl)
    exact (((hstart.trans hthen).trans hskip).trans (ih' h₃)).trans
      (.close e₃ _ (List.forall_mem_singleton.mpr (.other s' rfl)))
  loop condition body span ih := by
    intro s s' e e' u h
    obtain ⟨e₁, e₂, h₁, h₂, rfl⟩ := runs_loop (keepsBlocks c body) h
    have hgrows := (BodyM.Adds.lowerBlock c body h₂).2
    have hcondition := (touches_lowerCondition c s condition _ _ _ h₁).imp fun _ hi => hi.grows hgrows
    have hstart : Appends (Instr.Touches s') e (e.beginLoop false) := .beginLoop e false fun _ => .other s' rfl
    exact (((hstart.trans hcondition).trans (.emit e₁ (.other s' rfl))).trans (ih h₂)).trans
      (.close e₂ _ (List.forall_mem_cons.mpr ⟨.other s' rfl, List.forall_mem_singleton.mpr (.other s' rfl)⟩))
  loopStep condition body step span ih ih' := by
    intro s s' e e' u h
    obtain ⟨s₁, e₁, e₂, e₃, h₁, h₂, h₃, rfl⟩ := runs_loopStep (keepsBlocks c body) (keepsBlocks c step) h
    have hgrows := (BodyM.Adds.lowerBlock c body h₂).2
    have hgrows' := (BodyM.Adds.lowerBlock c step h₃).2
    have hcondition := (touches_lowerCondition c s condition _ _ _ h₁).imp fun _ hi => hi.grows (hgrows.trans hgrows')
    have hbody := (ih h₂).imp fun _ hi => hi.grows hgrows'
    have hstart : Appends (Instr.Touches s') e (e.beginLoop true) := .beginLoop e true fun _ => .other s' rfl
    have hround := ((hstart.trans hcondition).trans (.emit e₁ (.other s' rfl))).trans hbody
    exact ((hround.trans (.emit e₂ (.other s' rfl))).trans (ih' h₃)).trans
      (.close e₃ _ (List.forall_mem_cons.mpr ⟨.other s' rfl, List.forall_mem_singleton.mpr (.other s' rfl)⟩))
  exit span := by
    intro s s' e e' u h
    obtain ⟨rfl, start, next, done, -, rfl⟩ := runs_exit h
    exact .emit e (.other s' rfl)
  next span := by
    intro s s' e e' u h
    obtain ⟨rfl, start, next, done, -, rfl⟩ := runs_next h
    exact .emit e (.other s' rfl)
  ret value span := by
    intro s s' e e' u h
    obtain ⟨rfl, e₁, rfl, hvalue⟩ := runs_ret h
    obtain ⟨op, hop⟩ := s'.method.returns.returnCode_eq
    rw [hop]
    rcases hvalue with ⟨-, -, rfl⟩ | ⟨x, -, h₁⟩
    · exact .emit e₁ (.other s' rfl)
    · exact (touches_lowerExpr c _ x _ _ _ h₁).trans (.emit e₁ (.other s' rfl))
  block stmts span ih := ih
  nil := by
    intro s s' e e' u h
    obtain ⟨-, hs⟩ := Runs.pure_iff.mp h
    cases hs
    exact .refl e
  cons stmt rest ih ih' := by
    intro s s' e e' u h
    obtain ⟨_, ⟨s₁, e₁⟩, h₁, h⟩ := Runs.bind_iff.mp h
    have hgrows := (BodyM.Adds.lowerBlock c rest h).2
    exact ((ih h₁).imp fun _ hi => hi.grows hgrows).trans (ih' h)

theorem lowerBlock (c : Context) (stmts : List Stmt) : Touches (Classwright.lowerBlock c stmts) :=
  (stmtSteps c).forBlock stmts

end BodyM.Touches

/-! ### Methods -/

theorem MethodSig.touches_closing (m : MethodSig) (s : Scope) {i : Instr} (hi : i ∈ m.closing) : i.Touches s := by
  unfold MethodSig.closing at hi
  split at hi
  · obtain ⟨op, hop⟩ := m.returns.returnCode_eq
    rw [List.mem_singleton.mp hi, hop]
    exact .other s rfl
  · simp only [Instr.missingReturn, List.mem_cons, List.not_mem_nil, or_false] at hi
    rcases hi with rfl | rfl | rfl | rfl | rfl <;> exact .other s rfl

/-- The code of a method uses its receiver and its locals, and nothing else. -/
theorem Lowered.touches {c : Context} {method : MethodSig} {body : List Stmt} {site : Span} {out : MethodBody}
    {s₀ s : Scope} {e₀ e : Emitter} (h : Lowered c method body site out s₀ s e₀ e) :
    ∀ i ∈ out.code.instrs, i.Touches s := by
  have hopening : Emitter.Appends (Instr.Touches s) {} e₀ := by
    rcases h.opening with ⟨-, hbase⟩ | ⟨-, rfl⟩
    · obtain ⟨base, m, name, -, -, -, rfl⟩ := runs_baseConstructor hbase
      exact .emitAll _ (List.forall_mem_cons.mpr ⟨.this s, List.forall_mem_singleton.mpr (.other s rfl)⟩)
    · exact .refl _
  have hall := (hopening.trans (BodyM.Touches.lowerBlock c body h.body)).trans
    (.emitAll e fun _ hi => method.touches_closing s hi)
  obtain ⟨code, hcode, -, htouches⟩ := hall
  intro i hi
  rw [h.code, ← Array.mem_toList_iff, hcode] at hi
  exact htouches i hi

end Classwright
