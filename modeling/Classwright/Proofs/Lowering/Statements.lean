import Classwright.Proofs.Lowering.Emission
import Classwright.Proofs.Lowering.Scope

/-! # Lowering statements

What the code of each kind of statement is made of. A statement closes the blocks that it opens, so that code inside a
conditional or a loop finds its labels. -/

namespace Classwright

open Source (Stmt VarDecl)

namespace Emitter
variable {e e' : Emitter}

/-! ### Blocks -/

/-- Adds instructions and sets the open blocks. -/
def close (e : Emitter) (is : List Instr) (blocks : List Block) : Emitter := { e.emitAll is with blocks }

theorem enterElse_eq_ok {other done : Label} {rest : List Block} (hb : e.blocks = .conditional (some other) done :: rest)
    (h : e.enterElse = .ok e') : e' = e.emitAll [.jump .goto done, .mark other] := by
  rw [enterElse, hb] at h
  cases h
  rfl

theorem endConditional_eq_ok {other : Option Label} {done : Label} {rest : List Block}
    (hb : e.blocks = .conditional other done :: rest) (h : e.endConditional = .ok e') :
    e' = e.close [.mark done] rest := by
  rw [endConditional, hb] at h
  cases h
  rfl

theorem loopLabels_eq_ok {labels : Label × Label × Label} :
    e.loopLabels = .ok labels ↔ innermostLoop? e.blocks = some labels := by
  unfold loopLabels
  split <;> simp_all

theorem loopExit_eq_ok : e.loopExit = .ok e' ↔
    ∃ start next done, innermostLoop? e.blocks = some (start, next, done) ∧ e.emit (.jump .ifeq done) = e' := by
  simp [loopExit, bind_eq_ok, loopLabels_eq_ok, pure, Except.pure]

theorem exitLoop_eq_ok : e.exitLoop = .ok e' ↔
    ∃ start next done, innermostLoop? e.blocks = some (start, next, done) ∧ e.emit (.jump .goto done) = e' := by
  simp [exitLoop, bind_eq_ok, loopLabels_eq_ok, pure, Except.pure]

theorem nextRound_eq_ok : e.nextRound = .ok e' ↔
    ∃ start next done, innermostLoop? e.blocks = some (start, next, done) ∧ e.emit (.jump .goto next) = e' := by
  simp [nextRound, bind_eq_ok, loopLabels_eq_ok, pure, Except.pure]

theorem enterStep_eq_ok {start next done : Label} (hb : innermostLoop? e.blocks = some (start, next, done))
    (hne : next ≠ start) (h : e.enterStep = .ok e') : e' = e.emit (.mark next) := by
  obtain ⟨labels, hl, h⟩ := bind_eq_ok.mp h
  rw [loopLabels_eq_ok, hb] at hl
  cases hl
  simpa [pure, Except.pure, hne, eq_comm] using h

theorem endLoop_eq_ok {start next done : Label} {rest : List Block} (hb : e.blocks = .loop start next done :: rest)
    (h : e.endLoop = .ok e') : e' = e.close [.jump .goto start, .mark done] rest := by
  rw [endLoop, hb] at h
  cases h
  rfl

end Emitter

/-! ### Statements -/

section Shapes
variable {c : Context} {s s' : Scope} {e e' : Emitter} {u : Unit} {condition : Source.Expr} {span : Span}

/-- Lowering the block leaves the open blocks as they were. -/
def KeepsBlocks (c : Context) (stmts : List Stmt) : Prop :=
  ∀ ⦃s s' : Scope⦄ ⦃e e' : Emitter⦄ ⦃u : Unit⦄, Runs (lowerBlock c stmts) ⟨s, e⟩ u ⟨s', e'⟩ → e'.blocks = e.blocks

theorem runs_decision :
    Runs (lowerDecision c condition) ⟨s, e⟩ u ⟨s', e'⟩ ↔ Runs (lowerCondition c s condition) e u e' ∧ s = s' :=
  Runs.emitting_iff

theorem runs_ifThen {thenPart : List Stmt} (hk : KeepsBlocks c thenPart)
    (h : Runs (lowerStmt c (.cond condition thenPart none span)) ⟨s, e⟩ u ⟨s', e'⟩) :
    ∃ e₁ e₂, Runs (lowerCondition c s condition) e () e₁ ∧
      Runs (lowerBlock c thenPart) ⟨s, e₁.beginConditional false⟩ () ⟨s', e₂⟩ ∧
      e' = e₂.close [.mark ⟨e₁.labels⟩] e₁.blocks := by
  obtain ⟨_, ⟨s₁, e₁⟩, r₁, h⟩ := Runs.bind_iff.mp h
  obtain ⟨h₁, rfl⟩ := runs_decision.mp r₁
  obtain ⟨_, ⟨s₂, e₂⟩, r₂, h⟩ := Runs.bind_iff.mp h
  obtain ⟨h₂, rfl⟩ := Runs.blocks_iff.mp r₂
  cases h₂
  obtain ⟨_, ⟨s₃, e₃⟩, h₃, h⟩ := Runs.bind_iff.mp h
  obtain ⟨hend, rfl⟩ := Runs.blocks_iff.mp h
  exact ⟨e₁, e₃, h₁, h₃, Emitter.endConditional_eq_ok (hk h₃) hend⟩

theorem runs_ifElse {thenPart elsePart : List Stmt} (hk : KeepsBlocks c thenPart) (hk' : KeepsBlocks c elsePart)
    (h : Runs (lowerStmt c (.cond condition thenPart (some elsePart) span)) ⟨s, e⟩ u ⟨s', e'⟩) :
    ∃ s₁ e₁ e₂ e₃, Runs (lowerCondition c s condition) e () e₁ ∧
      Runs (lowerBlock c thenPart) ⟨s, e₁.beginConditional true⟩ () ⟨s₁, e₂⟩ ∧
      Runs (lowerBlock c elsePart) ⟨s₁, e₂.emitAll [.jump .goto ⟨e₁.labels + 1⟩, .mark ⟨e₁.labels⟩]⟩ () ⟨s', e₃⟩ ∧
      e' = e₃.close [.mark ⟨e₁.labels + 1⟩] e₁.blocks := by
  obtain ⟨_, ⟨s₁, e₁⟩, r₁, h⟩ := Runs.bind_iff.mp h
  obtain ⟨h₁, rfl⟩ := runs_decision.mp r₁
  obtain ⟨_, ⟨s₂, e₂⟩, r₂, h⟩ := Runs.bind_iff.mp h
  obtain ⟨h₂, rfl⟩ := Runs.blocks_iff.mp r₂
  cases h₂
  obtain ⟨_, ⟨s₃, e₃⟩, h₃, h⟩ := Runs.bind_iff.mp h
  obtain ⟨_, ⟨s₄, e₄⟩, r₄, h⟩ := Runs.bind_iff.mp h
  obtain ⟨h₄, rfl⟩ := Runs.blocks_iff.mp r₄
  obtain rfl := Emitter.enterElse_eq_ok (hk h₃) h₄
  obtain ⟨_, ⟨s₅, e₅⟩, h₅, h⟩ := Runs.bind_iff.mp h
  obtain ⟨hend, rfl⟩ := Runs.blocks_iff.mp h
  exact ⟨s₃, e₁, e₃, e₅, h₁, h₃, h₅, Emitter.endConditional_eq_ok ((hk' h₅).trans (hk h₃)) hend⟩

theorem runs_loop {body : List Stmt} (hk : KeepsBlocks c body)
    (h : Runs (lowerStmt c (.loop condition body none span)) ⟨s, e⟩ u ⟨s', e'⟩) :
    ∃ e₁ e₂, Runs (lowerCondition c s condition) (e.beginLoop false) () e₁ ∧
      Runs (lowerBlock c body) ⟨s, e₁.emit (.jump .ifeq ⟨e.labels + 1⟩)⟩ () ⟨s', e₂⟩ ∧
      e' = e₂.close [.jump .goto ⟨e.labels⟩, .mark ⟨e.labels + 1⟩] e.blocks := by
  obtain ⟨_, ⟨s₁, e₁⟩, r₁, h⟩ := Runs.bind_iff.mp h
  obtain ⟨h₁, rfl⟩ := Runs.blocks_iff.mp r₁
  cases h₁
  obtain ⟨_, ⟨s₂, e₂⟩, r₂, h⟩ := Runs.bind_iff.mp h
  obtain ⟨h₂, rfl⟩ := runs_decision.mp r₂
  have hb₂ : e₂.blocks = _ := (EmitM.Adds.lowerCondition c s condition _ _ _ h₂).blocks
  obtain ⟨_, ⟨s₃, e₃⟩, r₃, h⟩ := Runs.bind_iff.mp h
  obtain ⟨h₃, rfl⟩ := Runs.blocks_iff.mp r₃
  obtain ⟨start, next, done, hl, rfl⟩ := Emitter.loopExit_eq_ok.mp h₃
  rw [hb₂] at hl
  cases hl
  obtain ⟨_, ⟨s₄, e₄⟩, h₄, h⟩ := Runs.bind_iff.mp h
  obtain ⟨hend, rfl⟩ := Runs.blocks_iff.mp h
  exact ⟨e₂, e₄, h₂, h₄, Emitter.endLoop_eq_ok ((hk h₄).trans hb₂) hend⟩

theorem runs_loopStep {body step : List Stmt} (hk : KeepsBlocks c body) (hk' : KeepsBlocks c step)
    (h : Runs (lowerStmt c (.loop condition body (some step) span)) ⟨s, e⟩ u ⟨s', e'⟩) :
    ∃ s₁ e₁ e₂ e₃, Runs (lowerCondition c s condition) (e.beginLoop true) () e₁ ∧
      Runs (lowerBlock c body) ⟨s, e₁.emit (.jump .ifeq ⟨e.labels + 2⟩)⟩ () ⟨s₁, e₂⟩ ∧
      Runs (lowerBlock c step) ⟨s₁, e₂.emit (.mark ⟨e.labels + 1⟩)⟩ () ⟨s', e₃⟩ ∧
      e' = e₃.close [.jump .goto ⟨e.labels⟩, .mark ⟨e.labels + 2⟩] e.blocks := by
  obtain ⟨_, ⟨s₁, e₁⟩, r₁, h⟩ := Runs.bind_iff.mp h
  obtain ⟨h₁, rfl⟩ := Runs.blocks_iff.mp r₁
  cases h₁
  obtain ⟨_, ⟨s₂, e₂⟩, r₂, h⟩ := Runs.bind_iff.mp h
  obtain ⟨h₂, rfl⟩ := runs_decision.mp r₂
  have hb₂ : e₂.blocks = _ := (EmitM.Adds.lowerCondition c s condition _ _ _ h₂).blocks
  obtain ⟨_, ⟨s₃, e₃⟩, r₃, h⟩ := Runs.bind_iff.mp h
  obtain ⟨h₃, rfl⟩ := Runs.blocks_iff.mp r₃
  obtain ⟨start, next, done, hl, rfl⟩ := Emitter.loopExit_eq_ok.mp h₃
  rw [hb₂] at hl
  cases hl
  obtain ⟨_, ⟨s₄, e₄⟩, h₄, h⟩ := Runs.bind_iff.mp h
  have hb₄ := (hk h₄).trans hb₂
  obtain ⟨_, ⟨s₅, e₅⟩, r₅, h⟩ := Runs.bind_iff.mp h
  obtain ⟨h₅, rfl⟩ := Runs.blocks_iff.mp r₅
  obtain rfl := Emitter.enterStep_eq_ok (by rw [hb₄]; rfl) (by simp) h₅
  obtain ⟨_, ⟨s₆, e₆⟩, h₆, h⟩ := Runs.bind_iff.mp h
  obtain ⟨hend, rfl⟩ := Runs.blocks_iff.mp h
  exact ⟨s₄, e₂, e₄, e₆, h₂, h₄, h₆, Emitter.endLoop_eq_ok ((hk' h₆).trans hb₄) hend⟩

/-- A variable gets its slot after its initial value has been worked out, which is then stored there. -/
theorem runs_var {v : VarDecl} (h : Runs (lowerVar c v) ⟨s, e⟩ u ⟨s', e'⟩) :
    ∃ t x, (c.resolveType v.type).result = .ok t ∧ t.isVoid = false ∧
      s.add v.name.name t v.name.span = .ok (x, s') ∧
      (v.init = none ∧ e' = e ∨ ∃ init e₁, v.init = some init ∧ Runs (lowerExpr c s init) e t e₁ ∧
        e' = e₁.emitAll (t.storeCode x.slot)) := by
  obtain ⟨name, type, init, vspan⟩ := v
  unfold lowerVar at h
  obtain ⟨t, ⟨s₁, e₁⟩, r₁, h⟩ := Runs.bind_iff.mp h
  obtain ⟨ht, hs⟩ := Runs.lift_iff.mp r₁
  cases hs
  rcases Runs.ite_iff.mp h with ⟨-, h⟩ | ⟨hvoid, h⟩
  · simp at h
  rw [Bool.not_eq_true] at hvoid
  cases init with
  | none =>
    obtain ⟨x, ⟨s₂, e₂⟩, hx, h⟩ := Runs.bind_iff.mp h
    obtain ⟨hadd, rfl⟩ := Runs.declare_iff.mp hx
    obtain ⟨-, h⟩ := Runs.pure_iff.mp h
    cases h
    exact ⟨t, x, ht, hvoid, hadd, .inl ⟨rfl, rfl⟩⟩
  | some init =>
    obtain ⟨found, ⟨s₂, e₂⟩, r₂, h⟩ := Runs.bind_iff.mp h
    obtain ⟨h₂, rfl⟩ := Runs.emitting_iff.mp r₂
    rcases Runs.ite_iff.mp h with ⟨-, h⟩ | ⟨hfound, h⟩
    · simp at h
    obtain rfl := not_not.mp hfound
    obtain ⟨x, ⟨s₃, e₃⟩, hx, h⟩ := Runs.bind_iff.mp h
    obtain ⟨hadd, rfl⟩ := Runs.declare_iff.mp hx
    obtain ⟨rfl, rfl⟩ := Runs.bodyEmitAll_iff.mp h
    obtain ⟨-, -, rfl, -⟩ := Scope.add_eq_ok hadd
    exact ⟨found, _, ht, hvoid, hadd, .inr ⟨init, e₂, rfl, h₂, rfl⟩⟩

theorem runs_assigned {name : String} {t : Ty} {value : Source.Expr}
    (h : Runs (lowerAssigned c name t value) ⟨s, e⟩ u ⟨s', e'⟩) : Runs (lowerExpr c s value) e t e' ∧ s = s' := by
  obtain ⟨found, ⟨s₁, e₁⟩, r₁, h⟩ := Runs.bind_iff.mp h
  obtain ⟨h₁, rfl⟩ := Runs.emitting_iff.mp r₁
  rcases Runs.ite_iff.mp h with ⟨-, h⟩ | ⟨hfound, hend⟩
  · exact absurd h Runs.throw_iff
  obtain ⟨-, hs⟩ := Runs.pure_iff.mp hend
  cases hs
  exact ⟨not_not.mp hfound ▸ h₁, rfl⟩

/-- The value is worked out and stored in a local, or in a field of the class. -/
theorem runs_assign {target : Source.Ident} {value : Source.Expr}
    (h : Runs (lowerStmt c (.assign target value span)) ⟨s, e⟩ u ⟨s', e'⟩) :
    s' = s ∧ ((∃ v e₁, s.get? target.name = some v ∧ Runs (lowerExpr c s value) e v.type e₁ ∧
        e' = e₁.emitAll (v.type.storeCode v.slot)) ∨
      ∃ f e₁, s.get? target.name = none ∧ (c.ownField? target.name target.span).result = .ok (some f) ∧
        (f.isStatic = false → s.method.isStatic = false) ∧
        Runs (lowerExpr c s value) (e.emitAll (if f.isStatic then [] else [.this])) f.type e₁ ∧
        e' = e₁.emit (f.putCode c.own.name)) := by
  obtain ⟨_, ⟨s₁, e₁⟩, hget, h⟩ := Runs.bind_iff.mp (show Runs (lowerAssign c target value) ⟨s, e⟩ u ⟨s', e'⟩ from h)
  obtain ⟨rfl, hs⟩ := Runs.get_iff.mp hget
  cases hs
  dsimp only at h
  split at h
  · rename_i v hv
    obtain ⟨_, ⟨s₂, e₂⟩, r₂, h⟩ := Runs.bind_iff.mp h
    obtain ⟨h₂, rfl⟩ := runs_assigned r₂
    obtain ⟨rfl, rfl⟩ := Runs.bodyEmitAll_iff.mp h
    exact ⟨rfl, .inl ⟨v, e₂, hv, h₂, rfl⟩⟩
  · rename_i hv
    obtain ⟨f, ⟨s₂, e₂⟩, r₂, h⟩ := Runs.bind_iff.mp h
    obtain ⟨hf, hs⟩ := Runs.lift_iff.mp r₂
    cases hs
    split at h
    · simp at h
    · rename_i f
      rcases Runs.ite_iff.mp h with ⟨-, h⟩ | ⟨hstatic, h⟩
      · simp at h
      obtain ⟨_, ⟨s₃, e₃⟩, r₃, h⟩ := Runs.bind_iff.mp h
      obtain ⟨rfl, rfl⟩ := Runs.bodyEmitAll_iff.mp r₃
      obtain ⟨_, ⟨s₄, e₄⟩, r₄, h⟩ := Runs.bind_iff.mp h
      obtain ⟨h₄, rfl⟩ := runs_assigned r₄
      obtain ⟨rfl, rfl⟩ := Runs.bodyEmitAll_iff.mp h
      exact ⟨rfl, .inr ⟨f, e₄, hv, hf, by simpa using hstatic, h₄, rfl⟩⟩

theorem runs_ret {value : Option Source.Expr} (h : Runs (lowerStmt c (.ret value span)) ⟨s, e⟩ u ⟨s', e'⟩) :
    s' = s ∧ ∃ e₁, e' = e₁.emit s.method.returns.returnCode ∧
      (value = none ∧ s.method.returns = .void ∧ e₁ = e ∨
        ∃ x, value = some x ∧ Runs (lowerExpr c s x) e s.method.returns e₁) := by
  obtain ⟨_, ⟨s₁, e₁⟩, hget, h⟩ := Runs.bind_iff.mp (show Runs (lowerReturn c value span) ⟨s, e⟩ u ⟨s', e'⟩ from h)
  obtain ⟨rfl, hs⟩ := Runs.get_iff.mp hget
  cases hs
  dsimp only at h
  cases value with
  | some x =>
    obtain ⟨found, ⟨s₂, e₂⟩, r₂, h⟩ := Runs.bind_iff.mp h
    obtain ⟨h₂, rfl⟩ := Runs.emitting_iff.mp r₂
    rcases Runs.ite_iff.mp h with ⟨-, h⟩ | ⟨hfound, hend⟩
    · simp at h
    obtain ⟨rfl, rfl⟩ := Runs.bodyEmitAll_iff.mp hend
    exact ⟨rfl, e₂, rfl, .inr ⟨x, rfl, not_not.mp hfound ▸ h₂⟩⟩
  | none =>
    obtain ⟨found, ⟨s₂, e₂⟩, r₂, h⟩ := Runs.bind_iff.mp h
    obtain ⟨rfl, hs⟩ := Runs.pure_iff.mp r₂
    cases hs
    rcases Runs.ite_iff.mp h with ⟨-, h⟩ | ⟨hfound, hend⟩
    · simp at h
    obtain ⟨rfl, rfl⟩ := Runs.bodyEmitAll_iff.mp hend
    exact ⟨rfl, e, rfl, .inl ⟨rfl, (not_not.mp hfound).symm, rfl⟩⟩

theorem runs_expr {x : Source.Expr} (h : Runs (lowerStmt c (.expr x)) ⟨s, e⟩ u ⟨s', e'⟩) :
    s' = s ∧ ∃ t e₁, Runs (lowerExpr c s x) e t e₁ ∧ e' = e₁.emitAll t.discardCode := by
  obtain ⟨t, ⟨s₁, e₁⟩, r₁, h⟩ := Runs.bind_iff.mp h
  obtain ⟨h₁, rfl⟩ := Runs.emitting_iff.mp r₁
  obtain ⟨rfl, rfl⟩ := Runs.bodyEmitAll_iff.mp h
  exact ⟨rfl, t, e₁, h₁, rfl⟩

theorem runs_exit (h : Runs (lowerStmt c (.exit span)) ⟨s, e⟩ u ⟨s', e'⟩) :
    s' = s ∧ ∃ start next done, Emitter.innermostLoop? e.blocks = some (start, next, done) ∧
      e' = e.emit (.jump .goto done) := by
  obtain ⟨hblocks, rfl⟩ := Runs.blocks_iff.mp h
  obtain ⟨start, next, done, hl, rfl⟩ := Emitter.exitLoop_eq_ok.mp hblocks
  exact ⟨rfl, start, next, done, hl, rfl⟩

theorem runs_next (h : Runs (lowerStmt c (.next span)) ⟨s, e⟩ u ⟨s', e'⟩) :
    s' = s ∧ ∃ start next done, Emitter.innermostLoop? e.blocks = some (start, next, done) ∧
      e' = e.emit (.jump .goto next) := by
  obtain ⟨hblocks, rfl⟩ := Runs.blocks_iff.mp h
  obtain ⟨start, next, done, hl, rfl⟩ := Emitter.nextRound_eq_ok.mp hblocks
  exact ⟨rfl, start, next, done, hl, rfl⟩

end Shapes

/-! ### Growth -/

/-- What lowering does to a body: it adds code and labels, closes the blocks that it opens, and adds to the scope. -/
def BodyM.Adds (x : BodyM Unit) : Prop :=
  ∀ ⦃s s' : Scope⦄ ⦃e e' : Emitter⦄ ⦃u : Unit⦄, Runs x ⟨s, e⟩ u ⟨s', e'⟩ → e.Extends e' ∧ s.Grows s'

namespace Emitter
variable {e e₁ e₂ e₃ : Emitter} {is : List Instr}

theorem Grows.beginConditional (e : Emitter) (b : Bool) : e.Grows (e.beginConditional b) := by
  cases b
  · exact ⟨(Grows.emit e _).instrs, Nat.le_succ _⟩
  · exact ⟨(Grows.emit e _).instrs, Nat.le_add_right _ 2⟩

theorem Grows.beginLoop (e : Emitter) (b : Bool) : e.Grows (e.beginLoop b) := by
  cases b
  · exact ⟨(Grows.emit e _).instrs, Nat.le_add_right _ 2⟩
  · exact ⟨(Grows.emit e _).instrs, Nat.le_add_right _ 3⟩

theorem Grows.close (e : Emitter) (is : List Instr) (blocks : List Block) : e.Grows (e.close is blocks) :=
  ⟨(Grows.emitAll e is).instrs, (Grows.emitAll e is).labels⟩

@[simp] theorem labels_beginConditional (e : Emitter) (b : Bool) :
    (e.beginConditional b).labels = e.labels + if b then 2 else 1 := by cases b <;> rfl

@[simp] theorem labels_beginLoop (e : Emitter) (b : Bool) :
    (e.beginLoop b).labels = e.labels + if b then 3 else 2 := by cases b <;> rfl

@[simp] theorem marks_beginConditional (e : Emitter) (b : Bool) (l : Label) :
    (e.beginConditional b).marks l = e.marks l := by
  cases b <;> exact marks_emit_jump e _ _ l

@[simp] theorem marks_beginLoop (e : Emitter) (b : Bool) (l : Label) :
    (e.beginLoop b).marks l = e.marks l + if e.labels = l.id then 1 else 0 := by
  cases b <;> exact marks_emit_mark e _ l

theorem marks_close (e : Emitter) (is : List Instr) (blocks : List Block) (l : Label) :
    (e.close is blocks).marks l = (e.emitAll is).marks l := rfl

theorem labels_close (e : Emitter) (is : List Instr) (blocks : List Block) :
    (e.close is blocks).labels = e.labels := by rw [close, emitAll_eq]

namespace Sealed

theorem beginConditional (h : e.Sealed) (b : Bool) : (e.beginConditional b).Sealed := by
  cases b
  · have hs := (h.relabel (Nat.le_succ _)).jump .ifeq (l := ⟨e.labels⟩) (Nat.lt_succ_self _)
    exact hs.reopen (List.forall_mem_cons.mpr ⟨trivial, hs.loops⟩)
  · have hs := (h.relabel (Nat.le_add_right _ 2)).jump .ifeq (l := ⟨e.labels⟩) (Nat.lt_add_of_pos_right Nat.two_pos)
    exact hs.reopen (List.forall_mem_cons.mpr ⟨trivial, hs.loops⟩)

theorem beginLoop (h : e.Sealed) (b : Bool) : (e.beginLoop b).Sealed := by
  cases b
  · have hs := (h.relabel (Nat.le_add_right _ 2)).mark ⟨e.labels⟩
    refine hs.reopen (List.forall_mem_cons.mpr ⟨?_, hs.loops⟩)
    exact ⟨Nat.lt_add_of_pos_right Nat.two_pos, Nat.lt_succ_self _⟩
  · have hs := (h.relabel (Nat.le_add_right _ 3)).mark ⟨e.labels⟩
    refine hs.reopen (List.forall_mem_cons.mpr ⟨?_, hs.loops⟩)
    exact ⟨Nat.lt_succ_of_lt (Nat.lt_succ_self _), Nat.lt_succ_self _⟩

/-- The loops around a block stay what they were. -/
theorem close (h : e.Sealed) (hg : e.Grows e₁) (h₁ : (e₁.emitAll is).Sealed) : (e₁.close is e.blocks).Sealed :=
  h₁.reopen fun block hb => (h.loops block hb).mono (hg.trans (.emitAll e₁ is)).labels

theorem innermost (h : e.Sealed) {start next done : Label} (hl : innermostLoop? e.blocks = some (start, next, done)) :
    next.id < e.labels ∧ done.id < e.labels := by
  obtain ⟨-, hloops⟩ := h
  generalize e.blocks = blocks at hl hloops
  induction blocks with
  | nil => cases hl
  | cons block rest ih =>
    obtain ⟨hblock, hrest⟩ := List.forall_mem_cons.mp hloops
    cases block with
    | conditional => exact ih hl hrest
    | loop =>
      cases hl
      exact hblock

end Sealed

/-! ### Labels of statements -/

namespace Extends

theorem ifThen (h : (e.beginConditional false).Extends e₁) : e.Extends (e₁.close [.mark ⟨e.labels⟩] e.blocks) := by
  have hgrows := (Grows.beginConditional e false).trans h.toGrows
  refine ⟨hgrows.trans (.close _ _ _), rfl, fun l => ?_, fun hs => ?_⟩
  · have hm := h.marks l
    have hle := h.labels
    simp only [marks_close, labels_close, emitAll_cons, emitAll_nil, marks_emit_mark, marks_beginConditional,
      labels_beginConditional] at hm hle ⊢
    grind
  · exact hs.close hgrows ((h.sealed (hs.beginConditional false)).mark _)

theorem ifElse (h : (e.beginConditional true).Extends e₁)
    (h' : (e₁.emitAll [.jump .goto ⟨e.labels + 1⟩, .mark ⟨e.labels⟩]).Extends e₂) :
    e.Extends (e₂.close [.mark ⟨e.labels + 1⟩] e.blocks) := by
  have hgrows := (Grows.beginConditional e true).trans (h.toGrows.trans ((Grows.emitAll e₁ _).trans h'.toGrows))
  refine ⟨hgrows.trans (.close _ _ _), rfl, fun l => ?_, fun hs => ?_⟩
  · have hm := h.marks l
    have hm' := h'.marks l
    have hle := h.labels
    have hle' := h'.labels
    simp only [marks_close, labels_close, emitAll_cons, emitAll_nil, marks_emit_mark, marks_emit_jump, labels_emit,
      marks_beginConditional, labels_beginConditional] at hm hm' hle hle' ⊢
    grind
  · have hskip := (h.sealed (hs.beginConditional true)).jump .goto (l := ⟨e.labels + 1⟩) h.labels
    exact hs.close hgrows ((h'.sealed (hskip.mark _)).mark _)

theorem loop (h : (e.beginLoop false).Extends e₁) (h' : (e₁.emit (.jump .ifeq ⟨e.labels + 1⟩)).Extends e₂) :
    e.Extends (e₂.close [.jump .goto ⟨e.labels⟩, .mark ⟨e.labels + 1⟩] e.blocks) := by
  have hgrows := (Grows.beginLoop e false).trans (h.toGrows.trans ((Grows.emit e₁ _).trans h'.toGrows))
  refine ⟨hgrows.trans (.close _ _ _), rfl, fun l => ?_, fun hs => ?_⟩
  · have hm := h.marks l
    have hm' := h'.marks l
    have hle := h.labels
    have hle' := h'.labels
    simp only [marks_close, labels_close, emitAll_cons, emitAll_nil, marks_emit_mark, marks_emit_jump, labels_emit,
      marks_beginLoop, labels_beginLoop] at hm hm' hle hle' ⊢
    grind
  · have hexit := (h.sealed (hs.beginLoop false)).jump .ifeq (l := ⟨e.labels + 1⟩) h.labels
    have hback := (h'.sealed hexit).jump .goto (l := ⟨e.labels⟩) (Nat.lt_of_lt_of_le (Nat.lt_of_succ_lt h.labels) h'.labels)
    exact hs.close hgrows (hback.mark _)

theorem loopStep (h : (e.beginLoop true).Extends e₁) (h' : (e₁.emit (.jump .ifeq ⟨e.labels + 2⟩)).Extends e₂)
    (h'' : (e₂.emit (.mark ⟨e.labels + 1⟩)).Extends e₃) :
    e.Extends (e₃.close [.jump .goto ⟨e.labels⟩, .mark ⟨e.labels + 2⟩] e.blocks) := by
  have hround := h.toGrows.trans ((Grows.emit e₁ _).trans (h'.toGrows.trans ((Grows.emit e₂ _).trans h''.toGrows)))
  have hgrows := (Grows.beginLoop e true).trans hround
  refine ⟨hgrows.trans (.close _ _ _), rfl, fun l => ?_, fun hs => ?_⟩
  · have hm := h.marks l
    have hm' := h'.marks l
    have hm'' := h''.marks l
    have hle := h.labels
    have hle' := h'.labels
    have hle'' := h''.labels
    simp only [marks_close, labels_close, emitAll_cons, emitAll_nil, marks_emit_mark, marks_emit_jump, labels_emit,
      marks_beginLoop, labels_beginLoop] at hm hm' hm'' hle hle' hle'' ⊢
    grind
  · have hexit := (h.sealed (hs.beginLoop true)).jump .ifeq (l := ⟨e.labels + 2⟩) h.labels
    have hlt : e.labels < e₃.labels := Nat.lt_of_lt_of_le (Nat.lt_add_of_pos_right (Nat.succ_pos 2)) hround.labels
    exact hs.close hgrows (((h''.sealed ((h'.sealed hexit).mark _)).jump .goto hlt).mark _)

end Extends

end Emitter

theorem BodyM.Adds.lowerVar (c : Context) (v : VarDecl) : BodyM.Adds (Classwright.lowerVar c v) := by
  intro s s' e e' u h
  obtain ⟨t, x, -, hvoid, hadd, hinit⟩ := runs_var h
  refine ⟨?_, Scope.Grows.refl.add hvoid hadd⟩
  rcases hinit with ⟨-, rfl⟩ | ⟨init, e₁, -, h₁, rfl⟩
  · exact .refl _
  · exact (EmitM.Adds.lowerExpr c s init _ _ _ h₁).trans (.plainAll _ (t.plain_storeCode _))

theorem BodyM.Adds.lowerVars (c : Context) (vars : List VarDecl) : BodyM.Adds (Classwright.lowerVars c vars) := by
  induction vars with
  | nil =>
    intro s s' e e' u h
    obtain ⟨-, hs⟩ := Runs.pure_iff.mp h
    cases hs
    exact ⟨.refl e, .refl⟩
  | cons v rest ih =>
    intro s s' e e' u h
    obtain ⟨_, ⟨s₁, e₁⟩, hv, h⟩ := Runs.bind_iff.mp h
    obtain ⟨he₁, hs₁⟩ := BodyM.Adds.lowerVar c v hv
    obtain ⟨he, hs⟩ := ih h
    exact ⟨he₁.trans he, hs₁.trans hs⟩

theorem BodyM.Adds.stmtSteps (c : Context) :
    Source.StmtSteps (fun stmt => BodyM.Adds (lowerStmt c stmt)) (fun stmts => BodyM.Adds (lowerBlock c stmts)) where
  var vars span := lowerVars c vars
  assign target value span := by
    intro s s' e e' u h
    obtain ⟨rfl, ⟨v, e₁, -, h₁, rfl⟩ | ⟨f, e₁, -, -, -, h₁, rfl⟩⟩ := runs_assign h
    · exact ⟨(EmitM.Adds.lowerExpr c _ value _ _ _ h₁).trans (.plainAll _ (v.type.plain_storeCode _)), .refl⟩
    · have hreceiver : e.Extends (e.emitAll (if f.isStatic then [] else [.this])) := .plainAll e (all_ite rfl rfl)
      exact ⟨(hreceiver.trans (EmitM.Adds.lowerExpr c _ value _ _ _ h₁)).trans (.plain _ rfl), .refl⟩
  expr x := by
    intro s s' e e' u h
    obtain ⟨rfl, t, e₁, h₁, rfl⟩ := runs_expr h
    exact ⟨(EmitM.Adds.lowerExpr c _ x _ _ _ h₁).trans (.plainAll _ (Instr.all_isPlain t.inert_discardCode)), .refl⟩
  ifThen condition thenPart span ih := by
    intro s s' e e' u h
    obtain ⟨e₁, e₂, h₁, h₂, rfl⟩ := runs_ifThen (fun _ _ _ _ _ h => (ih h).1.blocks) h
    have hc := EmitM.Adds.lowerCondition c s condition _ _ _ h₁
    obtain ⟨hb, hs⟩ := ih h₂
    exact ⟨hc.trans hb.ifThen, hs⟩
  ifElse condition thenPart elsePart span ih ih' := by
    intro s s' e e' u h
    obtain ⟨s₁, e₁, e₂, e₃, h₁, h₂, h₃, rfl⟩ :=
      runs_ifElse (fun _ _ _ _ _ h => (ih h).1.blocks) (fun _ _ _ _ _ h => (ih' h).1.blocks) h
    have hc := EmitM.Adds.lowerCondition c s condition _ _ _ h₁
    obtain ⟨hb, hs⟩ := ih h₂
    obtain ⟨hb', hs'⟩ := ih' h₃
    exact ⟨hc.trans (hb.ifElse hb'), hs.trans hs'⟩
  loop condition body span ih := by
    intro s s' e e' u h
    obtain ⟨e₁, e₂, h₁, h₂, rfl⟩ := runs_loop (fun _ _ _ _ _ h => (ih h).1.blocks) h
    have hc := EmitM.Adds.lowerCondition c s condition _ _ _ h₁
    obtain ⟨hb, hs⟩ := ih h₂
    exact ⟨hc.loop hb, hs⟩
  loopStep condition body step span ih ih' := by
    intro s s' e e' u h
    obtain ⟨s₁, e₁, e₂, e₃, h₁, h₂, h₃, rfl⟩ :=
      runs_loopStep (fun _ _ _ _ _ h => (ih h).1.blocks) (fun _ _ _ _ _ h => (ih' h).1.blocks) h
    have hc := EmitM.Adds.lowerCondition c s condition _ _ _ h₁
    obtain ⟨hb, hs⟩ := ih h₂
    obtain ⟨hb', hs'⟩ := ih' h₃
    exact ⟨hc.loopStep hb hb', hs.trans hs'⟩
  exit span := by
    intro s s' e e' u h
    obtain ⟨rfl, start, next, done, hl, rfl⟩ := runs_exit h
    exact ⟨.jump .goto fun hs => (hs.innermost hl).2, .refl⟩
  next span := by
    intro s s' e e' u h
    obtain ⟨rfl, start, next, done, hl, rfl⟩ := runs_next h
    exact ⟨.jump .goto fun hs => (hs.innermost hl).1, .refl⟩
  ret value span := by
    intro s s' e e' u h
    obtain ⟨rfl, e₁, rfl, ⟨-, -, rfl⟩ | ⟨x, -, h₁⟩⟩ := runs_ret h
    · exact ⟨.returns _ _, .refl⟩
    · exact ⟨(EmitM.Adds.lowerExpr c _ x _ _ _ h₁).trans (.returns _ _), .refl⟩
  block stmts span ih := ih
  nil := by
    intro s s' e e' u h
    obtain ⟨-, hs⟩ := Runs.pure_iff.mp h
    cases hs
    exact ⟨.refl e, .refl⟩
  cons stmt rest ih ih' := by
    intro s s' e e' u h
    obtain ⟨_, ⟨s₁, e₁⟩, h₁, h⟩ := Runs.bind_iff.mp h
    exact ⟨(ih h₁).1.trans (ih' h).1, (ih h₁).2.trans (ih' h).2⟩

theorem BodyM.Adds.lowerBlock (c : Context) (stmts : List Stmt) : BodyM.Adds (Classwright.lowerBlock c stmts) :=
  (stmtSteps c).forBlock stmts

theorem BodyM.Adds.lowerStmt (c : Context) (stmt : Stmt) : BodyM.Adds (Classwright.lowerStmt c stmt) :=
  (stmtSteps c).forStmt stmt

theorem keepsBlocks (c : Context) (stmts : List Stmt) : KeepsBlocks c stmts :=
  fun _ _ _ _ _ h => (BodyM.Adds.lowerBlock c stmts h).1.blocks

end Classwright
