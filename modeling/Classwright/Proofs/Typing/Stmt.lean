import Classwright.Proofs.Lowering.Statements
import Classwright.Proofs.Typing.Expr

/-! # Typing statements

A statement finds the stack empty and leaves it empty. A jump out of it goes to the loop around it, where the stack is
empty too. -/

namespace Classwright

/-- The shape between statements. -/
def Shape.idle : Shape := ⟨true, []⟩

namespace Subject
variable {B : Subject} {c : Context} {s s' : Scope} {σ : List Entry} {out : Ports} {e e' : Emitter}

/-! ### Values -/

theorem Steps.consume {i : Nat} {op : Opcode} {u : VType} {b : Bool} (h : op.effect? = some ([u], []))
    (hu : Entry.of u = .exact u) : B.Steps i (.op op) ⟨b, .exact u :: σ⟩ ⟨b, σ⟩ := hu ▸ effect h

section Values
variable (hB : B.Sound c)
include hB

theorem Emits.store {x : String} {v : Local} (hv : B.scope.get? x = some v) :
    B.Emits out e (e.emitAll (v.type.storeCode v.slot)) ⟨true, v.type.entry :: σ⟩ ⟨true, σ⟩ := by
  obtain ⟨_, kind, -, hkind, -, hk, -⟩ := Ty.Has.value (b := true) (t := v.type) (.inl rfl) (hB.values x v hv)
  rw [Ty.storeCode, hkind]
  exact .emit (Steps.store hB.laid hB.values hv hk) nofun

theorem Steps.returnVoid {i : Nat} : B.Steps i (.op .returnVoid) ⟨true, σ⟩ ⟨true, σ⟩ := by
  refine ⟨.nothing rfl, fun f hf => ?_⟩
  change Meets _ _ (if B.head.isConstructor = true ∧ f.locals.head? = some .uninitializedThis then _ else _)
  rw [if_neg]
  · exact hf
  · rintro ⟨hctor, hhead⟩
    obtain ⟨x, v, hv, hslot, -⟩ := hB.receiver (hB.constructors (hB.head ▸ hctor))
    have hzero : f.getLocal v.slot.toNat = .uninitializedThis := by
      rw [hslot, show (0 : UInt16).toNat = 0 from rfl, Frame.getLocal, List.getD_eq_getElem?_getD,
        ← List.head?_eq_getElem?, hhead]
      rfl
    have hlocal := hf.locals x v hv
    rw [hzero, Local.entry_true] at hlocal
    rcases hlocal with htop | hold
    · cases htop
    · exact (Ty.entry_holds hold).1 rfl

theorem Emits.returns {t : Ty} (hσ : t.Leaves true [] σ) (shape : Shape) :
    B.Emits out e (e.emit t.returnCode) ⟨true, σ⟩ shape := by
  cases hσ with
  | void hvoid =>
    obtain rfl := Ty.eq_void hvoid
    exact .stop rfl (Steps.returnVoid hB)
  | @value v hvalue hv =>
    obtain ⟨_, kind, -, hkind, -, hk, -⟩ := hv.value hvalue
    rw [Ty.returnCode, hkind]
    cases kind with
    | ref => exact .stop rfl (Steps.popsReference (fun _ => rfl) hk (.of_has hv nofun))
    | _ =>
      cases v with
      | object => cases hk
      | exact u =>
        cases u <;> cases hk
        exact .stop rfl (Steps.consume rfl rfl)

end Values

theorem Emits.discard {t : Ty} (hσ : t.Leaves true [] σ) :
    B.Emits out e (e.emitAll t.discardCode) ⟨true, σ⟩ .idle := by
  cases hσ with
  | void hvoid =>
    obtain rfl := Ty.eq_void hvoid
    exact .nil
  | @value v hvalue hv =>
    obtain ⟨_, -, -, -, -, -, hwidth⟩ := hv.value hvalue
    rcases v.sample.width_eq_one_or_two with h | h
    · rw [Ty.discardCode, ← hwidth, h]
      exact .emit (Steps.pop h) nofun
    · rw [Ty.discardCode, ← hwidth, h]
      exact .emit (Steps.pop2 h) nofun

/-! ### Statements -/

/-- Jumps to the loop around find the stack empty. -/
def Exits (out : Ports) (blocks : List Block) : Prop :=
  ∀ start next done, Emitter.innermostLoop? blocks = some (start, next, done) → out next .idle ∧ out done .idle

theorem Exits.add {blocks : List Block} (h : Exits out blocks) (l : Label) (t : Shape) : Exits (out.add l t) blocks :=
  fun start next done hl => ⟨.inr (h start next done hl).1, .inr (h start next done hl).2⟩

/-- Lowering emits code that leaves the stack empty. -/
def Clean (B : Subject) (x : BodyM Unit) : Prop :=
  ∀ ⦃s s' : Scope⦄ ⦃e e' : Emitter⦄ ⦃u : Unit⦄, Runs x ⟨s, e⟩ u ⟨s', e'⟩ → s'.Grows B.scope →
    ∀ out, Exits out e.blocks → B.Emits out e e' .idle .idle

section Statements
variable (hB : B.Sound c)
include hB

omit hB in
theorem Emits.ifeq {l : Label} (hl : out l .idle) :
    B.Emits out e (e.emit (.jump .ifeq l)) ⟨true, [.exact .integer]⟩ .idle :=
  .jump (Steps.branch fun _ => rfl) hl (.inr rfl)

theorem leaves_expr (hs : s.Grows B.scope) {x : Source.Expr} {t : Ty} (h : Runs (lowerExpr c s x) e t e') :
    ∃ σ', t.Leaves true [] σ' ∧ B.Emits out e e' .idle ⟨true, σ'⟩ := by
  obtain ⟨σ', hσ', hemits⟩ := pushes_expr (b := true) hB hs nofun x h (fun _ => rfl) [] .nil
  exact ⟨σ', hσ', hemits.anywhere⟩

theorem emits_value (hs : s.Grows B.scope) {x : Source.Expr} {t : Ty} (h : Runs (lowerExpr c s x) e t e')
    (hvalue : t.isVoid = false) (hσ : Sites e.size σ) : B.Emits out e e' ⟨true, σ⟩ ⟨true, t.entry :: σ⟩ := by
  obtain ⟨v, hv, hemits⟩ := (pushes_expr (b := true) hB hs nofun x).value h hvalue hσ
  rw [hv.eq_entry] at hemits
  exact hemits.anywhere

theorem emits_condition (hs : s.Grows B.scope) {x : Source.Expr} {u : Unit} (h : Runs (lowerCondition c s x) e u e') :
    B.Emits out e e' .idle ⟨true, [.exact .integer]⟩ := by
  obtain ⟨t, e₁, hx, h⟩ := Runs.bind_iff.mp (show Runs (_ >>= _) e u e' from h)
  obtain ⟨rfl, rfl⟩ := Runs.expectCondition_iff.mp h
  exact emits_value hB hs hx rfl .nil

theorem clean_var (v : Source.VarDecl) : B.Clean (lowerVar c v) := by
  intro s s' e e' u h hs out _
  obtain ⟨t, x, -, hvoid, hadd, hinit⟩ := runs_var h
  rcases hinit with ⟨-, rfl⟩ | ⟨init, e₁, -, hx, rfl⟩
  · exact .nil
  · have hs₁ := (Scope.Grows.refl.add hvoid hadd).trans hs
    obtain ⟨-, -, rfl, rfl⟩ := Scope.add_eq_ok hadd
    have hget : (s.push (s.candidate v.name.name t)).get? v.name.name = some (s.candidate v.name.name t) :=
      (Scope.get?_push _ _ _).trans (if_pos rfl)
    exact (emits_value hB hs₁ hx hvoid .nil).trans (.store hB (hs.get? hget))

theorem clean_vars (vars : List Source.VarDecl) : B.Clean (lowerVars c vars) := by
  induction vars with
  | nil =>
    intro s s' e e' u h _ out _
    obtain ⟨-, hs⟩ := Runs.pure_iff.mp h
    cases hs
    exact .nil
  | cons v rest ih =>
    intro s s' e e' u h hs out hout
    obtain ⟨_, ⟨s₁, e₁⟩, hv, h⟩ := Runs.bind_iff.mp h
    have hblocks := (BodyM.Adds.lowerVar c v hv).1.blocks
    have hs₁ := (BodyM.Adds.lowerVars c rest h).2.trans hs
    exact (clean_var hB v hv hs₁ out hout).trans (ih h hs out (hblocks ▸ hout))

theorem clean_assign (target : Source.Ident) (value : Source.Expr) (span : Span) :
    B.Clean (lowerStmt c (.assign target value span)) := by
  intro s s' e e' u h hs out _
  obtain ⟨rfl, ⟨v, e₁, hv, hx, rfl⟩ | ⟨f, e₁, -, hf, hstatic, hx, rfl⟩⟩ := runs_assign h
  · have hv' := hs.get? hv
    exact (emits_value hB hs hx (hB.values _ v hv') .nil).trans (.store hB hv')
  · obtain ⟨hvalue, hnamed⟩ := Context.wellFormed_field? hB.classes hf
    cases hfs : f.isStatic with
    | true =>
      rw [hfs] at hx
      exact (emits_value hB hs hx hvalue .nil).trans
        (.emit (Steps.putstatic hnamed hvalue hfs (.inl rfl) (.of_has (.inl rfl) nofun)) nofun)
    | false =>
      have hthis : B.Emits out e (e.emit .this) .idle ⟨true, [.object]⟩ :=
        .emit (Steps.this hB (hs.method ▸ hstatic hfs)) nofun
      rw [hfs] at hx
      exact (hthis.trans (emits_value hB hs hx hvalue (Sites.nil.cons nofun))).trans
        (.emit (Steps.putfield hnamed hvalue hfs (.inl rfl) rfl (.of_has (.inl rfl) nofun) usable_object) nofun)

theorem stmtSteps : Source.StmtSteps (fun stmt => B.Clean (lowerStmt c stmt))
    (fun stmts => B.Clean (lowerBlock c stmts)) where
  var vars span := clean_vars hB vars
  assign := clean_assign hB
  expr x := by
    intro s s' e e' u h hs out _
    obtain ⟨rfl, t, e₁, hx, rfl⟩ := runs_expr h
    obtain ⟨σ, hσ, hemits⟩ := leaves_expr hB hs hx
    exact hemits.trans (.discard hσ)
  ifThen condition thenPart span ih := by
    intro s s' e e' u h hs out hout
    obtain ⟨e₁, e₂, hcond, hthen, rfl⟩ := runs_ifThen (keepsBlocks c thenPart) h
    have hgrows := (BodyM.Adds.lowerBlock c thenPart hthen).2
    have hblocks := (EmitM.Adds.lowerCondition c s condition _ _ _ hcond).blocks
    have hbegin : B.Emits (out.add ⟨e₁.labels⟩ .idle) e₁ (e₁.beginConditional false) ⟨true, [.exact .integer]⟩ .idle :=
      (Emits.ifeq (Ports.self_add _ _ _)).relabel rfl (Nat.le_succ _)
    have hbody := ih hthen hs (out.add ⟨e₁.labels⟩ .idle) (Exits.add (by rwa [← hblocks] at hout) _ _)
    exact (Emits.place hB.marked (((emits_condition hB (hgrows.trans hs) hcond).trans hbegin).trans hbody)).relabel rfl
      (Nat.le_refl _)
  ifElse condition thenPart elsePart span ih ih' := by
    intro s s' e e' u h hs out hout
    obtain ⟨s₁, e₁, e₂, e₃, hcond, hthen, helse, rfl⟩ :=
      runs_ifElse (keepsBlocks c thenPart) (keepsBlocks c elsePart) h
    have hgrows' := (BodyM.Adds.lowerBlock c elsePart helse).2.trans hs
    obtain ⟨hadds, hgrows⟩ := BodyM.Adds.lowerBlock c thenPart hthen
    have hblocks := (EmitM.Adds.lowerCondition c s condition _ _ _ hcond).blocks
    let done : Ports := out.add ⟨e₁.labels + 1⟩ .idle
    let both : Ports := done.add ⟨e₁.labels⟩ .idle
    have hbegin : B.Emits both e₁ (e₁.beginConditional true) ⟨true, [.exact .integer]⟩ .idle :=
      (Emits.ifeq (Ports.self_add _ _ _)).relabel rfl (Nat.le_add_right _ 2)
    have hout : Exits out e₁.blocks := hblocks ▸ hout
    have hfirst := ih hthen hgrows' both ((hout.add _ _).add _ _)
    have hskip : B.Emits both e₂ (e₂.emit (.jump .goto ⟨e₁.labels + 1⟩)) .idle .idle :=
      .jump (Steps.branch fun _ => rfl) (.inr (Ports.self_add _ _ _)) (.inl rfl)
    have hsecond := ih' helse hs done (Exits.add (hadds.blocks ▸ hout) _ _)
    have hall := (Emits.place hB.marked ((((emits_condition hB (hgrows.trans hgrows') hcond).trans hbegin).trans
      hfirst).trans hskip)).trans hsecond
    exact (Emits.place hB.marked hall).relabel rfl (Nat.le_refl _)
  loop condition body span ih := by
    intro s s' e e' u h hs out hout
    obtain ⟨e₁, e₂, hcond, hbody, rfl⟩ := runs_loop (keepsBlocks c body) h
    have hgrows := (BodyM.Adds.lowerBlock c body hbody).2
    have hblocks := (EmitM.Adds.lowerCondition c s condition _ _ _ hcond).blocks
    let start : Ports := out.add ⟨e.labels⟩ .idle
    let both : Ports := start.add ⟨e.labels + 1⟩ .idle
    have hexits : Exits both e₁.blocks := by
      rw [hblocks]
      rintro _ _ _ ⟨⟩
      exact ⟨.inr (Ports.self_add _ _ _), Ports.self_add _ _ _⟩
    have hround := ((emits_condition hB (hgrows.trans hs) hcond).trans (.ifeq (Ports.self_add _ _ _))).trans
      (ih hbody hs both hexits)
    have hback : B.Emits both e₂ (e₂.emit (.jump .goto ⟨e.labels⟩)) .idle .idle :=
      .jump (Steps.branch fun _ => rfl) (.inr (Ports.self_add _ _ _)) (.inl rfl)
    have hall : B.Emits start (e.emit (.mark ⟨e.labels⟩)) _ .idle .idle :=
      (Emits.place hB.marked (hround.trans hback)).relabel_left rfl (Nat.le_add_right _ 2)
    exact (Emits.mark hB.marked .nil hall).relabel rfl (Nat.le_refl _)
  loopStep condition body step span ih ih' := by
    intro s s' e e' u h hs out hout
    obtain ⟨s₁, e₁, e₂, e₃, hcond, hbody, hstep, rfl⟩ := runs_loopStep (keepsBlocks c body) (keepsBlocks c step) h
    have hgrows' := (BodyM.Adds.lowerBlock c step hstep).2.trans hs
    obtain ⟨hadds, hgrows⟩ := BodyM.Adds.lowerBlock c body hbody
    have hblocks := (EmitM.Adds.lowerCondition c s condition _ _ _ hcond).blocks
    let start : Ports := out.add ⟨e.labels⟩ .idle
    let outer : Ports := start.add ⟨e.labels + 2⟩ .idle
    let all : Ports := outer.add ⟨e.labels + 1⟩ .idle
    have hexits : Exits all e₁.blocks := by
      rw [hblocks]
      rintro _ _ _ ⟨⟩
      exact ⟨Ports.self_add _ _ _, .inr (Ports.self_add _ _ _)⟩
    have hround := ((emits_condition hB (hgrows.trans hgrows') hcond).trans (.ifeq (.inr (Ports.self_add _ _ _)))).trans
      (ih hbody hgrows' all hexits)
    have hback : B.Emits all e₃ (e₃.emit (.jump .goto ⟨e.labels⟩)) .idle .idle :=
      .jump (Steps.branch fun _ => rfl) (.inr (.inr (Ports.self_add _ _ _))) (.inl rfl)
    have hnext := Emits.mark hB.marked hround ((ih' hstep hs all (hadds.blocks ▸ hexits)).trans hback)
    have hall : B.Emits start (e.emit (.mark ⟨e.labels⟩)) _ .idle .idle :=
      (Emits.place hB.marked hnext).relabel_left rfl (Nat.le_add_right _ 3)
    exact (Emits.mark hB.marked .nil hall).relabel rfl (Nat.le_refl _)
  exit span := by
    intro s s' e e' u h _ out hout
    obtain ⟨rfl, start, next, done, hl, rfl⟩ := runs_exit h
    exact .jump (Steps.branch fun _ => rfl) (hout start next done hl).2 (.inl rfl)
  next span := by
    intro s s' e e' u h _ out hout
    obtain ⟨rfl, start, next, done, hl, rfl⟩ := runs_next h
    exact .jump (Steps.branch fun _ => rfl) (hout start next done hl).1 (.inl rfl)
  ret value span := by
    intro s s' e e' u h hs out _
    obtain ⟨rfl, e₁, rfl, ⟨-, hvoid, rfl⟩ | ⟨x, -, hx⟩⟩ := runs_ret h
    · exact .returns hB (.void (by rw [hvoid]; rfl)) _
    · obtain ⟨σ, hσ, hemits⟩ := leaves_expr hB hs hx
      exact hemits.trans (.returns hB hσ _)
  block stmts span ih := ih
  nil := by
    intro s s' e e' u h _ out _
    obtain ⟨-, hs⟩ := Runs.pure_iff.mp h
    cases hs
    exact .nil
  cons stmt rest ih ih' := by
    intro s s' e e' u h hs out hout
    obtain ⟨_, ⟨s₁, e₁⟩, hstmt, h⟩ := Runs.bind_iff.mp h
    have hblocks := (BodyM.Adds.lowerStmt c stmt hstmt).1.blocks
    have hs₁ := (BodyM.Adds.lowerBlock c rest h).2.trans hs
    exact (ih hstmt hs₁ out hout).trans (ih' h hs out (hblocks ▸ hout))

theorem clean_block (stmts : List Source.Stmt) : B.Clean (lowerBlock c stmts) := (stmtSteps hB).forBlock stmts

end Statements

end Subject

end Classwright
