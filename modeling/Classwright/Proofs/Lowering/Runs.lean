import Classwright.Lowering.Body
import Classwright.Proofs.Results

/-! # How lowering comes about

A computation that emits code runs when it gives a result. A run of several steps is taken apart into runs of each, and
the runs of the smallest steps say what becomes of the emitter. A computation that does not run fails, and then one of
its steps does. -/

namespace Classwright

/-- From the state `s` the computation gives `a` and leaves the state `s'`. -/
def Runs {σ α : Type} (x : StateT σ Lookup α) (s : σ) (a : α) (s' : σ) : Prop := (x s).result = .ok (a, s')

theorem Lookup.bind_result {α β : Type} {x : Lookup α} {k : α → Lookup β} {b : β} :
    (x >>= k).result = .ok b ↔ ∃ a, x.result = .ok a ∧ (k a).result = .ok b := by
  obtain ⟨r, asked⟩ := x
  cases r with
  | error e => simp [bind, Lookup.bind]
  | ok a => simp [bind, Lookup.bind]

theorem Lookup.bind_error {α β : Type} {x : Lookup α} {k : α → Lookup β} {err : CompileError} :
    (x >>= k).result = .error err ↔ x.result = .error err ∨ ∃ a, x.result = .ok a ∧ (k a).result = .error err := by
  obtain ⟨r, asked⟩ := x
  cases r with
  | error e => simp [bind, Lookup.bind]
  | ok a => simp [bind, Lookup.bind]

namespace Runs

section Steps
variable {σ α β : Type} {s s' : σ} {a : α} {b : β}

@[simp] theorem bind_iff {x : StateT σ Lookup α} {k : α → StateT σ Lookup β} :
    Runs (x >>= k) s b s' ↔ ∃ a m, Runs x s a m ∧ Runs (k a) m b s' := by
  unfold Runs
  simp only [bind, StateT.bind]
  rw [show (Lookup.bind (x s) fun p => k p.1 p.2) = (x s >>= fun p => k p.1 p.2) from rfl, Lookup.bind_result]
  simp

@[simp] theorem pure_iff {a' : α} : Runs (pure a) s a' s' ↔ a = a' ∧ s = s' := by
  change Except.ok (a, s) = Except.ok (a', s') ↔ _
  simp

@[simp] theorem map_iff {f : α → β} {x : StateT σ Lookup α} :
    Runs (f <$> x) s b s' ↔ ∃ a, Runs x s a s' ∧ f a = b := by
  rw [map_eq_pure_bind, bind_iff]
  simp [and_comm]

@[simp] theorem throw_iff {e : CompileError} : ¬Runs (throw e : StateT σ Lookup α) s a s' := by
  simp [Runs, throw, throwThe, MonadExceptOf.throw, StateT.lift, Lookup.fail, bind, Lookup.bind]

@[simp] theorem lift_iff {x : Lookup α} : Runs (liftM x : StateT σ Lookup α) s a s' ↔ x.result = .ok a ∧ s = s' := by
  simp only [Runs, liftM, monadLift, MonadLift.monadLift, StateT.lift, Lookup.bind_result]
  simp [pure]

@[simp] theorem get_iff {m : σ} : Runs (get : StateT σ Lookup σ) s m s' ↔ s = m ∧ s = s' := by
  simp [Runs, get, getThe, MonadStateOf.get, StateT.get, pure]

@[simp] theorem modify_iff {f : σ → σ} {u : PUnit} : Runs (modify f : StateT σ Lookup PUnit) s u s' ↔ f s = s' := by
  simp [Runs, modify, modifyGet, MonadStateOf.modifyGet, StateT.modifyGet, pure]

@[simp] theorem modifyGet_iff {f : σ → α × σ} :
    Runs (modifyGet f : StateT σ Lookup α) s a s' ↔ f s = (a, s') := by
  simp [Runs, modifyGet, MonadStateOf.modifyGet, StateT.modifyGet, pure]

@[simp] theorem ite_iff {p : Prop} [Decidable p] {x y : StateT σ Lookup α} :
    Runs (if p then x else y) s a s' ↔ p ∧ Runs x s a s' ∨ ¬p ∧ Runs y s a s' := by
  split <;> simp_all

end Steps

/-! ### Emitting -/

section Emitting
variable {e e' : Emitter} {u : Unit}

@[simp] theorem emit_iff {i : Instr} : Runs (EmitM.emit i) e u e' ↔ e.emit i = e' := modify_iff

@[simp] theorem emitAll_iff {is : List Instr} : Runs (EmitM.emitAll is) e u e' ↔ e.emitAll is = e' := modify_iff

@[simp] theorem op_iff {o : Opcode} : Runs (EmitM.op o) e u e' ↔ e.emit (.op o) = e' := emit_iff

@[simp] theorem fresh_iff {l : Label} : Runs EmitM.fresh e l e' ↔ e.fresh = (l, e') := modifyGet_iff

@[simp] theorem expectCondition_iff {t : Ty} {site : Span} :
    Runs (EmitM.expectCondition t site) e u e' ↔ t = .int ∧ e = e' := by
  simp [EmitM.expectCondition]

@[simp] theorem branchOn_iff {jump : Opcode} {taken : Label} {t : Ty} {site : Span} :
    Runs (branchOn jump taken t site) e u e' ↔ t = .int ∧ e.emit (.jump jump taken) = e' := by
  simp [branchOn]

end Emitting

/-! ### Bodies -/

section Bodies
variable {α : Type} {s s' : Scope} {e e' : Emitter} {a : α}

@[simp] theorem emitting_iff {x : Scope → EmitM α} :
    Runs (BodyM.emitting x) ⟨s, e⟩ a ⟨s', e'⟩ ↔ Runs (x s) e a e' ∧ s = s' := by
  unfold Runs BodyM.emitting
  rw [Lookup.bind_result]
  simp [pure]

@[simp] theorem bodyEmitAll_iff {is : List Instr} {u : Unit} :
    Runs (BodyM.emitAll is) ⟨s, e⟩ u ⟨s', e'⟩ ↔ e.emitAll is = e' ∧ s = s' := by
  simp [BodyM.emitAll]

@[simp] theorem blocks_iff {what : String} {site : Span} {f : Emitter → Except BlockFault Emitter} {u : Unit} :
    Runs (BodyM.blocks what site f) ⟨s, e⟩ u ⟨s', e'⟩ ↔ f e = .ok e' ∧ s = s' := by
  unfold Runs BodyM.blocks
  dsimp only
  split <;> simp_all [pure, Lookup.fail, and_comm]

@[simp] theorem declare_iff {name : Source.Ident} {t : Ty} {v : Local} :
    Runs (BodyM.declare name t) ⟨s, e⟩ v ⟨s', e'⟩ ↔ s.add name.name t name.span = .ok (v, s') ∧ e = e' := by
  unfold Runs BodyM.declare
  dsimp only
  split <;> simp_all [pure, Lookup.fail, and_assoc]

end Bodies

end Runs

/-! ### Failures -/

/-- From the state `s` the computation fails. -/
def Fails {σ α : Type} (x : StateT σ Lookup α) (s : σ) (err : CompileError) : Prop := (x s).result = .error err

namespace Fails

section Steps
variable {σ α β : Type} {s : σ} {err : CompileError}

theorem bind_iff {x : StateT σ Lookup α} {k : α → StateT σ Lookup β} :
    Fails (x >>= k) s err ↔ Fails x s err ∨ ∃ a s', Runs x s a s' ∧ Fails (k a) s' err := by
  unfold Fails Runs
  simp only [Bind.bind, StateT.bind]
  rw [show (Lookup.bind (x s) fun p => k p.1 p.2) = (x s >>= fun p => k p.1 p.2) from rfl, Lookup.bind_error]
  simp

theorem bind {x : StateT σ Lookup α} {k : α → StateT σ Lookup β} (h : Fails x s err) : Fails (x >>= k) s err :=
  bind_iff.mpr (.inl h)

theorem pure_iff {a : α} : ¬Fails (pure a : StateT σ Lookup α) s err := nofun

theorem throw_iff {e : CompileError} : Fails (throw e : StateT σ Lookup α) s err ↔ e = err := by
  simp [Fails, throw, throwThe, MonadExceptOf.throw, StateT.lift, Lookup.fail, Bind.bind, Lookup.bind]

theorem lift_iff {x : Lookup α} : Fails (liftM x : StateT σ Lookup α) s err ↔ x.result = .error err := by
  simp only [Fails, liftM, monadLift, MonadLift.monadLift, StateT.lift, Lookup.bind_error]
  simp [pure]

theorem lift {x : Lookup α} (h : x.result = .error err) : Fails (liftM x : StateT σ Lookup α) s err := lift_iff.mpr h

theorem get_iff : ¬Fails (get : StateT σ Lookup σ) s err := nofun

theorem modify_iff {f : σ → σ} : ¬Fails (modify f : StateT σ Lookup PUnit) s err := nofun

theorem modifyGet_iff {f : σ → α × σ} : ¬Fails (modifyGet f : StateT σ Lookup α) s err := nofun

end Steps

section Bodies
variable {α : Type} {s : Scope} {e : Emitter} {err : CompileError}

theorem emitting_iff {x : Scope → EmitM α} : Fails (BodyM.emitting x) ⟨s, e⟩ err ↔ Fails (x s) e err := by
  unfold Fails BodyM.emitting
  rw [Lookup.bind_error]
  simp [pure]

theorem blocks_iff {what : String} {site : Span} {f : Emitter → Except BlockFault Emitter} :
    Fails (BodyM.blocks what site f) ⟨s, e⟩ err ↔
      ∃ fault, f e = .error fault ∧ .invalidControlFlow (.ofBlock what fault) site = err := by
  unfold Fails BodyM.blocks
  dsimp only
  split <;> simp_all [pure, Lookup.fail]

theorem declare_iff {name : Source.Ident} {t : Ty} :
    Fails (BodyM.declare name t) ⟨s, e⟩ err ↔ s.add name.name t name.span = .error err := by
  unfold Fails BodyM.declare
  dsimp only
  split <;> simp_all [pure, Lookup.fail]

end Bodies

end Fails

theorem Runs.fails_bind {σ α β : Type} {s s' : σ} {a : α} {err : CompileError} {x : StateT σ Lookup α}
    {k : α → StateT σ Lookup β} (h : Runs x s a s') (hk : Fails (k a) s' err) : Fails (x >>= k) s err :=
  Fails.bind_iff.mpr (.inr ⟨a, s', h, hk⟩)

end Classwright
