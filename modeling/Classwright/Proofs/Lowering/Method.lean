import Classwright.Proofs.Lowering.Scope
import Classwright.Proofs.Lowering.Statements
import Classwright.Proofs.Placement
import Classwright.Verify.Transfer
import Mathlib.Data.List.Nodup
import Mathlib.Data.List.Perm.Subperm

/-! # How a method is lowered

The body stands between what a constructor begins with and what every method ends with. The parameters have the first
slots of its scope. -/

namespace Classwright

open Source (Stmt)

/-- What stands behind the body of a method. -/
def MethodSig.closing (m : MethodSig) : List Instr :=
  if m.returns.isVoid then [m.returns.returnCode] else Instr.missingReturn

theorem Emitter.Extends.closing (e : Emitter) (m : MethodSig) : e.Extends (e.emitAll m.closing) := by
  unfold MethodSig.closing
  split
  · exact .returns e m.returns
  · have hmessage : e.Extends (e.emitAll [.type .new Name.runtimeException, .op .dup, .str "No return statement"]) :=
      .plainAll e rfl
    exact (hmessage.trans (.call _ _ _)).trans (.op _ _)

/-- What the verifier knows about a method of the class that is compiled. -/
def Context.head (c : Context) (m : MethodSig) : MethodHead := ⟨c.own.name, m.name, m.descriptor, m.isStatic⟩

/-- The method has been lowered: its body starts in the scope `s₀` behind the code of `e₀`, and ends in the scope `s`
    with the code of `e`. -/
structure Lowered (c : Context) (method : MethodSig) (body : List Stmt) (site : Span) (out : MethodBody)
    (s₀ s : Scope) (e₀ e : Emitter) : Prop where
  scope : Scope.ofMethod c.own method site = .ok s₀
  opening : (method.isConstructor && !beginsWithConstructor body) = true ∧ Runs (lowerBaseConstructor c site) {} () e₀ ∨
    (method.isConstructor && !beginsWithConstructor body) = false ∧ {} = e₀
  body : Runs (lowerBlock c body) ⟨s₀, e₀⟩ () ⟨s, e⟩
  code : out.code = ⟨(e.emitAll method.closing).instrs, (e.emitAll method.closing).labels⟩

theorem Emitter.Extends.opening {c : Context} {b : Bool} {site : Span} {e : Emitter}
    (h : b = true ∧ Runs (lowerBaseConstructor c site) {} () e ∨ b = false ∧ {} = e) : Extends {} e := by
  rcases h with ⟨-, hbase⟩ | ⟨-, rfl⟩
  · exact EmitM.Adds.lowerBaseConstructor c site _ _ _ hbase
  · exact .refl _

namespace Lowered
variable {c : Context} {method : MethodSig} {body : List Stmt} {site : Span} {out : MethodBody} {s₀ s : Scope}
  {e₀ e : Emitter}

theorem within (h : Lowered c method body site out s₀ s e₀ e) : (e.emitAll method.closing).Within out.code.instrs := by
  rw [h.code]
  exact List.prefix_rfl

theorem body_within (h : Lowered c method body site out s₀ s e₀ e) : e.Within out.code.instrs :=
  (Emitter.Grows.emitAll e method.closing).within h.within

theorem opening_within (h : Lowered c method body site out s₀ s e₀ e) : e₀.Within out.code.instrs :=
  (BodyM.Adds.lowerBlock c body h.body).1.toGrows.within h.body_within

theorem grows (h : Lowered c method body site out s₀ s e₀ e) : s₀.Grows s := (BodyM.Adds.lowerBlock c body h.body).2

/-- Each label that was made is marked once, and jumps go to such labels. -/
theorem labelled (h : Lowered c method body site out s₀ s e₀ e) :
    (∀ l, out.code.instrs.toList.count (.mark l) = if l.id < out.code.labels then 1 else 0) ∧
      ∀ op l, .jump op l ∈ out.code.instrs → l.id < out.code.labels := by
  have hall := ((Emitter.Extends.opening h.opening).trans (BodyM.Adds.lowerBlock c body h.body).1).trans (.closing e method)
  rw [h.code]
  refine ⟨fun l => ?_, (hall.sealed ⟨by simp, nofun⟩).jumps⟩
  have hmarks := hall.marks l
  simpa [Emitter.marks] using hmarks

/-- There are no more labels than instructions, since their marks are among them. -/
theorem labels_le (h : Lowered c method body site out s₀ s e₀ e) : out.code.labels ≤ out.code.instrs.size := by
  have hnodup : ((List.range out.code.labels).map fun i => Instr.mark ⟨i⟩).Nodup :=
    List.Nodup.map (fun i j hij => Label.mk.inj (Instr.mark.inj hij)) List.nodup_range
  have hsubset : ((List.range out.code.labels).map fun i => Instr.mark ⟨i⟩) ⊆ out.code.instrs.toList := by
    refine List.forall_mem_map.mpr fun i hi => List.count_pos_iff.mp ?_
    rw [h.labelled.1, if_pos (List.mem_range.mp hi)]
    exact Nat.one_pos
  simpa using (List.Nodup.subperm hnodup hsubset).length_le

theorem exists_placement (h : Lowered c method body site out s₀ s e₀ e) : ∃ p, out.code.placement = .ok p :=
  Code.exists_placement h.labelled.1 h.labelled.2

end Lowered

theorem Emitter.finish_eq_ok {e : Emitter} {code : Code} (h : e.finish = .ok code) : code = ⟨e.instrs, e.labels⟩ := by
  unfold finish at h
  split at h <;> cases h
  rfl

/-- All that is emitted for a method. -/
def lowerWhole (c : Context) (method : MethodSig) (body : List Stmt) (site : Span) : BodyM Unit := do
  if method.isConstructor && !beginsWithConstructor body then
    BodyM.emitting fun _ => lowerBaseConstructor c site
  lowerBlock c body
  BodyM.emitAll method.closing

theorem runs_whole {c : Context} {method : MethodSig} {body : List Stmt} {site : Span} {s₀ s : Scope} {e' : Emitter}
    {u : Unit} (h : Runs (lowerWhole c method body site) ⟨s₀, {}⟩ u ⟨s, e'⟩) :
    ∃ e₀ e, ((method.isConstructor && !beginsWithConstructor body) = true ∧ Runs (lowerBaseConstructor c site) {} () e₀ ∨
        (method.isConstructor && !beginsWithConstructor body) = false ∧ {} = e₀) ∧
      Runs (lowerBlock c body) ⟨s₀, e₀⟩ () ⟨s, e⟩ ∧ e' = e.emitAll method.closing := by
  have hend : ∀ {e₀}, Runs (lowerBlock c body >>= fun _ => BodyM.emitAll method.closing) ⟨s₀, e₀⟩ u ⟨s, e'⟩ →
      ∃ e, Runs (lowerBlock c body) ⟨s₀, e₀⟩ () ⟨s, e⟩ ∧ e' = e.emitAll method.closing := by
    intro e₀ hr
    obtain ⟨_, ⟨s₁, e⟩, hbody, hemit⟩ := Runs.bind_iff.mp hr
    obtain ⟨rfl, rfl⟩ := Runs.bodyEmitAll_iff.mp hemit
    exact ⟨e, hbody, rfl⟩
  rcases Runs.ite_iff.mp h with ⟨hc, h⟩ | ⟨hc, h⟩
  · obtain ⟨_, ⟨s₁, e₀⟩, hbase, h⟩ := Runs.bind_iff.mp h
    obtain ⟨hopen, rfl⟩ := Runs.emitting_iff.mp hbase
    obtain ⟨e, hbody, he⟩ := hend h
    exact ⟨e₀, e, .inl ⟨hc, hopen⟩, hbody, he⟩
  · obtain ⟨e, hbody, he⟩ := hend h
    exact ⟨{}, e, .inr ⟨by simpa using hc, rfl⟩, hbody, he⟩

theorem exists_lowered_listing {c : Context} {method : MethodSig} {body : List Stmt} {site : Span} {out : MethodBody}
    (h : (lowerMethod c method body site).result = .ok out) :
    ∃ s₀ s e₀ e, Lowered c method body site out s₀ s e₀ e ∧ out.locals = s.locals.toList := by
  obtain ⟨s₀, hs, h⟩ := Lookup.bind_result.mp h
  dsimp only at h
  obtain ⟨⟨u, ⟨s, e'⟩⟩, hwhole, h⟩ := Lookup.bind_result.mp h
  obtain ⟨e₀, e, hopening, hbody, rfl⟩ := runs_whole (show Runs (lowerWhole c method body site) _ _ _ from hwhole)
  dsimp only at h
  split at h
  · rename_i code hcode
    cases h
    exact ⟨s₀, s, e₀, e, ⟨hs, hopening, hbody, Emitter.finish_eq_ok hcode⟩, rfl⟩
  · cases h

theorem exists_lowered {c : Context} {method : MethodSig} {body : List Stmt} {site : Span} {out : MethodBody}
    (h : (lowerMethod c method body site).result = .ok out) :
    ∃ s₀ s e₀ e, Lowered c method body site out s₀ s e₀ e := by
  obtain ⟨s₀, s, e₀, e, hl, -⟩ := exists_lowered_listing h
  exact ⟨s₀, s, e₀, e, hl⟩

/-! ### Bodies that begin with a constructor call -/

/-- A body that begins with a constructor call consists of it and of other statements. -/
theorem cases_beginsWithConstructor {body : List Stmt} (h : beginsWithConstructor body = true) :
    ∃ x rest links call site span span', body = .expr x :: rest ∧
      x.math? = some ⟨⟨[], .chain links site, span⟩, [], span'⟩ ∧
      (links = [.call call] ∨ ∃ at', links = [.super at', .call call]) ∧ call.name.name = Name.constructorKeyword := by
  unfold beginsWithConstructor at h
  split at h
  · rename_i x rest
    split at h
    · rename_i call site span span' hmath
      exact ⟨x, rest, _, call, site, span, span', rfl, hmath, .inl rfl, by simpa using h⟩
    · rename_i at' call site span span' hmath
      exact ⟨x, rest, _, call, site, span, span', rfl, hmath, .inr ⟨at', rfl⟩, by simpa using h⟩
    · cases h
  · cases h

theorem runs_chain {c : Context} {s : Scope} {x : Source.Expr} {links : List Source.Link} {site span span' : Span}
    {e e' : Emitter} {t : Ty} (hx : x.math? = some ⟨⟨[], .chain links site, span⟩, [], span'⟩)
    (h : Runs (lowerExpr c s x) e t e') :
    ∃ state e₁, Runs (lowerLinks c s .start links) e state e₁ ∧ Runs (finishChain site state) e₁ t e' := by
  obtain ⟨terms, xspan⟩ := x
  unfold Source.Expr.math? at hx
  split at hx
  · rename_i m aspan hterms
    cases hx
    obtain rfl : terms = _ := hterms
    rw [lowerExpr_eq, lowerLogical, lowerAnd_eq, lowerLogical, lowerMath_eq] at h
    obtain ⟨t', e₁, hchain, h⟩ := Runs.bind_iff.mp (show Runs (lowerTerm c s _) e t e' from h)
    obtain ⟨rfl, rfl⟩ := Runs.pure_iff.mp h
    exact Runs.bind_iff.mp (show Runs (_ >>= _) e t' e₁ from hchain)
  · cases hx

/-- The expression is the call of another constructor, of the class itself or of its base class. -/
inductive ConstructorCall (c : Context) : Source.Expr → Source.Call → CallTarget → Prop
  | own {x : Source.Expr} {call : Source.Call} {site span span' : Span} (hname : call.name.name = Name.constructorKeyword)
      (hx : x.math? = some ⟨⟨[], .chain [.call call] site, span⟩, [], span'⟩) :
      ConstructorCall c x call { cls := c.own, special := true }
  | base {x : Source.Expr} {call : Source.Call} {at' site span span' : Span} {base : String} {cls : ClassSig}
      (hname : call.name.name = Name.constructorKeyword)
      (hx : x.math? = some ⟨⟨[], .chain [.super at', .call call] site, span⟩, [], span'⟩) (hbase : c.own.base = some base)
      (hcls : (c.resolveClass base call.span).result = .ok cls) :
      ConstructorCall c x call { cls, special := true, receiverPushed := true }

theorem ConstructorCall.isNew_eq {c : Context} {x : Source.Expr} {call : Source.Call} {target : CallTarget}
    (h : ConstructorCall c x call target) : target.isNew = false := by
  cases h <;> rfl

theorem runs_call {c : Context} {s : Scope} {state state' : ChainState} {call : Source.Call} {e e' : Emitter}
    (h : Runs (lowerLinks c s state [.call call]) e state' e') :
    ∃ target types t e₁ e₂, Runs (callTarget c s state call.name call.span) e target e₁ ∧
      Runs (lowerArgs c s call.args) e₁ types e₂ ∧ Runs (lowerInvoke c target.1 target.2 types call.span) e₂ t e' ∧
      state' = .value t := by
  obtain ⟨name, args, span⟩ := call
  obtain ⟨target, e₁, htarget, h⟩ := Runs.bind_iff.mp (show Runs (_ >>= _) e state' e' from h)
  obtain ⟨types, e₂, htypes, h⟩ := Runs.bind_iff.mp h
  obtain ⟨t, e₃, hinvoke, h⟩ := Runs.bind_iff.mp h
  obtain ⟨rfl, rfl⟩ := Runs.pure_iff.mp h
  exact ⟨target, types, t, e₁, e₂, htarget, htypes, hinvoke, rfl⟩

/-- A constructor of the class itself is called on the receiver. -/
theorem runs_startCall {c : Context} {s : Scope} {name : Source.Ident} {site : Span} {e e' : Emitter}
    {target : CallTarget × String} (hname : name.name = Name.constructorKeyword)
    (h : Runs (startCall c s name site) e target e') :
    target = ({ cls := c.own, special := true }, Name.init) ∧ e' = e.emit .this := by
  rw [startCall, if_pos hname] at h
  obtain ⟨_, e₁, hrun, h⟩ := Runs.bind_iff.mp h
  obtain ⟨-, rfl⟩ := Runs.lift_iff.mp hrun
  obtain ⟨rfl, rfl⟩ : e.emit .this = e' ∧ _ = target := by simpa using h
  exact ⟨rfl, rfl⟩

/-- A constructor of the base class is called on the receiver, which is there already. -/
theorem runs_superCall {c : Context} {s : Scope} {name : Source.Ident} {site : Span} {e e' : Emitter}
    {target : CallTarget × String} (hname : name.name = Name.constructorKeyword)
    (h : Runs (superCall c s name site) e target e') :
    ∃ base cls, c.own.base = some base ∧ (c.resolveClass base site).result = .ok cls ∧
      target = ({ cls, special := true, receiverPushed := true }, Name.init) ∧ e' = e := by
  unfold superCall at h
  split at h
  · cases Runs.throw_iff h
  · rename_i base hbase
    obtain ⟨cls, e₁, hrun, h⟩ := Runs.bind_iff.mp h
    obtain ⟨hcls, rfl⟩ := Runs.lift_iff.mp hrun
    rw [if_pos hname] at h
    obtain ⟨_, e₁, hrun, h⟩ := Runs.bind_iff.mp h
    obtain ⟨-, rfl⟩ := Runs.lift_iff.mp hrun
    obtain ⟨rfl, rfl⟩ := Runs.pure_iff.mp h
    exact ⟨base, cls, hbase, hcls, rfl, rfl⟩

/-- The code of a body that begins with a constructor call: the receiver, the arguments, the call, and then the other
    statements. -/
theorem runs_first {c : Context} {s s' : Scope} {body : List Stmt} {e e' : Emitter} {u : Unit}
    (hbody : beginsWithConstructor body = true) (h : Runs (lowerBlock c body) ⟨s, e⟩ u ⟨s', e'⟩) :
    ∃ x rest call target types t e₁ e₂, body = .expr x :: rest ∧ ConstructorCall c x call target ∧
      Runs (lowerArgs c s call.args) (e.emit .this) types e₁ ∧
      Runs (lowerInvoke c target Name.init types call.span) e₁ t e₂ ∧
      Runs (lowerBlock c rest) ⟨s, e₂.emitAll t.discardCode⟩ u ⟨s', e'⟩ := by
  obtain ⟨x, rest, links, call, site, span, span', rfl, hx, hlinks, hname⟩ := cases_beginsWithConstructor hbody
  obtain ⟨_, ⟨s₁, e₁⟩, hfirst, hrest⟩ := Runs.bind_iff.mp (show Runs (_ >>= _) _ u _ from h)
  obtain ⟨rfl, t, e₂, hexpr, rfl⟩ := runs_expr hfirst
  obtain ⟨state, e₃, hchain, hfinish⟩ := runs_chain hx hexpr
  rcases hlinks with rfl | ⟨at', rfl⟩
  · obtain ⟨target, types, t', e₄, e₅, htarget, hargs, hinvoke, rfl⟩ := runs_call hchain
    obtain ⟨rfl, rfl⟩ := runs_startCall hname htarget
    obtain ⟨rfl, rfl⟩ := Runs.pure_iff.mp hfinish
    exact ⟨x, rest, call, _, types, t', e₅, _, rfl, .own hname hx, hargs, hinvoke, hrest⟩
  · obtain ⟨state₁, e₄, hsuper, hchain⟩ := Runs.bind_iff.mp (show Runs (_ >>= _) e state e₃ from hchain)
    rcases Runs.ite_iff.mp (show Runs (ite _ _ _) e state₁ e₄ from hsuper) with ⟨-, hsuper⟩ | ⟨-, hsuper⟩
    · simp at hsuper
    · obtain ⟨rfl, rfl⟩ : e.emit .this = e₄ ∧ .super at' = state₁ := by simpa using hsuper
      obtain ⟨target, types, t', e₅, e₆, htarget, hargs, hinvoke, rfl⟩ := runs_call hchain
      obtain ⟨base, cls, hbase, hcls, rfl, rfl⟩ := runs_superCall hname htarget
      obtain ⟨rfl, rfl⟩ := Runs.pure_iff.mp hfinish
      exact ⟨x, rest, call, _, types, t', e₆, _, rfl, .base hname hx hbase hcls, hargs, hinvoke, hrest⟩

end Classwright
