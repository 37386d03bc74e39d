import Classwright.Proofs.Frames.Stored
import Classwright.Proofs.Typing.Entry
import Classwright.Proofs.Typing.Stmt

/-! # Typing methods

A method is lowered to code that can be typed. A constructor calls another one first: its base class's, or the one that
its body begins with. From then on the receiver is initialized. -/

namespace Classwright

open Source (Stmt)

namespace Subject
variable {B : Subject} {c : Context} {s s' : Scope} {σ σ₁ : List Entry} {out : Ports} {e e' : Emitter}

section Constructors
variable (hB : B.Sound c) (hstatic : B.scope.method.isStatic = false)
include hB hstatic

/-- The constructor that is called initializes the receiver. -/
theorem emits_construct {target : CallTarget} {types : List Ty} {site : Span} {t : Ty} (hnew : target.isNew = false)
    (h : Runs (lowerInvoke c target Name.init types site) e t e') {vs : List Entry}
    (hvs : List.Forall₂ (Ty.Has false) types vs) (hu : ∀ v ∈ vs, B.Usable false v) :
    t = .void ∧ B.Emits out e e' ⟨false, vs.reverse ++ [.receiver false]⟩ .idle := by
  obtain ⟨m, interface, hfound, -, rfl, rfl⟩ := runs_invoke h
  obtain ⟨hm, hname, rfl⟩ := Context.wellFormed_method? hB.classes hfound
  obtain ⟨hms, hvoid⟩ := hm.constructors (beq_iff_eq.mpr hname)
  have hop : (CallKind.of target m).opcode ≠ .invokestatic := fun hop => by
    rw [(CallKind.opcode_of target m).mp hop] at hms
    cases hms
  rw [hnew, hms, Bool.false_and]
  exact ⟨hvoid, .emit (Steps.construct_this (fun x v => hB.isReference_receiver hstatic) hm hvs rfl hop hname hvoid hu)
    nofun⟩

/-- A constructor that calls none is made to call the base class's. -/
theorem emits_base {site : Span} {u : Unit} (h : Runs (lowerBaseConstructor c site) e u e') :
    B.Emits out e e' ⟨false, []⟩ .idle := by
  obtain ⟨base, m, name, -, hbase, hfound, rfl⟩ := runs_baseConstructor h
  obtain ⟨hm, hname, hparams⟩ := (Context.wellFormed_class hB.classes hbase).method? hfound
  obtain ⟨-, hvoid⟩ := hm.constructors (beq_iff_eq.mpr hname)
  have hargs : List.Forall₂ (Ty.Has false) m.paramTypes [] := hparams ▸ .nil
  exact .trans (.emit (Steps.this hB hstatic) nofun) (.emit (Steps.construct_this
    (fun x v => hB.isReference_receiver hstatic) hm hargs rfl nofun rfl hvoid nofun) nofun)

omit hstatic
variable (hexplicit : B.explicit = true)
include hexplicit

/-- The receiver and the arguments of the constructor that is called first. -/
theorem emits_arguments (hs : s.Grows B.scope) {target : CallTarget} {args : List Source.Expr} {types : List Ty}
    {site : Span} {t : Ty} {e₁ e₂ : Emitter} (hargs : Runs (lowerArgs c s args) (e.emit .this) types e₁)
    (hinvoke : Runs (lowerInvoke c target Name.init types site) e₁ t e₂) :
    ∃ vs, List.Forall₂ (Ty.Has false) types vs ∧
      B.Emits out e e₁ ⟨false, []⟩ ⟨false, vs.reverse ++ [.receiver false]⟩ := by
  have hvalues := values_of_invoke hB.classes hinvoke
  obtain ⟨vs, hvs, hpushed⟩ := Emits.args (fun x _ => pushes_expr hB hs (fun _ => hexplicit) x) hargs hvalues
    (Sites.nil.receiver false)
  exact ⟨vs, hvs, .trans (.emit (Steps.this hB (hB.explicit hexplicit)) nofun) hpushed.anywhere⟩

/-- A constructor that begins with the call of another one. -/
theorem emits_first {body : List Stmt} {u : Unit} (hbody : beginsWithConstructor body = true)
    (hs' : s'.Grows B.scope) (h : Runs (lowerBlock c body) ⟨s, e⟩ u ⟨s', e'⟩) (hout : Exits out e.blocks) :
    B.Emits out e e' ⟨false, []⟩ .idle := by
  obtain ⟨x, rest, call, target, types, t, e₁, e₂, rfl, hx, hargs, hinvoke, hrest⟩ := runs_first hbody h
  have hs := (BodyM.Adds.lowerBlock c rest hrest).2.trans hs'
  obtain ⟨vs, hvs, hfirst⟩ := emits_arguments hB hexplicit hs hargs hinvoke
  obtain ⟨rfl, hcall⟩ := emits_construct hB (hB.explicit hexplicit) hx.isNew_eq hinvoke hvs
    (.of_args hvs fun _ => hexplicit)
  have hblocks : e₂.blocks = e.blocks :=
    (EmitM.Adds.lowerInvoke c _ _ _ _ _ _ _ hinvoke).blocks.trans (EmitM.Adds.lowerArgs c s _ _ _ _ hargs).blocks
  exact (hfirst.trans hcall).trans (clean_block hB rest hrest hs' out (hblocks ▸ hout))

end Constructors

/-! ### The end of a method -/

/-- The constructor of an exception, which takes a message. -/
def messageConstructor : MethodSig := .constructor [⟨"message", .string⟩]

theorem wellFormed_messageConstructor : messageConstructor.WellFormed := by decide

theorem emits_missingReturn (s' : Shape) : B.Emits out e (e.emitAll Instr.missingReturn) .idle s' := by
  let new := e.emitAll [.type .new Name.runtimeException, .op .dup, .str "No return statement"]
  let pushed : List Entry := [.object, .exact (.uninitialized e.size), .exact (.uninitialized e.size)]
  have hnew : B.Emits out e new .idle ⟨true, pushed⟩ :=
    .trans (.trans (.emit (Steps.new _) nofun) (.emit (Steps.dup rfl) nofun)) (.emit (Steps.literal (.str _)) nofun)
  have hargs : List.Forall₂ (Ty.Has true) messageConstructor.paramTypes [.object] := .cons (.inl rfl) .nil
  let member : MemberRef := ⟨Name.runtimeException, Name.init, messageConstructor.descriptor, false⟩
  have hinit : B.Emits out new (new.emit (.invoke .invokespecial member)) ⟨true, pushed⟩ ⟨true, [.object]⟩ := by
    refine .emit_within (fun w => ?_) nofun
    have hop : Opcode.invokespecial ≠ .invokestatic := nofun
    have hsite : B.code[e.size]? = some (.type .new Name.runtimeException) := w.get (k := 0) rfl
    exact Steps.construct wellFormed_messageConstructor hargs (show member.descriptor = _ from rfl) hop rfl rfl
      (.of_args hargs nofun) hsite List.not_mem_nil
  exact (hnew.trans hinit).trans (.stop rfl (Steps.popsReference (fun _ => rfl) rfl usable_object))

theorem emits_closing (hB : B.Sound c) (m : MethodSig) (s' : Shape) : B.Emits out e (e.emitAll m.closing) .idle s' := by
  unfold MethodSig.closing
  split
  · exact .returns hB (.void ‹_›) s'
  · exact emits_missingReturn s'

end Subject

end Classwright
