import Classwright.Proofs.Effects.Stretch
import Classwright.Proofs.Lowering.Constructors
import Classwright.Proofs.Typing.Expr

/-! # What expressions leave on the stack

The code of an expression leaves one value of its type on the stack, or nothing if the type is `void`, whichever way is
taken through it. It jumps to labels of its own, and they are all put in it. -/

namespace Classwright

open EmitM (Turns)
open Stretch (Passes)

variable {S : Stretch} {e e' : Emitter}

/-! ### Operators -/

section Operators
open Source (BinaryOp UnaryOp)

variable (hS : S.Marked)
include hS

theorem turns_operator (op : BinaryOp) (left right : Ty) (site : Span) :
    Turns S (lowerOperator op left right site) (right.kinds ++ left.kinds) Ty.kinds := by
  unfold lowerOperator
  split
  · exact .throw _
  · rename_i o hof
    obtain ⟨u, v, hu, hv, heffect⟩ := OperatorCode.effect_of_direct hof
    have hpops := (Ty.ofKinds_of_vtype? hv).append (Ty.ofKinds_of_vtype? hu)
    exact .bind (.emit fun e => .inert (OperatorCode.inert_direct hof) (.effect heffect hpops (Ty.ofKinds_of_vtype? hu)))
      fun _ => .pure rfl
  · rename_i compare jump hof
    obtain ⟨hjump, rfl, ⟨rfl, rfl, hints⟩ | ⟨o, u, rfl, hu, heffect, hints⟩⟩ := OperatorCode.effect_of_comparison hof
    · intro e t e' h
      obtain ⟨rfl, rfl⟩ : e.branchValue jump true = e' ∧ .int = t := by simpa using h
      exact .branchValue hS hjump (hints ▸ .cons rfl (.cons rfl .nil)) true
    · intro e t e' h
      obtain ⟨rfl, rfl⟩ : (e.emit (.op o)).branchValue jump true = e' ∧ .int = t := by simpa using h
      have hu := Ty.ofKinds_of_vtype? hu
      have hcompare : (Instr.op o).isInert = true := by simpa using OperatorCode.inert_comparison hof
      have hint : OfKinds [.int] jump.jumpIntegers := hints ▸ .one rfl
      exact .trans (.inert hcompare (.effect heffect (hu.append hu) (.one rfl))) (.branchValue hS hjump hint true)

theorem turns_tree {tree : OpTree (EmitM Ty)} (h : ∀ x ∈ tree.leaves, Turns S x [] Ty.kinds) :
    Turns S (tree.evalM Pending.applyAt) [] Ty.kinds := by
  induction tree with
  | leaf x => exact h x (by simp [OpTree.leaves])
  | node op site l r ihl ihr =>
    have hl := ihl fun x hx => h x (List.mem_append_left _ hx)
    have hr := ihr fun x hx => h x (List.mem_append_right _ hx)
    exact .bind hl fun left => .bind (hr.above left.kinds) fun right => turns_operator hS op left right site

omit hS in
/-- What a conversion makes of a value is of the kind of the new type. -/
theorem passes_convert {t t' : Ty} {is : List Instr} (h : t.convertCode? t' = some is) :
    S.Passes Stretch.nowhere e (e.emitAll is) t.kinds t'.kinds := by
  rcases Subject.convertCode?_eq_some h with ⟨p, q, rfl, rfl⟩ | ⟨href, href', name, rfl⟩
  · have hcode : is = [] ∧ (Ty.prim p).kinds = (Ty.prim q).kinds ∨ ∃ o u v, is = [.op o] ∧
        (Ty.prim p).vtype? = some u ∧ (Ty.prim q).vtype? = some v ∧ o.effect? = some ([u], [v]) := by
      cases p <;> cases q <;> cases h <;>
        first
        | exact .inl ⟨rfl, rfl⟩
        | exact .inr ⟨_, _, _, rfl, rfl, rfl, rfl⟩
    rcases hcode with ⟨rfl, heq⟩ | ⟨o, u, v, rfl, hu, hv, heffect⟩
    · rw [heq]
      exact .nil
    · have hinert : (Instr.op o).isInert = true := by simpa using Ty.inert_convertCode? h
      exact .inert hinert (.effect heffect (Ty.ofKinds_of_vtype? hu) (Ty.ofKinds_of_vtype? hv))
  · rw [Ty.kinds_of_isReference href, Ty.kinds_of_isReference href']
    exact .inert rfl (.checkcast name)

theorem turns_unary (c : Context) (t : Ty) (op : UnaryOp) (site : Span) :
    Turns S (lowerUnary c t op site) t.kinds Ty.kinds := by
  cases op with
  | neg =>
    simp only [lowerUnary]
    split
    · rename_i o ho
      obtain ⟨p, hp, hneg⟩ := Option.bind_eq_some_iff.mp ho
      obtain ⟨rfl, -⟩ := OperatorCode.numeric?_eq_some hp
      obtain ⟨u, hu, heffect⟩ : ∃ u, (Ty.prim p).vtype? = some u ∧ o.effect? = some ([u], [u]) := by
        cases p <;> cases hneg <;> exact ⟨_, rfl, rfl⟩
      have hu := Ty.ofKinds_of_vtype? hu
      exact .bind (.emit fun e => .inert (Prim.inert_negateOp? hneg) (.effect heffect hu hu)) fun _ => .pure rfl
    · exact .throw _
  | not =>
    intro e t' e' h
    obtain ⟨rfl, rfl, rfl⟩ : t = .int ∧ e.branchValue .ifeq true = e' ∧ .int = t' := by simpa [lowerUnary] using h
    exact .branchValue hS (fun _ => rfl) (.one rfl) true
  | convert target =>
    refine .lift fun ty _ => ?_
    split
    · rename_i is his
      exact .bind (.emits fun e => passes_convert his) fun _ => .pure rfl
    · exact .throw _

theorem turns_unaries (c : Context) (site : Span) (ops : List UnaryOp) (t : Ty) :
    Turns S (lowerUnaries c site t ops) t.kinds Ty.kinds := by
  induction ops generalizing t with
  | nil => exact .pure rfl
  | cons op ops ih => exact .bind (turns_unary hS c t op site) ih

end Operators

/-! ### Logical expressions -/

section Logical
variable {α : Type} {lower : α → EmitM Ty} {span : α → Span} {jump : Opcode} {xs : List α}

/-- Each condition is popped by the jump that it decides. -/
theorem passes_branches (hjump : ∀ f : Frame, f.applyJump jump = f.popAll jump.jumpIntegers)
    (hints : jump.jumpIntegers = [.integer]) {taken : Label} (hxs : ∀ x ∈ xs, Turns S (lower x) [] Ty.kinds) {u : Unit}
    (h : Runs (branchAll lower span jump taken xs) e u e') : S.Passes (· = taken) e e' [] [] := by
  induction xs generalizing e with
  | nil =>
    obtain ⟨-, rfl⟩ := Runs.pure_iff.mp h
    exact .nil
  | cons x rest ih =>
    obtain ⟨hx, hrest⟩ := List.forall_mem_cons.mp hxs
    obtain ⟨t, e₁, hrun, h⟩ := Runs.bind_iff.mp (show Runs (_ >>= _) e u e' from h)
    obtain ⟨_, e₂, hbranch, h⟩ := Runs.bind_iff.mp h
    obtain ⟨rfl, rfl⟩ := Runs.branchOn_iff.mp hbranch
    have hint : OfKinds Ty.int.kinds jump.jumpIntegers := hints ▸ .one rfl
    have hbranch : S.Passes (· = taken) e₁ (e₁.emit (.jump jump taken)) Ty.int.kinds [] := .jump rfl (.jump hjump hint)
    exact ((hx hrun).anywhere.trans hbranch).trans (ih hrest h)

theorem turns_logical (hS : S.Marked) (hjump : ∀ f : Frame, f.applyJump jump = f.popAll jump.jumpIntegers)
    (hints : jump.jumpIntegers = [.integer]) (hxs : ∀ x ∈ xs, Turns S (lower x) [] Ty.kinds) (fallThrough : Bool)
    (site : Span) : Turns S (lowerLogical lower span jump fallThrough site xs) [] Ty.kinds := by
  match xs with
  | [] => exact .throw _
  | [x] => exact hxs x List.mem_cons_self
  | x :: y :: rest =>
    intro e t e' h
    obtain ⟨rfl, e₁, hall, hjoin⟩ := runs_logical h
    obtain rfl := runs_joinBranches hjoin
    exact .truths hS (passes_branches hjump hints hxs hall) fallThrough (!fallThrough)

end Logical

/-! ### Calls -/

/-- What a call finds below its arguments. -/
inductive CallTarget.Below (target : CallTarget) (name : String) : List LocalKind → Prop
  | nothing (hstatic : target.staticOnly = true) (hpushed : target.receiverPushed = false)
      (hnew : target.isNew = false) : Below target name []
  | receiver (hpushed : target.receiverPushed = true) (hnew : target.isNew = false) : Below target name [.ref]
  | this (hname : name = Name.init) (hnew : target.isNew = false) : Below target name [.ref]
  | new (hname : name = Name.init) (hnew : target.isNew = true) : Below target name [.ref, .ref]

/-- The result of a static method comes to lie where the receiver was. -/
theorem passes_dropReceiver (t : Ty) :
    S.Passes Stretch.nowhere e (e.emitAll (dropReceiver t)) (t.kinds ++ [.ref]) t.kinds := by
  cases hvoid : t.isVoid with
  | true =>
    obtain rfl := Ty.eq_void hvoid
    exact .inert rfl (.pop rfl)
  | false =>
    obtain ⟨k, v, hk, -, hkind, hwidth⟩ := Ty.kinds_of_value hvoid
    rw [VType.width_of_hasKind hkind] at hwidth
    rw [hk, dropReceiver, ← hwidth]
    rcases v.width_eq_one_or_two with hv | hv
    · have hone : k.width = 1 := (VType.width_of_hasKind hkind).trans hv
      rw [hv]
      exact .trans (.inert rfl (.swap hone rfl)) (.above (.inert rfl (.pop rfl)) [k])
    · have htwo : k.width = 2 := (VType.width_of_hasKind hkind).trans hv
      rw [hv]
      exact .trans (.trans (.inert rfl (.dup2X1 htwo rfl)) (.above (.inert rfl (.pop2 htwo)) [.ref, k]))
        (.above (.inert rfl (.pop rfl)) [k])

/-- A call takes its arguments and its receiver and leaves its result. -/
theorem turns_invoke {c : Context} (hc : c.classes.WellFormed) {target : CallTarget} {name : String}
    {below : List LocalKind} (hbelow : target.Below name below) (args : List Ty) (site : Span) :
    Turns S (lowerInvoke c target name args site) (args.reverse.flatMap Ty.kinds ++ below) Ty.kinds := by
  intro e t e' h
  obtain ⟨m, interface, hfound, hstatic, rfl, rfl⟩ := runs_invoke h
  obtain ⟨hm, rfl, rfl⟩ := Context.wellFormed_method? hc hfound
  have hinit : m.name = Name.init → m.isStatic = false ∧ m.returns = .void := fun hname =>
    hm.constructors (beq_iff_eq.mpr hname)
  cases hms : m.isStatic with
  | true =>
    have hnotInit : m.name ≠ Name.init := fun hname => by
      rw [(hinit hname).1] at hms
      cases hms
    rw [(CallKind.opcode_of target m).mpr hms]
    have hcall : S.Passes Stretch.nowhere e
        (e.emit (.invoke .invokestatic ⟨target.cls.name, m.name, m.descriptor, interface⟩)) _ m.returns.kinds :=
      .call (.invokestatic hm rfl)
    cases hbelow with
    | nothing _ hpushed hnew =>
      rw [hnew, hpushed, List.append_nil]
      exact hcall
    | receiver hpushed hnew =>
      rw [hnew, hpushed]
      exact (hcall.above [.ref]).trans (passes_dropReceiver m.returns)
    | this hname => exact absurd hname hnotInit
    | new hname => exact absurd hname hnotInit
  | false =>
    have hop : (CallKind.of target m).opcode ≠ .invokestatic := fun h => by
      rw [(CallKind.opcode_of target m).mp h] at hms
      cases hms
    rw [Bool.false_and]
    have hcall : S.Passes Stretch.nowhere e
        (e.emit (.invoke (CallKind.of target m).opcode ⟨target.cls.name, m.name, m.descriptor, interface⟩)) _
        m.returns.kinds := .call (.invoke hm rfl hop)
    cases hbelow with
    | nothing hs =>
      rw [hstatic hs] at hms
      cases hms
    | receiver _ hnew =>
      rw [hnew]
      exact hcall
    | this _ hnew =>
      rw [hnew]
      exact hcall
    | new hname hnew =>
      have hover := hcall.above [.ref]
      rw [(hinit hname).2, List.append_assoc] at hover
      rw [hnew]
      exact hover

/-! ### Chains -/

/-- What stands on the stack for what the links of a chain have come to. -/
def ChainState.kinds : ChainState → List LocalKind
  | .start | .cls _ => []
  | .super _ => [.ref]
  | .value t => t.kinds

theorem turns_literal (l : Source.Literal) : Turns S (lowerLiteral l) [] Ty.kinds := by
  refine .lift fun v _ => ?_
  have hpush : ∀ i, Exchanges S.head S.code i v.code [] v.type.kinds := fun i => by
    cases v <;> exact .push rfl rfl fun _ => rfl
  exact .bind (.emit fun e => .inert v.inert_code (hpush e.size)) fun _ => .pure rfl

theorem turns_finish (site : Span) (state : ChainState) : Turns S (finishChain site state) state.kinds Ty.kinds := by
  cases state with
  | start => exact .throw _
  | super _ => exact .throw _
  | cls c => exact .bind (.emit fun e => .inert rfl (.push rfl rfl fun _ => rfl)) fun _ => .pure rfl
  | value t => exact .pure rfl

section Chains
variable {c : Context} (hc : c.classes.WellFormed)
include hc

theorem turns_staticField (owner : ClassSig) (ident : Source.Ident) :
    Turns S (lowerStaticField c owner ident) [] ChainState.kinds := by
  refine .lift fun f hf => .unlessThrown fun hstatic => .bind (.emit fun e => .inert rfl ?_) fun _ => .pure rfl
  exact .getstatic (Subject.wellFormed_requireField hc hf) (by simpa using hstatic)

theorem turns_valueField (t : Ty) (ident : Source.Ident) :
    Turns S (lowerValueField c t ident) t.kinds ChainState.kinds := by
  refine .lift fun name hname => .lift fun owner _ => .lift fun f hf => ?_
  have hf := Subject.wellFormed_requireField hc hf
  rw [Ty.kinds_of_isReference (Subject.isReference_of_memberOwner hname)]
  cases hs : f.isStatic with
  | true =>
    exact .bind (.emits fun e => .inert rfl (.pop rfl)) fun _ =>
      .bind (.emit fun e => .inert rfl (.getstatic hf hs)) fun _ => .pure rfl
  | false =>
    exact .bind (.emits fun e => .nil) fun _ => .bind (.emit fun e => .inert rfl (.getfield hf hs)) fun _ => .pure rfl

/-- A name stands for a local, for a field of the class or for a class. -/
theorem turns_name (ident : Source.Ident) : Turns S (lowerName c S.scope ident) [] ChainState.kinds := by
  unfold lowerName
  split
  · rename_i v hv
    have hload : ∀ e, S.Passes Stretch.nowhere e (e.emitAll (v.type.loadCode v.slot)) [] v.type.kinds := fun e => by
      unfold Ty.loadCode Ty.kinds
      cases hk : v.type.localKind? with
      | none => exact .nil
      | some k => exact .load (.inr ⟨_, v, hv, rfl, hk⟩)
    exact .bind (.emits hload) fun _ => .pure rfl
  · refine .lift fun found hfound => ?_
    split
    · rename_i f
      have hf := Context.wellFormed_field? hc hfound
      refine .unlessThrown fun hstatic => ?_
      cases hs : f.isStatic with
      | true =>
        exact .bind (.emits fun e => .nil) fun _ =>
          .bind (.emit fun e => .inert rfl (.getstatic hf hs)) fun _ => .pure rfl
      | false =>
        exact .bind (.emits fun e => .this (by simpa [hs] using hstatic)) fun _ =>
          .bind (.emit fun e => .inert rfl (.getfield hf hs)) fun _ => .pure rfl
    · refine .lift fun found _ => ?_
      split
      · exact .pure rfl
      · exact .throw _

theorem turns_link (state : ChainState) (link : Source.Link) :
    Turns S (lowerLink c S.scope state link) state.kinds ChainState.kinds := by
  unfold lowerLink
  split
  · exact .bind (turns_literal _) fun _ => .pure rfl
  · exact .unlessThrown fun hstatic => .bind (.emit fun e => .this (by simpa using hstatic)) fun _ => .pure rfl
  · exact turns_name hc _
  · exact .throw _
  · exact turns_staticField hc _ _
  · exact turns_valueField hc _ _
  · exact .throw _

end Chains

section Targets
variable {c : Context} (hs : S.scope.method.isConstructor = true → S.scope.method.isStatic = false)
include hs

theorem isStatic_of_requireConstructor {site : Span} (h : (requireConstructor S.scope site).result = .ok ()) :
    S.scope.method.isStatic = false := by
  unfold requireConstructor at h
  split at h
  · exact hs ‹_›
  · cases h

/-- A call at the start of a chain puts its receiver on the stack, if it has one. -/
theorem below_startCall {name : Source.Ident} {site : Span} {target : CallTarget × String}
    (h : Runs (startCall c S.scope name site) e target e') :
    ∃ below, target.1.Below target.2 below ∧ S.Passes Stretch.nowhere e e' [] below := by
  unfold startCall at h
  rcases Runs.ite_iff.mp h with ⟨-, h⟩ | ⟨-, h⟩
  · obtain ⟨_, e₁, hrun, h⟩ := Runs.bind_iff.mp h
    obtain ⟨hctor, rfl⟩ := Runs.lift_iff.mp hrun
    obtain ⟨rfl, rfl⟩ : e.emit .this = e' ∧ _ = target := by simpa using h
    exact ⟨_, .this rfl rfl, .this (isStatic_of_requireConstructor hs hctor)⟩
  · obtain ⟨found, e₁, hrun, h⟩ := Runs.bind_iff.mp h
    obtain ⟨-, rfl⟩ := Runs.lift_iff.mp hrun
    split at h
    · rename_i cls
      rcases Runs.ite_iff.mp h with ⟨-, h⟩ | ⟨-, h⟩
      · simp at h
      · obtain ⟨_, e₁, hrun, h⟩ := Runs.bind_iff.mp h
        obtain rfl := Runs.emitAll_iff.mp hrun
        obtain ⟨rfl, rfl⟩ := Runs.pure_iff.mp h
        exact ⟨_, .new rfl rfl, .trans (.inert rfl (.new cls.name)) (.inert rfl (.dup rfl))⟩
    · obtain ⟨_, e₁, hrun, h⟩ := Runs.bind_iff.mp h
      obtain rfl := Runs.emitAll_iff.mp hrun
      obtain ⟨rfl, rfl⟩ := Runs.pure_iff.mp h
      cases hstatic : S.scope.method.isStatic with
      | true => exact ⟨_, .nothing rfl rfl rfl, .nil⟩
      | false => exact ⟨_, .receiver rfl rfl, .this hstatic⟩

theorem below_callTarget {state : ChainState} {name : Source.Ident} {site : Span} {target : CallTarget × String}
    (h : Runs (callTarget c S.scope state name site) e target e') :
    ∃ below, target.1.Below target.2 below ∧ S.Passes Stretch.nowhere e e' state.kinds below := by
  unfold callTarget at h
  split at h
  · exact below_startCall hs h
  · unfold superCall at h
    split at h
    · cases Runs.throw_iff h
    · obtain ⟨cls, e₁, hrun, h⟩ := Runs.bind_iff.mp h
      obtain ⟨-, rfl⟩ := Runs.lift_iff.mp hrun
      rcases Runs.ite_iff.mp h with ⟨-, h⟩ | ⟨-, h⟩
      · obtain ⟨_, e₁, hrun, h⟩ := Runs.bind_iff.mp h
        obtain ⟨-, rfl⟩ := Runs.lift_iff.mp hrun
        obtain ⟨rfl, rfl⟩ := Runs.pure_iff.mp h
        exact ⟨_, .receiver rfl rfl, .nil⟩
      · obtain ⟨rfl, rfl⟩ := Runs.pure_iff.mp h
        exact ⟨_, .receiver rfl rfl, .nil⟩
  · obtain ⟨rfl, rfl⟩ := Runs.pure_iff.mp h
    exact ⟨_, .nothing rfl rfl rfl, .nil⟩
  · obtain ⟨owner, e₁, hrun, h⟩ := Runs.bind_iff.mp h
    obtain ⟨howner, rfl⟩ := Runs.lift_iff.mp hrun
    obtain ⟨cls, e₁, hrun, h⟩ := Runs.bind_iff.mp h
    obtain ⟨-, rfl⟩ := Runs.lift_iff.mp hrun
    obtain ⟨rfl, rfl⟩ := Runs.pure_iff.mp h
    rw [ChainState.kinds, Ty.kinds_of_isReference (Subject.isReference_of_memberOwner howner)]
    exact ⟨_, .receiver rfl rfl, .nil⟩

end Targets

/-! ### All expressions -/

section Expressions
variable {c : Context}

/-- Arguments are pushed in order, so the last comes to lie on top. -/
theorem turns_args {args : List Source.Expr} (h : ∀ x ∈ args, Turns S (lowerExpr c S.scope x) [] Ty.kinds) :
    Turns S (lowerArgs c S.scope args) [] fun ts => ts.reverse.flatMap Ty.kinds := by
  induction args with
  | nil => exact .pure rfl
  | cons x rest ih =>
    obtain ⟨hx, hrest⟩ := List.forall_mem_cons.mp h
    exact .bind hx fun t => .bind ((ih hrest).above t.kinds) fun ts => .pure (by simp)

variable (hc : c.classes.WellFormed) (hs : S.scope.method.isConstructor = true → S.scope.method.isStatic = false)
include hc hs

theorem turns_links {links : List Source.Link}
    (h : ∀ call, .call call ∈ links → ∀ x ∈ call.args, Turns S (lowerExpr c S.scope x) [] Ty.kinds)
    (state : ChainState) : Turns S (lowerLinks c S.scope state links) state.kinds ChainState.kinds := by
  induction links generalizing state with
  | nil => exact .pure rfl
  | cons link rest ih =>
    have hrest := ih fun call hcall => h call (List.mem_cons_of_mem link hcall)
    cases link with
    | call call =>
      obtain ⟨name, args, span⟩ := call
      intro e state' e' hr
      obtain ⟨target, e₁, htarget, hr⟩ := Runs.bind_iff.mp (show Runs (_ >>= _) e state' e' from hr)
      obtain ⟨types, e₂, htypes, hr⟩ := Runs.bind_iff.mp hr
      obtain ⟨t, e₃, hinvoke, hr⟩ := Runs.bind_iff.mp hr
      obtain ⟨below, hbelow, hfirst⟩ := below_callTarget hs htarget
      have hargs := (turns_args (h _ List.mem_cons_self)).above below htypes
      exact ((hfirst.trans hargs).trans (turns_invoke hc hbelow types span hinvoke)).trans (hrest (.value t) hr)
    | text l => exact .bind (turns_link hc state _) hrest
    | name x => exact .bind (turns_link hc state _) hrest
    | super site => exact .bind (turns_link hc state _) hrest

theorem turns_exprSteps (hS : S.Marked) :
    Source.ExprSteps (fun x => Turns S (lowerExpr c S.scope x) [] Ty.kinds)
      (fun x => Turns S (lowerAnd c S.scope x) [] Ty.kinds) (fun x => Turns S (lowerMath c S.scope x) [] Ty.kinds)
      (fun x => Turns S (lowerTerm c S.scope x) [] Ty.kinds)
      (fun x => Turns S (lowerOperand c S.scope x) [] Ty.kinds) where
  expr terms span h := by
    rw [lowerExpr_eq]
    exact turns_logical hS (fun _ => rfl) rfl h _ _
  and terms span h := by
    rw [lowerAnd_eq]
    exact turns_logical hS (fun _ => rfl) rfl h _ _
  math first rest span hfirst hrest := by
    rw [lowerMath_eq]
    refine turns_tree hS ?_
    simp only [Source.MathExpr.tree, OpTree.map_group, OpTree.leaves_group, List.map_map]
    exact List.forall_mem_cons.mpr ⟨hfirst, List.forall_mem_map.mpr hrest⟩
  term unary operand span h := .bind h fun t => turns_unaries hS c span unary t
  literal := turns_literal
  chain links span h := .bind (turns_links hc hs h .start) fun state => turns_finish span state
  paren _ h := h

end Expressions

/-! ### Labels and ways -/

section Whole
variable {c : Context} {s : Scope} {x : Source.Expr} {t : Ty} (hc : c.classes.WellFormed)
  (hs : s.method.isConstructor = true → s.method.isStatic = false) (h : Runs (lowerExpr c s x) e t e')
include hc hs h

/-- The labels that were made for an expression are marked in its code, each once, and it uses no others. -/
theorem labels_of_expr : ∃ block, e'.instrs.toList = e.instrs.toList ++ block ∧
    (∀ op l, .jump op l ∈ block → e.labels ≤ l.id ∧ l.id < e'.labels) ∧
    ∀ l, block.count (.mark l) = if e.labels ≤ l.id ∧ l.id < e'.labels then 1 else 0 := by
  -- Where jumps go does not depend on the code around them, so any stretch will do.
  have hpasses : Stretch.Passes ⟨⟨"", "", "", true⟩, #[], ⟨#[]⟩, s, 0, []⟩ Stretch.nowhere e e' [] t.kinds :=
    (turns_exprSteps hc hs fun l j => by simp [Placement.position?]).forExpr x h
  obtain ⟨block, hblock, -, hjumps⟩ := hpasses.jumps
  refine ⟨block, hblock, fun op l hl => (hjumps _ hl op l rfl).resolve_left id, fun l => ?_⟩
  have hmarks := (EmitM.Adds.lowerExpr c s x e t e' h).marks l
  rw [Emitter.marks, Emitter.marks, hblock, List.count_append] at hmarks
  exact Nat.add_left_cancel hmarks

/-- From where the code of an expression begins every way leads to its end. -/
theorem leads_of_expr {m : MethodHead} {code : Code} {p : Placement} (w : e'.Within code.instrs)
    (hp : code.placement = .ok p) : Stretch.Leads ⟨m, code.instrs, p, s, e'.size, t.kinds⟩ e.size [] := by
  have hmarked : Stretch.Marked ⟨m, code.instrs, p, s, e'.size, t.kinds⟩ := code.position?_eq_some hp
  have hpasses := (turns_exprSteps hc hs hmarked).forExpr x h
  refine hpasses.leads w (Nat.le_refl _) [] nofun ?_
  rw [List.append_nil]
  exact .done

end Whole

/-- The code of an expression marks all labels that were made for it and uses no others. Along every way through it only
    constructor calls can fail, provided that each local which it loads holds a value of its kind. The way goes forward
    and leaves the code only at its end. There a value of the type of the expression is on top of the stack, or none if
    the type is `void`. What was on the stack before is below, except that copies of objects whose constructors have been
    called on the way are initialized. -/
theorem expression_leaves_its_value {c : Context} {s : Scope} {x : Source.Expr} {e e' : Emitter} {t : Ty}
    (hc : c.classes.WellFormed) (hs : s.method.isConstructor = true → s.method.isStatic = false)
    (h : Runs (lowerExpr c s x) e t e') :
    (∃ block, e'.instrs.toList = e.instrs.toList ++ block ∧
      (∀ op l, .jump op l ∈ block → e.labels ≤ l.id ∧ l.id < e'.labels) ∧
      ∀ l, block.count (.mark l) = if e.labels ≤ l.id ∧ l.id < e'.labels then 1 else 0) ∧
    ∀ (m : MethodHead) (code : Code) (p : Placement) (f : Frame) (is : List Nat) (j : Nat),
      e'.Within code.instrs → code.placement = .ok p →
      (∀ k x v kind, e.size ≤ k → k < e'.size → code.instrs[k]? = some (.load kind v.slot) → s.get? x = some v →
        v.type.localKind? = some kind → (f.getLocal v.slot.toNat).hasKind kind = true) →
      (s.method.isStatic = false → (f.getLocal 0).isReference = true) →
      Crossing code.instrs p e.size e'.size e.size is j → f.Accepts m code.instrs is →
      ∃ g, f.along m code.instrs is = .ok g ∧ (is ++ [j]).Pairwise (· < ·) ∧ e.size ≤ j ∧ j ≤ e'.size ∧
        (j < e'.size → ∃ k, Edge code.instrs p j k) ∧
        (j = e'.size → ∃ top, g.stack = top ++ f.stack.map (f.become m code.instrs is) ∧
          ((∀ u ∈ f.stack, u.isUninitialized = false) → g.stack = top ++ f.stack) ∧
          (t = .void ∧ top = [] ∨
            ∃ v kind, top = [v] ∧ t.localKind? = some kind ∧ v.hasKind kind = true ∧ v.width = t.width)) := by
  refine ⟨labels_of_expr hc hs h, fun m code p f is j w hp hlocals hthis hcrossing haccepts => ?_⟩
  have hprovides : Stretch.Provides ⟨m, code.instrs, p, s, e'.size, t.kinds⟩ e.size f := by
    intro k kind slot hlo hhi hk hreads
    rcases hreads with ⟨rfl, rfl, hstatic⟩ | ⟨x, v, hv, rfl, hkind⟩
    · exact hthis hstatic
    · exact hlocals k x v kind hlo hhi hk hv hkind
  obtain ⟨g, top, ks, halong, hstack, htop, hleads, hle, hforward⟩ := Stretch.Leads.along hcrossing
    (leads_of_expr hc hs h w hp) (show f.stack = [] ++ f.stack from rfl) .nil hprovides haccepts
  refine ⟨g, halong, hforward, hle j (by simp), hleads.le_last, hleads.exists_edge, fun hend => ?_⟩
  obtain rfl := hleads.eq_left hend
  refine ⟨top, hstack, fun hinit => ?_, Ty.ofKinds_kinds htop⟩
  rw [hstack, List.map_congr_left fun u hu => Frame.become_of_initialized (hinit u hu) f is, List.map_id']

/-! ### An object below -/

/-- A new object, whose constructor takes a number that jumps decide. -/
def decidedExpr : Source.Expr :=
  let five : Source.Expr := (Source.MathExpr.mk ⟨[.not], .literal ⟨"5", {}⟩, {}⟩ [] {}).toAnd.toExpr
  (Source.MathExpr.mk ⟨[], .chain [.call ⟨⟨derivedClass.name, {}⟩, [five], {}⟩] {}, {}⟩ [] {}).toAnd.toExpr

def decidedCode : Code :=
  ⟨#[.type .new derivedClass.name, .op .dup, .int 5, .jump .ifeq ⟨0⟩, .int 0, .jump .goto ⟨1⟩, .mark ⟨0⟩, .int 1,
    .mark ⟨1⟩, .invoke .invokespecial ⟨derivedClass.name, Name.init, "(I)V", false⟩], 2⟩

def decidedLabels : Placement := ⟨#[some 6, some 8]⟩

def decidedHead : MethodHead := ⟨derivedClass.name, Name.init, "()V", false⟩

theorem wellFormed_derived : derivedContext.classes.WellFormed :=
  ClassTable.wellFormed_view (by decide) nofun

theorem runs_decidedExpr : Runs (lowerExpr derivedContext derivedScope decidedExpr) {} derivedClass.type
    { instrs := decidedCode.instrs, labels := 2 } := by
  rfl

/-- The way on which the jump is taken. -/
theorem decided_crossing : Crossing decidedCode.instrs decidedLabels 0 10 0 [0, 1, 2, 3, 6, 7, 8, 9] 10 := by
  have next {i j : Nat} {is : List Nat} (hi : decidedCode.instrs[i]?.map Instr.fallsThrough = some true)
      (hlt : i < 10) (h : Crossing decidedCode.instrs decidedLabels 0 10 (i + 1) is j) :
      Crossing decidedCode.instrs decidedLabels 0 10 i (i :: is) j := by
    obtain ⟨instr, hi, hfalls⟩ := Option.map_eq_some_iff.mp hi
    exact .step (Nat.zero_le i) hlt (.next hi hfalls) h
  have htaken : Crossing decidedCode.instrs decidedLabels 0 10 6 [6, 7, 8, 9] 10 :=
    next rfl (by decide) (next rfl (by decide) (next rfl (by decide) (next rfl (by decide) (.here 10))))
  have hjump : Crossing decidedCode.instrs decidedLabels 0 10 3 [3, 6, 7, 8, 9] 10 :=
    .step (by decide) (by decide) (.jump (l := ⟨0⟩) rfl rfl) htaken
  exact next rfl (by decide) (next rfl (by decide) (next rfl (by decide) hjump))

/-- The object that is made lies on the number that was there. -/
theorem expression_leaves_its_value_decided : derivedContext.classes.WellFormed ∧
    (derivedScope.method.isConstructor = true → derivedScope.method.isStatic = false) ∧
    Runs (lowerExpr derivedContext derivedScope decidedExpr) {} derivedClass.type
      { instrs := decidedCode.instrs, labels := 2 } ∧
    decidedCode.placement = .ok decidedLabels ∧
    Crossing decidedCode.instrs decidedLabels 0 10 0 [0, 1, 2, 3, 6, 7, 8, 9] 10 ∧
    Frame.Accepts decidedHead decidedCode.instrs ⟨[.uninitializedThis], [.long]⟩ [0, 1, 2, 3, 6, 7, 8, 9] ∧
    ∃ g v, Frame.along decidedHead decidedCode.instrs ⟨[.uninitializedThis], [.long]⟩ [0, 1, 2, 3, 6, 7, 8, 9] = .ok g ∧
      g.stack = [v, .long] ∧ v.hasKind .ref = true := by
  have hs : derivedScope.method.isConstructor = true → derivedScope.method.isStatic = false := fun _ => rfl
  have haccepts : Frame.Accepts decidedHead decidedCode.instrs ⟨[.uninitializedThis], [.long]⟩
      [0, 1, 2, 3, 6, 7, 8, 9] :=
    Frame.accepts_of_along (g := ⟨[.uninitializedThis], [.object derivedClass.name, .long]⟩) (by decide +kernel)
  have hplaced : decidedCode.placement = .ok decidedLabels := rfl
  obtain ⟨g, halong, -, -, -, -, hend⟩ := (expression_leaves_its_value wellFormed_derived hs runs_decidedExpr).2
    decidedHead decidedCode decidedLabels ⟨[.uninitializedThis], [.long]⟩ _ 10 (List.prefix_refl _) hplaced
    (fun k x v kind _ _ _ hv => by cases hv) (fun _ => rfl) decided_crossing haccepts
  obtain ⟨top, -, hstack, hvalue⟩ := hend rfl
  refine ⟨wellFormed_derived, hs, runs_decidedExpr, hplaced, decided_crossing, haccepts, ?_⟩
  rcases hvalue with ⟨hvoid, -⟩ | ⟨v, kind, rfl, hkind, hv, -⟩
  · cases hvoid
  · cases hkind
    exact ⟨g, v, halong, hstack (by simp [VType.isUninitialized]), hv⟩

/-- A constructor that calls another one. -/
def delegatingExpr : Source.Expr :=
  (Source.MathExpr.mk ⟨[], .chain [.call ⟨⟨Name.constructorKeyword, {}⟩, [], {}⟩] {}, {}⟩ [] {}).toAnd.toExpr

def delegatingCode : Code := ⟨#[.this, .invoke .invokespecial ⟨derivedClass.name, Name.init, "()V", false⟩], 0⟩

/-- The call changes what was on the stack before it, where that is a copy of the receiver. -/
theorem delegating_initializes_below : ∃ (p : Placement) (f g : Frame),
    Runs (lowerExpr derivedContext derivedScope delegatingExpr) {} .void { instrs := delegatingCode.instrs } ∧
    derivedContext.classes.WellFormed ∧ derivedScope.method.isStatic = false ∧ delegatingCode.placement = .ok p ∧
    (f.getLocal 0).isReference = true ∧ Crossing delegatingCode.instrs p 0 2 0 [0, 1] 2 ∧
    f.along decidedHead delegatingCode.instrs [0, 1] = .ok g ∧ f.stack = [.uninitializedThis] ∧
    g.stack = [.object derivedClass.name] := by
  refine ⟨⟨#[]⟩, ⟨[.uninitializedThis], [.uninitializedThis]⟩, _, rfl, wellFormed_derived, rfl, rfl, rfl, ?_, rfl, rfl,
    rfl⟩
  have hcall : Crossing delegatingCode.instrs ⟨#[]⟩ 0 2 1 [1] 2 :=
    .step (Nat.zero_le 1) Nat.one_lt_two (.next rfl rfl) (.here 2)
  exact .step (Nat.le_refl 0) Nat.two_pos (.next rfl rfl) hcall

end Classwright
