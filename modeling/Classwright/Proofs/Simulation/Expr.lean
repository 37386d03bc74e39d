import Classwright.Proofs.Simulation.Operators

/-! # Expressions on the machine

The code of an expression on numbers leaves the value of the expression on the stack, of the type that it was lowered
with. -/

namespace Classwright.Machine

open Source (BinaryOp UnaryOp)
open Value (num)

/-- What is stored under a name is in the slot of its local. -/
structure Matches (s : Scope) (st : Store) (locals : Nat → Option Value) : Prop where
  held : ∀ x v, s.get? x = some v → locals v.slot.toNat = (st x).map num
  typed : ∀ x v n, s.get? x = some v → st x = some n → n.type = v.type

/-- The names are those of locals, all of which hold numbers. -/
structure Numeric (s : Scope) (known : List String) : Prop where
  known : ∀ x ∈ known, ∃ v, s.get? x = some v
  types : ∀ x v, s.get? x = some v → v.type = .int ∨ v.type = .long

/-- Where it is lowered to, the machine works out the value that `r` is. -/
def Computes (code : Array Instr) (p : Placement) (s : Scope) (x : EmitM Ty) (r : Store → Except Fault Num) : Prop :=
  ∀ e t e', Runs x e t e' → e'.Within code → ∀ st locals stack heap, Matches s st locals →
    Answers code p ⟨e.size, locals, stack, heap⟩ (r st) (fun v => ⟨e'.size, locals, num v :: stack, heap⟩) ∧
      ∀ v, r st = .ok v → v.type = t

variable {code : Array Instr} {p : Placement} {s : Scope} {c : Context}

/-! ### Logical expressions -/

section Logical
variable {α : Type} {lower : α → EmitM Ty} {eval : Store → α → Except Fault Num} {span : α → Span} {jump : Opcode}
  {stop : Bool}

/-- Conditions are gone through until one decides. -/
theorem answers_branchAll (hp : Placed code p)
    (hjump : ∀ a rest, decideJump jump (num (.int a) :: rest) = some (decide (a ≠ 0) == stop, rest)) {taken : Label}
    {j : Nat} (hj : code[j]? = some (.mark taken)) {xs : List α} (hx : ∀ x ∈ xs, Computes code p s (lower x) (eval · x))
    (ha : ∀ x, EmitM.Adds (lower x)) {e e' : Emitter} (ht : taken.id < e.labels)
    (h : Runs (branchAll lower span jump taken xs) e () e') (w : e'.Within code) {st : Store}
    {locals : Nat → Option Value} {stack : List Value} {heap : List Object} (hm : Matches s st locals) {k : Num → State}
    (hfall : Reaches code p ⟨e'.size, locals, stack, heap⟩ (k (.truth !stop)))
    (htaken : Reaches code p ⟨j, locals, stack, heap⟩ (k (.truth stop))) :
    Answers code p ⟨e.size, locals, stack, heap⟩ (decideOn stop (xs.map (eval st))) k := by
  induction xs generalizing e with
  | nil =>
    obtain ⟨-, rfl⟩ := Runs.pure_iff.mp h
    exact hfall
  | cons x xs ih =>
    obtain ⟨hx, hxs⟩ := List.forall_mem_cons.mp hx
    obtain ⟨t, e₁, h₁, h⟩ := Runs.bind_iff.mp h
    obtain ⟨_, e₂, h₂, h⟩ := Runs.bind_iff.mp h
    obtain ⟨rfl, rfl⟩ := Runs.branchOn_iff.mp h₂
    have ht₁ : taken.id < (e₁.emit (.jump jump taken)).labels := Nat.lt_of_lt_of_le ht (ha x _ _ _ h₁).labels
    have w₂ := (EmitM.Adds.branchAll (fun x _ => ha x) ht₁ h).within w
    have w₁ := (Emitter.Grows.emit e₁ _).within w₂
    obtain ⟨hans, htype⟩ := hx e _ e₁ h₁ w₁ st locals stack heap hm
    refine hans.bind fun v hv => ?_
    cases v with
    | long a => cases htype _ hv
    | int a =>
      simp only [Num.holds, ok_bind]
      by_cases hb : decide (a ≠ 0) = stop
      · rw [if_pos hb]
        refine (reaches_jump hp w₂.instr ?_ hj).trans htaken
        rw [hjump, hb, beq_self_eq_true]
      · rw [if_neg hb]
        have hpast : decideJump jump (num (.int a) :: stack) = some (false, stack) := by
          rw [hjump, beq_eq_false_iff_ne.mpr hb]
        exact Answers.of_reaches (reaches_past w₂.instr hpast) (Emitter.size_emit _ _ ▸ ih hxs ht₁ h)

theorem type_decideOn {xs : List (Except Fault Num)} {v : Num} (h : decideOn stop xs = .ok v) : v.type = .int := by
  induction xs with
  | nil =>
    cases h
    rfl
  | cons x xs ih =>
    obtain ⟨n, -, h⟩ := bind_eq_ok.mp h
    obtain ⟨b, -, h⟩ := bind_eq_ok.mp h
    split at h
    · cases h
      rfl
    · exact ih h

theorem computes_logical (hp : Placed code p) (stop : Bool)
    (hjump : ∀ a rest, decideJump jump (num (.int a) :: rest) = some (decide (a ≠ 0) == stop, rest)) {xs : List α}
    (hx : ∀ x ∈ xs, Computes code p s (lower x) (eval · x)) (ha : ∀ x, EmitM.Adds (lower x)) (site : Span) :
    Computes code p s (lowerLogical lower span jump (!stop) site xs) fun st => logical stop (xs.map (eval st)) := by
  match xs with
  | [] => exact fun _ _ _ h => absurd h Runs.throw_iff
  | [x] => exact hx x List.mem_cons_self
  | x :: y :: rest =>
    intro e t e' h w st locals stack heap hm
    obtain ⟨rfl, e₁, hall, hjoin⟩ := runs_logical h
    have w₁ := (EmitM.grows_joinBranches hjoin).within w
    obtain ⟨hfall, j, hj, htaken⟩ := reaches_joinBranches hp hjoin w
    rw [Bool.not_not] at htaken
    exact ⟨answers_branchAll hp hjump hj hx ha (Nat.lt_succ_self _) hall w₁ hm hfall htaken,
      fun v hv => type_decideOn hv⟩

end Logical

/-! ### Terms and operators -/

theorem computes_literal (l : Source.Literal) (hl : l.isNumeric) :
    Computes code p s (lowerLiteral l) fun _ => l.num := by
  intro e t e' h w st locals stack heap _
  obtain ⟨v, hv, rfl, rfl⟩ : ∃ v, l.value = .ok v ∧ e.emit v.code = e' ∧ v.type = t := by
    simpa [lowerLiteral, Lookup.ofExcept] using h
  rw [Source.Literal.isNumeric, Source.Literal.num, hv] at hl
  rw [Source.Literal.num, hv, Emitter.size_emit]
  cases v with
  | int v => exact ⟨reaches_of_exec w.instr rfl, by rintro _ ⟨⟩; rfl⟩
  | long v => exact ⟨reaches_of_exec w.instr rfl, by rintro _ ⟨⟩; rfl⟩
  | float v => cases hl
  | double v => cases hl
  | str v => cases hl

/-- Numbers of a type are loaded and stored as one kind. -/
theorem numeric_localCode {t : Ty} (ht : t = .int ∨ t = .long) (slot : UInt16) :
    ∃ kind, t.loadCode slot = [.load kind slot] ∧ t.storeCode slot = [.store kind slot] ∧
      ∀ n : Num, n.type = t → (num n).kind = kind := by
  rcases ht with rfl | rfl
  · refine ⟨.int, rfl, rfl, fun n hn => ?_⟩
    cases n with
    | int v => rfl
    | long v => cases hn
  · refine ⟨.long, rfl, rfl, fun n hn => ?_⟩
    cases n with
    | int v => cases hn
    | long v => rfl

theorem computes_local {known : List String} (hs : Numeric s known) {x : Source.Ident} (hx : x.name ∈ known)
    (site : Span) : Computes code p s (lowerOperand c s (.chain [.name x] site)) fun st =>
      evalOperand st (.chain [.name x] site) := by
  intro e t e' h w st locals stack heap hm
  obtain ⟨v, hv⟩ := hs.known x.name hx
  obtain ⟨rfl, rfl⟩ : e.emitAll (v.type.loadCode v.slot) = e' ∧ v.type = t := by
    simpa [lowerOperand, lowerLinks, lowerLink, lowerName, hv, finishChain] using h
  have hheld := hm.held x.name v hv
  obtain ⟨kind, hcode, -, hkind⟩ := numeric_localCode (hs.types x.name v hv) v.slot
  rw [hcode] at w ⊢
  have hi : code[e.size]? = some (.load kind v.slot) := w.get (k := 0) rfl
  rw [Emitter.size_emitAll]
  cases hst : st x.name with
  | none =>
    rw [hst] at hheld
    simp only [evalOperand, hst]
    exact ⟨⟨_, kind, v.slot, .refl _, hi, hheld⟩, nofun⟩
  | some n =>
    rw [hst] at hheld
    have hn := hm.typed x.name v n hv hst
    simp only [evalOperand, hst]
    refine ⟨reaches_of_exec hi ?_, by rintro _ ⟨⟩; exact hn⟩
    simp [exec, hheld, hkind n hn, State.advance]

theorem answers_unaries (hp : Placed code p) {site : Span} {ops : List UnaryOp} (hops : ops.all (·.isNumeric))
    {a : Num} {e e' : Emitter} {t : Ty} (h : Runs (lowerUnaries c site a.type ops) e t e') (w : e'.Within code)
    (locals : Nat → Option Value) (stack : List Value) (heap : List Object) :
    Answers code p ⟨e.size, locals, num a :: stack, heap⟩ (applyUnaries ops a)
        (fun v => ⟨e'.size, locals, num v :: stack, heap⟩) ∧ ∀ v, applyUnaries ops a = .ok v → v.type = t := by
  induction ops generalizing a e with
  | nil =>
    obtain ⟨rfl, rfl⟩ := Runs.pure_iff.mp h
    exact ⟨.refl _, by rintro _ ⟨⟩; rfl⟩
  | cons op ops ih =>
    obtain ⟨hop, hops⟩ := Bool.and_eq_true_iff.mp (List.all_cons ▸ hops)
    obtain ⟨t₁, e₁, h₁, h⟩ := Runs.bind_iff.mp h
    have w₁ := (EmitM.Adds.lowerUnaries c site t₁ ops _ _ _ h).within w
    obtain ⟨hans, htype⟩ := answers_unary hp h₁ w₁ hop locals stack heap
    rw [applyUnaries]
    refine ⟨hans.bind fun v hv => ?_, fun v hv => ?_⟩
    · obtain rfl := htype v hv
      exact (ih hops h).1
    · obtain ⟨u, hu, hv⟩ := bind_eq_ok.mp hv
      obtain rfl := htype u hu
      exact (ih hops h).2 v hv

theorem computes_term (hp : Placed code p) {unary : List UnaryOp} (hops : unary.all (·.isNumeric))
    {operand : Source.Operand} (h : Computes code p s (lowerOperand c s operand) (evalOperand · operand)) (span : Span) :
    Computes code p s (lowerTerm c s ⟨unary, operand, span⟩) (evalTerm · ⟨unary, operand, span⟩) := by
  intro e t e' hr w st locals stack heap hm
  obtain ⟨t₁, e₁, h₁, h₂⟩ := Runs.bind_iff.mp hr
  have w₁ := (EmitM.Adds.lowerUnaries c span t₁ unary _ _ _ h₂).within w
  obtain ⟨hans, htype⟩ := h e t₁ e₁ h₁ w₁ st locals stack heap hm
  refine ⟨hans.bind fun a ha => ?_, fun v hv => ?_⟩
  · obtain rfl := htype a ha
    exact (answers_unaries hp hops h₂ w locals stack heap).1
  · obtain ⟨a, ha, hv⟩ := bind_eq_ok.mp hv
    obtain rfl := htype a ha
    exact (answers_unaries hp hops h₂ w locals stack heap).2 v hv

theorem computes_chain {known : List String} (hs : Numeric s known) {links : List Source.Link} {span : Span}
    (hn : numericOperand known (.chain links span)) :
    Computes code p s (lowerOperand c s (.chain links span)) (evalOperand · (.chain links span)) := by
  unfold numericOperand at hn
  split at hn
  · rename_i heq
    cases heq
  · rename_i l _ heq
    cases heq
    have hlower : lowerOperand c s (.chain [.text l] span) = lowerLiteral l := by
      simp [lowerOperand, lowerLinks, lowerLink, finishChain]
    rw [hlower]
    exact computes_literal l hn
  · rename_i x _ heq
    cases heq
    exact computes_local hs (by simpa using hn) span
  · cases hn
  · rename_i heq
    cases heq

/-- Operators are carried out after the operands on both sides. -/
theorem computes_tree (hp : Placed code p) {tree : OpTree Source.Term}
    (ht : ∀ x ∈ tree.leaves, Computes code p s (lowerTerm c s x) (evalTerm · x)) :
    Computes code p s ((tree.map (lowerTerm c s)).evalM Pending.applyAt) fun st =>
      (tree.map (evalTerm st)).evalM fun op _ a b => Num.apply op a b := by
  induction tree with
  | leaf x => exact ht x (by simp [OpTree.leaves])
  | node op site l r ihl ihr =>
    simp only [OpTree.leaves, List.mem_append, or_imp, forall_and] at ht
    intro e t e' h w st locals stack heap hm
    obtain ⟨t₁, e₁, h₁, h⟩ := Runs.bind_iff.mp h
    obtain ⟨t₂, e₂, h₂, h⟩ := Runs.bind_iff.mp h
    have w₂ := (EmitM.Adds.lowerOperator op t₁ t₂ site _ _ _ h).within w
    have w₁ := (EmitM.Adds.lowerTree c s r _ _ _ h₂).within w₂
    obtain ⟨hans₁, htype₁⟩ := ihl ht.1 e t₁ e₁ h₁ w₁ st locals stack heap hm
    have hans₂ := fun a => ihr ht.2 e₁ t₂ e₂ h₂ w₂ st locals (num a :: stack) heap hm
    simp only [OpTree.map, OpTree.evalM]
    refine ⟨hans₁.bind fun a hva => (hans₂ a).1.bind fun b hvb => ?_, fun v hv => ?_⟩
    · obtain rfl := htype₁ a hva
      obtain rfl := (hans₂ a).2 b hvb
      exact (answers_operator hp h w locals stack heap).1
    · obtain ⟨a, hva, hv⟩ := bind_eq_ok.mp hv
      obtain ⟨b, hvb, hv⟩ := bind_eq_ok.mp hv
      obtain rfl := htype₁ a hva
      obtain rfl := (hans₂ a).2 b hvb
      exact (answers_operator hp h w locals stack heap).2 v hv

/-! ### Expressions -/

theorem evalAlternatives_eq (st : Store) (xs : List Source.AndExpr) : evalAlternatives st xs = xs.map (evalAnd st) := by
  induction xs with
  | nil => rfl
  | cons x xs ih => rw [evalAlternatives, ih, List.map_cons]

theorem evalConjuncts_eq (st : Store) (xs : List Source.MathExpr) : evalConjuncts st xs = xs.map (evalMath st) := by
  induction xs with
  | nil => rfl
  | cons x xs ih => rw [evalConjuncts, ih, List.map_cons]

theorem evalMath_eq (st : Store) (x : Source.MathExpr) :
    evalMath st x = (x.tree.map (evalTerm st)).evalM fun op _ a b => Num.apply op a b := by
  obtain ⟨first, rest, span⟩ := x
  have hrest : evalOperations st rest = rest.map fun y => (y.op, y.term.span, evalTerm st y.term) := by
    induction rest with
    | nil => rfl
    | cons y rest ih =>
      obtain ⟨op, term⟩ := y
      rw [evalOperations, ih, List.map_cons]
  rw [evalMath, hrest, Source.MathExpr.tree, OpTree.map_group, List.map_map]
  rfl

theorem numericAlternatives_eq (known : List String) (xs : List Source.AndExpr) :
    numericAlternatives known xs = xs.all (numericAnd known) := by
  induction xs with
  | nil => rfl
  | cons x xs ih => rw [numericAlternatives, ih, List.all_cons]

theorem numericConjuncts_eq (known : List String) (xs : List Source.MathExpr) :
    numericConjuncts known xs = xs.all (numericMath known) := by
  induction xs with
  | nil => rfl
  | cons x xs ih => rw [numericConjuncts, ih, List.all_cons]

theorem numericOperations_eq (known : List String) (xs : List Source.Operation) :
    numericOperations known xs = xs.all (numericTerm known ·.term) := by
  induction xs with
  | nil => rfl
  | cons x xs ih =>
    obtain ⟨op, term⟩ := x
    rw [numericOperations, ih, List.all_cons]

/-- What holds of the parts of an expression on numbers holds of the expression. -/
theorem exprSteps_computes (hp : Placed code p) (c : Context) {known : List String} (hs : Numeric s known) :
    Source.ExprSteps
      (fun x => numericExpr known x → Computes code p s (lowerExpr c s x) (evalExpr · x))
      (fun x => numericAnd known x → Computes code p s (lowerAnd c s x) (evalAnd · x))
      (fun x => numericMath known x → Computes code p s (lowerMath c s x) (evalMath · x))
      (fun x => numericTerm known x → Computes code p s (lowerTerm c s x) (evalTerm · x))
      (fun x => numericOperand known x → Computes code p s (lowerOperand c s x) (evalOperand · x)) where
  expr terms span h hn := by
    rw [numericExpr, numericAlternatives_eq, List.all_eq_true] at hn
    simp only [evalExpr, lowerExpr_eq, evalAlternatives_eq]
    exact computes_logical hp true (fun a rest => by simp [decideJump]) (fun x hx => h x hx (hn x hx))
      (EmitM.Adds.lowerAnd c s) span
  and terms span h hn := by
    rw [numericAnd, numericConjuncts_eq, List.all_eq_true] at hn
    simp only [evalAnd, lowerAnd_eq, evalConjuncts_eq]
    exact computes_logical hp false (fun a rest => by simp [decideJump]) (fun x hx => h x hx (hn x hx))
      (EmitM.Adds.lowerMath c s) span
  math first rest span hfirst hrest hn := by
    rw [numericMath, numericOperations_eq, Bool.and_eq_true_iff, List.all_eq_true] at hn
    simp only [evalMath_eq, lowerMath_eq]
    refine computes_tree hp ?_
    simp only [Source.MathExpr.tree, OpTree.leaves_group, List.map_map]
    exact List.forall_mem_cons.mpr ⟨hfirst hn.1, List.forall_mem_map.mpr fun y hy => hrest y hy (hn.2 y hy)⟩
  term unary operand span h hn := by
    rw [numericTerm, Bool.and_eq_true_iff] at hn
    exact computes_term hp hn.1 (h hn.2) span
  literal l hl := computes_literal l hl
  chain _ _ _ hn := computes_chain hs hn
  paren x h hn := h hn

/-- The code of an expression on numbers works out its value. -/
theorem computes_expr (hp : Placed code p) (c : Context) {known : List String} (hs : Numeric s known) {x : Source.Expr}
    (hn : numericExpr known x) : Computes code p s (lowerExpr c s x) (evalExpr · x) :=
  (exprSteps_computes hp c hs).forExpr x hn

end Classwright.Machine
