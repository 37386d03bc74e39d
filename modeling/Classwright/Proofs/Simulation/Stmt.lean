import Classwright.Proofs.Lowering.Statements
import Classwright.Proofs.Simulation.Expr

/-! # Statements on the machine

The code of a statement takes the machine where the statement ends: behind its code, to the step or the end of the
innermost loop, or out of the method. Each round of a loop takes an instruction at least, so the machine runs on as long
as the statement does. -/

namespace Classwright.Machine

open Source (Stmt VarDecl)
open Value (num)

variable {code : Array Instr} {p : Placement} {s s' S : Scope} {c : Context} {st : Store}
  {locals : Nat → Option Value} {heap : List Object}

/-! ### Locals -/

theorem Matches.mono (h : Matches S st locals) (hs : s.Grows S) : Matches s st locals where
  held x v hv := h.held x v (hs.get? hv)
  typed x v n hv := h.typed x v n (hs.get? hv)

theorem width_num (n : Num) : (num n).width = n.type.width := by
  cases n <;> rfl

theorem Numeric.width_pos {known : List String} (h : Numeric s known) {x : String} {v : Local}
    (hv : s.get? x = some v) : 1 ≤ v.type.width := by
  rcases h.types x v hv with ht | ht
  · rw [ht]
    exact Nat.le_refl 1
  · rw [ht]
    exact Nat.le_succ 1

/-- A store to the slot of a local changes what is stored under its name, and nothing else. -/
theorem Matches.set (h : Matches S st locals) (hl : S.Laid) {known : List String} (hS : Numeric S known) {x : String}
    {v : Local} (hv : S.get? x = some v) {n : Num} (hn : n.type = v.type) :
    Matches S (st.set x n) (setLocal locals v.slot.toNat (num n)) := by
  refine ⟨fun y w hw => ?_, fun y w m hw hm => ?_⟩
  · by_cases hy : y = x
    · subst hy
      rw [hv] at hw
      cases hw
      simp [setLocal, Store.set]
    · have hheld := h.held y w hw
      have hst : st.set x n y = st y := Function.update_of_ne hy _ _
      have hapart := hl.apart y x w v hw hv hy
      have hvw := hS.width_pos hv
      have hww := hS.width_pos hw
      have hwide : (locals w.slot.toNat).any (·.width = 2) → w.type.width = 2 := by
        rw [hheld]
        cases hm : st y with
        | none => simp
        | some m => simp [width_num, h.typed y w m hw hm]
      rw [hst, ← hheld, setLocal, if_neg (by omega), if_neg, if_neg]
      · rintro ⟨hnext, hany⟩
        have := hwide hany
        omega
      · rintro ⟨hnext, htwo⟩
        rw [width_num, hn] at htwo
        omega
  · by_cases hy : y = x
    · subst hy
      rw [hv] at hw
      cases hw
      cases (show some n = some m from (Function.update_self y (some n) st) ▸ hm)
      exact hn
    · exact h.typed y w m hw ((Function.update_of_ne hy _ _ : st.set x n y = st y) ▸ hm)

/-! ### Outcomes -/

/-- The machine comes to `pc` with an empty stack and the locals of a store. -/
def Arrives (code : Array Instr) (p : Placement) (S : Scope) (start : State) (pc : Nat) (st : Store) : Prop :=
  ∃ locals, Reaches code p start ⟨pc, locals, [], start.heap⟩ ∧ Matches S st locals

/-- The machine ends up where the outcome of a statement says: at `stop`, at the places that the innermost loop goes on
    or ends at, or out of the method. It runs on for as many instructions as there are rounds that a loop may make. -/
def Ends (code : Array Instr) (p : Placement) (S : Scope) (loop : Option (Nat × Nat)) (rounds : Nat) (start : State)
    (stop : Nat) : Outcome → Prop
  | .normal st => Arrives code p S start stop st
  | .continued st => ∃ next done, loop = some (next, done) ∧ Arrives code p S start next st
  | .broke st => ∃ next done, loop = some (next, done) ∧ Arrives code p S start done st
  | .returned v => Halts code p start (.returned (v.map num))
  | .failed .divisionByZero => Halts code p start .trapped
  | .failed .undefined => Starves code p start
  | .unfinished => Lasts code p rounds start

variable {start mid : State} {loop : Option (Nat × Nat)} {rounds stop pc : Nat} {o : Outcome}

theorem Arrives.of_reaches (h : Reaches code p start mid) (hh : mid.heap = start.heap)
    (ha : Arrives code p S mid pc st) : Arrives code p S start pc st := by
  obtain ⟨locals, hr, hm⟩ := ha
  exact ⟨locals, h.trans (hh ▸ hr), hm⟩

theorem Arrives.trans {pc' : Nat} (ha : Arrives code p S start pc st)
    (h : ∀ locals, Reaches code p ⟨pc, locals, [], start.heap⟩ ⟨pc', locals, [], start.heap⟩) :
    Arrives code p S start pc' st := by
  obtain ⟨locals, hr, hm⟩ := ha
  exact ⟨locals, hr.trans (h locals), hm⟩

namespace Ends

theorem of_reaches (h : Reaches code p start mid) (hh : mid.heap = start.heap)
    (he : Ends code p S loop rounds mid stop o) : Ends code p S loop rounds start stop o :=
  match o with
  | .normal _ => Arrives.of_reaches h hh he
  | .continued _ =>
    let ⟨next, done, hl, ha⟩ := he
    ⟨next, done, hl, ha.of_reaches h hh⟩
  | .broke _ =>
    let ⟨next, done, hl, ha⟩ := he
    ⟨next, done, hl, ha.of_reaches h hh⟩
  | .returned _ => Halts.of_reaches h he
  | .failed .divisionByZero => Halts.of_reaches h he
  | .failed .undefined => Starves.of_reaches h he
  | .unfinished => Lasts.of_reaches h he

/-- A statement that needs a value first ends as it goes on with the value. -/
theorem ofValue {α : Type} {r : Except Fault α} {k : α → State} {f : α → Outcome} (h : Answers code p start r k)
    (hheap : ∀ a, (k a).heap = start.heap) (hf : ∀ a, r = .ok a → Ends code p S loop rounds (k a) stop (f a)) :
    Ends code p S loop rounds start stop (.ofValue r f) :=
  match r with
  | .ok a => of_reaches h (hheap a) (hf a rfl)
  | .error .divisionByZero => h
  | .error .undefined => h

/-- One statement after another. -/
theorem andThen {f : Store → Outcome} {mid : Nat} (h : Ends code p S loop rounds start mid o)
    (hf : ∀ st locals, Matches S st locals →
      Ends code p S loop rounds ⟨mid, locals, [], start.heap⟩ stop (f st)) :
    Ends code p S loop rounds start stop (o.andThen f) :=
  match o with
  | .normal st =>
    let ⟨locals, hr, hm⟩ := h
    of_reaches hr rfl (hf st locals hm)
  | .continued _ => h
  | .broke _ => h
  | .returned _ => h
  | .failed .divisionByZero => h
  | .failed .undefined => h
  | .unfinished => h

/-- What does not break off a loop or go on with it can be in any loop. -/
theorem anywhere (he : Ends code p S none rounds start stop o) : Ends code p S loop rounds start stop o :=
  match o with
  | .normal _ => he
  | .continued _ => nomatch he
  | .broke _ => nomatch he
  | .returned _ => he
  | .failed .divisionByZero => he
  | .failed .undefined => he
  | .unfinished => he

/-- An instruction more lets a loop make a round more. -/
theorem succ {n : Nat} (h : ReachesIn code p 1 start mid) (hh : mid.heap = start.heap)
    (he : Ends code p S none n mid stop o) : Ends code p S none (n + 1) start stop o :=
  match o with
  | .normal _ => Arrives.of_reaches ⟨1, h⟩ hh he
  | .continued _ => nomatch he
  | .broke _ => nomatch he
  | .returned _ => Halts.of_reaches ⟨1, h⟩ he
  | .failed .divisionByZero => Halts.of_reaches ⟨1, h⟩ he
  | .failed .undefined => Starves.of_reaches ⟨1, h⟩ he
  | .unfinished => Lasts.succ h he

theorem goOn {stop' : Nat} (he : Ends code p S loop rounds start stop o)
    (h : ∀ locals, Reaches code p ⟨stop, locals, [], start.heap⟩ ⟨stop', locals, [], start.heap⟩) :
    Ends code p S loop rounds start stop' o :=
  match o with
  | .normal _ => Arrives.trans he h
  | .continued _ => he
  | .broke _ => he
  | .returned _ => he
  | .failed .divisionByZero => he
  | .failed .undefined => he
  | .unfinished => he

/-- A part of a loop has ended, and the loop goes on. -/
theorem inLoop {n next done mid : Nat} {normal continued : Store → Outcome} (hn : n ≤ rounds)
    (he : Ends code p S (some (next, done)) rounds start mid o)
    (hleave : ∀ locals, Reaches code p ⟨done, locals, [], start.heap⟩ ⟨stop, locals, [], start.heap⟩)
    (hnormal : ∀ st locals, Matches S st locals →
      Ends code p S none n ⟨mid, locals, [], start.heap⟩ stop (normal st))
    (hcontinued : ∀ st locals, Matches S st locals →
      Ends code p S none n ⟨next, locals, [], start.heap⟩ stop (continued st)) :
    Ends code p S none n start stop (o.inLoop normal continued) :=
  match o with
  | .normal st =>
    let ⟨locals, hr, hm⟩ := he
    of_reaches hr rfl (hnormal st locals hm)
  | .continued st =>
    let ⟨_, _, hl, locals, hr, hm⟩ := he
    of_reaches hr rfl (by cases hl; exact hcontinued st locals hm)
  | .broke _ =>
    let ⟨_, _, hl, ha⟩ := he
    Arrives.trans ha (by cases hl; exact hleave)
  | .returned _ => he
  | .failed .divisionByZero => he
  | .failed .undefined => he
  | .unfinished => Lasts.mono he hn

end Ends

/-! ### Loops -/

/-- Where the parts of a loop are: the condition is tested behind `start`, the loop goes on at `next` after its body, and
    ends at `done`. -/
structure LoopCode (code : Array Instr) (p : Placement) (S : Scope) (heap : List Object) (rounds : Nat)
    (test : Store → Except Fault Bool) (body : Store → Outcome) (step : Option (Store → Outcome))
    (start inside next done stop : Nat) : Prop where
  enter : ∀ locals, ReachesIn code p 1 ⟨start, locals, [], heap⟩ ⟨start + 1, locals, [], heap⟩
  decide : ∀ st locals, Matches S st locals → Answers code p ⟨start + 1, locals, [], heap⟩ (test st) fun b =>
    ⟨if b then inside else done, locals, [], heap⟩
  body : ∀ st locals, Matches S st locals →
    Ends code p S (some (next, done)) rounds ⟨inside, locals, [], heap⟩ next (body st)
  again : step = none → next = start
  step : ∀ f, step = some f →
    (∀ locals, ReachesIn code p 1 ⟨next, locals, [], heap⟩ ⟨next + 1, locals, [], heap⟩) ∧
      ∀ st locals, Matches S st locals →
        Ends code p S (some (next, done)) rounds ⟨next + 1, locals, [], heap⟩ start (f st)
  leave : ∀ locals, Reaches code p ⟨done, locals, [], heap⟩ ⟨stop, locals, [], heap⟩

/-- The code of a loop does what the loop does, round for round. -/
theorem LoopCode.ends {test : Store → Except Fault Bool} {body : Store → Outcome} {step : Option (Store → Outcome)}
    {start inside next done : Nat} (h : LoopCode code p S heap rounds test body step start inside next done stop)
    {n : Nat} (hn : n ≤ rounds) {point : LoopPoint} (hpoint : point = .step → step.isSome) {pc : Nat}
    (hpc : pc = if point = .step then next else start) (hm : Matches S st locals) :
    Ends code p S none n ⟨pc, locals, [], heap⟩ stop (iterate test body step n point st) := by
  induction n generalizing point pc st locals with
  | zero => exact lasts_zero _
  | succ n ih =>
    have hn' := Nat.le_of_succ_le hn
    -- after the body the loop is at `next`, whether it has a step or not
    have hafter : ∀ st locals, Matches S st locals → Ends code p S none n ⟨next, locals, [], heap⟩ stop
        (iterate test body step n (.afterBody step) st) := by
      intro st locals hm
      cases hstep : step with
      | none =>
        rw [← hstep]
        exact ih hn' (by simp [LoopPoint.afterBody, hstep]) (by simp [LoopPoint.afterBody, hstep, h.again hstep]) hm
      | some f =>
        rw [← hstep]
        exact ih hn' (by simp [hstep]) (by simp [LoopPoint.afterBody, hstep]) hm
    cases point with
    | test =>
      obtain rfl : pc = start := hpc
      refine .succ (h.enter locals) rfl (.ofValue (h.decide st locals hm) (fun _ => rfl) fun b _ => ?_)
      cases b with
      | false => exact ⟨locals, h.leave locals, hm⟩
      | true => exact .inLoop hn' (h.body st locals hm) h.leave hafter hafter
    | step =>
      obtain rfl : pc = next := hpc
      obtain ⟨f, rfl⟩ := Option.isSome_iff_exists.mp (hpoint rfl)
      obtain ⟨henter, hstep⟩ := h.step f rfl
      refine .succ (henter locals) rfl (.inLoop hn' (hstep st locals hm) h.leave ?_ ?_)
      · exact fun st locals hm => ih hn' (show LoopPoint.test = .step → _ from nofun) rfl hm
      · exact fun st locals hm => ih hn' (fun _ => rfl) rfl hm

/-! ### Names -/

theorem numeric_resolveType {t : Source.TypeRef} {ty : Ty} (ht : t.isNumeric) (h : (c.resolveType t).result = .ok ty) :
    ty = .int ∨ ty = .long := by
  rcases (by simpa [Source.TypeRef.isNumeric] using ht) with ht | ht
  · exact .inl (resolveType_scalar ht h)
  · exact .inr (resolveType_scalar ht h)

theorem Numeric.add {known : List String} (h : Numeric s known) {name : String} {t : Ty} {span : Span} {v : Local}
    (ht : t = .int ∨ t = .long) (ha : s.add name t span = .ok (v, s')) : Numeric s' (known ++ [name]) := by
  obtain ⟨-, -, rfl, rfl⟩ := Scope.add_eq_ok ha
  have hnew := Scope.get?_push s (s.candidate name t)
  refine ⟨fun x hx => ?_, fun x w hw => ?_⟩
  · rw [hnew]
    split
    · exact ⟨_, rfl⟩
    · rename_i hne
      rcases List.mem_append.mp hx with hx | hx
      · exact h.known x hx
      · exact absurd (List.mem_singleton.mp hx) hne
  · rw [hnew] at hw
    split at hw
    · cases hw
      exact ht
    · exact h.types x w hw

theorem Numeric.var {known : List String} {v : VarDecl} {e e' : Emitter} {u : Unit} (h : Numeric s known)
    (hv : v.type.isNumeric) (hr : Runs (lowerVar c v) ⟨s, e⟩ u ⟨s', e'⟩) : Numeric s' (known ++ [v.name.name]) := by
  obtain ⟨t, x, ht, -, hadd, -⟩ := runs_var hr
  exact h.add (numeric_resolveType hv ht) hadd

theorem Numeric.vars {known : List String} {vars : List VarDecl} {e e' : Emitter} {u : Unit} (h : Numeric s known)
    (hn : numericVars known vars) (hr : Runs (lowerVars c vars) ⟨s, e⟩ u ⟨s', e'⟩) :
    Numeric s' (known ++ vars.map (·.name.name)) := by
  induction vars generalizing s e known with
  | nil =>
    obtain ⟨-, hs⟩ := Runs.pure_iff.mp hr
    cases hs
    simpa using h
  | cons v rest ih =>
    obtain ⟨_, ⟨s₁, e₁⟩, hv, hr⟩ := Runs.bind_iff.mp hr
    simp only [numericVars, Bool.and_eq_true] at hn
    simpa using ih (h.var hn.1.1 hv) hn.2 hr

/-- The names that a statement declares are known after it. -/
theorem stmtSteps_numeric (c : Context) :
    Source.StmtSteps
      (fun stmt => ∀ {known s s' e e' u}, Numeric s known → numericStmt known stmt →
        Runs (lowerStmt c stmt) ⟨s, e⟩ u ⟨s', e'⟩ → Numeric s' (known ++ declared stmt))
      (fun stmts => ∀ {known s s' e e' u}, Numeric s known → numericBlock known stmts →
        Runs (lowerBlock c stmts) ⟨s, e⟩ u ⟨s', e'⟩ → Numeric s' (known ++ declaredIn stmts)) where
  var vars span := by
    intro known s s' e e' u h hn hr
    exact h.vars hn hr
  assign target value span := by
    intro known s s' e e' u h hn hr
    obtain ⟨rfl, -⟩ := runs_assign hr
    simpa [declared] using h
  expr x := by
    intro known s s' e e' u h hn hr
    obtain ⟨rfl, -⟩ := runs_expr hr
    simpa [declared] using h
  ifThen condition thenPart span ih := by
    intro known s s' e e' u h hn hr
    obtain ⟨e₁, e₂, h₁, h₂, -⟩ := runs_ifThen (keepsBlocks c _) hr
    simp only [numericStmt, Bool.and_eq_true] at hn
    exact ih h hn.2 h₂
  ifElse condition thenPart elsePart span ih ih' := by
    intro known s s' e e' u h hn hr
    obtain ⟨s₁, e₁, e₂, e₃, h₁, h₂, h₃, -⟩ := runs_ifElse (keepsBlocks c _) (keepsBlocks c _) hr
    simp only [numericStmt, Bool.and_eq_true] at hn
    simpa [declared] using ih' (ih h hn.1.2 h₂) hn.2 h₃
  loop condition body span ih := by
    intro known s s' e e' u h hn hr
    obtain ⟨e₁, e₂, h₁, h₂, -⟩ := runs_loop (keepsBlocks c _) hr
    simp only [numericStmt, Bool.and_eq_true] at hn
    exact ih h hn.2 h₂
  loopStep condition body step span ih ih' := by
    intro known s s' e e' u h hn hr
    obtain ⟨s₁, e₁, e₂, e₃, h₁, h₂, h₃, -⟩ := runs_loopStep (keepsBlocks c _) (keepsBlocks c _) hr
    simp only [numericStmt, Bool.and_eq_true] at hn
    simpa [declared] using ih' (ih h hn.1.2 h₂) hn.2 h₃
  exit span := by
    intro known s s' e e' u h hn hr
    obtain ⟨rfl, -⟩ := runs_exit hr
    simpa [declared] using h
  next span := by
    intro known s s' e e' u h hn hr
    obtain ⟨rfl, -⟩ := runs_next hr
    simpa [declared] using h
  ret value span := by
    intro known s s' e e' u h hn hr
    obtain ⟨rfl, -⟩ := runs_ret hr
    simpa [declared] using h
  block stmts span ih := by
    intro known s s' e e' u h hn hr
    exact ih h hn hr
  nil := by
    intro known s s' e e' u h hn hr
    obtain ⟨-, hs⟩ := Runs.pure_iff.mp hr
    cases hs
    simpa [declaredIn] using h
  cons stmt rest ih ih' := by
    intro known s s' e e' u h hn hr
    obtain ⟨_, ⟨s₁, e₁⟩, h₁, h₂⟩ := Runs.bind_iff.mp hr
    simp only [numericBlock, Bool.and_eq_true] at hn
    simpa [declaredIn] using ih' (ih h hn.1 h₁) hn.2 h₂

/-! ### Statements -/

/-- The innermost loop goes on and ends at these places. -/
def Targets (code : Array Instr) (blocks : List Block) (loop : Option (Nat × Nat)) : Prop :=
  ∀ start next done, Emitter.innermostLoop? blocks = some (start, next, done) →
    ∃ i j, loop = some (i, j) ∧ code[i]? = some (.mark next) ∧ code[j]? = some (.mark done)

/-- Where it is lowered to, the machine ends up as `exec` does. The scope `S` is the one at the end of the method. -/
def Simulates (code : Array Instr) (p : Placement) (S : Scope) (rounds : Nat) (known : List String) (x : BodyM Unit)
    (exec : Store → Outcome) : Prop :=
  ∀ ⦃s s' : Scope⦄ ⦃e e' : Emitter⦄ ⦃loop : Option (Nat × Nat)⦄, Runs x ⟨s, e⟩ () ⟨s', e'⟩ → e'.Within code →
    s'.Grows S → Numeric s known → Targets code e.blocks loop → ∀ ⦃st locals heap⦄, Matches S st locals →
      Ends code p S loop rounds ⟨e.size, locals, [], heap⟩ e'.size (exec st)

theorem answers_condition (hp : Placed code p) {known : List String} (hs : Numeric s known) {x : Source.Expr}
    (hn : numericExpr known x) {e e₁ : Emitter} (h : Runs (lowerCondition c s x) e () e₁) {other : Label} {j : Nat}
    (w : (e₁.emit (.jump .ifeq other)).Within code) (hj : code[j]? = some (.mark other)) (hm : Matches s st locals)
    (heap : List Object) : Answers code p ⟨e.size, locals, [], heap⟩ (evalCondition st x) fun b =>
      ⟨if b then e₁.size + 1 else j, locals, [], heap⟩ := by
  obtain ⟨t, e₂, h₁, h⟩ := Runs.bind_iff.mp h
  obtain ⟨rfl, rfl⟩ := Runs.expectCondition_iff.mp h
  have w₁ := (Emitter.Grows.emit e₂ _).within w
  obtain ⟨hans, htype⟩ := computes_expr hp c hs hn e _ e₂ h₁ w₁ st locals [] heap hm
  refine hans.bind fun v hv => ?_
  cases v with
  | long a => cases htype _ hv
  | int a =>
    by_cases ha : a = 0
    · rw [Num.holds, decide_eq_false (not_not.mpr ha)]
      exact reaches_jump hp w.instr (by rw [decideJump, decide_eq_true ha]) hj
    · rw [Num.holds, decide_eq_true ha]
      exact reaches_past w.instr (by rw [decideJump, decide_eq_false ha])

/-- The code of a store assigns to a variable. -/
theorem arrives_store (hl : S.Laid) {known : List String} (hS : Numeric S known) {x : String} {v : Local}
    (hv : S.get? x = some v) {n : Num} (hn : n.type = v.type) {e : Emitter}
    (w : (e.emitAll (v.type.storeCode v.slot)).Within code) (hm : Matches S st locals) :
    Arrives code p S ⟨e.size, locals, [num n], heap⟩ (e.emitAll (v.type.storeCode v.slot)).size (st.set x n) := by
  obtain ⟨kind, -, hcode, hkind⟩ := numeric_localCode (hS.types x v hv) v.slot
  rw [hcode] at w ⊢
  refine ⟨_, reaches_of_exec (w.get (k := 0) rfl) ?_, hm.set hl hS hv hn⟩
  simp [exec, hkind n hn, State.advance]

theorem Simulates.seq {known known' : List String} {x y : BodyM Unit} {f g : Store → Outcome}
    (hx : Simulates code p S rounds known x f) (hy : Simulates code p S rounds known' y g) (ax : BodyM.Adds x)
    (ay : BodyM.Adds y)
    (hk : ∀ {s s' e e' u}, Numeric s known → Runs x ⟨s, e⟩ u ⟨s', e'⟩ → Numeric s' known') :
    Simulates code p S rounds known (x >>= fun _ => y) fun st => (f st).andThen g := by
  intro s s' e e' loop hr w hg hs ht st locals heap hm
  obtain ⟨_, ⟨s₁, e₁⟩, h₁, h₂⟩ := Runs.bind_iff.mp hr
  obtain ⟨he₁, -⟩ := ax h₁
  obtain ⟨he₂, hg₂⟩ := ay h₂
  refine Ends.andThen (hx h₁ (he₂.within w) (hg₂.trans hg) hs ht hm) fun st locals hm => ?_
  exact hy h₂ w hg (hk hs h₁) (he₁.blocks ▸ ht) hm

theorem simulates_nothing {known : List String} :
    Simulates code p S rounds known (pure ()) .normal := by
  intro s s' e e' loop hr w hg hs ht st locals heap hm
  obtain ⟨-, h⟩ := Runs.pure_iff.mp hr
  cases h
  exact ⟨locals, .refl _, hm⟩

theorem simulates_var (hp : Placed code p) (hl : S.Laid) {all known : List String} (hS : Numeric S all) {v : VarDecl}
    (hi : v.init.all (numericExpr known)) :
    Simulates code p S rounds known (lowerVar c v) (execVar v) := by
  intro s s' e e' loop hr w hg hs ht st locals heap hm
  obtain ⟨t, x, htype, hvoid, hadd, hinit⟩ := runs_var hr
  obtain ⟨-, -, hx, rfl⟩ := Scope.add_eq_ok hadd
  have hget : S.get? v.name.name = some x := hg.get? (by rw [Scope.get?_push, hx]; exact if_pos rfl)
  have hgs : s.Grows S := (Scope.Grows.refl.add hvoid hadd).trans hg
  rcases hinit with ⟨hnone, rfl⟩ | ⟨init, e₁, hsome, h₁, rfl⟩
  · rw [execVar, hnone]
    exact ⟨locals, .refl _, hm⟩
  · rw [execVar, hsome]
    rw [hsome] at hi
    have w₁ := (Emitter.Grows.emitAll e₁ _).within w
    obtain ⟨hans, hty⟩ := computes_expr hp c hs hi e t e₁ h₁ w₁ st locals [] heap (hm.mono hgs)
    obtain rfl : t = x.type := by rw [hx]; rfl
    exact .ofValue hans (fun _ => rfl) fun n hn => arrives_store hl hS hget (hty n hn) w hm

theorem simulates_vars (hp : Placed code p) (hl : S.Laid) {all known : List String} (hS : Numeric S all)
    {vars : List VarDecl} (hn : numericVars known vars) :
    Simulates code p S rounds known (lowerVars c vars) (execVars vars) := by
  induction vars generalizing known with
  | nil => exact simulates_nothing
  | cons v rest ih =>
    simp only [numericVars, Bool.and_eq_true] at hn
    exact (simulates_var hp hl hS hn.1.2).seq (ih hn.2) (.lowerVar c v) (.lowerVars c rest)
      fun hs hr => hs.var hn.1.1 hr

theorem simulates_assign (hp : Placed code p) (hl : S.Laid) {all known : List String} (hS : Numeric S all)
    {target : Source.Ident} {value : Source.Expr} {span : Span} (hk : target.name ∈ known)
    (hn : numericExpr known value) :
    Simulates code p S rounds known (lowerStmt c (.assign target value span))
      (execStmt rounds (.assign target value span)) := by
  intro s s' e e' loop hr w hg hs ht st locals heap hm
  obtain ⟨v, hv⟩ := hs.known _ hk
  obtain ⟨rfl, ⟨v', e₁, hv', h₁, rfl⟩ | ⟨f, e₁, hv', -⟩⟩ := runs_assign hr
  · have w₁ := (Emitter.Grows.emitAll e₁ _).within w
    obtain ⟨hans, hty⟩ := computes_expr hp c hs hn e _ e₁ h₁ w₁ st locals [] heap (hm.mono hg)
    exact .ofValue hans (fun _ => rfl) fun n hn => arrives_store hl hS (hg.get? hv') (hty n hn) w hm
  · rw [hv] at hv'
    cases hv'

theorem simulates_expr (hp : Placed code p) {known : List String} {x : Source.Expr} (hn : numericExpr known x) :
    Simulates code p S rounds known (lowerStmt c (.expr x)) (execStmt rounds (.expr x)) := by
  intro s s' e e' loop hr w hg hs ht st locals heap hm
  obtain ⟨rfl, t, e₁, h₁, rfl⟩ := runs_expr hr
  have w₁ := (Emitter.Grows.emitAll e₁ _).within w
  obtain ⟨hans, hty⟩ := computes_expr hp c hs hn e _ e₁ h₁ w₁ st locals [] heap (hm.mono hg)
  refine .ofValue hans (fun _ => rfl) fun n hn => ⟨locals, ?_, hm⟩
  obtain rfl := hty n hn
  rw [Emitter.size_emitAll]
  cases n with
  | int a => exact reaches_of_exec (w.get (k := 0) rfl) rfl
  | long a => exact reaches_of_exec (w.get (k := 0) rfl) rfl

theorem simulates_exit (hp : Placed code p) {known : List String} {span : Span} :
    Simulates code p S rounds known (lowerStmt c (.exit span)) (execStmt rounds (.exit span)) := by
  intro s s' e e' loop hr w hg hs ht st locals heap hm
  obtain ⟨rfl, start, next, done, hloop, rfl⟩ := runs_exit hr
  obtain ⟨i, j, rfl, -, hj⟩ := ht start next done hloop
  exact ⟨i, j, rfl, locals, reaches_jump hp w.instr rfl hj, hm⟩

theorem simulates_next (hp : Placed code p) {known : List String} {span : Span} :
    Simulates code p S rounds known (lowerStmt c (.next span)) (execStmt rounds (.next span)) := by
  intro s s' e e' loop hr w hg hs ht st locals heap hm
  obtain ⟨rfl, start, next, done, hloop, rfl⟩ := runs_next hr
  obtain ⟨i, j, rfl, hi, -⟩ := ht start next done hloop
  exact ⟨i, j, rfl, locals, reaches_jump hp w.instr rfl hi, hm⟩

theorem simulates_ret (hp : Placed code p) {known : List String} {value : Option Source.Expr} {span : Span}
    (hn : value.all (numericExpr known)) :
    Simulates code p S rounds known (lowerStmt c (.ret value span)) (execStmt rounds (.ret value span)) := by
  intro s s' e e' loop hr w hg hs ht st locals heap hm
  obtain ⟨rfl, e₁, rfl, ⟨rfl, hvoid, rfl⟩ | ⟨x, rfl, h₁⟩⟩ := runs_ret hr
  · have hi := w.instr
    rw [hvoid] at hi
    exact halts_of_exec hi rfl
  · have w₁ := (Emitter.Grows.emit e₁ _).within w
    obtain ⟨hans, hty⟩ := computes_expr hp c hs hn e _ e₁ h₁ w₁ st locals [] heap (hm.mono hg)
    refine .ofValue hans (fun _ => rfl) fun n hn => ?_
    have hi := w.instr
    rw [← hty n hn] at hi
    cases n with
    | int a => exact halts_of_exec hi rfl
    | long a => exact halts_of_exec hi rfl

theorem Targets.conditional {blocks : List Block} {loop : Option (Nat × Nat)} (h : Targets code blocks loop)
    (other : Option Label) (done : Label) : Targets code (.conditional other done :: blocks) loop := h

theorem simulates_ifThen (hp : Placed code p) {known : List String} {condition : Source.Expr} {thenPart : List Stmt}
    {span : Span} (hc : numericExpr known condition)
    (hb : Simulates code p S rounds known (lowerBlock c thenPart) (execBlock rounds thenPart)) :
    Simulates code p S rounds known (lowerStmt c (.cond condition thenPart none span))
      (execStmt rounds (.cond condition thenPart none span)) := by
  intro s s' e e' loop hr w hg hs ht st locals heap hm
  obtain ⟨e₁, e₂, h₁, h₂, rfl⟩ := runs_ifThen (keepsBlocks c _) hr
  obtain ⟨he₂, hg₂⟩ := BodyM.Adds.lowerBlock c _ h₂
  have w₂ := (Emitter.Grows.close e₂ _ _).within w
  have w₁ : (e₁.emit (.jump .ifeq ⟨e₁.labels⟩)).Within code := he₂.within w₂
  have hdone : code[e₂.size]? = some (.mark ⟨e₁.labels⟩) := Emitter.Within.instr (e := e₂) w
  have hsize : (e₂.close [.mark ⟨e₁.labels⟩] e₁.blocks).size = e₂.size + 1 := e₂.size_emitAll _
  have hsize₁ : (e₁.beginConditional false).size = e₁.size + 1 := e₁.size_emit _
  have ht₁ : Targets code (e₁.beginConditional false).blocks loop := by
    rw [← (EmitM.Adds.lowerCondition c s condition _ _ _ h₁).blocks] at ht
    exact ht.conditional none _
  have hcond := answers_condition hp hs hc h₁ w₁ hdone (hm.mono (hg₂.trans hg)) heap
  rw [hsize]
  refine .ofValue hcond (fun _ => rfl) fun b _ => ?_
  cases b with
  | true =>
    rw [if_pos rfl, if_pos rfl, ← hsize₁]
    exact (hb h₂ w₂ hg hs ht₁ hm).goOn fun locals => reaches_mark hdone
  | false => exact ⟨locals, reaches_mark hdone, hm⟩

theorem simulates_ifElse (hp : Placed code p) {known : List String} {condition : Source.Expr}
    {thenPart elsePart : List Stmt} {span : Span} (hc : numericExpr known condition)
    (hn : numericBlock known thenPart)
    (hb : Simulates code p S rounds known (lowerBlock c thenPart) (execBlock rounds thenPart))
    (hb' : Simulates code p S rounds (known ++ declaredIn thenPart) (lowerBlock c elsePart)
      (execBlock rounds elsePart)) :
    Simulates code p S rounds known (lowerStmt c (.cond condition thenPart (some elsePart) span))
      (execStmt rounds (.cond condition thenPart (some elsePart) span)) := by
  intro s s' e e' loop hr w hg hs ht st locals heap hm
  obtain ⟨s₁, e₁, e₂, e₃, h₁, h₂, h₃, rfl⟩ := runs_ifElse (keepsBlocks c _) (keepsBlocks c _) hr
  obtain ⟨he₂, hg₂⟩ := BodyM.Adds.lowerBlock c _ h₂
  obtain ⟨he₃, hg₃⟩ := BodyM.Adds.lowerBlock c _ h₃
  have w₃ := (Emitter.Grows.close e₃ _ _).within w
  have w₂' := he₃.within w₃
  have w₂ := (Emitter.Grows.emitAll e₂ _).within w₂'
  have w₁ : (e₁.emit (.jump .ifeq ⟨e₁.labels⟩)).Within code := he₂.within w₂
  have hgoto : code[e₂.size]? = some (.jump .goto ⟨e₁.labels + 1⟩) := w₂'.get (k := 0) rfl
  have hother : code[e₂.size + 1]? = some (.mark ⟨e₁.labels⟩) := w₂'.get (k := 1) rfl
  have hdone : code[e₃.size]? = some (.mark ⟨e₁.labels + 1⟩) := Emitter.Within.instr (e := e₃) w
  have hsize : (e₃.close [.mark ⟨e₁.labels + 1⟩] e₁.blocks).size = e₃.size + 1 := e₃.size_emitAll _
  have hsize₁ : (e₁.beginConditional true).size = e₁.size + 1 := e₁.size_emit _
  have ht₁ : Targets code (e₁.beginConditional true).blocks loop := by
    rw [← (EmitM.Adds.lowerCondition c s condition _ _ _ h₁).blocks] at ht
    exact ht.conditional _ _
  have hs₁ := (stmtSteps_numeric c).forBlock thenPart hs hn h₂
  have hcond := answers_condition hp hs hc h₁ w₁ hother (hm.mono ((hg₂.trans hg₃).trans hg)) heap
  rw [hsize]
  refine .ofValue hcond (fun _ => rfl) fun b _ => ?_
  cases b with
  | true =>
    rw [if_pos rfl, if_pos rfl, ← hsize₁]
    refine (hb h₂ w₂ (hg₃.trans hg) hs ht₁ hm).goOn fun locals => ?_
    exact (reaches_jump hp hgoto rfl hdone).trans (reaches_mark hdone)
  | false =>
    have helse : Ends code p S loop rounds ⟨_, locals, [], heap⟩ e₃.size _ := hb' h₃ w₃ hg hs₁ (he₂.blocks ▸ ht₁) hm
    rw [e₂.size_emitAll] at helse
    exact .of_reaches (reaches_mark hother) rfl (helse.goOn fun locals => reaches_mark hdone)

theorem reachesIn_mark {l : Label} (hi : code[pc]? = some (.mark l)) (locals : Nat → Option Value) :
    ReachesIn code p 1 ⟨pc, locals, [], heap⟩ ⟨pc + 1, locals, [], heap⟩ := by
  refine reachesIn_one ?_
  rw [step, hi]
  rfl

theorem targets_loop {start next done : Label} {blocks : List Block} {i j : Nat} (hi : code[i]? = some (.mark next))
    (hj : code[j]? = some (.mark done)) : Targets code (.loop start next done :: blocks) (some (i, j)) := by
  intro start' next' done' h
  cases h
  exact ⟨i, j, rfl, hi, hj⟩

theorem simulates_loop (hp : Placed code p) {known : List String} {condition : Source.Expr} {body : List Stmt}
    {span : Span} (hc : numericExpr known condition)
    (hb : Simulates code p S rounds known (lowerBlock c body) (execBlock rounds body)) :
    Simulates code p S rounds known (lowerStmt c (.loop condition body none span))
      (execStmt rounds (.loop condition body none span)) := by
  intro s s' e e' loop hr w hg hs ht st locals heap hm
  obtain ⟨e₁, e₂, h₁, h₂, rfl⟩ := runs_loop (keepsBlocks c _) hr
  obtain ⟨he₂, hg₂⟩ := BodyM.Adds.lowerBlock c _ h₂
  have he₁ := EmitM.Adds.lowerCondition c s condition _ _ _ h₁
  have w₂ := (Emitter.Grows.close e₂ _ _).within w
  have w₁ := he₂.within w₂
  have w₀ : (e.emit (.mark ⟨e.labels⟩)).Within code := he₁.within ((Emitter.Grows.emit e₁ _).within w₁)
  have at_ (k : Nat) (i : Instr) (hk : _[k]? = some i) : code[e₂.size + k]? = some i :=
    Emitter.Within.get (e := e₂) w hk
  have hstart := w₀.instr
  have hgoto := at_ 0 _ rfl
  have hdone := at_ 1 _ rfl
  have hblocks : (e₁.emit (.jump .ifeq ⟨e.labels + 1⟩)).blocks =
      .loop ⟨e.labels⟩ ⟨e.labels⟩ ⟨e.labels + 1⟩ :: e.blocks := he₁.blocks
  have hsize : (e₂.close [.jump .goto ⟨e.labels⟩, .mark ⟨e.labels + 1⟩] e.blocks).size = e₂.size + 2 := e₂.size_emitAll _
  have hloop : LoopCode code p S heap rounds (evalCondition · condition) (fun st => execBlock rounds body st) none e.size
      (e₁.size + 1) e.size (e₂.size + 1) (e₂.size + 2) :=
    { enter := reachesIn_mark hstart
      decide := fun st locals hm => by
        have := answers_condition hp hs hc h₁ w₁ hdone (hm.mono (hg₂.trans hg)) heap
        rwa [show (e.beginLoop false).size = e.size + 1 from e.size_emit _] at this
      body := fun st locals hm => by
        have hbody : Ends code p S _ rounds ⟨_, locals, [], heap⟩ e₂.size _ :=
          hb h₂ w₂ hg hs (hblocks ▸ targets_loop hstart hdone) hm
        rw [e₁.size_emit] at hbody
        exact hbody.goOn fun locals => reaches_jump hp hgoto rfl hstart
      again := fun _ => rfl
      step := nofun
      leave := fun locals => reaches_mark hdone }
  rw [hsize]
  exact (hloop.ends (Nat.le_refl rounds) (show LoopPoint.test = .step → _ from nofun) rfl hm).anywhere

theorem simulates_loopStep (hp : Placed code p) {known : List String} {condition : Source.Expr}
    {body step : List Stmt} {span : Span} (hc : numericExpr known condition) (hn : numericBlock known body)
    (hb : Simulates code p S rounds known (lowerBlock c body) (execBlock rounds body))
    (hb' : Simulates code p S rounds (known ++ declaredIn body) (lowerBlock c step) (execBlock rounds step)) :
    Simulates code p S rounds known (lowerStmt c (.loop condition body (some step) span))
      (execStmt rounds (.loop condition body (some step) span)) := by
  intro s s' e e' loop hr w hg hs ht st locals heap hm
  obtain ⟨s₁, e₁, e₂, e₃, h₁, h₂, h₃, rfl⟩ := runs_loopStep (keepsBlocks c _) (keepsBlocks c _) hr
  obtain ⟨he₂, hg₂⟩ := BodyM.Adds.lowerBlock c _ h₂
  obtain ⟨he₃, hg₃⟩ := BodyM.Adds.lowerBlock c _ h₃
  have he₁ := EmitM.Adds.lowerCondition c s condition _ _ _ h₁
  have w₃ := (Emitter.Grows.close e₃ _ _).within w
  have w₂' := he₃.within w₃
  have w₂ := (Emitter.Grows.emit e₂ _).within w₂'
  have w₁ := he₂.within w₂
  have w₀ : (e.emit (.mark ⟨e.labels⟩)).Within code := he₁.within ((Emitter.Grows.emit e₁ _).within w₁)
  have at_ (k : Nat) (i : Instr) (hk : _[k]? = some i) : code[e₃.size + k]? = some i :=
    Emitter.Within.get (e := e₃) w hk
  have hstart := w₀.instr
  have hnext := w₂'.instr
  have hgoto := at_ 0 _ rfl
  have hdone := at_ 1 _ rfl
  have hblocks : (e₁.emit (.jump .ifeq ⟨e.labels + 2⟩)).blocks =
      .loop ⟨e.labels⟩ ⟨e.labels + 1⟩ ⟨e.labels + 2⟩ :: e.blocks := he₁.blocks
  have hblocks' : (e₂.emit (.mark ⟨e.labels + 1⟩)).blocks = _ := he₂.blocks.trans hblocks
  have hsize : (e₃.close [.jump .goto ⟨e.labels⟩, .mark ⟨e.labels + 2⟩] e.blocks).size = e₃.size + 2 := e₃.size_emitAll _
  have hs₁ := (stmtSteps_numeric c).forBlock body hs hn h₂
  have hloop : LoopCode code p S heap rounds (evalCondition · condition) (fun st => execBlock rounds body st)
      (some fun st => execBlock rounds step st) e.size (e₁.size + 1) e₂.size (e₃.size + 1) (e₃.size + 2) :=
    { enter := reachesIn_mark hstart
      decide := fun st locals hm => by
        have := answers_condition hp hs hc h₁ w₁ hdone (hm.mono ((hg₂.trans hg₃).trans hg)) heap
        rwa [show (e.beginLoop true).size = e.size + 1 from e.size_emit _] at this
      body := fun st locals hm => by
        have hbody : Ends code p S _ rounds ⟨_, locals, [], heap⟩ e₂.size _ :=
          hb h₂ w₂ (hg₃.trans hg) hs (hblocks ▸ targets_loop hnext hdone) hm
        rwa [e₁.size_emit] at hbody
      again := nofun
      step := fun f hf => by
        cases hf
        refine ⟨reachesIn_mark hnext, fun st locals hm => ?_⟩
        have hstep : Ends code p S _ rounds ⟨_, locals, [], heap⟩ e₃.size _ :=
          hb' h₃ w₃ hg hs₁ (hblocks' ▸ targets_loop hnext hdone) hm
        rw [e₂.size_emit] at hstep
        exact hstep.goOn fun locals => reaches_jump hp hgoto rfl hstart
      leave := fun locals => reaches_mark hdone }
  rw [hsize]
  exact (hloop.ends (Nat.le_refl rounds) (show LoopPoint.test = .step → _ from nofun) rfl hm).anywhere

/-- Statements do on the machine what they mean, as soon as their parts do. -/
theorem stmtSteps_simulates (hp : Placed code p) (hl : S.Laid) {all : List String} (hS : Numeric S all) (c : Context) :
    Source.StmtSteps
      (fun stmt => ∀ {known}, numericStmt known stmt →
        Simulates code p S rounds known (lowerStmt c stmt) (execStmt rounds stmt))
      (fun stmts => ∀ {known}, numericBlock known stmts →
        Simulates code p S rounds known (lowerBlock c stmts) (execBlock rounds stmts)) where
  var vars span := fun hn => simulates_vars hp hl hS hn
  assign target value span := fun hn => by
    simp only [numericStmt, Bool.and_eq_true, List.contains_iff_mem] at hn
    exact simulates_assign hp hl hS hn.1 hn.2
  expr x := fun hn => simulates_expr hp hn
  ifThen condition thenPart span ih := fun hn => by
    simp only [numericStmt, Bool.and_eq_true] at hn
    exact simulates_ifThen hp hn.1 (ih hn.2)
  ifElse condition thenPart elsePart span ih ih' := fun hn => by
    simp only [numericStmt, Bool.and_eq_true] at hn
    exact simulates_ifElse hp hn.1.1 hn.1.2 (ih hn.1.2) (ih' hn.2)
  loop condition body span ih := fun hn => by
    simp only [numericStmt, Bool.and_eq_true] at hn
    exact simulates_loop hp hn.1 (ih hn.2)
  loopStep condition body step span ih ih' := fun hn => by
    simp only [numericStmt, Bool.and_eq_true] at hn
    exact simulates_loopStep hp hn.1.1 hn.1.2 (ih hn.1.2) (ih' hn.2)
  exit span := fun _ => simulates_exit hp
  next span := fun _ => simulates_next hp
  ret value span := fun hn => simulates_ret hp hn
  block stmts span ih := fun hn => ih hn
  nil := fun _ => simulates_nothing
  cons stmt rest ih ih' := fun hn => by
    simp only [numericBlock, Bool.and_eq_true] at hn
    exact (ih hn.1).seq (ih' hn.2) (.lowerStmt c stmt) (.lowerBlock c rest)
      fun hs hr => (stmtSteps_numeric c).forStmt stmt hs hn.1 hr

end Classwright.Machine
