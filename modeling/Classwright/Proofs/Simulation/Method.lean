import Classwright.Proofs.Simulation.Entry

/-! # Lowering preserves meaning

A static method on whole numbers is called. What its source does, the machine does with its code: it returns the same
value, fails where the source divides by zero, finds the return statement missing where the body of the source comes to
its end, and runs forever where the source does. -/

namespace Classwright

open Source (Stmt)

/-- What can be seen of a call. -/
inductive Behaviour where
  | returns (v : Option Num)
  /-- A body that should have returned a value has come to its end. -/
  | lacksReturn
  | dividesByZero
  | runsForever
deriving DecidableEq, Repr

/-- What is seen of a call whose body ends so. Programs do not read variables before they are set, nor leave loops that
    they are not in. -/
def Outcome.behaviour? (returns : Ty) : Outcome → Option Behaviour
  | .normal _ => some (if returns.isVoid then .returns none else .lacksReturn)
  | .returned v => some (.returns v)
  | .failed .divisionByZero => some .dividesByZero
  | .broke _ | .continued _ | .failed .undefined | .unfinished => none

/-- What the source of a method does when it is called. -/
def MethodSig.Behaves (m : MethodSig) (body : List Stmt) (args : List Num) : Behaviour → Prop
  | .runsForever => ∀ rounds, execBlock rounds body (.ofArgs m.params args) = .unfinished
  | b => ∃ rounds, (execBlock rounds body (.ofArgs m.params args)).behaviour? m.returns = some b

theorem MethodSig.Behaves.of_behaviour? {m : MethodSig} {body : List Stmt} {args : List Num} {rounds : Nat}
    {b : Behaviour} (h : (execBlock rounds body (.ofArgs m.params args)).behaviour? m.returns = some b) :
    m.Behaves body args b := by
  cases b with
  | returns _ | lacksReturn | dividesByZero => exact ⟨rounds, h⟩
  | runsForever =>
    unfold Outcome.behaviour? at h
    split at h
    · split at h <;> cases h
    all_goals cases h

namespace Machine
open Value (num)

/-- What is thrown at the end of a method that should have returned a value. -/
def Object.lacksReturn : Object := ⟨Name.runtimeException, some [.text "No return statement"]⟩

/-- How the machine shows that it is through with a call. -/
def halt? : Behaviour → Option Halt
  | .returns v => some (.returned (v.map num))
  | .lacksReturn => some (.thrown .lacksReturn)
  | .dividesByZero => some .trapped
  | .runsForever => none

/-- What the machine does with code when it is called. -/
def Behaves (code : Array Instr) (p : Placement) (args : List Num) (b : Behaviour) : Prop :=
  match halt? b with
  | some h => Halts code p (entry args) h
  | none => Diverges code p (entry args)

variable {code : Array Instr} {p : Placement} {args : List Num} {b b' : Behaviour}

theorem halt?_injective (h : halt? b = halt? b') : b = b' := by
  cases b <;> cases b' <;> simp_all [halt?, Option.map_inj_right]

/-- A machine does one thing only. -/
theorem Behaves.unique (h : Behaves code p args b) (h' : Behaves code p args b') : b = b' := by
  refine halt?_injective ?_
  unfold Behaves at h h'
  cases hb : halt? b <;> cases hb' : halt? b' <;> rw [hb] at h <;> rw [hb'] at h'
  · exact absurd h h'.not_diverges
  · exact absurd h' h.not_diverges
  · exact congrArg some (h.unique h')

/-! ### The end of a method -/

section Closing
variable {e : Emitter} {locals : Nat → Option Value}

theorem halts_missingReturn (w : (e.emitAll Instr.missingReturn).Within code) :
    Halts code p ⟨e.size, locals, [], []⟩ (.thrown .lacksReturn) := by
  have at_ (k : Nat) (i : Instr) (hk : _[k]? = some i) : code[e.size + k]? = some i := w.get hk
  have hnamed : ∀ t ∈ [Ty.string], t.WellNamed := by
    rintro t ht name hname
    obtain rfl := List.mem_singleton.mp ht
    cases hname
    decide
  have hinit : exec p
      ⟨e.size + 3, locals, [.text "No return statement", .ref 0, .ref 0], [⟨Name.runtimeException, none⟩]⟩
      (.invoke .invokespecial ⟨Name.runtimeException, Name.init, Ty.methodDescriptor [.string] .void, false⟩) =
      .state ⟨e.size + 4, locals, [.ref 0], [.lacksReturn]⟩ := by
    simp only [exec, Ty.split?_methodDescriptor hnamed]
    rfl
  refine .of_reaches (reaches_of_exec (at_ 0 _ rfl) rfl) ?_
  refine .of_reaches (reaches_of_exec (at_ 1 _ rfl) rfl) ?_
  refine .of_reaches (reaches_of_exec (at_ 2 _ rfl) rfl) ?_
  exact .of_reaches (reaches_of_exec (at_ 3 _ rfl) hinit) (halts_of_exec (at_ 4 _ rfl) rfl)

theorem halts_returnVoid {t : Ty} (ht : t.isVoid = true) (w : (e.emitAll [t.returnCode]).Within code) :
    Halts code p ⟨e.size, locals, [], []⟩ (.returned none) := by
  have hcode : t.returnCode = .op .returnVoid := by
    obtain ⟨elem, isArray⟩ := t
    simp only [Ty.isVoid, Bool.and_eq_true, beq_iff_eq, Bool.not_eq_true'] at ht
    obtain ⟨rfl, rfl⟩ := ht
    rfl
  rw [hcode] at w
  exact halts_of_exec (Emitter.Within.instr w) rfl

end Closing

/-! ### Calls -/

section Call
variable {c : Context} {method : MethodSig} {body : List Stmt} {site : Span} {out : MethodBody} {p : Placement}
  {s₀ s : Scope} {e₀ e : Emitter}

/-- A static method whose code has been typed begins with its body: a call of another constructor needs a receiver. -/
theorem opening_eq (h : Lowered c method body site out s₀ s e₀ e)
    (hload : ∀ kind slot, out.code.instrs[0]? = some (.load kind slot) →
      ∃ v, entryLocals 0 args slot.toNat = some v ∧ v.kind = kind) : {} = e₀ := by
  rcases h.opening with ⟨-, hbase⟩ | ⟨-, he⟩
  · obtain ⟨base, m, name, -, -, -, rfl⟩ := runs_baseConstructor hbase
    obtain ⟨v, hv, hk⟩ := hload .ref 0 (h.opening_within.get (k := 0) rfl)
    obtain ⟨n, rfl⟩ := entryLocals_eq_some hv
    cases n <;> cases hk
  · exact he

/-- The machine follows the body of a method, from the arguments of a call on. -/
theorem ends_body (h : Lowered c method body site out s₀ s {} e)
    (hs : method.isStatic = true) (hn : numericBlock (method.params.map (·.name)) body)
    (hp : out.code.placement = .ok p) (ha : ArgsFit method.params args) (rounds : Nat) :
    Ends out.code.instrs p s none rounds (entry args) e.size
      (execBlock rounds body (.ofArgs method.params args)) := by
  have hscope := h.scope
  rw [Scope.ofMethod, if_pos hs, List.nil_append] at hscope
  have hl := Scope.laid_empty method
  have hempty : ∀ x, Scope.get? { method } x = none := fun x => by simp [Scope.get?]
  have hknown : Numeric { method : Scope } [] := ⟨by simp, fun x v hv => by simp [hempty] at hv⟩
  have hnum := numeric_addAll hknown hscope ha.numeric
  rw [List.nil_append] at hnum
  have hgrows : s₀.Grows s := (BodyM.Adds.lowerBlock c body h.body).2
  have hm : Matches s _ _ := matches_entry hl hempty rfl hscope ha hgrows
  have hS := (stmtSteps_numeric c).forBlock body hnum hn h.body
  have hlaid := hl.grows (.trans (.of_addAll ha.values hscope) hgrows)
  exact (stmtSteps_simulates (out.code.position?_eq_some hp) hlaid hS c).forBlock body hn h.body h.body_within .refl hnum
    (fun _ _ _ h => by cases h) hm

/-- Code that has been typed does not read locals before they are set. -/
theorem not_starves {m : MethodHead} {f : Frame} {d : Dataflow} {code : Array Instr}
    (fix : Dataflow.Fixpoint m code p f d) {s : State} (h : Typed d s) : ¬Starves code p s := by
  rintro ⟨s', kind, slot, hr, hi, hnone⟩
  obtain ⟨v, hv, -⟩ := (h.reaches fix hr).load fix hi
  rw [hnone] at hv
  cases hv

theorem behaves_of_ends {code : Array Instr} {rounds : Nat} {o : Outcome}
    (w : (e.emitAll method.closing).Within code) (h : Ends code p s none rounds (entry args) e.size o)
    (hb : o.behaviour? method.returns = some b) : Behaves code p args b := by
  cases o with
  | normal st =>
    obtain ⟨locals, hr, -⟩ := h
    unfold MethodSig.closing at w
    cases hb
    split
    · rename_i hv
      rw [if_pos hv] at w
      exact .of_reaches hr (halts_returnVoid hv w)
    · rename_i hv
      rw [if_neg hv] at w
      exact .of_reaches hr (halts_missingReturn w)
  | returned v =>
    cases hb
    exact h
  | failed f =>
    cases f with
    | divisionByZero =>
      cases hb
      exact h
    | undefined => cases hb
  | broke _ | continued _ | unfinished => cases hb

/-- What the source does, the machine does. -/
theorem behaves_of_source (w : (e.emitAll method.closing).Within out.code.instrs)
    (hends : ∀ rounds, Ends out.code.instrs p s none rounds (entry args) e.size
      (execBlock rounds body (.ofArgs method.params args)))
    (hb : method.Behaves body args b) : Behaves out.code.instrs p args b := by
  cases b with
  | runsForever =>
    intro n
    have hn := hends n
    rw [hb n] at hn
    exact Lasts.reachesIn hn
  | returns _ | lacksReturn | dividesByZero =>
    obtain ⟨rounds, hb⟩ := hb
    exact behaves_of_ends w (hends rounds) hb

/-- Typed code does something that can be seen. -/
theorem exists_behaviour {code : Array Instr} {stop : Nat}
    (hends : ∀ rounds, Ends code p s none rounds (entry args) stop
      (execBlock rounds body (.ofArgs method.params args))) (hset : ¬Starves code p (entry args)) :
    ∃ b, method.Behaves body args b := by
  by_cases hforever : method.Behaves body args .runsForever
  · exact ⟨_, hforever⟩
  · obtain ⟨rounds, hne⟩ := not_forall.mp hforever
    have h := hends rounds
    have hb : ∃ b, (execBlock rounds body (.ofArgs method.params args)).behaviour? method.returns = some b := by
      generalize execBlock rounds body (.ofArgs method.params args) = o at h hne
      cases o with
      | normal st => exact ⟨_, rfl⟩
      | returned v => exact ⟨_, rfl⟩
      | failed f =>
        cases f with
        | divisionByZero => exact ⟨_, rfl⟩
        | undefined => exact absurd h hset
      | broke st | continued st =>
        obtain ⟨_, _, hloop, -⟩ := h
        cases hloop
      | unfinished => exact absurd rfl hne
    obtain ⟨b, hb⟩ := hb
    exact ⟨b, .of_behaviour? hb⟩

end Call

end Machine

open Machine in
/-- A call of a static method on whole numbers whose code has been typed: it does one thing that can be seen, and the
    machine does it with the code exactly if the source does. -/
theorem lowering_preserves_behaviour {c : Context} {method : MethodSig} {body : List Stmt} {site : Span}
    {out : MethodBody} {p : Placement} {f : Frame} {d : Dataflow} {args : List Num}
    (hs : method.isStatic = true) (hn : numericBlock (method.params.map (·.name)) body = true)
    (hlower : (lowerMethod c method body site).result = .ok out) (hp : out.code.placement = .ok p)
    (hentry : (c.head method).entryFrame = .ok f)
    (htyped : Dataflow.analyze (c.head method) out.code.instrs p f = .ok d) (ha : ArgsFit method.params args) :
    (∃ b, method.Behaves body args b) ∧
      ∀ b, Machine.Behaves out.code.instrs p args b ↔ method.Behaves body args b := by
  have fix := Dataflow.analyze_fixpoint (out.code.position?_lt hp) htyped
  have hstart : Typed d (entry args) := .of_entry fix (fits_entry rfl hs hentry ha) rfl
  obtain ⟨s₀, s, e₀, e, h⟩ := exists_lowered hlower
  obtain rfl := opening_eq h fun kind slot hi => hstart.load fix hi
  have hends := ends_body h hs hn hp ha
  obtain ⟨b, hb⟩ := exists_behaviour hends (not_starves fix hstart)
  refine ⟨⟨b, hb⟩, fun b' => ⟨fun hb' => ?_, behaves_of_source h.within hends⟩⟩
  rwa [hb'.unique (behaves_of_source h.within hends hb)]

/-! ### A method with a loop -/

/-- Sums up the odd numbers below its parameter. -/
def oddSum : MethodSig := ⟨"oddSum", true, false, false, .int, [⟨"n", .int⟩]⟩

def oddSumContext : Context where
  classes := ⟨fun _ => false, fun name => .error (.unknownClass name {}), 0⟩
  imports := {}
  own := { name := "demo/Sums" }
  options := {}

/-- Even numbers are passed over by a `continue` in a conditional, which goes on with the step. -/
def oddSumBody : List Stmt :=
  let read (x : String) : Source.Term := ⟨[], .chain [.name ⟨x, {}⟩] {}, {}⟩
  let number (text : String) : Source.Term := ⟨[], .literal ⟨text, {}⟩, {}⟩
  let math (first : Source.Term) (rest : List Source.Operation) := (Source.MathExpr.mk first rest {}).toAnd.toExpr
  [.var [⟨⟨"sum", {}⟩, { name := "int" }, some (math (number "0") []), {}⟩,
      ⟨⟨"i", {}⟩, { name := "int" }, some (math (number "0") []), {}⟩] {},
    .loop (math (read "i") [⟨.lt, read "n"⟩])
      [.cond (math (read "i") [⟨.rem, number "2"⟩, ⟨.eq, number "0"⟩]) [.next {}] none {},
        .assign ⟨"sum", {}⟩ (math (read "sum") [⟨.add, read "i"⟩]) {}]
      (some [.assign ⟨"i", {}⟩ (math (read "i") [⟨.add, number "1"⟩]) {}]) {},
    .ret (some (math (read "sum") [])) {}]

/-- The odd numbers below 5 add up to 4. -/
theorem lowering_preserves_behaviour_oddSum : ∃ out p d, oddSum.isStatic = true ∧
    numericBlock (oddSum.params.map (·.name)) oddSumBody = true ∧
    (lowerMethod oddSumContext oddSum oddSumBody {}).result = .ok out ∧ out.code.placement = .ok p ∧
    (oddSumContext.head oddSum).entryFrame = .ok { locals := [.integer] } ∧
    Dataflow.analyze (oddSumContext.head oddSum) out.code.instrs p { locals := [.integer] } = .ok d ∧
    ArgsFit oddSum.params [.int 5] ∧ Machine.Behaves out.code.instrs p [.int 5] (.returns (some (.int 4))) := by
  have hn : numericBlock (oddSum.params.map (·.name)) oddSumBody = true := by decide +kernel
  have hf : (oddSumContext.head oddSum).entryFrame = .ok { locals := [.integer] } := by decide +kernel
  have ha : ArgsFit oddSum.params [.int 5] := .cons rfl .nil
  have hok : ((lowerMethod oddSumContext oddSum oddSumBody {}).result.toOption.bind fun out =>
      out.code.placement.toOption.bind fun p =>
        (Dataflow.analyze (oddSumContext.head oddSum) out.code.instrs p { locals := [.integer] }).toOption).isSome := by
    decide +kernel
  obtain ⟨d, hd⟩ := Option.isSome_iff_exists.mp hok
  obtain ⟨out, hout, hd⟩ := Option.bind_eq_some_iff.mp hd
  obtain ⟨p, hp, hd⟩ := Option.bind_eq_some_iff.mp hd
  rw [toOption_eq_some] at hout hp hd
  have hsource : oddSum.Behaves oddSumBody [.int 5] (.returns (some (.int 4))) := ⟨12, by decide +kernel⟩
  exact ⟨out, p, d, rfl, hn, hout, hp, hf, hd, ha,
    ((lowering_preserves_behaviour rfl hn hout hp hf hd ha).2 _).mpr hsource⟩

end Classwright
