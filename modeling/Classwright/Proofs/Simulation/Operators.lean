import Classwright.Proofs.Simulation.Basic

/-! # Operators on the machine

Where an operator can be carried out on the types of two numbers, the machine makes of them what the operator does. -/

namespace Classwright.Machine

open Source (BinaryOp UnaryOp)
open Value (num)

variable {code : Array Instr} {p : Placement} {locals : Nat → Option Value} {rest : List Value} {heap : List Object}

/-! ### Binary operators -/

/-- What the machine makes of a number that was worked out. -/
def Result.ofNum (rest : List Value) : Except Fault Num → Result
  | .ok v => .values (num v :: rest)
  | .error .divisionByZero => .halt .trapped
  | .error .undefined => .misfit

theorem Result.ofNum_ite {P : Prop} [Decidable P] {n : Num} :
    (if P then Result.halt .trapped else .values (num n :: rest)) =
      .ofNum rest (if P then .error .divisionByZero else .ok n) := by
  split <;> rfl

theorem operate_direct {op : BinaryOp} {a b : Num} {o : Opcode}
    (h : OperatorCode.of? op a.type b.type = some (.direct o)) :
    operate heap o (num b :: num a :: rest) = .ofNum rest (Num.apply op a b) := by
  cases a <;> cases b <;> cases op <;> cases h <;>
    first
    | rfl
    | exact Result.ofNum_ite

/-- A number of a type, unless there is a division by zero. -/
def Divides (t : Ty) (r : Except Fault Num) : Prop := r ≠ .error .undefined ∧ ∀ v, r = .ok v → v.type = t

theorem Divides.ok (n : Num) : Divides n.type (.ok n) := ⟨nofun, by rintro _ ⟨⟩; rfl⟩

theorem Divides.ite {P : Prop} [Decidable P] (n : Num) :
    Divides n.type (if P then .error .divisionByZero else .ok n) := by
  split
  · exact ⟨nofun, nofun⟩
  · exact .ok n

theorem divides_direct {op : BinaryOp} {a b : Num} {o : Opcode}
    (h : OperatorCode.of? op a.type b.type = some (.direct o)) : Divides a.type (Num.apply op a b) := by
  cases a <;> cases b <;> cases op <;> cases h <;>
    first
    | exact .ok _
    | exact .ite _

/-- The sign of the result of a comparison. -/
theorem lcmp_sign (a b : Int64) {r : Int32} (hr : r = if a < b then -1 else if a = b then 0 else 1) :
    (r < 0 ↔ a < b) ∧ (r > 0 ↔ a > b) ∧ (r ≤ 0 ↔ a ≤ b) ∧ (r ≥ 0 ↔ a ≥ b) ∧ (r = 0 ↔ a = b) := by
  have hcases : a.toInt < b.toInt ∧ r.toInt = -1 ∨ a.toInt = b.toInt ∧ r.toInt = 0 ∨
      b.toInt < a.toInt ∧ r.toInt = 1 := by
    simp only [Int64.lt_iff_toInt_lt, ← Int64.toInt_inj] at hr
    split at hr
    · exact .inl ⟨‹_›, by rw [hr]; rfl⟩
    · split at hr
      · exact .inr (.inl ⟨‹_›, by rw [hr]; rfl⟩)
      · exact .inr (.inr ⟨by omega, by rw [hr]; rfl⟩)
  simp only [GT.gt, GE.ge, Int32.lt_iff_toInt_lt, Int32.le_iff_toInt_le, Int64.lt_iff_toInt_lt, Int64.le_iff_toInt_le,
    ← Int32.toInt_inj, ← Int64.toInt_inj, Int32.toInt_zero]
  omega

/-- A comparison comes down to whether a jump is taken. -/
theorem decideJump_comparison (heap : List Object) (rest : List Value) {op : BinaryOp} {a b : Num}
    {compare : Option Opcode} {jump : Opcode} (h : OperatorCode.of? op a.type b.type = some (.comparison compare jump)) :
    ∃ q, Num.apply op a b = .ok (.truth q) ∧ ∃ operands,
      (match compare with
        | none => operands = num b :: num a :: rest
        | some o => operate heap o (num b :: num a :: rest) = .values operands) ∧
      decideJump jump operands = some (q, rest) := by
  cases a with
  | int a =>
    cases b with
    | int b => cases op <;> cases h <;> exact ⟨_, rfl, _, rfl, rfl⟩
    | long b => cases op <;> cases h
  | long a =>
    cases b with
    | int b => cases op <;> cases h
    | long b =>
      obtain ⟨hlt, hgt, hle, hge, heq⟩ := lcmp_sign a b rfl
      cases op <;> cases h <;> refine ⟨_, rfl, _, rfl, ?_⟩
      · exact congrArg (fun q => some (q, rest)) (decide_eq_decide.mpr hlt)
      · exact congrArg (fun q => some (q, rest)) (decide_eq_decide.mpr hgt)
      · exact congrArg (fun q => some (q, rest)) (decide_eq_decide.mpr hle)
      · exact congrArg (fun q => some (q, rest)) (decide_eq_decide.mpr hge)
      · exact congrArg (fun q => some (q, rest)) (decide_eq_decide.mpr heq)
      · exact congrArg (fun q => some (q, rest)) (decide_eq_decide.mpr heq.not)

theorem answers_operate {o : Opcode} {r : Except Fault Num} {pc : Nat} {stack : List Value}
    (hi : code[pc]? = some (.op o)) (ho : operate heap o stack = .ofNum rest r) (hr : r ≠ .error .undefined) :
    Answers code p ⟨pc, locals, stack, heap⟩ r fun v => ⟨pc + 1, locals, num v :: rest, heap⟩ :=
  match r with
  | .ok v => reaches_of_exec hi (by simp only [exec, ho, Result.ofNum, State.advance])
  | .error .divisionByZero => halts_of_exec hi (by simp only [exec, ho, Result.ofNum])
  | .error .undefined => absurd rfl hr

/-- The code of an operator makes of two numbers what the operator does. -/
theorem answers_operator (hp : Placed code p) {op : BinaryOp} {a b : Num} {site : Span} {e e' : Emitter} {t : Ty}
    (h : Runs (lowerOperator op a.type b.type site) e t e') (w : e'.Within code) (locals : Nat → Option Value)
    (rest : List Value) (heap : List Object) :
    Answers code p ⟨e.size, locals, num b :: num a :: rest, heap⟩ (Num.apply op a b)
        (fun v => ⟨e'.size, locals, num v :: rest, heap⟩) ∧
      ∀ v, Num.apply op a b = .ok v → v.type = t := by
  unfold lowerOperator at h
  split at h
  · exact absurd h Runs.throw_iff
  · rename_i o hof
    obtain ⟨rfl, rfl⟩ : e.emit (.op o) = e' ∧ a.type = t := by simpa using h
    obtain ⟨hdef, htype⟩ := divides_direct hof
    rw [Emitter.size_emit]
    exact ⟨answers_operate w.instr (operate_direct hof) hdef, htype⟩
  · rename_i compare jump hof
    obtain ⟨q, hq, operands, hops, hjump⟩ := decideJump_comparison heap rest hof
    obtain ⟨rfl, rfl⟩ : (e.emitAll (compare.toList.map .op)).branchValue jump true = e' ∧ .int = t := by simpa using h
    rw [hq]
    refine ⟨Reaches.trans ?_ (by simpa using reaches_branchValue hp w hjump), by rintro _ ⟨⟩; rfl⟩
    have w' := (Emitter.Extends.kept.branch _ jump true).within w
    cases compare with
    | none =>
      cases hops
      exact .refl _
    | some o => exact reaches_of_exec w'.instr (by simp only [exec, hops, State.advance]; rfl)

/-! ### Unary operators -/

theorem resolveType_scalar {c : Context} {t : Source.TypeRef} {q : Prim} {ty : Ty} (hq : t.scalar? = some q)
    (h : (c.resolveType t).result = .ok ty) : ty = .prim q := by
  obtain ⟨name, isArray, marked, span⟩ := t
  cases isArray with
  | true => cases hq
  | false =>
    have hk : Prim.ofKeyword? name = some q := hq
    simp only [Context.resolveType, Lookup.ofExcept, Imports.resolveType, hk] at h
    split at h
    · cases h
    · split at h
      · cases h
      · cases h
        rfl

/-- Code that turns one number on the stack into another. -/
theorem answers_emitAll {a v : Num} {is : List Instr} {e : Emitter} (w : (e.emitAll is).Within code)
    (h : is = [] ∧ a = v ∨ ∃ o, is = [.op o] ∧ operate heap o (num a :: rest) = .values (num v :: rest)) :
    Reaches code p ⟨e.size, locals, num a :: rest, heap⟩ ⟨(e.emitAll is).size, locals, num v :: rest, heap⟩ := by
  rcases h with ⟨rfl, rfl⟩ | ⟨o, rfl, ho⟩
  · exact .refl _
  · rw [Emitter.size_emitAll]
    exact reaches_of_exec (w.get (k := 0) rfl) (by simp only [exec, ho, State.advance]; rfl)

theorem convert_apply {q : Prim} (hq : q = .int ∨ q = .long) (a : Num) (heap : List Object) (rest : List Value) :
    ∃ is v, a.type.convertCode? (.prim q) = some is ∧ v.type = .prim q ∧
      (if q = .int then a.toInt else a.toLong) = v ∧
      (is = [] ∧ a = v ∨ ∃ o, is = [.op o] ∧ operate heap o (num a :: rest) = .values (num v :: rest)) := by
  rcases hq with rfl | rfl
  · cases a with
    | int a => exact ⟨_, _, rfl, rfl, rfl, .inl ⟨rfl, rfl⟩⟩
    | long a => exact ⟨_, _, rfl, rfl, rfl, .inr ⟨_, rfl, rfl⟩⟩
  · cases a with
    | int a => exact ⟨_, _, rfl, rfl, rfl, .inr ⟨_, rfl, rfl⟩⟩
    | long a => exact ⟨_, _, rfl, rfl, rfl, .inl ⟨rfl, rfl⟩⟩

/-- The code of a unary operator makes of a number what the operator does. -/
theorem answers_unary (hp : Placed code p) {c : Context} {op : UnaryOp} {a : Num} {site : Span} {e e' : Emitter}
    {t : Ty} (h : Runs (lowerUnary c a.type op site) e t e') (w : e'.Within code) (hop : op.isNumeric)
    (locals : Nat → Option Value) (rest : List Value) (heap : List Object) :
    Answers code p ⟨e.size, locals, num a :: rest, heap⟩ (Num.applyUnary op a)
        (fun v => ⟨e'.size, locals, num v :: rest, heap⟩) ∧
      ∀ v, Num.applyUnary op a = .ok v → v.type = t := by
  cases op with
  | neg =>
    cases a with
    | int a =>
      obtain ⟨rfl, rfl⟩ : e.emit (.op .ineg) = e' ∧ Ty.int = t := by
        simpa using show Runs (do EmitM.op .ineg; return Ty.int) e t e' from h
      exact ⟨reaches_of_exec w.instr (by rw [Emitter.size_emit]; rfl), by rintro _ ⟨⟩; rfl⟩
    | long a =>
      obtain ⟨rfl, rfl⟩ : e.emit (.op .lneg) = e' ∧ Ty.long = t := by
        simpa using show Runs (do EmitM.op .lneg; return Ty.long) e t e' from h
      exact ⟨reaches_of_exec w.instr (by rw [Emitter.size_emit]; rfl), by rintro _ ⟨⟩; rfl⟩
  | not =>
    obtain ⟨ha, rfl, rfl⟩ : a.type = .int ∧ e.branchValue .ifeq true = e' ∧ .int = t := by
      simpa [lowerUnary] using h
    cases a with
    | int a =>
      have hjump : decideJump .ifeq (num (.int a) :: rest) = some (decide (a = 0), rest) := rfl
      have htruth : Num.applyUnary .not (.int a) = .ok (.truth (decide (a = 0) == true)) := by
        simp [Num.applyUnary, Num.holds]
      rw [htruth]
      exact ⟨reaches_branchValue hp w hjump, by rintro _ ⟨⟩; rfl⟩
    | long a => cases ha
  | convert target =>
    have hscalar : ∃ q, target.scalar? = some q ∧ (q = .int ∨ q = .long) := by
      rcases (by simpa [UnaryOp.isNumeric, Source.TypeRef.isNumeric] using hop) with h | h
      · exact ⟨.int, h, .inl rfl⟩
      · exact ⟨.long, h, .inr rfl⟩
    obtain ⟨q, hq, hint⟩ := hscalar
    obtain ⟨ty, e₁, hty, h⟩ := Runs.bind_iff.mp (show Runs (_ >>= _) e t e' from h)
    obtain ⟨hres, rfl⟩ := Runs.lift_iff.mp hty
    obtain rfl := resolveType_scalar hq hres
    obtain ⟨is, v, his, hv, happly, hcode⟩ := convert_apply hint a heap rest
    rw [his] at h
    obtain ⟨rfl, rfl⟩ : e.emitAll is = e' ∧ .prim q = t := by simpa using h
    have hval : Num.applyUnary (.convert target) a = .ok v := by
      rw [← happly, Num.applyUnary, hq]
      rcases hint with rfl | rfl <;> rfl
    rw [hval]
    exact ⟨answers_emitAll w hcode, by rintro _ ⟨⟩; exact hv⟩

end Classwright.Machine
