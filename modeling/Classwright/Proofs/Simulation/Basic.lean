import Classwright.Proofs.Lowering.Emission
import Classwright.Proofs.Placement
import Classwright.Proofs.Semantics.Machine
import Classwright.Proofs.Semantics.Source

/-! # Running emitted code

The machine follows a computation if it comes to where the result is on the stack, or ends as the computation fails. -/

namespace Classwright

namespace Machine

open Value (num)

/-- A label's place is where its mark stands. -/
def Placed (code : Array Instr) (p : Placement) : Prop := ∀ l j, p.position? l = some j ↔ code[j]? = some (.mark l)

section Following
variable {α β : Type} (code : Array Instr) (p : Placement)

/-- The machine comes to a load from a slot that holds nothing. -/
def Starves (s : State) : Prop :=
  ∃ s' kind slot, Reaches code p s s' ∧ code[s'.pc]? = some (.load kind slot) ∧ s'.locals slot.toNat = none

/-- The machine follows a computation: it comes to the state `k a` for a result `a`, and fails where it fails. -/
def Answers (s : State) (r : Except Fault α) (k : α → State) : Prop :=
  match r with
  | .ok a => Reaches code p s (k a)
  | .error .divisionByZero => Halts code p s .trapped
  | .error .undefined => Starves code p s

end Following

variable {α β : Type} {code : Array Instr} {p : Placement} {s s' : State} {locals : Nat → Option Value}
  {stack rest : List Value} {heap : List Object} {pc : Nat}

theorem Starves.of_reaches (h : Reaches code p s s') (hs : Starves code p s') : Starves code p s := by
  obtain ⟨s'', kind, slot, h', hl⟩ := hs
  exact ⟨s'', kind, slot, h.trans h', hl⟩

namespace Answers
variable {r : Except Fault α} {k : α → State}

theorem of_reaches (h : Reaches code p s s') (ha : Answers code p s' r k) : Answers code p s r k :=
  match r with
  | .ok _ => h.trans ha
  | .error .divisionByZero => Halts.of_reaches h ha
  | .error .undefined => Starves.of_reaches h ha

theorem bind {f : α → Except Fault β} {k' : β → State} (h : Answers code p s r k)
    (hf : ∀ a, r = .ok a → Answers code p (k a) (f a) k') : Answers code p s (r >>= f) k' :=
  match r with
  | .ok a => of_reaches h (hf a rfl)
  | .error .divisionByZero => h
  | .error .undefined => h

end Answers

/-! ### Single instructions -/

theorem reaches_of_exec {i : Instr} (hi : code[s.pc]? = some i) (h : exec p s i = .state s') : Reaches code p s s' := by
  refine Reaches.step ?_
  rw [step, hi]
  exact h

theorem halts_of_exec {i : Instr} {h : Halt} (hi : code[s.pc]? = some i) (he : exec p s i = .halt h) :
    Halts code p s h := by
  refine Halts.of_step ?_
  rw [step, hi]
  exact he

/-- A jump that is taken goes to the mark of its label. -/
theorem reaches_jump (hp : Placed code p) {op : Opcode} {l : Label} {j : Nat}
    (hi : code[pc]? = some (.jump op l)) (hd : decideJump op stack = some (true, rest))
    (hj : code[j]? = some (.mark l)) : Reaches code p ⟨pc, locals, stack, heap⟩ ⟨j, locals, rest, heap⟩ := by
  refine reaches_of_exec hi ?_
  simp only [exec, hd, (hp l j).mpr hj]

theorem reaches_past {op : Opcode} {l : Label} (hi : code[pc]? = some (.jump op l))
    (hd : decideJump op stack = some (false, rest)) :
    Reaches code p ⟨pc, locals, stack, heap⟩ ⟨pc + 1, locals, rest, heap⟩ := by
  refine reaches_of_exec hi ?_
  simp only [exec, hd, State.advance]

theorem reaches_mark {l : Label} (hi : code[pc]? = some (.mark l)) :
    Reaches code p ⟨pc, locals, stack, heap⟩ ⟨pc + 1, locals, stack, heap⟩ := reaches_of_exec hi rfl

theorem reaches_truth {b : Bool} (hi : code[pc]? = some (.truth b)) :
    Reaches code p ⟨pc, locals, stack, heap⟩ ⟨pc + 1, locals, num (.truth b) :: stack, heap⟩ := reaches_of_exec hi rfl

/-! ### Truth values -/

/-- A jump makes a truth value. -/
theorem reaches_branchValue (hp : Placed code p) {e : Emitter} {jump : Opcode} {taken b : Bool}
    (w : (e.branchValue jump taken).Within code) (hd : decideJump jump stack = some (b, rest)) :
    Reaches code p ⟨e.size, locals, stack, heap⟩
      ⟨(e.branchValue jump taken).size, locals, num (.truth (b == taken)) :: rest, heap⟩ := by
  have at_ (k : Nat) (i : Instr) (hk : _[k]? = some i) : code[e.size + k]? = some i :=
    Emitter.Within.get (e := e.fresh.2.fresh.2) w hk
  have hsize : (e.branchValue jump taken).size = e.size + 6 :=
    Emitter.size_emitAll e.fresh.2.fresh.2 _
  rw [hsize]
  cases b with
  | true =>
    refine (reaches_jump hp (at_ 0 _ rfl) hd (at_ 3 _ rfl)).trans ?_
    refine (reaches_mark (at_ 3 _ rfl)).trans ?_
    refine (reaches_truth (at_ 4 _ rfl)).trans ?_
    rw [Bool.true_beq]
    exact reaches_mark (at_ 5 _ rfl)
  | false =>
    refine (reaches_past (at_ 0 _ rfl) hd).trans ?_
    refine (reaches_truth (at_ 1 _ rfl)).trans ?_
    refine (reaches_jump hp (at_ 2 _ rfl) rfl (at_ 5 _ rfl)).trans ?_
    rw [Bool.false_beq]
    exact reaches_mark (at_ 5 _ rfl)

/-- Where no jump was taken a truth value is pushed, and the other one where one was. -/
theorem reaches_joinBranches (hp : Placed code p) {e e' : Emitter} {taken : Label} {fallThrough : Bool}
    (h : Runs (joinBranches taken fallThrough) e () e') (w : e'.Within code) :
    Reaches code p ⟨e.size, locals, stack, heap⟩ ⟨e'.size, locals, num (.truth fallThrough) :: stack, heap⟩ ∧
      ∃ j, code[j]? = some (.mark taken) ∧
        Reaches code p ⟨j, locals, stack, heap⟩ ⟨e'.size, locals, num (.truth !fallThrough) :: stack, heap⟩ := by
  obtain rfl := runs_joinBranches h
  have at_ (k : Nat) (i : Instr) (hk : _[k]? = some i) : code[e.size + k]? = some i := w.get hk
  rw [Emitter.size_emitAll]
  refine ⟨?_, e.size + 2, at_ 2 _ rfl, ?_⟩
  · refine (reaches_truth (at_ 0 _ rfl)).trans ?_
    refine (reaches_jump hp (at_ 1 _ rfl) rfl (at_ 4 _ rfl)).trans ?_
    exact reaches_mark (at_ 4 _ rfl)
  · refine (reaches_mark (at_ 2 _ rfl)).trans ?_
    refine (reaches_truth (at_ 3 _ rfl)).trans ?_
    exact reaches_mark (at_ 4 _ rfl)

end Machine

end Classwright
