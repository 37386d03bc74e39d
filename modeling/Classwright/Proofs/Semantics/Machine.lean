import Classwright.Bytecode.Placement
import Classwright.Proofs.Semantics.Number
import Classwright.Verify.VType

/-! # A machine for instructions

It has locals, an operand stack and a heap, and carries out one instruction after the other. Integer division by zero
traps. Objects are made by `new` and keep what their constructor is given; a method ends when it returns or throws one.
An instruction that the operands do not fit, or that the machine does not have, leaves it stuck. -/

namespace Classwright.Machine

inductive Value where
  | num (n : Num)
  | text (s : String)
  /-- An address on the heap. -/
  | ref (address : Nat)
deriving DecidableEq, Repr

namespace Value

def kind : Value → LocalKind
  | num (.int _) => .int
  | num (.long _) => .long
  | text _ | ref _ => .ref

/-- Words that the value takes on the stack and among the locals. -/
def width (v : Value) : Nat := v.kind.width

end Value

structure Object where
  cls : String
  /-- What the constructor was given, the last argument first, once it has run. -/
  fields : Option (List Value) := none
deriving DecidableEq, Repr

structure State where
  pc : Nat := 0
  locals : Nat → Option Value := fun _ => none
  /-- The top of the stack comes first. -/
  stack : List Value := []
  heap : List Object := []

/-- How a method ends. -/
inductive Halt where
  | returned (v : Option Value)
  | thrown (o : Object)
  | trapped
deriving DecidableEq, Repr

/-- What comes of an instruction. -/
inductive Next where
  | state (s : State)
  | halt (h : Halt)
  | stuck

/-! ### Locals -/

/-- Writes a local. A value of two words takes the slot after it too, and one that loses its second slot is lost. -/
def setLocal (locals : Nat → Option Value) (slot : Nat) (v : Value) : Nat → Option Value := fun i =>
  if i = slot then some v
  else if i = slot + 1 ∧ v.width = 2 then none
  else if i + 1 = slot ∧ (locals i).any (·.width = 2) then none
  else locals i

/-! ### Operations -/

/-- What an operation makes of a stack. -/
inductive Result where
  | values (stack : List Value)
  | halt (h : Halt)
  | misfit

open Value (num)

/-- Operations on one or two numbers. -/
def arithmetic : Opcode → List Value → Result
  | .iadd, num (.int b) :: num (.int a) :: rest => .values (num (.int (a + b)) :: rest)
  | .isub, num (.int b) :: num (.int a) :: rest => .values (num (.int (a - b)) :: rest)
  | .imul, num (.int b) :: num (.int a) :: rest => .values (num (.int (a * b)) :: rest)
  | .idiv, num (.int b) :: num (.int a) :: rest =>
    if b = 0 then .halt .trapped else .values (num (.int (a / b)) :: rest)
  | .irem, num (.int b) :: num (.int a) :: rest =>
    if b = 0 then .halt .trapped else .values (num (.int (a % b)) :: rest)
  | .iand, num (.int b) :: num (.int a) :: rest => .values (num (.int (a &&& b)) :: rest)
  | .ior, num (.int b) :: num (.int a) :: rest => .values (num (.int (a ||| b)) :: rest)
  | .ixor, num (.int b) :: num (.int a) :: rest => .values (num (.int (a ^^^ b)) :: rest)
  | .ishl, num (.int d) :: num (.int a) :: rest => .values (num (.int (shiftLeft32 a d)) :: rest)
  | .ishr, num (.int d) :: num (.int a) :: rest => .values (num (.int (shiftRight32 a d)) :: rest)
  | .iushr, num (.int d) :: num (.int a) :: rest => .values (num (.int (shiftRightZero32 a d)) :: rest)
  | .ladd, num (.long b) :: num (.long a) :: rest => .values (num (.long (a + b)) :: rest)
  | .lsub, num (.long b) :: num (.long a) :: rest => .values (num (.long (a - b)) :: rest)
  | .lmul, num (.long b) :: num (.long a) :: rest => .values (num (.long (a * b)) :: rest)
  | .ldiv, num (.long b) :: num (.long a) :: rest =>
    if b = 0 then .halt .trapped else .values (num (.long (a / b)) :: rest)
  | .lrem, num (.long b) :: num (.long a) :: rest =>
    if b = 0 then .halt .trapped else .values (num (.long (a % b)) :: rest)
  | .land, num (.long b) :: num (.long a) :: rest => .values (num (.long (a &&& b)) :: rest)
  | .lor, num (.long b) :: num (.long a) :: rest => .values (num (.long (a ||| b)) :: rest)
  | .lxor, num (.long b) :: num (.long a) :: rest => .values (num (.long (a ^^^ b)) :: rest)
  | .lshl, num (.int d) :: num (.long a) :: rest => .values (num (.long (shiftLeft64 a d)) :: rest)
  | .lshr, num (.int d) :: num (.long a) :: rest => .values (num (.long (shiftRight64 a d)) :: rest)
  | .lushr, num (.int d) :: num (.long a) :: rest => .values (num (.long (shiftRightZero64 a d)) :: rest)
  | .lcmp, num (.long b) :: num (.long a) :: rest =>
    .values (num (.int (if a < b then -1 else if a = b then 0 else 1)) :: rest)
  | .ineg, num (.int a) :: rest => .values (num (.int (-a)) :: rest)
  | .lneg, num (.long a) :: rest => .values (num (.long (-a)) :: rest)
  | .i2l, num (.int a) :: rest => .values (num (.long a.toInt64) :: rest)
  | .l2i, num (.long a) :: rest => .values (num (.int a.toInt32) :: rest)
  | _, _ => .misfit

/-- Operations without an operand of their own. -/
def operate (heap : List Object) : Opcode → List Value → Result
  | .pop, v :: rest => if v.width = 1 then .values rest else .misfit
  | .pop2, v :: rest => if v.width = 2 then .values rest else .misfit
  | .dup, v :: rest => if v.width = 1 then .values (v :: v :: rest) else .misfit
  | .ireturn, num (.int v) :: _ => .halt (.returned (some (num (.int v))))
  | .lreturn, num (.long v) :: _ => .halt (.returned (some (num (.long v))))
  | .returnVoid, _ => .halt (.returned none)
  | .athrow, .ref address :: _ =>
    match heap[address]? with
    | some o => .halt (.thrown o)
    | none => .misfit
  | op, stack => arithmetic op stack

/-- Whether a jump is taken, and what it leaves on the stack. -/
def decideJump : Opcode → List Value → Option (Bool × List Value)
  | .goto, rest => some (true, rest)
  | .ifeq, num (.int a) :: rest => some (a = 0, rest)
  | .ifne, num (.int a) :: rest => some (a ≠ 0, rest)
  | .iflt, num (.int a) :: rest => some (a < 0, rest)
  | .ifge, num (.int a) :: rest => some (a ≥ 0, rest)
  | .ifgt, num (.int a) :: rest => some (a > 0, rest)
  | .ifle, num (.int a) :: rest => some (a ≤ 0, rest)
  | .ifIcmpeq, num (.int b) :: num (.int a) :: rest => some (a = b, rest)
  | .ifIcmpne, num (.int b) :: num (.int a) :: rest => some (a ≠ b, rest)
  | .ifIcmplt, num (.int b) :: num (.int a) :: rest => some (a < b, rest)
  | .ifIcmpge, num (.int b) :: num (.int a) :: rest => some (a ≥ b, rest)
  | .ifIcmpgt, num (.int b) :: num (.int a) :: rest => some (a > b, rest)
  | .ifIcmple, num (.int b) :: num (.int a) :: rest => some (a ≤ b, rest)
  | _, _ => none

/-- Runs a constructor with `count` arguments: the object keeps them. -/
def construct (heap : List Object) (count : Nat) (stack : List Value) : Option (List Object × List Value) :=
  match stack.drop count with
  | .ref address :: rest =>
    match heap[address]? with
    | some ⟨cls, none⟩ => some (heap.set address ⟨cls, some (stack.take count)⟩, rest)
    | _ => none
  | _ => none

/-! ### Steps -/

/-- Goes on with the next instruction. -/
def State.advance (s : State) (stack : List Value) : Next := .state { s with pc := s.pc + 1, stack }

def exec (p : Placement) (s : State) : Instr → Next
  | .mark _ => s.advance s.stack
  | .int v => s.advance (num (.int v) :: s.stack)
  | .long v => s.advance (num (.long v) :: s.stack)
  | .str t => s.advance (.text t :: s.stack)
  | .load kind slot =>
    match s.locals slot.toNat with
    | some v => if v.kind = kind then s.advance (v :: s.stack) else .stuck
    | none => .stuck
  | .store kind slot =>
    match s.stack with
    | v :: rest =>
      if v.kind = kind then { s with locals := setLocal s.locals slot.toNat v }.advance rest else .stuck
    | [] => .stuck
  | .jump op l =>
    match decideJump op s.stack with
    | some (true, rest) =>
      match p.position? l with
      | some j => .state { s with pc := j, stack := rest }
      | none => .stuck
    | some (false, rest) => s.advance rest
    | none => .stuck
  | .type .new cls => { s with heap := s.heap ++ [Object.mk cls none] }.advance (.ref s.heap.length :: s.stack)
  | .invoke .invokespecial m =>
    match Descriptor.split? m.descriptor with
    | some (params, _) =>
      match construct s.heap params.length s.stack with
      | some (heap, rest) => if m.name = Name.init then { s with heap }.advance rest else .stuck
      | none => .stuck
    | none => .stuck
  | .op op =>
    match operate s.heap op s.stack with
    | .values stack => s.advance stack
    | .halt h => .halt h
    | .misfit => .stuck
  | _ => .stuck

def step (code : Array Instr) (p : Placement) (s : State) : Next :=
  match code[s.pc]? with
  | some instr => exec p s instr
  | none => .stuck

/-- Carries out `n` instructions, or fewer if the method ends before. -/
def run (code : Array Instr) (p : Placement) : Nat → State → Next
  | 0, s => .state s
  | n + 1, s =>
    match step code p s with
    | .state s => run code p n s
    | r => r

/-- The locals of a method that starts with arguments, the first of which is in `slot`. -/
def entryLocals (slot : Nat) : List Num → Nat → Option Value
  | [] => fun _ => none
  | v :: rest => Function.update (entryLocals (slot + v.width) rest) slot (some (.num v))

/-- Where a static method starts. -/
def entry (args : List Num) : State := { locals := entryLocals 0 args }

/-! ### Runs -/

section Runs
variable (code : Array Instr) (p : Placement)

/-- The machine comes from `s` to `s'` by `n` instructions. -/
def ReachesIn (n : Nat) (s s' : State) : Prop := run code p n s = .state s'

def Reaches (s s' : State) : Prop := ∃ n, ReachesIn code p n s s'

def Halts (s : State) (h : Halt) : Prop := ∃ n, run code p n s = .halt h

/-- The machine carries out `n` instructions at least. -/
def Lasts (n : Nat) (s : State) : Prop := ∃ k s', n ≤ k ∧ ReachesIn code p k s s'

/-- The machine never comes to an end and is never stuck. -/
def Diverges (s : State) : Prop := ∀ n, ∃ s', ReachesIn code p n s s'

end Runs

variable {code : Array Instr} {p : Placement} {s s' s'' : State} {h h' : Halt} {n k : Nat}

theorem run_add (n k : Nat) (s : State) :
    run code p (n + k) s = match run code p n s with
      | .state s' => run code p k s'
      | r => r := by
  induction n generalizing s with
  | zero => rw [Nat.zero_add]; rfl
  | succ n ih =>
    rw [Nat.add_right_comm, run, run]
    cases step code p s with
    | state s' => exact ih s'
    | halt h => rfl
    | stuck => rfl

theorem ReachesIn.trans (h₁ : ReachesIn code p n s s') (h₂ : ReachesIn code p k s' s'') :
    ReachesIn code p (n + k) s s'' := by
  rw [ReachesIn, run_add, h₁]
  exact h₂

theorem Reaches.refl (s : State) : Reaches code p s s := ⟨0, rfl⟩

theorem Reaches.trans (h₁ : Reaches code p s s') (h₂ : Reaches code p s' s'') : Reaches code p s s'' := by
  obtain ⟨n, h₁⟩ := h₁
  obtain ⟨k, h₂⟩ := h₂
  exact ⟨n + k, h₁.trans h₂⟩

theorem reachesIn_one (h : step code p s = .state s') : ReachesIn code p 1 s s' := by
  rw [ReachesIn, run, h]
  rfl

theorem Reaches.step (h : Machine.step code p s = .state s') : Reaches code p s s' := ⟨1, reachesIn_one h⟩

theorem Halts.of_step (hs : step code p s = .halt h) : Halts code p s h := ⟨1, by rw [run, hs]⟩

theorem Halts.of_reaches (h₁ : Reaches code p s s') (h₂ : Halts code p s' h) : Halts code p s h := by
  obtain ⟨n, h₁⟩ := h₁
  obtain ⟨k, h₂⟩ := h₂
  exact ⟨n + k, by rw [run_add, h₁]; exact h₂⟩

theorem Lasts.of_reaches (h₁ : Reaches code p s s') (h₂ : Lasts code p n s') : Lasts code p n s := by
  obtain ⟨k, h₁⟩ := h₁
  obtain ⟨j, s'', hj, h₂⟩ := h₂
  exact ⟨k + j, s'', by omega, h₁.trans h₂⟩

theorem Lasts.succ (h₁ : ReachesIn code p 1 s s') (h₂ : Lasts code p n s') : Lasts code p (n + 1) s := by
  obtain ⟨j, s'', hj, h₂⟩ := h₂
  exact ⟨1 + j, s'', by omega, h₁.trans h₂⟩

theorem Lasts.mono (h : Lasts code p n s) (hk : k ≤ n) : Lasts code p k s := by
  obtain ⟨j, s', hj, h⟩ := h
  exact ⟨j, s', by omega, h⟩

theorem lasts_zero (s : State) : Lasts code p 0 s := ⟨0, s, Nat.le_refl 0, rfl⟩

/-- A machine that has come further than `n` instructions has come that far. -/
theorem Lasts.reachesIn (h : Lasts code p n s) : ∃ s', ReachesIn code p n s s' := by
  obtain ⟨k, s'', hk, h⟩ := h
  obtain ⟨j, rfl⟩ := Nat.exists_eq_add_of_le hk
  rw [ReachesIn, run_add] at h
  cases hn : run code p n s with
  | state s' => exact ⟨s', hn⟩
  | halt _ => rw [hn] at h; cases h
  | stuck => rw [hn] at h; cases h

/-- A machine ends in one way only. -/
theorem Halts.unique (h₁ : Halts code p s h) (h₂ : Halts code p s h') : h = h' := by
  obtain ⟨n, h₁⟩ := h₁
  obtain ⟨k, h₂⟩ := h₂
  have hn : run code p (n + k) s = .halt h := by rw [run_add, h₁]
  have hk : run code p (n + k) s = .halt h' := by rw [Nat.add_comm, run_add, h₂]
  rw [hn] at hk
  cases hk
  rfl

theorem Halts.not_diverges (h : Halts code p s h') : ¬Diverges code p s := by
  intro hd
  obtain ⟨n, h⟩ := h
  obtain ⟨s', hs⟩ := hd n
  rw [ReachesIn, h] at hs
  cases hs

end Classwright.Machine
