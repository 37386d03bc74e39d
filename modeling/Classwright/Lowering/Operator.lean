import Classwright.Lowering.Context

/-! # Operators

Types never widen: arithmetic needs two operands of one numeric type, bit operations two of one integral type, shifts
an integral one and an `int` distance. Comparisons give truth values. -/

namespace Classwright

open Source (BinaryOp)

/-- How an operator is carried out. -/
inductive OperatorCode where
  | direct (op : Opcode)
  /-- A jump, after an instruction that compares if there is need of one. -/
  | comparison (compare : Option Opcode) (jump : Opcode)
deriving DecidableEq, Repr

namespace OperatorCode

def shift? : BinaryOp → Prim → Option Opcode
  | .shl, .int => some .ishl
  | .shl, .long => some .lshl
  | .shr, .int => some .ishr
  | .shr, .long => some .lshr
  | .ushr, .int => some .iushr
  | .ushr, .long => some .lushr
  | _, _ => none

/-- Arithmetic and bit operations. -/
def arithmetic? : BinaryOp → Prim → Option Opcode
  | .add, .int => some .iadd
  | .add, .long => some .ladd
  | .add, .float => some .fadd
  | .add, .double => some .dadd
  | .sub, .int => some .isub
  | .sub, .long => some .lsub
  | .sub, .float => some .fsub
  | .sub, .double => some .dsub
  | .mul, .int => some .imul
  | .mul, .long => some .lmul
  | .mul, .float => some .fmul
  | .mul, .double => some .dmul
  | .div, .int => some .idiv
  | .div, .long => some .ldiv
  | .div, .float => some .fdiv
  | .div, .double => some .ddiv
  | .rem, .int => some .irem
  | .rem, .long => some .lrem
  | .rem, .float => some .frem
  | .rem, .double => some .drem
  | .bitAnd, .int => some .iand
  | .bitAnd, .long => some .land
  | .bitXor, .int => some .ixor
  | .bitXor, .long => some .lxor
  | .bitOr, .int => some .ior
  | .bitOr, .long => some .lor
  | _, _ => none

/-- The jump on two integers, and the jump on the sign of one. -/
def jumps? : BinaryOp → Option (Opcode × Opcode)
  | .lt => some (.ifIcmplt, .iflt)
  | .gt => some (.ifIcmpgt, .ifgt)
  | .le => some (.ifIcmple, .ifle)
  | .ge => some (.ifIcmpge, .ifge)
  | .eq => some (.ifIcmpeq, .ifeq)
  | .ne => some (.ifIcmpne, .ifne)
  | _ => none

/-- What compares two values that are not integers. Of the two forms for floating point the one is taken that makes
    `<`, `<=`, `>` and `>=` fail where an operand is no number. -/
def compare? (op : BinaryOp) : Prim → Option Opcode
  | .long => some .lcmp
  | .float => some (if op = .gt ∨ op = .ge then .fcmpl else .fcmpg)
  | .double => some (if op = .gt ∨ op = .ge then .dcmpl else .dcmpg)
  | _ => none

/-- How an operator is carried out on two types, if it can be. -/
def of? (op : BinaryOp) (left right : Ty) : Option OperatorCode := do
  let p ← left.numeric?
  if op.isShift then
    if right = .int then (shift? op p).map .direct else none
  else if left = right then
    match jumps? op with
    | some (onInts, onSign) =>
      if p = .int then some (.comparison none onInts) else some (.comparison (compare? op p) onSign)
    | none => (arithmetic? op p).map .direct
  else none

end OperatorCode

/-- Carries out an operator on the two values on the stack. -/
def lowerOperator (op : BinaryOp) (left right : Ty) (site : Span) : EmitM Ty := do
  match OperatorCode.of? op left right with
  | none => throw (.typeMismatch (.operands op left right) site)
  | some (.direct o) =>
    EmitM.op o
    return left
  | some (.comparison compare jump) =>
    EmitM.emitAll (compare.toList.map .op)
    modify (·.branchValue jump true)
    return .int

/-! ### Sequences of operators -/

/-- The operands that are on the stack and the operators that wait for their right sides to be complete, the latest
    first. -/
structure Pending where
  operands : List Ty
  operators : List (BinaryOp × Span) := []
deriving Inhabited

namespace Pending

/-- Carries out an operator on the last two operands. -/
def reduce (op : BinaryOp) (site : Span) : List Ty → EmitM (List Ty)
  | right :: left :: rest => do
    let t ← lowerOperator op left right site
    return t :: rest
  | _ => throw (.unsupported (.missingOperand op) site)

/-- Carries out the waiting operators from the latest on, as long as they bind at least as tightly as `level`. -/
def reduceFrom (level : Nat) (operands : List Ty) : List (BinaryOp × Span) → EmitM Pending
  | [] => return ⟨operands, []⟩
  | (op, site) :: rest =>
    if op.level < level then return ⟨operands, (op, site) :: rest⟩
    else do
      let operands ← reduce op site operands
      reduceFrom level operands rest

/-- Makes way for an operator: what binds at least as tightly and stands to its left comes first. -/
def makeWay (p : Pending) (op : BinaryOp) : EmitM Pending := reduceFrom op.level p.operands p.operators

/-- Adds an operator and the type of its right side. -/
def push (p : Pending) (op : BinaryOp) (site : Span) (t : Ty) : Pending :=
  ⟨t :: p.operands, (op, site) :: p.operators⟩

/-- Carries out all that is waiting; one value remains. -/
def finish (p : Pending) (site : Span) : EmitM Ty := do
  let p ← reduceFrom 0 p.operands p.operators
  match p.operands with
  | t :: _ => return t
  | [] => throw (.unsupported .emptyExpression site)

end Pending

end Classwright
