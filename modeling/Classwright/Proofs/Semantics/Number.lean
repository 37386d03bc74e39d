import Classwright.Lowering.Literal
import Classwright.Source.Expr
import Mathlib.Tactic.Common

/-! # Numbers that programs compute with

32-bit and 64-bit numbers in two's complement. Arithmetic wraps around, division rounds towards zero and fails on zero,
and of a shift distance only as many bits count as there are places to shift. -/

namespace Classwright

open Source (BinaryOp UnaryOp)

inductive Num where
  | int (v : Int32)
  | long (v : Int64)
deriving DecidableEq, Repr

/-- Why a computation has no result. -/
inductive Fault where
  | divisionByZero
  /-- The program says nothing about this case. -/
  | undefined
deriving DecidableEq, Repr

/-! ### Shifts -/

def shiftLeft32 (a d : Int32) : Int32 := a <<< (d &&& 31)

def shiftRight32 (a d : Int32) : Int32 := a >>> (d &&& 31)

/-- Zeros come in from the left. -/
def shiftRightZero32 (a d : Int32) : Int32 := (a.toUInt32 >>> (d &&& 31).toUInt32).toInt32

def shiftLeft64 (a : Int64) (d : Int32) : Int64 := a <<< (d &&& 63).toInt64

def shiftRight64 (a : Int64) (d : Int32) : Int64 := a >>> (d &&& 63).toInt64

def shiftRightZero64 (a : Int64) (d : Int32) : Int64 := (a.toUInt64 >>> (d &&& 63).toInt64.toUInt64).toInt64

namespace Num

def type : Num → Ty
  | .int _ => .int
  | .long _ => .long

/-- Words that the number takes among the locals. -/
def width (n : Num) : Nat := n.type.width

def truth (b : Bool) : Num := .int (if b then 1 else 0)

/-- Conditions are integers, and all but zero hold. -/
def holds : Num → Except Fault Bool
  | .int v => .ok (v ≠ 0)
  | .long _ => .error .undefined

/-! ### Operators -/

def applyInts : BinaryOp → Int32 → Int32 → Except Fault Num
  | .mul, a, b => .ok (.int (a * b))
  | .div, a, b => if b = 0 then .error .divisionByZero else .ok (.int (a / b))
  | .rem, a, b => if b = 0 then .error .divisionByZero else .ok (.int (a % b))
  | .add, a, b => .ok (.int (a + b))
  | .sub, a, b => .ok (.int (a - b))
  | .shl, a, b => .ok (.int (shiftLeft32 a b))
  | .shr, a, b => .ok (.int (shiftRight32 a b))
  | .ushr, a, b => .ok (.int (shiftRightZero32 a b))
  | .lt, a, b => .ok (truth (a < b))
  | .gt, a, b => .ok (truth (a > b))
  | .le, a, b => .ok (truth (a ≤ b))
  | .ge, a, b => .ok (truth (a ≥ b))
  | .eq, a, b => .ok (truth (a = b))
  | .ne, a, b => .ok (truth (a ≠ b))
  | .bitAnd, a, b => .ok (.int (a &&& b))
  | .bitXor, a, b => .ok (.int (a ^^^ b))
  | .bitOr, a, b => .ok (.int (a ||| b))

def applyLongs : BinaryOp → Int64 → Int64 → Except Fault Num
  | .mul, a, b => .ok (.long (a * b))
  | .div, a, b => if b = 0 then .error .divisionByZero else .ok (.long (a / b))
  | .rem, a, b => if b = 0 then .error .divisionByZero else .ok (.long (a % b))
  | .add, a, b => .ok (.long (a + b))
  | .sub, a, b => .ok (.long (a - b))
  | .lt, a, b => .ok (truth (a < b))
  | .gt, a, b => .ok (truth (a > b))
  | .le, a, b => .ok (truth (a ≤ b))
  | .ge, a, b => .ok (truth (a ≥ b))
  | .eq, a, b => .ok (truth (a = b))
  | .ne, a, b => .ok (truth (a ≠ b))
  | .bitAnd, a, b => .ok (.long (a &&& b))
  | .bitXor, a, b => .ok (.long (a ^^^ b))
  | .bitOr, a, b => .ok (.long (a ||| b))
  | .shl, _, _ | .shr, _, _ | .ushr, _, _ => .error .undefined

/-- The distance of a shift is an `int`, whatever is shifted. -/
def shiftLong : BinaryOp → Int64 → Int32 → Except Fault Num
  | .shl, a, d => .ok (.long (shiftLeft64 a d))
  | .shr, a, d => .ok (.long (shiftRight64 a d))
  | .ushr, a, d => .ok (.long (shiftRightZero64 a d))
  | _, _, _ => .error .undefined

/-- What an operator makes of two numbers. -/
def apply (op : BinaryOp) : Num → Num → Except Fault Num
  | .int a, .int b => applyInts op a b
  | .long a, .long b => applyLongs op a b
  | .long a, .int d => shiftLong op a d
  | .int _, .long _ => .error .undefined

def negate : Num → Num
  | .int v => .int (-v)
  | .long v => .long (-v)

def toInt : Num → Num
  | .int v => .int v
  | .long v => .int v.toInt32

def toLong : Num → Num
  | .int v => .long v.toInt64
  | .long v => .long v

end Num

/-- The scalar that a written type stands for. -/
def Source.TypeRef.scalar? (t : Source.TypeRef) : Option Prim := if t.isArray then none else Prim.ofKeyword? t.name

def Num.applyUnary : UnaryOp → Num → Except Fault Num
  | .neg, v => .ok v.negate
  | .not, v => do return truth !(← v.holds)
  | .convert t, v =>
    match t.scalar? with
    | some .int => .ok v.toInt
    | some .long => .ok v.toLong
    | _ => .error .undefined

/-- The number that a literal stands for. -/
def Source.Literal.num (l : Source.Literal) : Except Fault Num :=
  match l.value with
  | .ok (.int v) => .ok (.int v)
  | .ok (.long v) => .ok (.long v)
  | _ => .error .undefined

end Classwright
