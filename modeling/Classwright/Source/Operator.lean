/-! # Binary operators -/

namespace Classwright.Source

inductive BinaryOp where
  | mul | div | rem | add | sub | shl | shr | ushr | lt | gt | le | ge | eq | ne | bitAnd | bitXor | bitOr
deriving DecidableEq, Repr

namespace BinaryOp

def all : List BinaryOp :=
  [.mul, .div, .rem, .add, .sub, .shl, .shr, .ushr, .lt, .gt, .le, .ge, .eq, .ne, .bitAnd, .bitXor, .bitOr]

def symbol : BinaryOp → String
  | .mul => "*"
  | .div => "/"
  | .rem => "%"
  | .add => "+"
  | .sub => "-"
  | .shl => "<<"
  | .shr => ">>"
  | .ushr => ">>>"
  | .lt => "<"
  | .gt => ">"
  | .le => "<="
  | .ge => ">="
  | .eq => "=="
  | .ne => "!="
  | .bitAnd => "&"
  | .bitXor => "^"
  | .bitOr => "|"

def ofSymbol? (s : String) : Option BinaryOp := all.find? (·.symbol == s)

/-- Operators of a higher level bind tighter; those of one level group from the left. -/
def level : BinaryOp → Nat
  | .mul | .div | .rem => 7
  | .add | .sub => 6
  | .shl | .shr | .ushr => 5
  | .lt | .gt | .le | .ge => 4
  | .eq | .ne => 3
  | .bitAnd => 2
  | .bitXor => 1
  | .bitOr => 0

def isComparison : BinaryOp → Bool
  | .lt | .gt | .le | .ge | .eq | .ne => true
  | _ => false

def isShift : BinaryOp → Bool
  | .shl | .shr | .ushr => true
  | _ => false

end BinaryOp

end Classwright.Source
