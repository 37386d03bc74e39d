import Classwright.Lowering.Context

/-! # Unary operators and conversions

A conversion is between numbers, from a class to a class, from `int` to a type that is only carried about or back, or
between arrays of objects. There is no other. -/

namespace Classwright

/-- The instruction that turns one numeric type into another; none if they are the same. -/
def Prim.convertOp? : Prim → Prim → Option Opcode
  | .int, .long => some .i2l
  | .int, .float => some .i2f
  | .int, .double => some .i2d
  | .long, .int => some .l2i
  | .long, .float => some .l2f
  | .long, .double => some .l2d
  | .float, .int => some .f2i
  | .float, .long => some .f2l
  | .float, .double => some .f2d
  | .double, .int => some .d2i
  | .double, .long => some .d2l
  | .double, .float => some .d2f
  | _, _ => none

/-- What turns an `int` into a type that is only carried about. -/
def Prim.narrowCode? : Prim → Option (List Instr)
  | .bool => some []
  | .byte => some [.op .i2b]
  | .char => some [.op .i2c]
  | .short => some [.op .i2s]
  | _ => none

/-- The code of a conversion, if there is one. -/
def Ty.convertCode? : Ty → Ty → Option (List Instr)
  | ⟨.cls _, true⟩, ⟨.cls name, true⟩ => some [.type .checkcast (Ty.descriptor ⟨.cls name, true⟩)]
  | ⟨.cls _, false⟩, ⟨.cls name, false⟩ => some [.type .checkcast name]
  | ⟨.prim p, false⟩, ⟨.prim q, false⟩ =>
    if p.isNumeric && q.isNumeric then some ((p.convertOp? q).toList.map .op)
    else if p.isOpaque && q = .int then some []
    else if p = .int then q.narrowCode?
    else none
  | _, _ => none

def Prim.negateOp? : Prim → Option Opcode
  | .int => some .ineg
  | .long => some .lneg
  | .float => some .fneg
  | .double => some .dneg
  | _ => none

/-- Applies a unary operator to the value on the stack. -/
def lowerUnary (c : Context) (t : Ty) (op : Source.UnaryOp) (site : Span) : EmitM Ty := do
  match op with
  | .neg =>
    match t.numeric?.bind (·.negateOp?) with
    | some o =>
      EmitM.op o
      return t
    | none => throw (.typeMismatch (.notNegatable t) site)
  | .not =>
    EmitM.expectCondition t site
    modify (·.branchValue .ifeq true)
    return .int
  | .convert target =>
    let target ← c.resolveType target
    match t.convertCode? target with
    | some code =>
      EmitM.emitAll code
      return target
    | none => throw (.invalidConversion t.text target.text site)

/-- Applies unary operators in order. -/
def lowerUnaries (c : Context) (site : Span) : Ty → List Source.UnaryOp → EmitM Ty
  | t, [] => return t
  | t, op :: rest => do
    let t ← lowerUnary c t op site
    lowerUnaries c site t rest

end Classwright
