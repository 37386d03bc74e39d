import Classwright.Number.Shortest

/-! # Written floating point values

A value is written by its shortest decimal. The two styles differ in whether a whole number keeps a fraction and in
whether very large and very small values take an exponent. -/

namespace Classwright

/-- How a floating point value is written. -/
structure NumberStyle where
  /-- A whole number is followed by `.0`. -/
  keepsPoint : Bool
  /-- Values of at least `10 ^ 16` and nonzero values below `10 ^ -4` take an exponent. -/
  takesExponent : Bool

namespace NumberStyle

/-- Positional notation only, with no needless fraction. -/
def plain : NumberStyle := ⟨false, false⟩

/-- The notation of constants: a fraction or an exponent shows that the number is a floating point one. -/
def constant : NumberStyle := ⟨true, true⟩

private def zeros (n : Nat) : List Char := List.replicate n '0'

/-- Positional notation of `0.ds · 10 ^ point`. -/
def positional (style : NumberStyle) (ds : List Char) (point : Int) : List Char :=
  if point ≤ 0 then '0' :: '.' :: (zeros (-point).toNat ++ ds)
  else if (ds.length : Int) ≤ point then
    ds ++ zeros (point.toNat - ds.length) ++ (if style.keepsPoint then ['.', '0'] else [])
  else ds.take point.toNat ++ '.' :: ds.drop point.toNat

/-- Exponent notation of `0.ds · 10 ^ point`. -/
def scientific (ds : List Char) (point : Int) : List Char :=
  match ds with
  | [] => []
  | d :: rest => d :: ((if rest.isEmpty then [] else '.' :: rest) ++ 'e' :: (toString (point - 1)).toList)

/-- The text of a decimal without its sign. -/
def decimal (style : NumberStyle) (d : Decimal) : List Char :=
  let ds := (toString d.digits).toList
  let point := ds.length + d.exponent
  if d.digits = 0 then '0' :: (if style.keepsPoint then ['.', '0'] else [])
  else if style.takesExponent ∧ (17 ≤ point ∨ point ≤ -4) then scientific ds point
  else style.positional ds point

/-- The text of a value of the format `f`. -/
def write (style : NumberStyle) (f : BinaryFormat) : BinaryValue → String
  | .nan => "NaN"
  | .infinite negative => if negative then "-inf" else "inf"
  | .finite negative m q =>
    String.ofList ((if negative then ['-'] else []) ++ style.decimal (Decimal.shortest f m q))

end NumberStyle

def Binary32.write (x : Binary32) (style : NumberStyle) : String := style.write .single x.value

def Binary64.write (x : Binary64) (style : NumberStyle) : String := style.write .double x.value

end Classwright
