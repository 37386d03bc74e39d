import Classwright.Number.Binary

/-! # Reading numbers

Whole numbers take an optional sign and decimal digits. Floating point numbers take an optional sign, then a word
for infinity or NaN in any case, or digits with at most one point and an optional exponent; the result is the
nearest value of the format, ties to even. -/

namespace Classwright.Reading

/-- The value of a nonempty run of decimal digits. -/
def digits? (cs : List Char) : Option Nat :=
  if cs.isEmpty || !cs.all Char.isDigit then none
  else some (cs.foldl (fun n c => 10 * n + (c.toNat - '0'.toNat)) 0)

/-- An optional sign, and what follows it. -/
def sign : List Char → Bool × List Char
  | '-' :: rest => (true, rest)
  | '+' :: rest => (false, rest)
  | cs => (false, cs)

/-- A signed whole number. -/
def int? (cs : List Char) : Option Int :=
  let (negative, rest) := sign cs
  (digits? rest).map fun n => if negative then -(n : Int) else n

/-- A signed whole number from `lo` to `hi`. -/
def intIn? (lo hi : Int) (text : String) : Option Int :=
  (int? text.toList).filter fun n => lo ≤ n && n ≤ hi

def int32? (text : String) : Option Int32 := (intIn? (-2147483648) 2147483647 text).map Int32.ofInt

def int64? (text : String) : Option Int64 :=
  (intIn? (-9223372036854775808) 9223372036854775807 text).map Int64.ofInt

/-- A whole number with an optional plus sign, at most `hi`. -/
def natUpTo? (hi : Nat) (text : String) : Option Nat :=
  let digits := match text.toList with
    | '+' :: rest => rest
    | cs => cs
  (digits? digits).filter (· ≤ hi)

/-- The exponent of the greatest power of two that is at most `num / den`. -/
def floorLog2 (num den : Nat) : Int :=
  let e := (num.log2 : Int) - den.log2
  if num * Nat.pow 2 (-e).toNat < den * Nat.pow 2 e.toNat then e - 1 else e

/-- The whole number nearest to `num / den`, ties to even. -/
def divNearest (num den : Nat) : Nat :=
  let q := num / den
  let r := num % den
  if 2 * r < den then q
  else if den < 2 * r then q + 1
  else if q % 2 = 0 then q else q + 1

/-- The bit pattern, without its sign, of the value nearest to `num / den`. -/
def roundFraction (f : BinaryFormat) (num den : Nat) : Nat :=
  if num = 0 then 0
  else
    let q := max (floorLog2 num den - f.fractionBits) f.leastExponent
    let m := divNearest (num * Nat.pow 2 (-q).toNat) (den * Nat.pow 2 q.toNat)
    min ((q - f.leastExponent).toNat * Nat.pow 2 f.fractionBits + m) f.infinityBits

/-- The bit pattern, without its sign, of the value nearest to `n · 10 ^ e`. Beyond `10 ^ 400` every format is at
    infinity, and below `10 ^ -400` at zero. -/
def roundDecimal (f : BinaryFormat) (n : Nat) (e : Int) : Nat :=
  let top := (Nat.toDigits 10 n).length + e
  if n = 0 ∨ top < -400 then 0
  else if 400 < top then f.infinityBits
  else roundFraction f (n * Nat.pow 10 e.toNat) (Nat.pow 10 (-e).toNat)

/-- Splits off the exponent: what stands before the first `e` or `E`, and its value. -/
def splitExponent (cs : List Char) : Option (List Char × Int) :=
  let isMark (c : Char) : Bool := c == 'e' || c == 'E'
  let before := cs.takeWhile (! isMark ·)
  match cs.dropWhile (! isMark ·) with
  | [] => some (before, 0)
  | _ :: rest => (int? rest).map (before, ·)

/-- The digits on both sides of an optional point, with the number of places after it. -/
def mantissa? (cs : List Char) : Option (Nat × Nat) :=
  let whole := cs.takeWhile (· != '.')
  let places := (cs.dropWhile (· != '.')).drop 1
  (digits? (whole ++ places)).map (·, places.length)

/-- The bit pattern of an unsigned number. -/
def magnitude? (f : BinaryFormat) (cs : List Char) : Option Nat :=
  let word := String.ofList (cs.map Char.toLower)
  if word = "inf" ∨ word = "infinity" then some f.infinityBits
  else if word = "nan" then some f.nanBits
  else do
    let (body, e) ← splitExponent cs
    let (n, places) ← mantissa? body
    some (roundDecimal f n (e - places))

/-- The bit pattern of a floating point number. -/
def floatBits? (f : BinaryFormat) (text : String) : Option Nat :=
  let (negative, rest) := sign text.toList
  (magnitude? f rest).map fun bits => if negative then f.signBit + bits else bits

def binary32? (text : String) : Option Binary32 := (floatBits? .single text).map fun n => ⟨n.toUInt32⟩

def binary64? (text : String) : Option Binary64 := (floatBits? .double text).map fun n => ⟨n.toUInt64⟩

end Classwright.Reading
