import Classwright.Number.Binary

/-! # Shortest decimals

The shortest decimal of a floating point value has the fewest digits that still read back as that value; of the
decimals of that length it is the nearest one, and a tie goes up. Everything is exact: a value, the two ends of the
interval that rounds to it and the decimal grid are fractions of natural numbers. -/

namespace Classwright

/-- The decimal `digits · 10 ^ exponent`. -/
structure Decimal where
  digits : Nat
  exponent : Int
deriving DecidableEq, Repr

namespace Decimal

/-- Drops trailing zeros of the digits; `fuel` bounds their number. -/
def trimZeros (d : Decimal) : Nat → Decimal
  | 0 => d
  | fuel + 1 => if d.digits ≠ 0 ∧ d.digits % 10 = 0 then trimZeros ⟨d.digits / 10, d.exponent + 1⟩ fuel else d

end Decimal

namespace Shortest

/-- A finite positive value as `value / den`, with the ends `low / den` and `high / den` of the interval of reals
    that round to it. The ends belong to the interval exactly when `closed`. -/
structure Interval where
  low : Nat
  value : Nat
  high : Nat
  den : Nat
  closed : Bool

/-- The interval of `m · 2 ^ q`. Below a power of two the neighbour is only half as far away, unless it is
    subnormal. -/
def Interval.of (f : BinaryFormat) (m : Nat) (q : Int) : Interval :=
  let gap := if m = Nat.pow 2 f.fractionBits ∧ f.leastExponent < q then 1 else 2
  let up := Nat.pow 2 (q - 2).toNat
  { low := (4 * m - gap) * up
    value := 4 * m * up
    high := (4 * m + 2) * up
    den := Nat.pow 2 (2 - q).toNat
    closed := m % 2 == 0 }

/-- Scales the interval by `10 ^ (-e)`, so that the decimals with exponent `e` become the whole numbers. -/
def Interval.scale (i : Interval) (e : Int) : Interval :=
  let up := Nat.pow 10 (-e).toNat
  { i with low := i.low * up, value := i.value * up, high := i.high * up, den := i.den * Nat.pow 10 e.toNat }

def Interval.contains (i : Interval) (n : Nat) : Bool :=
  if i.closed then i.low ≤ n * i.den && n * i.den ≤ i.high else i.low < n * i.den && n * i.den < i.high

/-- The whole number the interval's value is rounded to: one of its two neighbours that lies in the interval. -/
def Interval.nearest? (i : Interval) : Option Nat :=
  let down := i.value / i.den
  let rest := i.value % i.den
  let up := down + 1
  if i.contains down && i.contains up then
    if 2 * rest < i.den then some down else some up
  else if i.contains down then some down
  else if i.contains up then some up
  else none

/-- Raises `e` until the value is below `10 ^ e`. -/
def raise (num den : Nat) : Nat → Int → Int
  | 0, e => e
  | fuel + 1, e => if num * Nat.pow 10 (-e).toNat < den * Nat.pow 10 e.toNat then e else raise num den fuel (e + 1)

/-- The least `e` with `num / den < 10 ^ e`: an estimate from the binary logarithms, at most three too small, is
    raised. -/
def decade (num den : Nat) : Int :=
  raise num den 4 ((((num.log2 : Int) - den.log2 - 1) * 1233).fdiv 4096 - 1)

/-- Tries grids of one more digit each until one holds a decimal of the interval. -/
def search (i : Interval) (top : Int) : Nat → Nat → Decimal
  | 0, n => ⟨i.value * Nat.pow 10 (n - top).toNat / (i.den * Nat.pow 10 (top - n).toNat), top - n⟩
  | fuel + 1, n =>
    match (i.scale (top - n)).nearest? with
    | some d => ⟨d, top - n⟩
    | none => search i top fuel (n + 1)

end Shortest

/-- The shortest decimal of `m · 2 ^ q` in the format `f`. Seventeen digits are enough for every format of up to
    64 bits. -/
def Decimal.shortest (f : BinaryFormat) (m : Nat) (q : Int) : Decimal :=
  if m = 0 then ⟨0, 0⟩
  else
    let i := Shortest.Interval.of f m q
    (Shortest.search i (Shortest.decade i.value i.den) 18 1).trimZeros 20

end Classwright
