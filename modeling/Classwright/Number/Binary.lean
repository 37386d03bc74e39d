/-! # Binary floating point values

A floating point constant is held by its bit pattern, so that two constants are the same exactly when their
patterns are. A pattern is read through its interchange format: the sign, then the exponent field, then the
fraction. -/

namespace Classwright

/-- A binary interchange format, given by the widths of its two fields. -/
structure BinaryFormat where
  exponentBits : Nat
  fractionBits : Nat
deriving DecidableEq, Repr

/-- What a bit pattern stands for. A finite value is `mantissa · 2 ^ exponent`. -/
inductive BinaryValue where
  | nan
  | infinite (negative : Bool)
  | finite (negative : Bool) (mantissa : Nat) (exponent : Int)
deriving DecidableEq, Repr

namespace BinaryFormat

def single : BinaryFormat := ⟨8, 23⟩

def double : BinaryFormat := ⟨11, 52⟩

/-- The exponent field of infinities and NaNs. -/
def specialExponent (f : BinaryFormat) : Nat := Nat.pow 2 f.exponentBits - 1

/-- The exponent of the last place of a subnormal value, which is the least of all. -/
def leastExponent (f : BinaryFormat) : Int :=
  2 - (Nat.pow 2 (f.exponentBits - 1) : Nat) - (f.fractionBits : Int)

def signBit (f : BinaryFormat) : Nat := Nat.pow 2 (f.exponentBits + f.fractionBits)

def exponentField (f : BinaryFormat) (bits : Nat) : Nat := bits / Nat.pow 2 f.fractionBits % Nat.pow 2 f.exponentBits

def fractionField (f : BinaryFormat) (bits : Nat) : Nat := bits % Nat.pow 2 f.fractionBits

/-- The pattern of positive infinity. -/
def infinityBits (f : BinaryFormat) : Nat := f.specialExponent * Nat.pow 2 f.fractionBits

/-- The pattern of the quiet NaN with no payload. -/
def nanBits (f : BinaryFormat) : Nat := f.infinityBits + Nat.pow 2 (f.fractionBits - 1)

def isNegative (f : BinaryFormat) (bits : Nat) : Bool := bits / f.signBit % 2 == 1

/-- The value of a bit pattern. -/
def decode (f : BinaryFormat) (bits : Nat) : BinaryValue :=
  let e := f.exponentField bits
  let frac := f.fractionField bits
  if e = f.specialExponent then
    if frac = 0 then .infinite (f.isNegative bits) else .nan
  else if e = 0 then .finite (f.isNegative bits) frac f.leastExponent
  else .finite (f.isNegative bits) (Nat.pow 2 f.fractionBits + frac) (f.leastExponent + (e - 1 : Nat))

end BinaryFormat

/-- A 32-bit floating point constant. -/
structure Binary32 where
  bits : UInt32
deriving DecidableEq, Hashable, Repr, Inhabited

/-- A 64-bit floating point constant. -/
structure Binary64 where
  bits : UInt64
deriving DecidableEq, Hashable, Repr, Inhabited

namespace BinaryValue

/-- Numeric equality: no NaN equals anything, and the two zeros are equal. -/
def numEq : BinaryValue → BinaryValue → Bool
  | .infinite a, .infinite b => a == b
  | .finite a m p, .finite b n q => (m == 0 && n == 0) || (a == b && m == n && p == q)
  | _, _ => false

end BinaryValue

def Binary32.value (x : Binary32) : BinaryValue := BinaryFormat.single.decode x.bits.toNat

def Binary64.value (x : Binary64) : BinaryValue := BinaryFormat.double.decode x.bits.toNat

end Classwright
