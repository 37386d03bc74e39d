/-! # Modified UTF-8

Class files hold text as UTF-16 units, each in one to three bytes; the unit zero takes two bytes, so that no byte of
an encoding is zero. Reading checks the lead byte of each unit and the pairing of surrogates. -/

namespace Classwright.Text

/-- The UTF-16 units of a character. -/
def units (c : Char) : List Nat :=
  let n := c.toNat
  if n < 0x10000 then [n] else [0xd800 + (n - 0x10000) / 0x400, 0xdc00 + (n - 0x10000) % 0x400]

/-- The bytes of one unit. -/
def encodeUnit (u : Nat) : List UInt8 :=
  if u ≠ 0 ∧ u < 0x80 then [u.toUInt8]
  else if u < 0x800 then [(0xc0 + u / 64).toUInt8, (0x80 + u % 64).toUInt8]
  else [(0xe0 + u / 4096).toUInt8, (0x80 + u / 64 % 64).toUInt8, (0x80 + u % 64).toUInt8]

def encodeModifiedUtf8 (s : String) : List UInt8 := (s.toList.flatMap units).flatMap encodeUnit

/-- The units of a byte string in front of `acc` reversed, or `none` when a lead byte is out of place or a unit is
    cut off. Of a continuation byte only the low six bits are read. -/
def decodeUnits (acc : List Nat) : List UInt8 → Option (List Nat)
  | [] => some acc.reverse
  | a :: rest =>
    let n := a.toNat
    if n < 0x80 then decodeUnits (n :: acc) rest
    else if 0xc0 ≤ n ∧ n < 0xe0 then
      match rest with
      | b :: rest => decodeUnits ((n % 32 * 64 + b.toNat % 64) :: acc) rest
      | [] => none
    else if 0xe0 ≤ n ∧ n < 0xf0 then
      match rest with
      | b :: c :: rest => decodeUnits ((n % 16 * 4096 + b.toNat % 64 * 64 + c.toNat % 64) :: acc) rest
      | _ => none
    else none

/-- The characters of a sequence of units behind `acc` reversed, or `none` when a surrogate has no partner. -/
def charsOfUnits (acc : List Char) : List Nat → Option (List Char)
  | [] => some acc.reverse
  | u :: rest =>
    if u < 0xd800 ∨ 0xe000 ≤ u then charsOfUnits (Char.ofNat u :: acc) rest
    else if 0xdc00 ≤ u then none
    else
      match rest with
      | v :: rest =>
        if 0xdc00 ≤ v ∧ v < 0xe000 then
          charsOfUnits (Char.ofNat (0x10000 + (u - 0xd800) * 0x400 + (v - 0xdc00)) :: acc) rest
        else none
      | [] => none

def decodeModifiedUtf8? (bytes : List UInt8) : Option String :=
  (decodeUnits [] bytes).bind fun us => (charsOfUnits [] us).map String.ofList

end Classwright.Text
