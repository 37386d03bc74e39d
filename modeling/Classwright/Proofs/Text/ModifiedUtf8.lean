import Classwright.Text.ModifiedUtf8
import Mathlib.Tactic.Common

/-! # Reading text back

Every text can be told from its encoding: the bytes of a unit give the unit back, and the units of a character the
character. -/

namespace Classwright.Text

theorem decodeUnits_encodeUnit {u : Nat} (h : u < 0x10000) (acc : List Nat) (rest : List UInt8) :
    decodeUnits acc (encodeUnit u ++ rest) = decodeUnits (u :: acc) rest := by
  unfold encodeUnit
  split
  · rename_i hu
    have hn : u.toUInt8.toNat = u := by simp; omega
    rw [List.singleton_append, decodeUnits.eq_def]
    simp only [hn, hu.2, if_true]
  · split
    · -- Two bytes: the lead byte holds the upper five bits.
      have hlead : (0xc0 + u / 64).toUInt8.toNat = 0xc0 + u / 64 := by simp; omega
      have hlow : (0x80 + u % 64).toUInt8.toNat = 0x80 + u % 64 := by simp; omega
      rw [List.cons_append, List.singleton_append, decodeUnits.eq_def]
      simp only [hlead, hlow]
      rw [if_neg (by omega), if_pos (by omega)]
      congr 2
      omega
    · have hlead : (0xe0 + u / 4096).toUInt8.toNat = 0xe0 + u / 4096 := by simp; omega
      have hmid : (0x80 + u / 64 % 64).toUInt8.toNat = 0x80 + u / 64 % 64 := by simp; omega
      have hlow : (0x80 + u % 64).toUInt8.toNat = 0x80 + u % 64 := by simp; omega
      rw [List.cons_append, List.cons_append, List.singleton_append, decodeUnits.eq_def]
      simp only [hlead, hmid, hlow]
      rw [if_neg (by omega), if_neg (by omega), if_pos (by omega)]
      congr 2
      omega

theorem decodeUnits_flatMap {us : List Nat} (h : ∀ u ∈ us, u < 0x10000) (acc : List Nat) :
    decodeUnits acc (us.flatMap encodeUnit) = some (acc.reverse ++ us) := by
  induction us generalizing acc with
  | nil => simp [decodeUnits]
  | cons u us ih =>
    rw [List.forall_mem_cons] at h
    rw [List.flatMap_cons, decodeUnits_encodeUnit h.1, ih h.2]
    simp

/-- Surrogates are no characters. -/
theorem toNat_range (c : Char) : c.toNat < 0xd800 ∨ 0xe000 ≤ c.toNat ∧ c.toNat < 0x110000 := by
  rcases c.valid with h | ⟨h, h'⟩
  · exact .inl h
  · exact .inr ⟨h, h'⟩

theorem units_lt {c : Char} {u : Nat} (h : u ∈ units c) : u < 0x10000 := by
  have hc := toNat_range c
  unfold units at h
  dsimp only at h
  split at h
  · rw [List.mem_singleton] at h
    omega
  · simp only [List.mem_cons, List.not_mem_nil, or_false] at h
    omega

theorem charsOfUnits_units (acc : List Char) (c : Char) (rest : List Nat) :
    charsOfUnits acc (units c ++ rest) = charsOfUnits (c :: acc) rest := by
  have hc := toNat_range c
  unfold units
  dsimp only
  split
  · rw [List.singleton_append, charsOfUnits.eq_def]
    dsimp only
    rw [if_pos (by omega), Char.ofNat_toNat]
  · -- The first of two units is a high surrogate, and the second a low one.
    rw [List.cons_append, List.singleton_append, charsOfUnits.eq_def]
    dsimp only
    rw [if_neg (by omega), if_neg (by omega), if_pos (by omega)]
    have hn : 0x10000 + (0xd800 + (c.toNat - 0x10000) / 0x400 - 0xd800) * 0x400 +
        (0xdc00 + (c.toNat - 0x10000) % 0x400 - 0xdc00) = c.toNat := by omega
    rw [hn, Char.ofNat_toNat]

theorem charsOfUnits_flatMap (acc cs : List Char) :
    charsOfUnits acc (cs.flatMap units) = some (acc.reverse ++ cs) := by
  induction cs generalizing acc with
  | nil => simp [charsOfUnits]
  | cons c cs ih =>
    rw [List.flatMap_cons, charsOfUnits_units, ih]
    simp

theorem unit_lt {s : String} {u : Nat} (h : u ∈ s.toList.flatMap units) : u < 0x10000 := by
  obtain ⟨c, -, hu⟩ := List.mem_flatMap.mp h
  exact units_lt hu

theorem decodeModifiedUtf8?_encode (s : String) : decodeModifiedUtf8? (encodeModifiedUtf8 s) = some s := by
  rw [decodeModifiedUtf8?, encodeModifiedUtf8, decodeUnits_flatMap fun _ => unit_lt, Option.bind_some, List.reverse_nil,
    List.nil_append, charsOfUnits_flatMap]
  simp

/-! ### The bytes of an encoding -/

/-- A lead byte has at most three high bits, and no byte is zero: the unit zero takes two. -/
theorem encodeUnit_range {u : Nat} (h : u < 0x10000) {b : UInt8} (hb : b ∈ encodeUnit u) :
    0 < b.toNat ∧ b.toNat < 0xf0 := by
  unfold encodeUnit at hb
  split at hb
  · rename_i hu
    obtain rfl := List.mem_singleton.mp hb
    have hn : u.toUInt8.toNat = u := by simp; omega
    omega
  · split at hb
    · have hlead : (0xc0 + u / 64).toUInt8.toNat = 0xc0 + u / 64 := by simp; omega
      have hlow : (0x80 + u % 64).toUInt8.toNat = 0x80 + u % 64 := by simp; omega
      simp only [List.mem_cons, List.not_mem_nil, or_false] at hb
      rcases hb with rfl | rfl <;> omega
    · have hlead : (0xe0 + u / 4096).toUInt8.toNat = 0xe0 + u / 4096 := by simp; omega
      have hmid : (0x80 + u / 64 % 64).toUInt8.toNat = 0x80 + u / 64 % 64 := by simp; omega
      have hlow : (0x80 + u % 64).toUInt8.toNat = 0x80 + u % 64 := by simp; omega
      simp only [List.mem_cons, List.not_mem_nil, or_false] at hb
      rcases hb with rfl | rfl | rfl <;> omega

/-- Every text is read back from its encoding, in which no byte is zero and none has all four high bits. -/
theorem encoded_text_reads_back (s : String) :
    decodeModifiedUtf8? (encodeModifiedUtf8 s) = some s ∧ ∀ b ∈ encodeModifiedUtf8 s, b ≠ 0 ∧ b >>> 4 ≠ 0b1111 := by
  refine ⟨decodeModifiedUtf8?_encode s, fun b hb => ?_⟩
  obtain ⟨u, hu, hb⟩ := List.mem_flatMap.mp hb
  obtain ⟨hpos, hlt⟩ := encodeUnit_range (unit_lt hu) hb
  constructor
  · rintro rfl
    exact absurd hpos (Nat.lt_irrefl 0)
  · intro hhigh
    have hshift : b.toNat / 16 = 15 := by
      rw [← Nat.shiftRight_eq_div_pow b.toNat 4]
      exact congrArg UInt8.toNat hhigh
    omega

end Classwright.Text
