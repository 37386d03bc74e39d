import Classwright.ClassFile.Bytes
import Mathlib.Algebra.GroupWithZero.Nat
import Mathlib.Tactic.Common

/-! # Reading what was written

A reader that takes exactly the bytes of what it reads, from the front of whatever begins with them. Such readers can
follow each other. -/

namespace Classwright

/-! ### Numbers -/

namespace Bytes

@[simp] theorem length_word (width n : Nat) : (word width n).length = width := by
  induction width generalizing n with
  | zero => rfl
  | succ width ih => simp [word, ih]

theorem word_add (high low n : Nat) : word (high + low) n = word high (n / 256 ^ low) ++ word low n := by
  induction low generalizing n with
  | zero => simp [word]
  | succ low ih =>
    rw [← Nat.add_assoc, word, ih, word, Nat.div_div_eq_div_mul, ← Nat.pow_succ', List.append_assoc]

theorem value_word (width n : Nat) : value (word width n) = n % 256 ^ width := by
  induction width generalizing n with
  | zero => simp [word, value, Nat.mod_one]
  | succ width ih =>
    have hlast : value (word (width + 1) n) = 256 * value (word width (n / 256)) + n.toUInt8.toNat := by
      simp [word, value]
    rw [hlast, ih, Nat.pow_succ', Nat.mod_mul, Nat.toUInt8_eq, UInt8.toNat_ofNat']
    omega

end Bytes

/-! ### Readers -/

namespace Reader
variable {α β : Type} {bytes bytes' : Bytes} {a : α}

/-- The reader takes the bytes from the front of whatever begins with them. -/
def Reads (r : Reader α) (bytes : Bytes) (a : α) : Prop :=
  ∀ rest offset, r ⟨bytes ++ rest, offset⟩ = .ok (a, ⟨rest, offset + bytes.length⟩)

namespace Reads

theorem pure (a : α) : Reads (pure a) [] a := fun _ _ => rfl

theorem bind {r : Reader α} {k : α → Reader β} {c : β} (hr : Reads r bytes a) (hk : Reads (k a) bytes' c) :
    Reads (r >>= k) (bytes ++ bytes') c := by
  intro rest offset
  have hbind : (r >>= k) ⟨bytes ++ bytes' ++ rest, offset⟩ =
      r ⟨bytes ++ bytes' ++ rest, offset⟩ >>= fun x => k x.1 x.2 := rfl
  rw [hbind, List.append_assoc, hr, List.length_append, ← Nat.add_assoc]
  exact hk rest _

/-- What was read decides the rest, for which no more bytes are taken. -/
theorem last {r : Reader α} {k : α → Reader β} {c : β} (hr : Reads r bytes a) (hk : Reads (k a) [] c) :
    Reads (r >>= k) bytes c := by
  rw [← List.append_nil bytes]
  exact hr.bind hk

theorem map {r : Reader α} {f : α → β} (hr : Reads r bytes a) : Reads (do return f (← r)) bytes (f a) :=
  hr.last (pure (f a))

theorem ofExcept {x : Except FormatError α} (h : x = .ok a) : Reads (ofExcept x) [] a := by
  subst h
  exact fun _ _ => rfl

theorem take (bytes : Bytes) : Reads (take bytes.length) bytes bytes := by
  intro rest offset
  simp [Reader.take]

theorem word (width n : Nat) : Reads (word width) (Bytes.word width n) (n % 256 ^ width) := by
  have h : Reads (Reader.word (Bytes.word width n).length) (Bytes.word width n) (Bytes.value (Bytes.word width n)) :=
    (take _).map
  rwa [Bytes.length_word, Bytes.value_word] at h

theorem u1 (n : Nat) : Reads u1 (Bytes.u1 n) n.toUInt8 := by
  have h : Reads Reader.u1 (Bytes.u1 n) (n % 256 ^ 1).toUInt8 := (word 1 n).map
  have hn : (n % 256 ^ 1).toUInt8 = n.toUInt8 := UInt8.toNat_inj.mp (by simp)
  rwa [hn] at h

theorem u2 (n : Nat) : Reads u2 (Bytes.u2 n) n.toUInt16 := by
  have h : Reads Reader.u2 (Bytes.u2 n) (n % 256 ^ 2).toUInt16 := (word 2 n).map
  have hn : (n % 256 ^ 2).toUInt16 = n.toUInt16 := UInt16.toNat_inj.mp (by simp)
  rwa [hn] at h

theorem u4 {n : Nat} (h : n < 2 ^ 32) : Reads u4 (Bytes.u4 n) n := by
  have hread := word 4 n
  rwa [Nat.mod_eq_of_lt (Nat.lt_of_lt_of_eq h (by decide))] at hread

theorem tag (t : UInt8) : Reads Reader.u1 (Bytes.u1 t.toNat) t := by
  have h := u1 t.toNat
  rwa [Nat.toUInt8_eq, UInt8.ofNat_toNat] at h

theorem index (i : UInt16) : Reads Reader.u2 (Bytes.u2 i.toNat) i := by
  have h := u2 i.toNat
  rwa [Nat.toUInt16_eq, UInt16.ofNat_toNat] at h

theorem many_cons {item : Reader α} {n : Nat} {as : List α} (h : Reads item bytes a)
    (hs : Reads (many item n) bytes' as) : Reads (many item (n + 1)) (bytes ++ bytes') (a :: as) :=
  h.bind hs.map

theorem counted {item : Reader α} {n : Nat} {as : List α} (hn : n ≤ 65535) (h : Reads (many item n) bytes as) :
    Reads (counted item) (Bytes.u2 n ++ bytes) as := by
  have hread : n.toUInt16.toNat = n := by simp; omega
  refine (u2 n).bind ?_
  rwa [hread]

/-- What follows the bytes makes no difference. -/
theorem onBytes_append {r : Reader α} (h : Reads r bytes a) (rest : Bytes) : r.onBytes (bytes ++ rest) = .ok a :=
  congrArg (Except.map _) (h rest 0)

theorem onBytes {r : Reader α} (h : Reads r bytes a) : r.onBytes bytes = .ok a := by
  rw [← List.append_nil bytes]
  exact h.onBytes_append []

end Reads

end Reader

end Classwright
