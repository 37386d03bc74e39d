import Classwright.Proofs.ClassFile.Disassembly

/-! # The bytes of a method, instruction by instruction

Each live instruction takes the bytes that it is encoded to, and these tell it from all others by their offset. Marks and
dead instructions take none. -/

namespace Classwright

open Assembly PoolM Encoding

namespace PoolM
variable {α β : Type} {P : α → Prop}

/-- Results are as `P` says, whatever the pool holds. -/
def Yields (P : α → Prop) (x : PoolM α) : Prop := ∀ b a b', x.on b = (.ok a, b') → P a

namespace Yields

theorem pure {a : α} (h : P a) : Yields P (Pure.pure a) := by
  rintro b _ b' ⟨⟩
  exact h

theorem bind {x : PoolM β} {k : β → PoolM α} (h : ∀ c, Yields P (k c)) : Yields P (x >>= k) := by
  intro b a b' hon
  obtain ⟨c, b₁, -, hk⟩ := on_bind_eq_ok.mp hon
  exact h c b₁ a b' hk

theorem ite {p : Prop} [Decidable p] {x y : PoolM α} (hx : Yields P x) (hy : Yields P y) :
    Yields P (if p then x else y) := by
  split
  · exact hx
  · exact hy

theorem lift {x : Except FormatError α} (h : ∀ a, x = .ok a → P a) : Yields P (PoolM.lift x) :=
  fun _ a _ hon => h a (on_lift_eq_ok.mp hon).1

end Yields

end PoolM

/-- Only marks stand for nothing. -/
theorem Instr.encode_ne_nil {instr : Instr} (hm : instr.isMark = false) (pc : Nat)
    (target : Label → Except FormatError Nat) : (instr.encode pc target).Yields (· ≠ []) := by
  have hcons {byte : UInt8} {bytes : Bytes} : (Pure.pure (byte :: bytes) : PoolM Bytes).Yields (· ≠ []) :=
    .pure (List.cons_ne_nil _ _)
  have hpool (i : UInt16) : (Pure.pure (poolLoad i) : PoolM Bytes).Yields (· ≠ []) := by
    unfold poolLoad
    split <;> exact hcons
  have hlocal (ops : Opcode × Opcode) (slot : UInt16) :
      (Pure.pure (localAccess ops slot) : PoolM Bytes).Yields (· ≠ []) := by
    unfold localAccess
    split
    · exact hcons
    · split <;> exact hcons
  cases instr with
  | op o => exact hcons
  | int v => exact .ite hcons (.ite hcons (.ite hcons (.bind hpool)))
  | long v => exact .ite hcons (.ite hcons (.bind fun _ => hcons))
  | float v =>
    simp only [encode]
    split
    · exact hcons
    · exact .bind hpool
  | double v =>
    simp only [encode]
    split
    · exact hcons
    · exact .bind fun _ => hcons
  | str s => exact .bind hpool
  | cls c => exact .bind hpool
  | load kind slot => exact hlocal _ slot
  | store kind slot => exact hlocal _ slot
  | jump o l => exact .bind fun t => .lift fun _ h => List.ne_nil_of_length_pos (length_branch h ▸ by decide)
  | field o m => exact .bind fun _ => hcons
  | invoke o m => exact .bind fun _ => .ite (.bind fun _ => hcons) hcons
  | type o c => exact .bind fun _ => hcons
  | mark l => cases hm

namespace Assembly

/-- Where the bytes of an instruction begin. -/
def start (codes : List Bytes) (i : Nat) : Nat := (codes.take i).flatten.length

section Start
variable {codes : List Bytes} {i j : Nat}

theorem start_succ {code : Bytes} (h : codes[i]? = some code) : start codes (i + 1) = start codes i + code.length := by
  rw [start, List.take_add_one, h, start]
  simp

theorem start_le (h : i ≤ j) : start codes i ≤ start codes j := by
  have hprefix : codes.take i <+: codes.take j := List.take_prefix_take_left h
  obtain ⟨rest, hrest⟩ := hprefix
  rw [start, start, ← hrest]
  simp

theorem lt_of_start_lt (h : start codes i < start codes j) : i < j := by
  by_contra hle
  exact absurd (start_le (Nat.not_lt.mp hle)) (Nat.not_le.mpr h)

theorem start_le_length : start codes i ≤ codes.flatten.length := by
  have hle : start codes i ≤ start codes (codes.length + i) := start_le (Nat.le_add_left i _)
  rwa [start, start, List.take_of_length_le (Nat.le_add_right codes.length i)] at hle

theorem start_eq_sum : start codes i = ((codes.map List.length).take i).sum := by
  rw [start, List.length_flatten, List.map_take]

end Start

/-- The bytes are those of the instructions, one after another. -/
structure Spelled (c : Code) (p : Placement) (flow : Dataflow) (bytes : Bytes) (codes : List Bytes) : Prop where
  flatten : bytes = codes.flatten
  length : codes.length = c.instrs.size
  live : ∀ i instr, c.instrs[i]? = some instr → flow.isLive i = true → ∃ code b b', codes[i]? = some code ∧
    (instr.encode (start codes i) fun l => (p.target l).map (start codes)).on b = (.ok code, b')
  dead : ∀ i instr, c.instrs[i]? = some instr → flow.isLive i = false → codes[i]? = some []

theorem Coded.getElem? {flow : Dataflow} {target : Label → Except FormatError Nat} {offsets : Array Nat}
    {before final : PoolBuilder} {index : Nat} {instrs : List Instr} {codes : List Bytes}
    (h : Coded flow target offsets before final index instrs codes) {i : Nat} {instr : Instr}
    (hi : instrs[i]? = some instr) : ∃ code, codes[i]? = some code ∧
      (flow.isLive (index + i) = true → ∃ b b', (instr.encode (offsets.getD (index + i) 0) target).on b = (.ok code, b')) ∧
      (flow.isLive (index + i) = false → code = []) := by
  induction h generalizing i with
  | nil => cases hi
  | @live index bytes _ _ _ b b' hl _ he _ _ ih =>
    cases i with
    | zero =>
      cases hi
      exact ⟨bytes, rfl, fun _ => ⟨b, b', he⟩, fun hdead => absurd hl (by simpa using hdead)⟩
    | succ i =>
      rw [Nat.add_comm i 1, ← Nat.add_assoc, Nat.add_comm 1 i]
      exact ih hi
  | @dead index _ _ _ hl _ ih =>
    cases i with
    | zero =>
      cases hi
      exact ⟨[], rfl, fun hlive => absurd hl (by simpa using hlive), fun _ => rfl⟩
    | succ i =>
      rw [Nat.add_comm i 1, ← Nat.add_assoc, Nat.add_comm 1 i]
      exact ih hi

/-- Each instruction begins at the offset that was laid out for it. -/
theorem Parts.getD_offsets {c : Code} {m : MethodHead} {stackMaps : Bool} {a : Assembled} {b b' b₁ b₂ : PoolBuilder}
    {p : Placement} {entry : Frame} {flow : Dataflow} {offsets : Array Nat} {size : Nat}
    (parts : Parts c m stackMaps a b b' p entry flow offsets size b₁ b₂) : ∃ codes, Spelled c p flow a.code codes ∧
      a.code.length = size ∧ ∀ i < c.instrs.size, offsets.getD i 0 = start codes i := by
  obtain ⟨sizes, hsized, hoffsets, rfl⟩ := layout_eq_ok parts.sized
  obtain ⟨codes, hcodes, hbytes⟩ := encodeAll_eq_ok (.refl _) parts.coded
  rw [List.reverse_nil, List.flatten_nil, List.nil_append] at hbytes
  rw [Array.toList_empty, List.nil_append] at hoffsets
  have hlengths := hsized.eq_lengths hcodes
  have hstart : ∀ i < c.instrs.size, offsets.getD i 0 = start codes i := fun i hi => by
    have hlt : i < sizes.length := by
      rw [hsized.length, Array.length_toList]
      exact hi
    rw [Array.getD_eq_getD_getElem?, ← Array.getElem?_toList, hoffsets, getElem?_offsetsFrom hlt, Option.getD_some,
      Nat.zero_add, start_eq_sum, hlengths]
  have htarget : offsetOf p offsets = fun l => (p.target l).map (start codes) := by
    funext l
    unfold offsetOf
    cases hl : p.target l with
    | error e => rfl
    | ok j =>
      have hj := hstart j (c.position?_lt parts.placed l j (Placement.target_eq_ok.mp hl))
      rw [ok_bind, hj]
      rfl
  rw [htarget] at hcodes
  have hlength : codes.length = c.instrs.size := by
    rw [← List.length_map List.length, ← hlengths, hsized.length, Array.length_toList]
  refine ⟨codes, ⟨hbytes, hlength, fun i instr hi hl => ?_, fun i instr hi hl => ?_⟩, ?_, hstart⟩
  · obtain ⟨code, hcode, hlive, -⟩ := hcodes.getElem? (by rwa [Array.getElem?_toList])
    rw [Nat.zero_add, hstart i (Array.getElem?_eq_some_iff.mp hi).1] at hlive
    obtain ⟨b, b', he⟩ := hlive hl
    exact ⟨code, b, b', hcode, he⟩
  · obtain ⟨code, hcode, -, hdead⟩ := hcodes.getElem? (by rwa [Array.getElem?_toList])
    rw [Nat.zero_add] at hdead
    rw [hcode, hdead hl]
  · rw [hbytes, List.length_flatten, hlengths, Nat.zero_add]

namespace Spelled
variable {c : Code} {p : Placement} {flow : Dataflow} {bytes : Bytes} {codes : List Bytes} {i j : Nat}

theorem start_lt (h : Spelled c p flow bytes codes) {instr : Instr} (hi : c.instrs[i]? = some instr)
    (hm : instr.isMark = false) (hl : flow.isLive i = true) : start codes i < start codes (i + 1) := by
  obtain ⟨code, b, b', hcode, he⟩ := h.live i instr hi hl
  rw [start_succ hcode]
  exact Nat.lt_add_of_pos_right (List.length_pos_iff.mpr (Instr.encode_ne_nil hm _ _ _ _ _ he))

theorem start_mark (h : Spelled c p flow bytes codes) {l : Label} (hi : c.instrs[i]? = some (.mark l)) :
    start codes (i + 1) = start codes i := by
  cases hl : flow.isLive i with
  | false => rw [start_succ (h.dead i _ hi hl), List.length_nil, Nat.add_zero]
  | true =>
    obtain ⟨code, b, b', hcode, he⟩ := h.live i _ hi hl
    cases he
    rw [start_succ hcode, List.length_nil, Nat.add_zero]

theorem start_landing (h : Spelled c p flow bytes codes) (j : Nat) : start codes (c.landing j) = start codes j := by
  suffices hstart : ∀ n, j + n ≤ c.landing j → start codes (j + n) = start codes j from hstart _ (Nat.le_refl _)
  intro n hn
  induction n with
  | zero => rfl
  | succ n ih =>
    obtain ⟨l, hl⟩ := Code.mark_of_lt_landing (Nat.le_add_right j n) hn
    rw [← Nat.add_assoc, h.start_mark hl, ih (by omega)]

/-- No two live instructions but marks begin at one offset. -/
theorem start_injective (h : Spelled c p flow bytes codes) {instr instr' : Instr} (hi : c.instrs[i]? = some instr)
    (hj : c.instrs[j]? = some instr') (hm : instr.isMark = false) (hm' : instr'.isMark = false)
    (hl : flow.isLive i = true) (hl' : flow.isLive j = true) (heq : start codes i = start codes j) : i = j := by
  have hlt := h.start_lt hi hm hl
  have hlt' := h.start_lt hj hm' hl'
  have hij : i < j + 1 := lt_of_start_lt (heq ▸ hlt')
  have hji : j < i + 1 := lt_of_start_lt (heq ▸ hlt)
  omega

end Spelled

end Assembly

end Classwright
