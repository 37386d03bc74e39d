import Classwright.Proofs.ClassFile.Pool
import Classwright.Proofs.ClassFile.Reading
import Classwright.Proofs.Text.ModifiedUtf8

/-! # Reading a constant pool back

A pool that was built by asking for constants is read back as it is, so an index in the rest of the file stands for the
constant that was asked for. -/

namespace Classwright

open Reader

/-! ### Constants -/

namespace Constant

theorem width_eq (c : Constant) : c.width = 1 ∨ c.width = 2 := by
  unfold width
  split
  · exact .inr rfl
  · exact .inr rfl
  · exact .inl rfl

theorem reads_tagged (tag : UInt8) {bytes : Bytes} {c : Constant} (h : (readBody tag).Reads bytes c) :
    read.Reads (Bytes.u1 tag.toNat ++ bytes) c :=
  (Reads.tag tag).bind h

theorem reads_utf8 {s : String} (h : (utf8 s).Writable) :
    (readBody 1).Reads (Bytes.u2 (Text.encodeModifiedUtf8 s).length ++ Text.encodeModifiedUtf8 s) (utf8 s) := by
  have hlength : (Text.encodeModifiedUtf8 s).length.toUInt16.toNat = (Text.encodeModifiedUtf8 s).length := by
    have : (Text.encodeModifiedUtf8 s).length ≤ 65535 := h
    simp only [Nat.toUInt16_eq, UInt16.toNat_ofNat']
    omega
  refine (Reads.u2 _).bind ?_
  rw [hlength]
  refine (Reads.take _).last ?_
  rw [Text.decodeModifiedUtf8?_encode]
  exact .pure _

/-- A wide number is read in two halves. -/
theorem reads_wide (make : UInt64 → Constant) (n : UInt64) :
    Reads (do
      let high ← word 4
      let low ← word 4
      return make (high * 0x100000000 + low).toUInt64) (Bytes.u8 n.toNat) (make n) := by
  have hhalves : (n.toNat / 256 ^ 4 % 256 ^ 4 * 0x100000000 + n.toNat % 256 ^ 4).toUInt64 = n := by
    have := n.toNat_lt
    rw [← UInt64.toNat_inj]
    simp only [Nat.toUInt64_eq, UInt64.toNat_ofNat']
    omega
  have hread : Reads (do
      let high ← word 4
      let low ← word 4
      return make (high * 0x100000000 + low).toUInt64) (Bytes.word 4 (n.toNat / 256 ^ 4) ++ Bytes.word 4 n.toNat) _ :=
    (Reads.word 4 _).bind (Reads.word 4 _).map
  rwa [hhalves, ← Bytes.word_add] at hread

theorem reads_bytes {c : Constant} (h : c.Writable) : read.Reads c.bytes c := by
  have hnarrow : ∀ n : UInt32, (n.toNat % 256 ^ 4).toUInt32 = n := fun n => by
    have hlt : n.toNat < 256 ^ 4 := n.toNat_lt
    rw [Nat.mod_eq_of_lt hlt, Nat.toUInt32_eq, UInt32.ofNat_toNat]
  cases c with
  | utf8 s =>
    rw [bytes, List.append_assoc]
    exact reads_tagged 1 (reads_utf8 h)
  | integer v =>
    have hread : (readBody 3).Reads (Bytes.u4 v.toUInt32.toNat) _ := (Reads.word 4 _).map
    rw [hnarrow] at hread
    exact reads_tagged 3 hread
  | float v =>
    have hread : (readBody 4).Reads (Bytes.u4 v.bits.toNat) _ := (Reads.word 4 _).map
    rw [hnarrow] at hread
    exact reads_tagged 4 hread
  | long v => exact reads_tagged 5 (reads_wide (fun n => .long n.toInt64) v.toUInt64)
  | double v => exact reads_tagged 6 (reads_wide (fun n => .double ⟨n⟩) v.bits)
  | cls name => exact reads_tagged 7 (Reads.index name).map
  | string value => exact reads_tagged 8 (Reads.index value).map
  | field c n =>
    rw [bytes, List.append_assoc]
    exact reads_tagged 9 ((Reads.index c).bind (Reads.index n).map)
  | method c n =>
    rw [bytes, List.append_assoc]
    exact reads_tagged 10 ((Reads.index c).bind (Reads.index n).map)
  | interfaceMethod c n =>
    rw [bytes, List.append_assoc]
    exact reads_tagged 11 ((Reads.index c).bind (Reads.index n).map)
  | nameAndType n d =>
    rw [bytes, List.append_assoc]
    exact reads_tagged 12 ((Reads.index n).bind (Reads.index d).map)
  | other tag => exact h.elim

end Constant

/-! ### Pools -/

namespace ConstantPool
variable {p : ConstantPool} {c : Constant} {cs : List Constant}

def addAll (p : ConstantPool) (cs : List Constant) : ConstantPool := cs.foldl add p

/-- The entries as they stand in a class file. -/
def contents (p : ConstantPool) : Bytes :=
  p.entries.toList.flatMap fun
    | some c => c.bytes
    | none => []

theorem bytes_eq (p : ConstantPool) : p.bytes = Bytes.u2 p.count ++ p.contents := rfl

theorem count_add (p : ConstantPool) (c : Constant) : (p.add c).count = p.count + c.width := by
  unfold add count
  split
  · rename_i h
    simp [h]
  · rename_i h
    simp [c.width_eq.resolve_right h]

theorem contents_add (p : ConstantPool) (c : Constant) : (p.add c).contents = p.contents ++ c.bytes := by
  unfold add contents
  split <;> simp

theorem contents_addAll (p : ConstantPool) (cs : List Constant) :
    (p.addAll cs).contents = p.contents ++ cs.flatMap Constant.bytes := by
  induction cs generalizing p with
  | nil => simp [addAll]
  | cons c cs ih =>
    have hcons : p.addAll (c :: cs) = (p.add c).addAll cs := rfl
    rw [hcons, ih, contents_add, List.flatMap_cons, List.append_assoc]

theorem count_le_addAll (p : ConstantPool) (cs : List Constant) : p.count + cs.length ≤ (p.addAll cs).count := by
  induction cs generalizing p with
  | nil => exact Nat.le_refl _
  | cons c cs ih =>
    have hadd : p.count + 1 ≤ (p.add c).count := by
      rw [count_add]
      cases c <;> simp [Constant.width]
    have := ih (p.add c)
    calc p.count + (cs.length + 1) ≤ (p.add c).count + cs.length := by omega
      _ ≤ ((p.add c).addAll cs).count := this

/-- Entry after entry is read and added, until the pool has come to its count. -/
theorem reads_entries (hcs : ∀ c ∈ cs, c.Writable) (hcount : (p.addAll cs).count ≤ 65535) {fuel : Nat}
    (hfuel : cs.length ≤ fuel) : (readEntries (p.addAll cs).count fuel p).Reads (cs.flatMap Constant.bytes) (p.addAll cs) := by
  induction cs generalizing p fuel with
  | nil =>
    cases fuel with
    | zero => exact .pure p
    | succ fuel =>
      have hdone : ¬p.count < (p.addAll []).count := Nat.lt_irrefl p.count
      rw [readEntries, if_neg hdone]
      exact .pure p
  | cons c cs ih =>
    obtain ⟨hc, hcs⟩ := List.forall_mem_cons.mp hcs
    cases fuel with
    | zero => cases hfuel
    | succ fuel =>
      have hle : (p.add c).count + cs.length ≤ (p.addAll (c :: cs)).count := count_le_addAll (p.add c) cs
      have hadd := count_add p c
      have hmore : p.count < (p.addAll (c :: cs)).count :=
        Nat.lt_of_lt_of_le (by simp) (count_le_addAll p (c :: cs))
      have hroom : p.push c = .ok (p.count.toUInt16, p.add c) := by
        rw [push, hasRoom, if_pos (decide_eq_true (by omega))]
      rw [readEntries, if_pos hmore, List.flatMap_cons]
      exact (Constant.reads_bytes hc).bind
        ((Reads.ofExcept hroom).bind (ih (p := p.add c) hcs hcount (Nat.le_of_succ_le_succ hfuel)))

/-- The pool can stand in a class file. -/
def Writable (p : ConstantPool) : Prop := p.count ≤ 65535 ∧ ∃ cs : List Constant, (∀ c ∈ cs, c.Writable) ∧ p = addAll {} cs

theorem Writable.add (h : p.Writable) (hc : c.Writable) (hroom : p.hasRoom c = true) : (p.add c).Writable := by
  obtain ⟨-, cs, hcs, rfl⟩ := h
  refine ⟨?_, cs ++ [c], ?_, ?_⟩
  · rw [count_add]
    exact of_decide_eq_true hroom
  · simpa [or_imp, forall_and] using ⟨hcs, hc⟩
  · simp [addAll]

theorem reads_bytes (h : p.Writable) : read.Reads p.bytes p := by
  obtain ⟨hcount, cs, hcs, rfl⟩ := h
  have hle := count_le_addAll {} cs
  have hstart : (({} : ConstantPool).addAll cs).count.toUInt16.toNat = (({} : ConstantPool).addAll cs).count := by
    simp only [Nat.toUInt16_eq, UInt16.toNat_ofNat']
    omega
  have hne : (({} : ConstantPool).addAll cs).count.toUInt16 ≠ 0 := by
    intro h
    rw [h] at hstart
    have hone : ({} : ConstantPool).count = 1 := rfl
    rw [UInt16.toNat_zero] at hstart
    omega
  have hempty : ({} : ConstantPool).contents = [] := rfl
  rw [bytes_eq, contents_addAll, hempty, List.nil_append, read]
  refine (Reads.u2 _).bind ?_
  rw [if_neg hne, hstart]
  refine (reads_entries hcs hcount (Nat.le_trans (Nat.le_add_left ..) hle)).last ?_
  rw [if_neg (fun h => h rfl)]
  exact .pure _

theorem Writable.get?_zero (h : p.Writable) : p.get? 0 = none := by
  obtain ⟨-, cs, -, rfl⟩ := h
  have hstep : ∀ (cs : List Constant) (p : ConstantPool), 0 < p.count → p.get? 0 = none → (p.addAll cs).get? 0 = none := by
    intro cs
    induction cs with
    | nil => exact fun p _ h => h
    | cons c cs ih =>
      intro p hp h
      refine ih (p.add c) (by rw [count_add]; omega) ?_
      rw [get?_add, UInt16.toNat_zero, if_neg (Nat.ne_of_lt hp), h]
  exact hstep cs {} (by decide) rfl

end ConstantPool

/-- The pool can stand in a class file, and its entries stand where their indices say. -/
structure PoolBuilder.Valid (b : PoolBuilder) : Prop where
  sound : b.Sound
  writable : b.pool.Writable

theorem PoolBuilder.valid_empty : PoolBuilder.Valid {} :=
  ⟨fun c i hc => by simp [PoolBuilder.Has] at hc, by decide, [], by simp, rfl⟩

/-! ### Entries by their index -/

namespace PoolM
variable {α : Type} {b : PoolBuilder}

theorem Interns.writable {x : PoolM α} (h : x.Interns) (hb : b.pool.Writable) : (x.on b).2.pool.Writable := by
  refine h.preserves (I := fun b => b.pool.Writable) (fun c b hc hb => ?_) hb
  rw [on_intern]
  split
  · exact hb
  · split
    · rename_i hroom
      exact hb.add hc hroom
    · exact hb

theorem Interns.valid {x : PoolM α} (h : x.Interns) {b' : PoolBuilder} {r : Except FormatError α}
    (hx : x.on b = (r, b')) (hb : b.Valid) : b'.Valid := by
  have hsound := h.sound hb.sound
  have hwritable := h.writable hb.writable
  rw [hx] at hsound hwritable
  exact ⟨hsound, hwritable⟩

theorem Gives.get? {c : Constant} {i : UInt16} (h : (intern c).Gives b i) (hb : b.Sound) : b.pool.get? i = some c :=
  hb c i (has_intern h).2

theorem Gives.utf8At {s : String} {i : UInt16} (h : (utf8 s).Gives b i) (hb : b.Sound) : b.pool.utf8At i = .ok s := by
  rw [ConstantPool.utf8At, hb _ _ (has_utf8 h)]

theorem Gives.classAt {name : String} {i : UInt16} (h : (cls name).Gives b i) (hb : b.Sound) :
    b.pool.classAt i = .ok name := by
  obtain ⟨n, hn, hi⟩ := has_cls h
  have hname : b.pool.utf8At n = .ok name := by rw [ConstantPool.utf8At, hb _ _ hn]
  rw [ConstantPool.classAt, hb _ _ hi]
  exact hname

theorem Gives.reads_utf8 {s : String} {i : UInt16} (h : (utf8 s).Gives b i) (hb : b.Sound) :
    b.pool.readUtf8.Reads (Bytes.u2 i.toNat) s :=
  (Reads.index i).last (.ofExcept (h.utf8At hb))

theorem Gives.reads_class {name : String} {i : UInt16} (h : (cls name).Gives b i) (hb : b.Sound) :
    b.pool.readClass.Reads (Bytes.u2 i.toNat) name :=
  (Reads.index i).last (.ofExcept (h.classAt hb))

/-- No constant has the index that stands for no class. -/
theorem Gives.reads_class? {name : String} {i : UInt16} (h : (cls name).Gives b i) (hb : b.Sound)
    (hw : b.pool.Writable) : b.pool.readClass?.Reads (Bytes.u2 i.toNat) (some name) := by
  have hne : i ≠ 0 := by
    rintro rfl
    obtain ⟨n, -, hi⟩ := has_cls h
    have hzero := hb _ _ hi
    rw [hw.get?_zero] at hzero
    cases hzero
  refine (Reads.index i).last ?_
  rw [if_neg hne]
  exact (Reads.ofExcept (h.classAt hb)).map

theorem reads_noClass (p : ConstantPool) : p.readClass?.Reads (Bytes.u2 0) none :=
  (Reads.index 0).last (.pure none)

end PoolM

end Classwright
