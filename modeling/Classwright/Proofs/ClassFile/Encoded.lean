import Classwright.ClassFile.Encoding
import Classwright.Proofs.ClassFile.Decoder
import Classwright.Proofs.ClassFile.Pool
import Classwright.Verify.Transfer

/-! # Encoded instructions are read back -/

namespace Classwright

namespace Decoder
variable {α β : Type} {bytes bytes' : Bytes} {a : α}

/-- The reading takes the bytes from the front of whatever begins with them. -/
def Reads (x : Reading α) (bytes : Bytes) (a : α) : Prop := ∀ rest, x (bytes ++ rest) = some (a, rest)

namespace Reads

theorem pure (a : α) : Reads (pure a) [] a := fun _ => rfl

theorem bind {x : Reading α} {k : α → Reading β} {c : β} (hx : Reads x bytes a) (hk : Reads (k a) bytes' c) :
    Reads (x >>= k) (bytes ++ bytes') c := by
  intro rest
  have hbind : (x >>= k) (bytes ++ bytes' ++ rest) = (x (bytes ++ bytes' ++ rest)).bind fun r => k r.1 r.2 := rfl
  rw [hbind, List.append_assoc, hx]
  exact hk rest

theorem map {x : Reading α} {f : α → β} (hx : Reads x bytes a) : Reads (do return f (← x)) bytes (f a) := by
  have h : Reads (do return f (← x)) (bytes ++ []) (f a) := hx.bind (pure (f a))
  rwa [List.append_nil] at h

theorem ofOption {x : Option α} (h : x = some a) : Reads (Reading.ofOption x) [] a := by
  subst h
  exact fun _ => rfl

theorem u1 (b : UInt8) : Reads u1 [b] b.toNat := fun _ => rfl

theorem u2 {n : Nat} (h : n < 65536) : Reads u2 (Bytes.u2 n) n := by
  have hread : Reads Decoder.u2 ([(n / 256).toUInt8] ++ [n.toUInt8]) _ := (u1 _).bind (u1 n.toUInt8).map
  have hvalue : 256 * (n / 256).toUInt8.toNat + n.toUInt8.toNat = n := by
    simp only [Nat.toUInt8_eq, UInt8.toNat_ofNat']
    omega
  rwa [hvalue] at hread

theorem entry {find : UInt16 → Option α} {i : UInt16} (h : find i = some a) :
    Reads (entry find) (Bytes.u2 i.toNat) a := by
  have hread : Reads (Decoder.entry find) (Bytes.u2 i.toNat ++ []) a := by
    refine (u2 i.toNat_lt).bind (ofOption ?_)
    rw [Nat.toUInt16_eq, UInt16.ofNat_toNat, h]
  rwa [List.append_nil] at hread

end Reads

/-- An operation that is written as a byte of its own. -/
def Stands (o : Opcode) : Prop :=
  operations[o.byte.toNat]?.join = some o ∧ ¬(0x1a ≤ o.byte.toNat ∧ o.byte.toNat < 0x2e) ∧
    ¬(0x3b ≤ o.byte.toNat ∧ o.byte.toNat < 0x4f)

instance (o : Opcode) : Decidable (Stands o) := inferInstanceAs (Decidable (_ ∧ _))

/-- The operation comes first, and then what it takes. -/
theorem Reads.instruction {pool : ConstantPool} {pc : Nat} {o : Opcode} {d : Decoded} (ho : Stands o)
    (h : Reads (operands pool pc o) bytes d) : Reads (instruction pool pc) (o.byte :: bytes) d := by
  obtain ⟨htable, hload, hstore⟩ := ho
  change Reads (Decoder.instruction pool pc) ([o.byte] ++ bytes) d
  refine (Reads.u1 o.byte).bind ?_
  rw [if_neg hload, if_neg hstore, htable]
  exact Reads.bind (.ofOption rfl) h

/-! ### Constants -/

section Constants
variable {pool : ConstantPool} {pc : Nat}

theorem reads_plain {o : Opcode} (ho : Stands o) (h : operands pool pc o = pure o.plain) :
    Reads (instruction pool pc) [o.byte] o.plain := .instruction ho (h ▸ .pure _)

theorem reads_smallInt {n : Int} (hlow : -1 ≤ n) (hhigh : n ≤ 5) :
    Reads (instruction pool pc) [(Opcode.iconst0.byte.toNat + n).toNat.toUInt8] (.int (.ofInt n)) := by
  obtain rfl | rfl | rfl | rfl | rfl | rfl | rfl : n = -1 ∨ n = 0 ∨ n = 1 ∨ n = 2 ∨ n = 3 ∨ n = 4 ∨ n = 5 := by omega
  · exact reads_plain (o := .iconstM1) (by decide) rfl
  · exact reads_plain (o := .iconst0) (by decide) rfl
  · exact reads_plain (o := .iconst1) (by decide) rfl
  · exact reads_plain (o := .iconst2) (by decide) rfl
  · exact reads_plain (o := .iconst3) (by decide) rfl
  · exact reads_plain (o := .iconst4) (by decide) rfl
  · exact reads_plain (o := .iconst5) (by decide) rfl

theorem signed_byte {n : Int} (hlow : -128 ≤ n) (hhigh : n ≤ 127) : signed 8 (n % 256).toNat = n := by
  change (if (n % 256).toNat < 128 then ((n % 256).toNat : Int) else (n % 256).toNat - 256) = n
  split <;> omega

theorem signed_short {n : Int} (hlow : -32768 ≤ n) (hhigh : n ≤ 32767) : signed 16 (n % 65536).toNat = n := by
  change (if (n % 65536).toNat < 32768 then ((n % 65536).toNat : Int) else (n % 65536).toNat - 65536) = n
  split <;> omega

theorem reads_byteInt {n : Int} (hlow : -128 ≤ n) (hhigh : n ≤ 127) :
    Reads (instruction pool pc) (Opcode.bipush.byte :: Bytes.u1 (n % 256).toNat) (.int (.ofInt n)) := by
  have hread : Reads (operands pool pc .bipush) [(n % 256).toNat.toUInt8] _ := (Reads.u1 _).map
  have hvalue : (n % 256).toNat.toUInt8.toNat = (n % 256).toNat := by
    simp only [Nat.toUInt8_eq, UInt8.toNat_ofNat']
    omega
  rw [hvalue, signed_byte hlow hhigh] at hread
  exact .instruction (by decide) hread

theorem reads_shortInt {n : Int} (hlow : -32768 ≤ n) (hhigh : n ≤ 32767) :
    Reads (instruction pool pc) (Opcode.sipush.byte :: Bytes.u2 (n % 65536).toNat) (.int (.ofInt n)) := by
  have hread : Reads (operands pool pc .sipush) (Bytes.u2 (n % 65536).toNat) _ := (Reads.u2 (by omega)).map
  rw [signed_short hlow hhigh] at hread
  exact .instruction (by decide) hread

theorem reads_poolLoad {i : UInt16} {d : Decoded} (h : constant? pool i = some d) :
    Reads (instruction pool pc) (Encoding.poolLoad i) d := by
  unfold Encoding.poolLoad
  split
  · rename_i hi
    have hvalue : i.toNat.toUInt8.toNat.toUInt16 = i := by
      rw [Nat.toUInt8_eq, UInt8.toNat_ofNat', Nat.mod_eq_of_lt (by omega), Nat.toUInt16_eq, UInt16.ofNat_toNat]
    refine .instruction (by decide) ?_
    have hread : Reads (operands pool pc .ldc) ([i.toNat.toUInt8] ++ []) d :=
      (Reads.u1 _).bind (.ofOption (by rw [hvalue, h]))
    exact hread
  · exact .instruction (by decide) (.entry h)

theorem reads_wideLoad {i : UInt16} {d : Decoded} (h : wideConstant? pool i = some d) :
    Reads (instruction pool pc) (Encoding.wideLoad i) d := .instruction (by decide) (.entry h)

end Constants

/-! ### Locals and branches -/

section Operands
variable {pool : ConstantPool} {pc : Nat}

/-- An access to a local: `load` and `first` are its operations, and `read` is what it is read as. -/
theorem reads_localAccess {ops : Opcode × Opcode} {read : Nat → Decoded} (ho : Stands ops.1)
    (hop : operands pool pc ops.1 = access u1 ops.1)
    (haccess : ∀ slot, access slot ops.1 = (do return read (← slot) : Reading Decoded))
    (hfirst : ∀ k < 4, Reads (instruction pool pc) [ops.2.byte + k.toUInt8] (read k)) (slot : UInt16) :
    Reads (instruction pool pc) (Encoding.localAccess ops slot) (read slot.toNat) := by
  unfold Encoding.localAccess
  split
  · rename_i hslot
    have h := hfirst slot.toNat (by omega)
    rwa [show slot.toNat.toUInt8 = slot.toUInt8 from rfl] at h
  · split
    · rename_i hslot
      have hread : Reads (access u1 ops.1) [slot.toUInt8] _ := haccess u1 ▸ (Reads.u1 _).map
      rw [UInt16.toNat_toUInt8, Nat.mod_eq_of_lt (by omega)] at hread
      exact .instruction ho (hop ▸ hread)
    · refine .instruction (o := .wide) (by decide) ?_
      have hread : Reads (operands pool pc .wide) (([ops.1.byte] ++ []) ++ Bytes.u2 slot.toNat) _ :=
        ((Reads.u1 ops.1.byte).bind (.ofOption ho.1)).bind (haccess u2 ▸ (Reads.u2 slot.toNat_lt).map)
      exact hread

theorem reads_firstLoad (kind : LocalKind) {k : Nat} (hk : k < 4) :
    Reads (instruction pool pc) [kind.loadOps.2.byte + k.toUInt8] (.load kind k) :=
  match k, hk with
  | 0, _ | 1, _ | 2, _ | 3, _ => by cases kind <;> exact fun _ => rfl

theorem reads_firstStore (kind : LocalKind) {k : Nat} (hk : k < 4) :
    Reads (instruction pool pc) [kind.storeOps.2.byte + k.toUInt8] (.store kind k) :=
  match k, hk with
  | 0, _ | 1, _ | 2, _ | 3, _ => by cases kind <;> exact fun _ => rfl

theorem reads_load (kind : LocalKind) (slot : UInt16) :
    Reads (instruction pool pc) (Encoding.localAccess kind.loadOps slot) (.load kind slot.toNat) := by
  refine reads_localAccess ?_ ?_ (fun _ => ?_) (fun _ => reads_firstLoad kind) slot
  · cases kind <;> decide
  · cases kind <;> rfl
  · cases kind <;> rfl

theorem reads_store (kind : LocalKind) (slot : UInt16) :
    Reads (instruction pool pc) (Encoding.localAccess kind.storeOps slot) (.store kind slot.toNat) := by
  refine reads_localAccess ?_ ?_ (fun _ => ?_) (fun _ => reads_firstStore kind) slot
  · cases kind <;> decide
  · cases kind <;> rfl
  · cases kind <;> rfl

theorem reads_branch {o : Opcode} {target : Nat} (ho : o.isJump = true) (h : Encoding.branch o pc target = .ok bytes) :
    Reads (instruction pool pc) bytes (.jump o target) := by
  unfold Encoding.branch at h
  dsimp only at h
  split at h
  · cases h
  · rename_i hrange
    cases h
    have hread : Reads Decoder.u2 (Bytes.u2 (((target : Int) - pc) % 65536).toNat) _ := .u2 (by omega)
    have hjump := hread.map (f := fun n => Decoded.jump o (pc + signed 16 n))
    rw [signed_short (by omega) (by omega), show (pc : Int) + (target - pc) = target by omega] at hjump
    cases o <;> cases ho <;> exact .instruction (by decide) hjump

end Operands

/-! ### Entries of the pool -/

section Entries
variable {b b' final : PoolBuilder} {i : UInt16} {name descriptor owner : String} (hs : final.Sound)
  (hg : b'.Grows final)
include hs

theorem text?_of_has {s : String} (h : final.Has (.utf8 s) i) : text? final.pool i = some s := by
  unfold text?
  rw [hs _ _ h]

theorem class?_of_has {n : UInt16} (hn : final.Has (.utf8 name) n) (h : final.Has (.cls n) i) :
    class? final.pool i = some name := by
  unfold class?
  rw [hs _ _ h]
  exact text?_of_has hs hn

theorem member?_of_has {n c m : UInt16} (hn : final.Has (.utf8 owner) n) (hc : final.Has (.cls n) c)
    (hm : PoolM.HasMember final name descriptor m) (interface : Bool) :
    member? final.pool c m interface = some ⟨owner, name, descriptor, interface⟩ := by
  obtain ⟨k, d, hk, hd, hm⟩ := hm
  unfold member?
  rw [hs _ _ hm]
  dsimp only
  rw [class?_of_has hs hn hc, text?_of_has hs hk, text?_of_has hs hd]
  rfl

include hg

theorem class?_of_cls (h : (PoolM.cls name).on b = (.ok i, b')) : class? final.pool i = some name := by
  obtain ⟨n, hn, hi⟩ := PoolM.has_cls h
  exact class?_of_has hs (hg _ _ hn) (hg _ _ hi)

theorem constant?_of_cls (h : (PoolM.cls name).on b = (.ok i, b')) : constant? final.pool i = some (.cls name) := by
  obtain ⟨n, hn, hi⟩ := PoolM.has_cls h
  unfold constant?
  rw [hs _ _ (hg _ _ hi)]
  dsimp only
  rw [text?_of_has hs (hg _ _ hn)]
  rfl

theorem constant?_of_string {s : String} (h : (PoolM.string s).on b = (.ok i, b')) :
    constant? final.pool i = some (.str s) := by
  obtain ⟨n, hn, hi⟩ := PoolM.has_string h
  unfold constant?
  rw [hs _ _ (hg _ _ hi)]
  dsimp only
  rw [text?_of_has hs (hg _ _ hn)]
  rfl

theorem get?_of_intern {c : Constant} (h : (PoolM.intern c).on b = (.ok i, b')) : final.pool.get? i = some c :=
  hs _ _ (hg _ _ (PoolM.has_intern h).2)

theorem field?_of_field (h : (PoolM.field owner name descriptor).on b = (.ok i, b')) :
    field? final.pool i = some ⟨owner, name, descriptor, false⟩ := by
  obtain ⟨n, c, m, hn, hc, ⟨k, d, hk, hd, hm⟩, hi⟩ := PoolM.has_member h
  unfold field?
  rw [hs _ _ (hg _ _ hi)]
  exact member?_of_has hs (hg _ _ hn) (hg _ _ hc) ⟨k, d, hg _ _ hk, hg _ _ hd, hg _ _ hm⟩ false

theorem method?_of_method {interface : Bool} (h : (PoolM.method owner name descriptor interface).on b = (.ok i, b')) :
    method? final.pool i = some ⟨owner, name, descriptor, interface⟩ := by
  obtain ⟨n, c, m, hn, hc, ⟨k, d, hk, hd, hm⟩, hi⟩ := PoolM.has_member h
  have hmember := member?_of_has hs (hg _ _ hn) (hg _ _ hc) ⟨k, d, hg _ _ hk, hg _ _ hd, hg _ _ hm⟩ interface
  unfold method?
  rw [hs _ _ (hg _ _ hi)]
  cases interface <;> exact hmember

end Entries

/-! ### Instructions -/

theorem words_of_long {d : List Char} (h : 1 < d.length) : Descriptor.words d = 1 := by
  unfold Descriptor.words
  split
  all_goals first | rfl | exact absurd h (by decide)

theorem words_array (rest : List Char) : Descriptor.words ('[' :: rest) = 1 := by
  cases rest with
  | nil => rfl
  | cons c rest => exact words_of_long (by simp)

theorem words_of_descriptor {d : List Char} {t : Option VType} (h : VType.ofDescriptor? d = some t) :
    Descriptor.words d = (t.map VType.width).getD 0 := by
  unfold VType.ofDescriptor? at h
  split at h
  case h_10 =>
    cases h
    exact words_array _
  case h_11 =>
    split at h <;> cases h
    exact words_of_long (by simp)
  all_goals cases h <;> rfl

theorem argWords_eq {ds : List (List Char)} {acc n : Nat} (h : Encoding.argWords acc ds = .ok n) :
    n = acc + (ds.map Descriptor.words).sum := by
  induction ds generalizing acc with
  | nil =>
    cases h
    simp
  | cons d ds ih =>
    unfold Encoding.argWords at h
    rw [List.map_cons, List.sum_cons]
    split at h
    · cases h
    · rename_i hd
      rw [ih h, words_of_descriptor hd]
      simp
    · rename_i t hd
      rw [ih h, words_of_descriptor hd]
      simp [Nat.add_assoc]

/-- The count of an interface call fits a byte. -/
theorem interfaceCount_eq {descriptor : String} {n : Nat} (h : Encoding.interfaceCount descriptor = .ok n) :
    n = 1 + Descriptor.argumentWords descriptor ∧ n ≤ 255 := by
  unfold Encoding.interfaceCount at h
  unfold Descriptor.argumentWords
  split at h
  · cases h
  · rename_i params result hsplit
    rw [hsplit]
    split at h
    · cases h
    · rename_i words hwords
      split at h <;> cases h
      exact ⟨argWords_eq hwords, ‹_›⟩

section Operations
variable {pool : ConstantPool} {pc : Nat} {m : MethodHead} {code : Array Instr} {index : Nat} {f g : Frame} {o : Opcode}
  {i : UInt16}

theorem reads_op (h : f.applyOp m o = .ok g) : Reads (instruction pool pc) [o.byte] o.plain := by
  cases o <;> first | exact reads_plain (by decide) rfl | cases h

theorem reads_floatConst {v : Binary32} (h : v.constOp? = some o) :
    Reads (instruction pool pc) [o.byte] (.float v) := by
  obtain ⟨bits⟩ := v
  unfold Binary32.constOp? at h
  dsimp only at h
  split at h
  · rename_i hbits
    subst hbits
    cases h
    exact reads_plain (by decide) rfl
  · split at h
    · rename_i hbits
      subst hbits
      cases h
      exact reads_plain (by decide) rfl
    · split at h <;> cases h
      rename_i hbits
      subst hbits
      exact reads_plain (by decide) rfl

theorem reads_doubleConst {v : Binary64} (h : v.constOp? = some o) :
    Reads (instruction pool pc) [o.byte] (.double v) := by
  obtain ⟨bits⟩ := v
  unfold Binary64.constOp? at h
  dsimp only at h
  split at h
  · rename_i hbits
    subst hbits
    cases h
    exact reads_plain (by decide) rfl
  · split at h <;> cases h
    rename_i hbits
    subst hbits
    exact reads_plain (by decide) rfl

theorem reads_field {member : MemberRef} (ha : f.applyField o member = .ok g)
    (h : field? pool i = some ⟨member.owner, member.name, member.descriptor, false⟩) :
    Reads (instruction pool pc) (Encoding.withIndex o i) (.field o member.owner member.name member.descriptor) := by
  have hread := (Reads.entry h).map (f := fun m => Decoded.field o m.owner m.name m.descriptor)
  unfold Frame.applyField at ha
  split at ha
  · cases ha
  · cases ha
  · split at ha
    · exact .instruction (by decide) hread
    · exact .instruction (by decide) hread
    · exact .instruction (by decide) hread
    · exact .instruction (by decide) hread
    · cases ha

theorem reads_type {name : String} (ha : f.apply m code index (.type o name) = .ok g) (h : class? pool i = some name) :
    Reads (instruction pool pc) (Encoding.withIndex o i) (.type o name) := by
  have hread := (Reads.entry h).map (f := Decoded.type o)
  simp only [Frame.apply] at ha
  split at ha
  · exact .instruction (by decide) hread
  · exact .instruction (by decide) hread
  · cases ha

theorem reads_invoke {member : MemberRef} (ho : o ∈ [Opcode.invokevirtual, .invokespecial, .invokestatic])
    (h : method? pool i = some member) :
    Reads (instruction pool pc) (Encoding.withIndex o i) (.invoke o member none) := by
  have hread := (Reads.entry h).map (f := fun m => Decoded.invoke o m none)
  simp only [List.mem_cons, List.not_mem_nil, or_false] at ho
  rcases ho with rfl | rfl | rfl
  · exact .instruction (by decide) hread
  · exact .instruction (by decide) hread
  · exact .instruction (by decide) hread

theorem reads_invokeInterface {member : MemberRef} {count : Nat} (hc : count ≤ 255) (h : method? pool i = some member) :
    Reads (instruction pool pc) (Encoding.withIndex .invokeinterface i ++ Bytes.u1 count ++ Bytes.u1 0)
      (.invoke .invokeinterface member (some count)) := by
  have hcount : count.toUInt8.toNat = count := by
    rw [Nat.toUInt8_eq, UInt8.toNat_ofNat', Nat.mod_eq_of_lt (by omega)]
  have hzero : Reads (guard ((0 : Nat).toUInt8.toNat = 0)) [] () := fun _ => rfl
  have hread : Reads (operands pool pc .invokeinterface)
      (Bytes.u2 i.toNat ++ ([count.toUInt8] ++ ([(0 : Nat).toUInt8] ++ []))) _ :=
    (Reads.entry h).bind ((Reads.u1 _).bind ((Reads.u1 _).bind hzero.map))
  rw [hcount] at hread
  exact .instruction (by decide) hread

end Operations

end Decoder

/-- Jumps branch, and calls are calls. -/
def Instr.Proper : Instr → Prop
  | .jump o _ => o.isJump = true
  | .invoke o _ => o ∈ [Opcode.invokevirtual, .invokespecial, .invokestatic, .invokeinterface]
  | _ => True

open Decoder

/-- The bytes of an instruction that has been typed are read back as what it is. -/
theorem reads_encode {instr : Instr} {m : MethodHead} {code : Array Instr} {index : Nat} {f g : Frame}
    {pc : Nat} {target : Label → Except FormatError Nat} {bytes : Bytes} {b b' final : PoolBuilder}
    {offset : Label → Nat} {d : Decoded} (hp : instr.Proper) (ha : f.apply m code index instr = .ok g)
    (he : (instr.encode pc target).on b = (.ok bytes, b')) (hs : final.Sound) (hg : b'.Grows final)
    (hoffset : ∀ l t, target l = .ok t → offset l = t) (hd : instr.decoded? offset = some d) :
    Reads (instruction final.pool pc) bytes d := by
  cases instr with
  | op o =>
    cases he
    cases hd
    exact reads_op ha
  | int v =>
    cases hd
    rw [← v.ofInt_toInt]
    simp only [Instr.encode] at he
    split at he
    · rename_i hrange
      cases he
      exact reads_smallInt hrange.1 hrange.2
    · split at he
      · rename_i hrange
        cases he
        exact reads_byteInt hrange.1 hrange.2
      · split at he
        · rename_i hrange
          cases he
          exact reads_shortInt hrange.1 hrange.2
        · obtain ⟨i, b₁, hi, he⟩ := PoolM.on_bind_eq_ok.mp he
          cases he
          refine reads_poolLoad ?_
          unfold constant?
          rw [get?_of_intern hs hg hi, Int32.ofInt_toInt]
  | long v =>
    cases hd
    simp only [Instr.encode] at he
    split at he
    · rename_i hv
      subst hv
      cases he
      exact reads_plain (o := .lconst0) (by decide) rfl
    · split at he
      · rename_i hv
        subst hv
        cases he
        exact reads_plain (o := .lconst1) (by decide) rfl
      · obtain ⟨i, b₁, hi, he⟩ := PoolM.on_bind_eq_ok.mp he
        cases he
        refine reads_wideLoad ?_
        unfold wideConstant?
        rw [get?_of_intern hs hg hi]
  | float v =>
    cases hd
    simp only [Instr.encode] at he
    split at he
    · rename_i o ho
      cases he
      exact reads_floatConst ho
    · obtain ⟨i, b₁, hi, he⟩ := PoolM.on_bind_eq_ok.mp he
      cases he
      refine reads_poolLoad ?_
      unfold constant?
      rw [get?_of_intern hs hg hi]
  | double v =>
    cases hd
    simp only [Instr.encode] at he
    split at he
    · rename_i o ho
      cases he
      exact reads_doubleConst ho
    · obtain ⟨i, b₁, hi, he⟩ := PoolM.on_bind_eq_ok.mp he
      cases he
      refine reads_wideLoad ?_
      unfold wideConstant?
      rw [get?_of_intern hs hg hi]
  | str s =>
    cases hd
    obtain ⟨i, b₁, hi, he⟩ := PoolM.on_bind_eq_ok.mp he
    cases he
    exact reads_poolLoad (constant?_of_string hs hg hi)
  | cls c =>
    cases hd
    obtain ⟨i, b₁, hi, he⟩ := PoolM.on_bind_eq_ok.mp he
    cases he
    exact reads_poolLoad (constant?_of_cls hs hg hi)
  | load kind slot =>
    cases hd
    cases he
    exact reads_load kind slot
  | store kind slot =>
    cases hd
    cases he
    exact reads_store kind slot
  | jump o l =>
    cases hd
    obtain ⟨t, b₁, hlabel, he⟩ := PoolM.on_bind_eq_ok.mp he
    obtain ⟨ht, rfl⟩ := PoolM.on_lift_eq_ok.mp hlabel
    obtain ⟨hbranch, rfl⟩ := PoolM.on_lift_eq_ok.mp he
    rw [hoffset l t ht]
    exact reads_branch hp hbranch
  | field o member =>
    cases hd
    obtain ⟨i, b₁, hi, he⟩ := PoolM.on_bind_eq_ok.mp he
    cases he
    exact reads_field ha (field?_of_field hs hg hi)
  | invoke o member =>
    obtain ⟨i, b₁, hi, he⟩ := PoolM.on_bind_eq_ok.mp he
    by_cases ho : o = .invokeinterface
    · subst ho
      rw [Instr.decoded?, if_pos rfl] at hd
      cases hd
      rw [if_pos rfl] at he
      obtain ⟨count, b₂, hlift, he⟩ := PoolM.on_bind_eq_ok.mp he
      obtain ⟨hcount, rfl⟩ := PoolM.on_lift_eq_ok.mp hlift
      cases he
      obtain ⟨heq, hle⟩ := interfaceCount_eq hcount
      rw [← heq]
      refine reads_invokeInterface hle ?_
      rw [method?_of_method hs hg hi, beq_self_eq_true, Bool.or_true]
    · rw [if_neg ho] at he
      cases he
      have hfound := method?_of_method hs hg hi
      rw [beq_eq_false_iff_ne.mpr ho, Bool.or_false] at hfound
      rw [Instr.decoded?, if_neg ho] at hd
      cases hd
      exact reads_invoke (by simpa [Instr.Proper, ho] using hp) hfound
  | type o c =>
    cases hd
    obtain ⟨i, b₁, hi, he⟩ := PoolM.on_bind_eq_ok.mp he
    cases he
    exact reads_type ha (class?_of_cls hs hg hi)
  | mark l => cases hd

end Classwright
