import Classwright.ClassFile.Assembly
import Classwright.Proofs.ClassFile.Encoded
import Classwright.Proofs.ClassFile.Reading

/-! # Sizes and bytes agree

Sizes are laid out before bytes are made. A constant has its index by then and keeps it, so each instruction takes the
space that was laid out for it. -/

namespace Classwright

open Encoding

theorem length_poolLoad (i : UInt16) : (poolLoad i).length = poolLoadSize i := by
  unfold poolLoad poolLoadSize
  split <;> simp [Bytes.u1, Bytes.u2]

theorem length_wideLoad (i : UInt16) : (wideLoad i).length = 3 := by
  simp [wideLoad, Bytes.u2]

theorem length_localAccess (ops : Opcode × Opcode) (slot : UInt16) : (localAccess ops slot).length = localSize slot := by
  unfold localAccess localSize
  split
  · rfl
  · split
    · rfl
    · simp [Bytes.u2]

theorem length_withIndex (o : Opcode) (i : UInt16) : (withIndex o i).length = 3 := by
  simp [withIndex, Bytes.u2]

theorem length_branch {o : Opcode} {source target : Nat} {bytes : Bytes} (h : branch o source target = .ok bytes) :
    bytes.length = 3 := by
  unfold branch at h
  dsimp only at h
  split at h <;> cases h
  simp [Bytes.u2]

namespace Instr
variable {b b₁ b₂ b₃ : PoolBuilder} {n pc : Nat} {target : Label → Except FormatError Nat} {bytes : Bytes}

open PoolM

/-- The pool is asked the same again. -/
theorem length_of_pool {x : PoolM UInt16} (hx : x.Interns) {size : UInt16 → Nat} {make : UInt16 → Bytes}
    (hlength : ∀ i, (make i).length = size i) (hs : on (do return size (← x)) b = (.ok n, b₁)) (hg : b₁.Grows b₂)
    (he : on (do return make (← x)) b₂ = (.ok bytes, b₃)) : bytes.length = n := by
  obtain ⟨i, b', hi, hs⟩ := on_bind_eq_ok.mp hs
  cases hs
  obtain ⟨j, b'', hj, he⟩ := on_bind_eq_ok.mp he
  cases he
  rw [(hx.settles hi).2 hg] at hj
  cases hj
  exact hlength i

theorem length_encode (instr : Instr) (hs : instr.size.on b = (.ok n, b₁)) (hg : b₁.Grows b₂)
    (he : (instr.encode pc target).on b₂ = (.ok bytes, b₃)) : bytes.length = n := by
  cases instr with
  | op o =>
    cases hs
    cases he
    rfl
  | int v =>
    simp only [size, encode] at hs he
    split at hs
    · rename_i h
      rw [if_pos h] at he
      cases hs
      cases he
      rfl
    · rename_i h
      rw [if_neg h] at he
      split at hs
      · rename_i h
        rw [if_pos h] at he
        cases hs
        cases he
        rfl
      · rename_i h
        rw [if_neg h] at he
        split at hs
        · rename_i h
          rw [if_pos h] at he
          cases hs
          cases he
          rfl
        · rename_i h
          rw [if_neg h] at he
          exact length_of_pool (.intern (.integer v) trivial) length_poolLoad hs hg he
  | long v =>
    simp only [size, encode] at hs he
    split at hs
    · rename_i h
      cases hs
      split at he
      · cases he
        rfl
      · rename_i h₀
        rw [if_pos (h.resolve_left h₀)] at he
        cases he
        rfl
    · rename_i h
      rw [if_neg fun h₀ => h (.inl h₀), if_neg fun h₁ => h (.inr h₁)] at he
      exact length_of_pool (.intern (.long v) trivial) length_wideLoad hs hg he
  | float v =>
    simp only [size, encode] at hs he
    split at hs
    · rename_i o ho
      rw [ho] at he
      cases hs
      cases he
      rfl
    · rename_i ho
      rw [ho] at he
      exact length_of_pool (.intern (.float v) trivial) length_poolLoad hs hg he
  | double v =>
    simp only [size, encode] at hs he
    split at hs
    · rename_i o ho
      rw [ho] at he
      cases hs
      cases he
      rfl
    · rename_i ho
      rw [ho] at he
      exact length_of_pool (.intern (.double v) trivial) length_wideLoad hs hg he
  | str s => exact length_of_pool (.string s) length_poolLoad hs hg he
  | cls c => exact length_of_pool (.cls c) length_poolLoad hs hg he
  | load kind slot =>
    cases hs
    cases he
    exact length_localAccess _ slot
  | store kind slot =>
    cases hs
    cases he
    exact length_localAccess _ slot
  | jump o l =>
    cases hs
    obtain ⟨t, b', -, he⟩ := on_bind_eq_ok.mp he
    exact length_branch (on_lift_eq_ok.mp he).1
  | field o m =>
    cases hs
    obtain ⟨i, b', -, he⟩ := on_bind_eq_ok.mp he
    cases he
    exact length_withIndex o i
  | invoke o m =>
    cases hs
    obtain ⟨i, b', -, he⟩ := on_bind_eq_ok.mp he
    split at he
    · rename_i ho
      obtain ⟨count, b'', -, he⟩ := on_bind_eq_ok.mp he
      cases he
      rw [if_pos ho, List.length_append, List.length_append, length_withIndex]
      rfl
    · rename_i ho
      cases he
      rw [if_neg ho]
      exact length_withIndex o i
  | type o c =>
    cases hs
    obtain ⟨i, b', -, he⟩ := on_bind_eq_ok.mp he
    cases he
    exact length_withIndex o i
  | mark l =>
    cases hs
    cases he
    rfl

theorem size_interns (instr : Instr) : instr.size.Interns := by
  cases instr with
  | int v => exact .ite (.pure _) (.ite (.pure _) (.ite (.pure _) (.bind (.intern _ trivial) fun _ => .pure _)))
  | long v => exact .ite (.pure _) (.bind (.intern _ trivial) fun _ => .pure _)
  | float v =>
    simp only [size]
    split
    · exact .pure _
    · exact .bind (.intern _ trivial) fun _ => .pure _
  | double v =>
    simp only [size]
    split
    · exact .pure _
    · exact .bind (.intern _ trivial) fun _ => .pure _
  | str s => exact .bind (.string s) fun _ => .pure _
  | cls c => exact .bind (.cls c) fun _ => .pure _
  | _ => exact .pure _

theorem encode_interns (instr : Instr) (pc : Nat) (target : Label → Except FormatError Nat) :
    (instr.encode pc target).Interns := by
  cases instr with
  | int v => exact .ite (.pure _) (.ite (.pure _) (.ite (.pure _) (.bind (.intern _ trivial) fun _ => .pure _)))
  | long v => exact .ite (.pure _) (.ite (.pure _) (.bind (.intern _ trivial) fun _ => .pure _))
  | float v =>
    simp only [encode]
    split
    · exact .pure _
    · exact .bind (.intern _ trivial) fun _ => .pure _
  | double v =>
    simp only [encode]
    split
    · exact .pure _
    · exact .bind (.intern _ trivial) fun _ => .pure _
  | str s => exact .bind (.string s) fun _ => .pure _
  | cls c => exact .bind (.cls c) fun _ => .pure _
  | jump o l => exact .bind (.lift _) fun _ => .lift _
  | field o m => exact .bind (.field _ _ _) fun _ => .pure _
  | invoke o m => exact .bind (.method _ _ _ _) fun _ => .ite (.bind (.lift _) fun _ => .pure _) (.pure _)
  | type o c => exact .bind (.cls c) fun _ => .pure _
  | _ => exact .pure _

end Instr

/-! ### All instructions -/

namespace Assembly
variable {flow : Dataflow} {b b' final : PoolBuilder} {index : Nat} {instrs : List Instr}

open PoolM

/-- The sizes of instructions, the first of which is at `index`. What they have asked of the pool is known to `final`. -/
inductive Sized (flow : Dataflow) (final : PoolBuilder) : Nat → List Instr → List Nat → Prop
  | nil {index : Nat} : Sized flow final index [] []
  | live {index n : Nat} {instr : Instr} {instrs : List Instr} {sizes : List Nat} {b b' : PoolBuilder}
    (hl : flow.isLive index = true) (hs : instr.size.on b = (.ok n, b')) (hg : b'.Grows final)
    (rest : Sized flow final (index + 1) instrs sizes) : Sized flow final index (instr :: instrs) (n :: sizes)
  | dead {index : Nat} {instr : Instr} {instrs : List Instr} {sizes : List Nat} (hl : flow.isLive index = false)
    (rest : Sized flow final (index + 1) instrs sizes) : Sized flow final index (instr :: instrs) (0 :: sizes)

/-- The offsets of instructions, the first of which is at `pc`. -/
def offsetsFrom (pc : Nat) : List Nat → List Nat
  | [] => []
  | n :: sizes => pc :: offsetsFrom (pc + n) sizes

theorem layout_cons (flow : Dataflow) (offsets : Array Nat) (pc index : Nat) (instr : Instr) (instrs : List Instr) :
    layout flow offsets pc index (instr :: instrs) =
      if flow.isLive index then do
        let n ← instr.size
        layout flow (offsets.push pc) (pc + n) (index + 1) instrs
      else layout flow (offsets.push pc) pc (index + 1) instrs := rfl

theorem layout_interns (flow : Dataflow) (offsets : Array Nat) (pc index : Nat) (instrs : List Instr) :
    (layout flow offsets pc index instrs).Interns := by
  induction instrs generalizing offsets pc index with
  | nil => exact .pure _
  | cons instr instrs ih =>
    rw [layout_cons]
    exact .ite (.bind instr.size_interns fun _ => ih _ _ _) (ih _ _ _)

theorem layout_eq_ok {offsets offsets' : Array Nat} {pc total : Nat}
    (h : (layout flow offsets pc index instrs).on b = (.ok (offsets', total), b')) : ∃ sizes,
      Sized flow b' index instrs sizes ∧ offsets'.toList = offsets.toList ++ offsetsFrom pc sizes ∧
        total = pc + sizes.sum := by
  induction instrs generalizing offsets pc index b with
  | nil =>
    cases h
    exact ⟨[], .nil, by simp [offsetsFrom], by simp⟩
  | cons instr instrs ih =>
    rw [layout_cons] at h
    split at h
    · rename_i hlive
      obtain ⟨n, b₁, hn, h⟩ := on_bind_eq_ok.mp h
      obtain ⟨sizes, hsized, hoffsets, rfl⟩ := ih h
      have hg := ((layout_interns flow _ _ _ instrs).settles h).1
      exact ⟨n :: sizes, .live hlive hn hg hsized, by simp [offsetsFrom, hoffsets], by simp [Nat.add_assoc]⟩
    · rename_i hdead
      obtain ⟨sizes, hsized, hoffsets, rfl⟩ := ih h
      exact ⟨0 :: sizes, .dead (Bool.eq_false_iff.mpr hdead) hsized, by simp [offsetsFrom, hoffsets], by simp⟩

theorem getElem?_offsetsFrom {pc i : Nat} {sizes : List Nat} (h : i < sizes.length) :
    (offsetsFrom pc sizes)[i]? = some (pc + (sizes.take i).sum) := by
  induction sizes generalizing pc i with
  | nil => cases h
  | cons n sizes ih =>
    cases i with
    | zero => rfl
    | succ i =>
      rw [offsetsFrom, List.getElem?_cons_succ, ih (Nat.lt_of_succ_lt_succ h), List.take_succ_cons, List.sum_cons,
        Nat.add_assoc]

theorem Sized.length {sizes : List Nat} (h : Sized flow b index instrs sizes) : sizes.length = instrs.length := by
  induction h with
  | nil => rfl
  | live _ _ _ _ ih => rw [List.length_cons, ih, List.length_cons]
  | dead _ _ ih => rw [List.length_cons, ih, List.length_cons]

/-- Marks take no space. -/
theorem Sized.mark {sizes : List Nat} (h : Sized flow b index instrs sizes) {k : Nat} {l : Label}
    (hk : instrs[k]? = some (.mark l)) : sizes[k]? = some 0 := by
  induction h generalizing k with
  | nil => cases hk
  | live _ hs _ _ ih =>
    cases k with
    | zero =>
      cases hk
      cases hs
      rfl
    | succ k => exact ih hk
  | dead _ _ ih =>
    cases k with
    | zero => rfl
    | succ k => exact ih hk

/-- The bytes of instructions, the first of which is at `index`. They are made once the pool knows what `before` does,
    and what they have asked of it is known to `final`. -/
inductive Coded (flow : Dataflow) (target : Label → Except FormatError Nat) (offsets : Array Nat)
    (before final : PoolBuilder) : Nat → List Instr → List Bytes → Prop
  | nil {index : Nat} : Coded flow target offsets before final index [] []
  | live {index : Nat} {bytes : Bytes} {instr : Instr} {instrs : List Instr} {codes : List Bytes} {b b' : PoolBuilder}
    (hl : flow.isLive index = true) (hb : before.Grows b)
    (he : (instr.encode (offsets.getD index 0) target).on b = (.ok bytes, b')) (hg : b'.Grows final)
    (rest : Coded flow target offsets before final (index + 1) instrs codes) :
    Coded flow target offsets before final index (instr :: instrs) (bytes :: codes)
  | dead {index : Nat} {instr : Instr} {instrs : List Instr} {codes : List Bytes} (hl : flow.isLive index = false)
    (rest : Coded flow target offsets before final (index + 1) instrs codes) :
    Coded flow target offsets before final index (instr :: instrs) ([] :: codes)

theorem encodeAll_interns (flow : Dataflow) (p : Placement) (offsets : Array Nat) (acc : List Bytes) (index : Nat)
    (instrs : List Instr) : (encodeAll flow p offsets acc index instrs).Interns := by
  induction instrs generalizing acc index with
  | nil => exact .pure _
  | cons instr instrs ih => exact .ite (.bind (instr.encode_interns _ _) fun _ => ih _ _) (ih _ _)

theorem encodeAll_eq_ok {p : Placement} {offsets : Array Nat} {acc : List Bytes} {bytes : Bytes}
    {before : PoolBuilder} (hb : before.Grows b) (h : (encodeAll flow p offsets acc index instrs).on b = (.ok bytes, b')) :
    ∃ codes, Coded flow (offsetOf p offsets) offsets before b' index instrs codes ∧
      bytes = acc.reverse.flatten ++ codes.flatten := by
  induction instrs generalizing acc index b with
  | nil =>
    cases h
    exact ⟨[], .nil, by simp⟩
  | cons instr instrs ih =>
    rw [encodeAll] at h
    split at h
    · rename_i hlive
      obtain ⟨code, b₁, hcode, h⟩ := on_bind_eq_ok.mp h
      have hg := ((encodeAll_interns flow p offsets _ _ instrs).settles h).1
      obtain ⟨codes, hcodes, rfl⟩ := ih (hb.trans ((instr.encode_interns _ _).settles hcode).1) h
      exact ⟨code :: codes, .live hlive hb hcode hg hcodes, by simp⟩
    · rename_i hdead
      obtain ⟨codes, hcodes, rfl⟩ := ih hb h
      exact ⟨[] :: codes, .dead (Bool.eq_false_iff.mpr hdead) hcodes, by simp⟩

/-- Instructions take the space that was laid out for them. -/
theorem Sized.eq_lengths {sizes : List Nat} {codes : List Bytes} {target : Label → Except FormatError Nat}
    {offsets : Array Nat} (h : Sized flow b index instrs sizes) (hc : Coded flow target offsets b final index instrs codes) :
    sizes = codes.map List.length := by
  induction h generalizing codes with
  | nil =>
    cases hc
    rfl
  | live hl hs hg _ ih =>
    cases hc with
    | live _ hb he _ hc => rw [List.map_cons, ← ih hc, Instr.length_encode _ hs (hg.trans hb) he]
    | dead hl' => exact absurd hl (by simp [hl'])
  | dead hl _ ih =>
    cases hc with
    | live hl' => exact absurd hl' (by simp [hl])
    | dead _ hc => rw [List.map_cons, ← ih hc, List.length_nil]

end Assembly

/-! ### The whole method -/

open PoolM Assembly

namespace StackMap

theorem typeBytes_interns (offsets : Array Nat) (t : VType) : (typeBytes offsets t).Interns := by
  cases t with
  | object name => exact .bind (.cls name) fun _ => .pure _
  | _ => exact .pure _

theorem typesBytes_interns (offsets : Array Nat) (acc : List Bytes) (ts : List VType) :
    (typesBytes offsets acc ts).Interns := by
  induction ts generalizing acc with
  | nil => exact .pure _
  | cons t ts ih => exact .bind (typeBytes_interns offsets t) fun _ => ih _

theorem entryBytes_interns (offsets : Array Nat) (before : List VType) (delta : Nat) (frame : Frame) :
    (entryBytes offsets before delta frame).Interns :=
  .ite (.ite (.pure _) (.pure _))
    (.ite (.bind (typesBytes_interns _ _ _) fun _ => .ite (.pure _) (.pure _))
      (.bind (typesBytes_interns _ _ _) fun _ => .bind (typesBytes_interns _ _ _) fun _ => .pure _))

theorem entriesBytes_interns (offsets : Array Nat) (acc : List Bytes) (before : List VType) (previous : Option Nat)
    (es : List Entry) : (entriesBytes offsets acc before previous es).Interns := by
  induction es generalizing acc before previous with
  | nil => exact .pure _
  | cons e es ih => exact .bind (entryBytes_interns _ _ _ _) fun _ => ih _ _ _

end StackMap

theorem Code.assemble_interns (c : Code) (m : MethodHead) (stackMaps : Bool) : (c.assemble m stackMaps).Interns := by
  have hrest : ∀ flow p offsets before entries (make : Bytes → Bytes → Assembled), Interns (do
      let code ← encodeAll flow p offsets [] 0 c.instrs.toList
      let stackMap ← StackMap.entriesBytes offsets [] before none entries
      return make code stackMap) := fun flow p offsets before entries make =>
    .bind (encodeAll_interns _ _ _ _ _ _) fun _ => .bind (StackMap.entriesBytes_interns _ _ _ _ _) fun _ => .pure _
  exact .bind (.lift _) fun _ => .bind (.lift _) fun _ => .bind (.lift _) fun flow =>
    .bind (layout_interns flow _ _ _ _) fun _ => .ite (.bind (.throw _) fun _ => hrest _ _ _ _ _ _) (hrest _ _ _ _ _ _)

/-- How a method body comes about. -/
structure Assembly.Parts (c : Code) (m : MethodHead) (stackMaps : Bool) (a : Assembled) (b b' : PoolBuilder)
    (p : Placement) (entry : Frame) (flow : Dataflow) (offsets : Array Nat) (size : Nat) (b₁ b₂ : PoolBuilder) : Prop where
  placed : c.placement = .ok p
  entered : m.entryFrame = .ok entry
  typed : Dataflow.analyze m c.instrs p entry = .ok flow
  sized : (layout flow #[] 0 0 c.instrs.toList).on b = (.ok (offsets, size), b₁)
  size_le : size ≤ 65535
  coded : (encodeAll flow p offsets [] 0 c.instrs.toList).on b₁ = (.ok a.code, b₂)
  mapped : (StackMap.entriesBytes offsets [] entry.compactLocals none
    (if stackMaps then StackMap.entries c.instrs p flow offsets else [])).on b₂ = (.ok a.stackMap, b')
  counted : a.frameCount = (if stackMaps then StackMap.entries c.instrs p flow offsets else []).length.toUInt16
  maxStack : a.maxStack = flow.maxStack.toUInt16
  maxLocals : a.maxLocals = flow.maxLocals.toUInt16

theorem Code.exists_parts {c : Code} {m : MethodHead} {stackMaps : Bool} {a : Assembled} {b b' : PoolBuilder}
    (h : (c.assemble m stackMaps).on b = (.ok a, b')) :
    ∃ p entry flow offsets size b₁ b₂, Parts c m stackMaps a b b' p entry flow offsets size b₁ b₂ := by
  obtain ⟨p, _, hplaced, h⟩ := on_bind_eq_ok.mp h
  obtain ⟨hp, rfl⟩ := on_lift_eq_ok.mp hplaced
  obtain ⟨entry, _, hmapped, h⟩ := on_bind_eq_ok.mp h
  obtain ⟨hentry, rfl⟩ := on_lift_eq_ok.mp hmapped
  obtain ⟨flow, _, htyped, h⟩ := on_bind_eq_ok.mp h
  obtain ⟨hflow, rfl⟩ := on_lift_eq_ok.mp htyped
  obtain ⟨⟨offsets, size⟩, b₁, hlayout, h⟩ := on_bind_eq_ok.mp h
  dsimp only at h
  split at h
  · obtain ⟨_, _, hthrow, -⟩ := on_bind_eq_ok.mp h
    cases hthrow
  · rename_i hsize
    obtain ⟨code, b₂, hcode, h⟩ := on_bind_eq_ok.mp h
    obtain ⟨stackMap, b₃, hmap, h⟩ := on_bind_eq_ok.mp h
    cases h
    have hentry : m.entryFrame = .ok entry := by
      cases he : m.entryFrame with
      | error fault =>
        rw [he] at hentry
        cases hentry
      | ok e =>
        rw [he] at hentry
        cases hentry
        rfl
    exact ⟨p, entry, flow, offsets, size, b₁, b₂, hp, hentry, hflow, hlayout, Nat.not_lt.mp hsize, hcode, hmap, rfl, rfl,
      rfl⟩

theorem Code.assemble_eq_ok {c : Code} {m : MethodHead} {stackMaps : Bool} {a : Assembled} {b b' : PoolBuilder}
    (h : (c.assemble m stackMaps).on b = (.ok a, b')) :
    ∃ p entry flow offsets size b₁ b₂, c.placement = .ok p ∧ m.entryFrame = .ok entry ∧
      Dataflow.analyze m c.instrs p entry = .ok flow ∧
      (layout flow #[] 0 0 c.instrs.toList).on b = (.ok (offsets, size), b₁) ∧
      (encodeAll flow p offsets [] 0 c.instrs.toList).on b₁ = (.ok a.code, b₂) ∧ b₂.Grows b' := by
  obtain ⟨p, entry, flow, offsets, size, b₁, b₂, parts⟩ := c.exists_parts h
  have hg := ((StackMap.entriesBytes_interns _ _ _ _ _).settles parts.mapped).1
  exact ⟨p, entry, flow, offsets, size, b₁, b₂, parts.placed, parts.entered, parts.typed, parts.sized, parts.coded, hg⟩

end Classwright
