import Classwright.Proofs.ClassFile.Layout
import Classwright.Proofs.Frames.Slots

/-! # Reading stack maps back

A decoder for the entries of a stack map, as the virtual machine takes them. Each entry says what differs from the frame
before it, and the first of them what differs from the frame that the method starts with. -/

namespace Classwright

/-- A frame as it is read from a stack map. An object that is not initialized goes by the offset of the instruction that
    has made it. -/
structure MapFrame where
  offset : Nat
  /-- One for each value. -/
  locals : List VType
  /-- The top of the stack comes last. -/
  stack : List VType
deriving DecidableEq, Repr

namespace Decoder

def many {α : Type} (item : Reading α) : Nat → Reading (List α)
  | 0 => return []
  | n + 1 => do
    let x ← item
    let xs ← many item n
    return x :: xs

/-- What follows the tag of a verification type. -/
def typeOf (pool : ConstantPool) : Nat → Reading VType
  | 0 => return .top
  | 1 => return .integer
  | 2 => return .float
  | 3 => return .double
  | 4 => return .long
  | 5 => return .null
  | 6 => return .uninitializedThis
  | 7 => return .object (← entry (class? pool))
  | 8 => return .uninitialized (← u2)
  | _ => Reading.ofOption none

def verificationType (pool : ConstantPool) : Reading VType := do
  let tag ← u1
  typeOf pool tag

/-- An offset is given by how much further it is than the least that can follow the frame before it. -/
def nextOffset (previous : Option Nat) (delta : Nat) : Nat :=
  match previous with
  | none => delta
  | some offset => offset + delta + 1

/-- What follows the tag and the offset of a frame. -/
def longFrame (pool : ConstantPool) (locals : List VType) (tag offset : Nat) : Reading MapFrame := do
  if tag = 247 then return ⟨offset, locals, [← verificationType pool]⟩
  -- The last locals are gone, up to three of them.
  else if tag ≤ 251 then return ⟨offset, locals.take (locals.length - (251 - tag)), []⟩
  -- There are more locals, up to three of them.
  else if tag < 255 then return ⟨offset, locals ++ (← many (verificationType pool) (tag - 251)), []⟩
  else
    let locals ← many (verificationType pool) (← u2)
    let stack ← many (verificationType pool) (← u2)
    return ⟨offset, locals, stack⟩

/-- What follows the tag of a frame. -/
def frameOf (pool : ConstantPool) (previous : Option Nat) (locals : List VType) (tag : Nat) : Reading MapFrame := do
  if tag < 64 then return ⟨nextOffset previous tag, locals, []⟩
  else if tag < 128 then return ⟨nextOffset previous (tag - 64), locals, [← verificationType pool]⟩
  else if tag < 247 then Reading.ofOption none
  else
    let delta ← u2
    longFrame pool locals tag (nextOffset previous delta)

def mapFrame (pool : ConstantPool) (previous : Option Nat) (locals : List VType) : Reading MapFrame := do
  let tag ← u1
  frameOf pool previous locals tag

/-- Frames after one at the offset `previous` with these locals. -/
def mapFrames (pool : ConstantPool) : Nat → Option Nat → List VType → Reading (List MapFrame)
  | 0, _, _ => return []
  | count + 1, previous, locals => do
    let frame ← mapFrame pool previous locals
    let frames ← mapFrames pool count (some frame.offset) frame.locals
    return frame :: frames

end Decoder

/-- Reads a number of frames up to the end of the bytes, in the code of a method that starts with these values. -/
def decodeStackMap (pool : ConstantPool) (initial : List VType) (count : Nat) (bytes : Bytes) : Option (List MapFrame) :=
  match Decoder.mapFrames pool count none initial bytes with
  | some (frames, []) => some frames
  | _ => none

/-! ### What should be read -/

namespace VType

/-- The type with offsets for indices of instructions. -/
def located (start : Nat → Nat) : VType → VType
  | .uninitialized site => .uninitialized (start site)
  | t => t

variable {start start' : Nat → Nat}

theorem width_located (start : Nat → Nat) (t : VType) : (t.located start).width = t.width := by
  cases t <;> rfl

theorem located_eq_top {t : VType} : t.located start = .top ↔ t = .top := by
  cases t <;> simp [located]

theorem located_eq_uninitialized {t : VType} {offset : Nat} (h : t.located start = .uninitialized offset) :
    ∃ site, t = .uninitialized site ∧ start site = offset := by
  cases t with
  | uninitialized site => exact ⟨site, rfl, VType.uninitialized.inj h⟩
  | _ => cases h

theorem located_congr {t : VType} (h : ∀ site, t = .uninitialized site → start site = start' site) :
    t.located start = t.located start' := by
  cases t with
  | uninitialized site => rw [located, located, h site rfl]
  | _ => rfl

theorem map_located_eq_self {ts : List VType} (h : ∀ t ∈ ts, ∀ site, t ≠ .uninitialized site) :
    ts.map (located start) = ts := by
  have hid : ∀ t ∈ ts, t.located start = id t := fun t ht => by
    cases t with
    | uninitialized site => exact absurd rfl (h _ ht site)
    | _ => rfl
  rw [List.map_congr_left hid, List.map_id]

theorem spread_map_located (ts : List VType) : spread (ts.map (located start)) = (spread ts).map (located start) := by
  induction ts with
  | nil => rfl
  | cons t ts ih =>
    have hwidth := width_located start t
    by_cases h : t.width = 2
    · rw [List.map_cons, spread_cons_wide (hwidth.trans h), spread_cons_wide h, ih]
      rfl
    · rw [List.map_cons, spread_cons_narrow (hwidth ▸ h), spread_cons_narrow h, ih]
      rfl

theorem trim_map_located (ts : List VType) : trim (ts.map (located start)) = (trim ts).map (located start) := by
  induction ts using List.reverseRecOn with
  | nil => rfl
  | append_singleton ts t ih =>
    rw [List.map_append, List.map_singleton]
    by_cases ht : t = .top
    · subst ht
      rw [trim_concat_top, ← ih]
      exact trim_concat_top _
    · rw [trim_concat ht, trim_concat (mt located_eq_top.mp ht), List.map_append, List.map_singleton]

end VType

namespace StackMap

def Entry.read (start : Nat → Nat) (e : Entry) : MapFrame where
  offset := e.offset
  locals := e.frame.compactLocals.map (VType.located start)
  stack := e.frame.stack.reverse.map (VType.located start)

theorem Entry.read_congr {start start' : Nat → Nat} {e : Entry}
    (h : ∀ t ∈ e.frame.compactLocals ++ e.frame.stack, ∀ site, t = .uninitialized site → start site = start' site) :
    e.read start = e.read start' := by
  obtain ⟨hlocals, hstack⟩ := List.forall_mem_append.mp h
  have hlocals := List.map_congr_left fun t ht => VType.located_congr (hlocals t ht)
  have hstack := List.map_congr_left fun t ht => VType.located_congr (hstack t (List.mem_reverse.mp ht))
  rw [read, read, hlocals, hstack]

end StackMap

namespace Decoder
open PoolM StackMap

variable {b b' final : PoolBuilder} {bytes : Bytes} {offsets : Array Nat}

theorem Reads.tag {α : Type} {tag : Nat} (h : tag < 256) {k : Nat → Reading α} {a : α} (hk : Reads (k tag) bytes a) :
    Reads (Decoder.u1 >>= k) (Bytes.u1 tag ++ bytes) a := by
  have hvalue : tag.toUInt8.toNat = tag := by
    rw [Nat.toUInt8_eq, UInt8.toNat_ofNat', Nat.mod_eq_of_lt h]
  have hread : Reads Decoder.u1 [tag.toUInt8] tag := by
    have hread := Reads.u1 tag.toUInt8
    rwa [hvalue] at hread
  exact hread.bind hk

/-- The offset that a type refers to is a 16-bit number. -/
def Short (start : Nat → Nat) (t : VType) : Prop := ∀ site, t = .uninitialized site → start site < 65536

theorem reads_verificationType (hs : final.Sound) {t : VType} (ht : Short (offsets.getD · 0) t)
    (h : (typeBytes offsets t).on b = (.ok bytes, b')) (hg : b'.Grows final) :
    Reads (verificationType final.pool) bytes (t.located (offsets.getD · 0)) := by
  cases t with
  | object name =>
    obtain ⟨i, _, hi, h⟩ := on_bind_eq_ok.mp h
    cases h
    exact Reads.tag (by decide) (Reads.entry (class?_of_cls hs hg hi)).map
  | uninitialized site =>
    cases h
    exact Reads.tag (by decide) (Reads.u2 (ht site rfl)).map
  | _ =>
    cases h
    exact fun _ => rfl

theorem reads_types (hs : final.Sound) {ts : List VType} (hts : ∀ t ∈ ts, Short (offsets.getD · 0) t) {acc : List Bytes}
    (h : (typesBytes offsets acc ts).on b = (.ok bytes, b')) (hg : b'.Grows final) :
    ∃ rest, bytes = acc.reverse.flatten ++ rest ∧
      Reads (many (verificationType final.pool) ts.length) rest (ts.map (VType.located (offsets.getD · 0))) := by
  induction ts generalizing acc b with
  | nil =>
    cases h
    exact ⟨[], by simp, .pure _⟩
  | cons t ts ih =>
    obtain ⟨ht, hts⟩ := List.forall_mem_cons.mp hts
    obtain ⟨first, b₁, hfirst, h⟩ := on_bind_eq_ok.mp h
    have hgrows := ((typesBytes_interns offsets _ ts).settles h).1
    have hread := reads_verificationType hs ht hfirst (hgrows.trans hg)
    obtain ⟨rest, rfl, hrest⟩ := ih hts h
    exact ⟨first ++ rest, by simp, hread.bind hrest.map⟩

theorem reads_typesBytes (hs : final.Sound) {ts : List VType} (hts : ∀ t ∈ ts, Short (offsets.getD · 0) t)
    (h : (typesBytes offsets [] ts).on b = (.ok bytes, b')) (hg : b'.Grows final) :
    Reads (many (verificationType final.pool) ts.length) bytes (ts.map (VType.located (offsets.getD · 0))) := by
  obtain ⟨rest, rfl, hread⟩ := reads_types hs hts h hg
  exact hread

/-! ### Forms of frames -/

section Forms
variable {pool : ConstantPool} {previous : Option Nat} {locals ts us : List VType} {delta : Nat} {t : VType}
  {bytes' : Bytes}

theorem reads_same (h : delta < 64) :
    Reads (mapFrame pool previous locals) (Bytes.u1 delta) ⟨nextOffset previous delta, locals, []⟩ := by
  have hread : Reads (frameOf pool previous locals delta) [] ⟨nextOffset previous delta, locals, []⟩ := by
    rw [frameOf, if_pos h]
    exact .pure _
  exact Reads.tag (by omega) hread

theorem reads_stackItem (h : delta < 64) (ht : Reads (verificationType pool) bytes t) :
    Reads (mapFrame pool previous locals) (Bytes.u1 (64 + delta) ++ bytes)
      ⟨nextOffset previous delta, locals, [t]⟩ := by
  refine Reads.tag (by omega) ?_
  rw [frameOf, if_neg (by omega), if_pos (by omega), Nat.add_sub_cancel_left]
  exact ht.map

theorem reads_long {tag : Nat} (htag : 247 ≤ tag) (htag' : tag < 256) (h : delta < 65536) {frame : MapFrame}
    (hframe : Reads (longFrame pool locals tag (nextOffset previous delta)) bytes frame) :
    Reads (mapFrame pool previous locals) (Bytes.u1 tag ++ (Bytes.u2 delta ++ bytes)) frame := by
  refine Reads.tag htag' ?_
  rw [frameOf, if_neg (by omega), if_neg (by omega), if_neg (by omega)]
  exact (Reads.u2 h).bind hframe

theorem reads_longSame {offset : Nat} : Reads (longFrame pool locals 251 offset) [] ⟨offset, locals, []⟩ := by
  have hframe : longFrame pool locals 251 offset = pure ⟨offset, locals.take (locals.length - 0), []⟩ := rfl
  rw [hframe, Nat.sub_zero, List.take_length]
  exact .pure _

theorem reads_longStackItem {offset : Nat} (ht : Reads (verificationType pool) bytes t) :
    Reads (longFrame pool locals 247 offset) bytes ⟨offset, locals, [t]⟩ := ht.map

theorem reads_full {offset : Nat} (hlength : ts.length < 65536) (hlength' : us.length < 65536)
    (hts : Reads (many (verificationType pool) ts.length) bytes ts)
    (hus : Reads (many (verificationType pool) us.length) bytes' us) :
    Reads (longFrame pool locals 255 offset) (Bytes.u2 ts.length ++ (bytes ++ (Bytes.u2 us.length ++ bytes')))
      ⟨offset, ts, us⟩ :=
  (Reads.u2 hlength).bind (hts.bind ((Reads.u2 hlength').bind hus.map))

end Forms

/-- A frame that can be written with 16-bit numbers. -/
structure Fits (start : Nat → Nat) (f : Frame) : Prop where
  locals : f.locals.length < 65536
  stack : f.stack.length < 65536
  types : ∀ t ∈ f.compactLocals ++ f.stack, Short start t

theorem reads_entryBytes (hs : final.Sound) {before : List VType} {previous : Option Nat} {delta : Nat}
    {e : StackMap.Entry} (hdelta : delta < 65536) (hnext : nextOffset previous delta = e.offset)
    (hf : Fits (offsets.getD · 0) e.frame)
    (h : (entryBytes offsets before delta e.frame).on b = (.ok bytes, b')) (hg : b'.Grows final) :
    Reads (mapFrame final.pool previous (before.map (VType.located (offsets.getD · 0)))) bytes
      (e.read (offsets.getD · 0)) := by
  obtain ⟨offset, frame⟩ := e
  obtain rfl : nextOffset previous delta = offset := hnext
  obtain ⟨htypes, htypes'⟩ := List.forall_mem_append.mp hf.types
  unfold entryBytes StackMap.Entry.read at *
  dsimp only at h ⊢
  split at h
  · rename_i hsame
    obtain ⟨rfl, hempty⟩ := hsame
    rw [List.isEmpty_iff.mp hempty]
    split at h
    · cases h
      exact reads_same ‹_›
    · cases h
      exact reads_long (by decide) (by decide) hdelta reads_longSame
  · split at h
    · rename_i hsame
      obtain ⟨rfl, hone⟩ := hsame
      obtain ⟨t, ht⟩ := List.length_eq_one_iff.mp hone
      rw [ht] at h ⊢
      obtain ⟨stack, b₁, hstack, h⟩ := on_bind_eq_ok.mp h
      obtain ⟨item, b₂, hitem, hstack⟩ := on_bind_eq_ok.mp hstack
      cases hstack
      have hshort := htypes' t (by rw [ht]; exact List.mem_cons_self)
      split at h
      · cases h
        have hread := reads_verificationType hs hshort hitem hg
        simpa using reads_stackItem ‹_› hread
      · cases h
        have hread := reads_verificationType hs hshort hitem hg
        simpa using reads_long (by decide) (by decide) hdelta (reads_longStackItem hread)
    · obtain ⟨locals, b₁, hlocals, h⟩ := on_bind_eq_ok.mp h
      obtain ⟨stack, b₂, hstack, h⟩ := on_bind_eq_ok.mp h
      cases h
      have hgrows := ((typesBytes_interns offsets [] _).settles hstack).1
      have hreads := reads_typesBytes hs htypes hlocals (hgrows.trans hg)
      have hreads' := reads_typesBytes hs (by simpa using htypes') hstack hg
      have hlength := Nat.lt_of_le_of_lt frame.length_compactLocals_le hf.locals
      have hlength' := hf.stack
      rw [← List.length_map (VType.located (offsets.getD · 0))] at hreads hlength hreads'
      rw [← List.length_reverse, ← List.length_map (VType.located (offsets.getD · 0))] at hlength'
      have hfull : Reads (mapFrame final.pool previous (before.map (VType.located (offsets.getD · 0)))) _ _ :=
        reads_long (by decide) (by decide) hdelta (reads_full hlength hlength' hreads hreads')
      simpa using hfull

/-- The offset is found again from what it was written as. -/
theorem nextOffset_eq {previous : Option Nat} {offset : Nat} (h : offset < 65536) :
    (∀ p ∈ previous, p < offset) → nextOffset previous ((match previous with
      | none => offset
      | some p => offset - p - 1) % 65536) = offset := by
  intro hp
  cases previous with
  | none => exact Nat.mod_eq_of_lt h
  | some p =>
    have hlt := hp p rfl
    dsimp only [nextOffset]
    rw [Nat.mod_eq_of_lt (by omega)]
    omega

/-- Entries are read one after another, if their offsets rise. -/
theorem reads_entries (hs : final.Sound) {es : List StackMap.Entry} {acc : List Bytes} {before : List VType}
    {previous : Option Nat} (hsorted : es.Pairwise (·.offset < ·.offset))
    (hprevious : ∀ p ∈ previous, ∀ e ∈ es, p < e.offset)
    (hfits : ∀ e ∈ es, e.offset < 65536 ∧ Fits (offsets.getD · 0) e.frame)
    (h : (entriesBytes offsets acc before previous es).on b = (.ok bytes, b')) (hg : b'.Grows final) :
    ∃ rest, bytes = acc.reverse.flatten ++ rest ∧
      Reads (mapFrames final.pool es.length previous (before.map (VType.located (offsets.getD · 0)))) rest
        (es.map (StackMap.Entry.read (offsets.getD · 0))) := by
  induction es generalizing acc before previous b with
  | nil =>
    cases h
    exact ⟨[], by simp, .pure _⟩
  | cons e es ih =>
    obtain ⟨hfirst, hsorted⟩ := List.pairwise_cons.mp hsorted
    obtain ⟨⟨hoffset, hframe⟩, hfits⟩ := List.forall_mem_cons.mp hfits
    obtain ⟨first, b₁, hbytes, h⟩ := on_bind_eq_ok.mp h
    have hgrows := ((entriesBytes_interns offsets _ _ _ es).settles h).1
    obtain ⟨rest, rfl, hrest⟩ := ih hsorted (by simpa using hfirst) hfits h
    have hnext := nextOffset_eq hoffset fun p hp => hprevious p hp e List.mem_cons_self
    have hread := reads_entryBytes hs (Nat.mod_lt _ (by decide)) hnext hframe hbytes (hgrows.trans hg)
    exact ⟨first ++ rest, by simp, hread.bind hrest.map⟩

end Decoder

end Classwright
