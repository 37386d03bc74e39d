import Classwright.Proofs.ClassFile.Parsing
import Mathlib.Data.List.Induction

/-! # Layouts

A layout says what stands in a stretch of a class file, one thing after another: bytes, indices of constants, attributes
with the sizes of their contents, and counts of the items that follow. It can be written, and bytes can be held against it.
What is written for a layout agrees with it but for counts that do not fit, of which the low bytes are left. -/

namespace Classwright

open PoolM

/-! ### Counts -/

theorem Bytes.value_lt (bytes : Bytes) : bytes.value < 256 ^ bytes.length := by
  induction bytes using List.reverseRecOn with
  | nil => exact Nat.one_pos
  | append_singleton bytes last ih =>
    have hlast := last.toNat_lt
    have hvalue : Bytes.value (bytes ++ [last]) = 256 * Bytes.value bytes + last.toNat := by simp [Bytes.value]
    rw [hvalue, List.length_append, List.length_singleton, Nat.pow_succ']
    omega

/-- The number of items of a list, which is written in some bytes. -/
structure Count where
  width : Nat
  items : Nat
deriving DecidableEq

namespace Count

/-- The number can be written. -/
def Fits (c : Count) : Prop := c.items < 256 ^ c.width

instance (c : Count) : Decidable c.Fits := inferInstanceAs (Decidable (c.items < 256 ^ c.width))

/-- What the low bytes of the number say. -/
def cut (c : Count) : Nat := c.items % 256 ^ c.width

theorem Fits.cut_eq {c : Count} (h : c.Fits) : c.cut = c.items := Nat.mod_eq_of_lt h

/-- The bytes are the count, as a number that is made of it. -/
def Stands (number : Count → Nat) (c : Count) (bytes : Bytes) : Prop := bytes.length = c.width ∧ bytes.value = number c

theorem stands_word (c : Count) : Stands cut c (Bytes.word c.width c.items) :=
  ⟨Bytes.length_word _ _, Bytes.value_word _ _⟩

theorem Stands.fits {c : Count} {bytes : Bytes} (h : Stands items c bytes) : c.Fits := by
  have hlt := bytes.value_lt
  rwa [h.1, h.2] at hlt

end Count

/-! ### Layouts -/

mutual

/-- What stands in a stretch of a class file. -/
inductive Layout where
  | raw (bytes : Bytes)
  /-- The index of a text. -/
  | text (s : String)
  /-- The index of a class. -/
  | cls (name : String)
  | constant (c : Constant) (hc : c.Writable)
  | count (c : Count)
  | both (first second : Layout)
  /-- The number of attributes, and then the attributes. -/
  | attributes (as : List AttributeLayout)

structure AttributeLayout where
  name : String
  contents : Layout

end

namespace Layout

/-- Items one after another. -/
def each (items : List Layout) : Layout := items.foldr both (raw [])

/-- The number of the items, and then the items. -/
def counted (width : Nat) (items : List Layout) : Layout := both (count ⟨width, items.length⟩) (each items)

mutual

/-- All counts that stand in the stretch. -/
def counts : Layout → List Count
  | .count c => [c]
  | .both first second => first.counts ++ second.counts
  | .attributes as => ⟨2, as.length⟩ :: countsOf as
  | _ => []

def countsOf : List AttributeLayout → List Count
  | [] => []
  | ⟨_, contents⟩ :: rest => contents.counts ++ countsOf rest

end

/-! ### Bytes -/

section Holds
variable (number : Count → Nat) (pool : ConstantPool)

mutual

/-- The bytes are laid out like this, with indices of the pool and counts that are made to numbers in some way. -/
def Holds : Layout → Bytes → Prop
  | .raw expected, bytes => bytes = expected
  | .text s, bytes => ∃ i : UInt16, bytes = Bytes.u2 i.toNat ∧ pool.utf8At i = .ok s
  | .cls name, bytes => ∃ i : UInt16, bytes = Bytes.u2 i.toNat ∧ pool.classAt i = .ok name
  | .constant c _, bytes => ∃ i : UInt16, bytes = Bytes.u2 i.toNat ∧ pool.get? i = some c
  | .count c, bytes => c.Stands number bytes
  | .both first second, bytes => ∃ front rest, bytes = front ++ rest ∧ first.Holds front ∧ second.Holds rest
  | .attributes as, bytes => ∃ front rest, bytes = front ++ rest ∧ Count.Stands number ⟨2, as.length⟩ front ∧
      AttributesHold as rest

/-- The attributes stand one after another, each with its name and the size of its contents. -/
def AttributesHold : List AttributeLayout → Bytes → Prop
  | [], bytes => bytes = []
  | ⟨name, contents⟩ :: rest, bytes => ∃ (i : UInt16) (data more : Bytes),
      bytes = Bytes.u2 i.toNat ++ Bytes.u4 data.length ++ data ++ more ∧ pool.utf8At i = .ok name ∧
      contents.Holds data ∧ AttributesHold rest more

end

end Holds

variable {number number' : Count → Nat} {pool : ConstantPool}

mutual

/-- Counts may be made to numbers in another way that gives the same. -/
theorem Holds.congr : (l : Layout) → (∀ c ∈ l.counts, number c = number' c) →
    ∀ {bytes : Bytes}, l.Holds number pool bytes → l.Holds number' pool bytes
  | .raw _, _, _, h => h
  | .text _, _, _, h => h
  | .cls _, _, _, h => h
  | .constant _ _, _, _, h => h
  | .count c, hc, _, h => ⟨h.1, h.2.trans (hc c List.mem_cons_self)⟩
  | .both first second, hc, _, ⟨front, rest, hbytes, hfirst, hsecond⟩ =>
    ⟨front, rest, hbytes, Holds.congr first (fun c h => hc c (List.mem_append_left _ h)) hfirst,
      Holds.congr second (fun c h => hc c (List.mem_append_right _ h)) hsecond⟩
  | .attributes as, hc, _, ⟨front, rest, hbytes, hcount, has⟩ =>
    ⟨front, rest, hbytes, ⟨hcount.1, hcount.2.trans (hc _ List.mem_cons_self)⟩,
      AttributesHold.congr as (fun c h => hc c (List.mem_cons_of_mem _ h)) has⟩

theorem AttributesHold.congr : (as : List AttributeLayout) → (∀ c ∈ countsOf as, number c = number' c) →
    ∀ {bytes : Bytes}, AttributesHold number pool as bytes → AttributesHold number' pool as bytes
  | [], _, _, h => h
  | ⟨_, contents⟩ :: as, hc, _, ⟨i, data, more, hbytes, hname, hdata, hmore⟩ =>
    ⟨i, data, more, hbytes, hname, Holds.congr contents (fun c h => hc c (List.mem_append_left _ h)) hdata,
      AttributesHold.congr as (fun c h => hc c (List.mem_append_right _ h)) hmore⟩

end

mutual

/-- Each count stands somewhere in the bytes. -/
theorem Holds.stands : (l : Layout) → ∀ {bytes : Bytes}, l.Holds number pool bytes →
    ∀ c ∈ l.counts, ∃ field, c.Stands number field
  | .raw _, _, _, c, hc => by cases hc
  | .text _, _, _, c, hc => by cases hc
  | .cls _, _, _, c, hc => by cases hc
  | .constant _ _, _, _, c, hc => by cases hc
  | .count c, bytes, h, c', hc => by
    obtain rfl := List.mem_singleton.mp hc
    exact ⟨bytes, h⟩
  | .both first second, _, ⟨front, rest, _, hfirst, hsecond⟩, c, hc => by
    rcases List.mem_append.mp hc with hc | hc
    · exact Holds.stands first hfirst c hc
    · exact Holds.stands second hsecond c hc
  | .attributes as, _, ⟨front, rest, _, hcount, has⟩, c, hc => by
    rcases List.mem_cons.mp hc with rfl | hc
    · exact ⟨front, hcount⟩
    · exact AttributesHold.stands as has c hc

theorem AttributesHold.stands : (as : List AttributeLayout) → ∀ {bytes : Bytes}, AttributesHold number pool as bytes →
    ∀ c ∈ countsOf as, ∃ field, c.Stands number field
  | [], _, _, c, hc => by cases hc
  | ⟨_, contents⟩ :: as, _, ⟨i, data, more, _, _, hdata, hmore⟩, c, hc => by
    rcases List.mem_append.mp hc with hc | hc
    · exact Holds.stands contents hdata c hc
    · exact AttributesHold.stands as hmore c hc

end

/-- Bytes whose counts are cut are what the layout says just if all counts fit. -/
theorem holds_items_iff {l : Layout} {bytes : Bytes} (h : l.Holds Count.cut pool bytes) :
    l.Holds Count.items pool bytes ↔ ∀ c ∈ l.counts, c.Fits := by
  constructor
  · intro hitems c hc
    obtain ⟨field, hfield⟩ := hitems.stands l c hc
    exact hfield.fits
  · intro hfits
    exact h.congr l fun c hc => (hfits c hc).cut_eq

/-! ### Writing -/

mutual

/-- Asks the pool for indices in order. The contents of attributes come before their names. -/
def write : Layout → PoolM Bytes
  | .raw bytes => return bytes
  | .text s => return Bytes.u2 (← PoolM.utf8 s).toNat
  | .cls name => ClassFile.classBytes name
  | .constant c _ => return Bytes.u2 (← PoolM.intern c).toNat
  | .count c => return Bytes.word c.width c.items
  | .both first second => do
    let front ← first.write
    let rest ← second.write
    return front ++ rest
  | .attributes as => do
    let as ← writeContents as
    ClassFile.attributesBytes as

def writeContents : List AttributeLayout → PoolM (List ClassFile.Attribute)
  | [] => return []
  | ⟨name, contents⟩ :: rest => do
    let data ← contents.write
    let rest ← writeContents rest
    return ⟨name, data⟩ :: rest

end

mutual

theorem write_interns : (l : Layout) → l.write.Interns
  | .raw _ => .pure _
  | .text s => .bind (.utf8 s) fun _ => .pure _
  | .cls name => ClassFile.classBytes_interns name
  | .constant c hc => .bind (.intern c hc) fun _ => .pure _
  | .count _ => .pure _
  | .both first second => .bind (write_interns first) fun _ => .bind (write_interns second) fun _ => .pure _
  | .attributes as => .bind (writeContents_interns as) fun as => ClassFile.attributesBytes_interns as

theorem writeContents_interns : (as : List AttributeLayout) → (writeContents as).Interns
  | [] => .pure _
  | ⟨_, contents⟩ :: as =>
    .bind (write_interns contents) fun _ => .bind (writeContents_interns as) fun _ => .pure _

end

variable {b : PoolBuilder}

mutual

/-- What is written for a layout is laid out like that, with counts that are cut. -/
theorem holds_of_gives (hb : b.Sound) : (l : Layout) → ∀ {bytes : Bytes}, l.write.Gives b bytes →
    l.Holds Count.cut b.pool bytes
  | .raw _, _, h => gives_pure.mp h
  | .text s, _, h => by
    obtain ⟨i, hi, h⟩ := (gives_bind (.utf8 s) fun _ => .pure _).mp h
    exact ⟨i, gives_pure.mp h, hi.utf8At hb⟩
  | .cls name, _, h => by
    obtain ⟨i, hi, h⟩ := (gives_bind (.cls name) fun _ => .pure _).mp h
    exact ⟨i, gives_pure.mp h, hi.classAt hb⟩
  | .constant c hc, _, h => by
    obtain ⟨i, hi, h⟩ := (gives_bind (.intern c hc) fun _ => .pure _).mp h
    exact ⟨i, gives_pure.mp h, hi.get? hb⟩
  | .count c, _, h => by
    obtain rfl := gives_pure.mp h
    exact c.stands_word
  | .both first second, _, h => by
    obtain ⟨front, hfront, h⟩ :=
      (gives_bind first.write_interns fun _ => .bind second.write_interns fun _ => .pure _).mp h
    obtain ⟨rest, hrest, h⟩ := (gives_bind second.write_interns fun _ => .pure _).mp h
    exact ⟨front, rest, gives_pure.mp h, holds_of_gives hb first hfront, holds_of_gives hb second hrest⟩
  | .attributes as, _, h => by
    obtain ⟨contents, hcontents, h⟩ :=
      (gives_bind (writeContents_interns as) fun as => ClassFile.attributesBytes_interns as).mp h
    obtain ⟨body, hbody, h⟩ := (gives_bind (ClassFile.attributesBody_interns contents) fun _ => .pure _).mp h
    obtain rfl := gives_pure.mp h
    obtain ⟨hlength, hhold⟩ := attributesHold_of_gives hb as hcontents hbody
    refine ⟨Bytes.u2 contents.length, body, rfl, ?_, hhold⟩
    rw [hlength]
    exact Count.stands_word ⟨2, as.length⟩

theorem attributesHold_of_gives (hb : b.Sound) : (as : List AttributeLayout) → ∀ {contents : List ClassFile.Attribute}
    {bytes : Bytes}, (writeContents as).Gives b contents → (ClassFile.attributesBody contents).Gives b bytes →
    contents.length = as.length ∧ AttributesHold Count.cut b.pool as bytes
  | [], contents, _, h, hbytes => by
    obtain rfl := gives_pure.mp h
    exact ⟨rfl, gives_pure.mp hbytes⟩
  | ⟨name, layout⟩ :: as, contents, _, h, hbytes => by
    obtain ⟨data, hdata, h⟩ :=
      (gives_bind layout.write_interns fun _ => .bind (writeContents_interns as) fun _ => .pure _).mp h
    obtain ⟨rest, hrest, h⟩ := (gives_bind (writeContents_interns as) fun _ => .pure _).mp h
    obtain rfl := gives_pure.mp h
    obtain ⟨i, hi, hbytes⟩ :=
      (gives_bind (.utf8 name) fun _ => .bind (ClassFile.attributesBody_interns rest) fun _ => .pure _).mp hbytes
    obtain ⟨more, hmore, hbytes⟩ := (gives_bind (ClassFile.attributesBody_interns rest) fun _ => .pure _).mp hbytes
    obtain ⟨hlength, hhold⟩ := attributesHold_of_gives hb as hrest hmore
    exact ⟨congrArg (· + 1) hlength, i, data, more, gives_pure.mp hbytes, hi.utf8At hb,
      holds_of_gives hb layout hdata, hhold⟩

end

end Layout

/-! ### Failures -/

/-- The pool has no room for a constant, or a text is too long for it. -/
def PoolBuilder.Refuses (b : PoolBuilder) (e : FormatError) : Prop :=
  (∃ c, b.pool.hasRoom c = false ∧ e = .poolOverflow (b.pool.count + c.width)) ∨
    ∃ s, 65535 < (Text.encodeModifiedUtf8 s).length ∧ e = .textTooLong (Text.encodeModifiedUtf8 s).length

/-- If the computation fails, then because the pool that it leaves refuses something. -/
def PoolM.OnlyRefused {α : Type} (x : PoolM α) : Prop := ∀ b e b', x.on b = (.error e, b') → b'.Refuses e

namespace PoolM.OnlyRefused
variable {α β : Type}

theorem pure (a : α) : OnlyRefused (pure a) := by
  intro b e b' h
  cases h

theorem bind {x : PoolM α} {k : α → PoolM β} (hx : x.OnlyRefused) (hk : ∀ a, (k a).OnlyRefused) :
    OnlyRefused (x >>= k) := by
  intro b e b' h
  rw [on_bind] at h
  split at h
  · exact hk _ _ _ _ h
  · rename_i hfails
    cases h
    exact hx _ _ _ hfails

theorem intern (c : Constant) : (PoolM.intern c).OnlyRefused := by
  intro b e b' h
  rw [on_intern] at h
  split at h
  · cases h
  · split at h
    · cases h
    · rename_i hroom
      cases h
      exact .inl ⟨c, Bool.eq_false_iff.mpr hroom, rfl⟩

theorem utf8 (s : String) : (PoolM.utf8 s).OnlyRefused := by
  unfold PoolM.utf8
  dsimp only
  split
  · rename_i hlength
    intro b e b' h
    cases h
    exact .inr ⟨s, hlength, rfl⟩
  · exact intern _

theorem classBytes (name : String) : (ClassFile.classBytes name).OnlyRefused :=
  .bind (.bind (.utf8 name) fun _ => .intern _) fun _ => .pure _

theorem attributesBytes (as : List ClassFile.Attribute) : (ClassFile.attributesBytes as).OnlyRefused := by
  refine .bind ?_ fun _ => .pure _
  induction as with
  | nil => exact .pure _
  | cons a as ih => exact .bind (.utf8 a.name) fun _ => .bind ih fun _ => .pure _

end PoolM.OnlyRefused

mutual

theorem Layout.write_onlyRefused : (l : Layout) → l.write.OnlyRefused
  | .raw _ => .pure _
  | .text s => .bind (.utf8 s) fun _ => .pure _
  | .cls name => .classBytes name
  | .constant c _ => .bind (.intern c) fun _ => .pure _
  | .count _ => .pure _
  | .both first second => .bind first.write_onlyRefused fun _ => .bind second.write_onlyRefused fun _ => .pure _
  | .attributes as => .bind (Layout.writeContents_onlyRefused as) fun as => .attributesBytes as

theorem Layout.writeContents_onlyRefused : (as : List AttributeLayout) → (Layout.writeContents as).OnlyRefused
  | [] => .pure _
  | ⟨_, contents⟩ :: as =>
    .bind contents.write_onlyRefused fun _ => .bind (Layout.writeContents_onlyRefused as) fun _ => .pure _

end

end Classwright
