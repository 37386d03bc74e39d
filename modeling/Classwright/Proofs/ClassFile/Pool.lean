import Classwright.ClassFile.ConstantPool
import Classwright.Proofs.Results

/-! # Building a constant pool

All work on a pool comes down to asking for the index of constants. A constant stands where its index says, and once it
has an index it keeps it, so that asking again gives the same answer and changes nothing. -/

namespace Classwright

/-! ### Keys -/

namespace Constant

/-- The constant that a key stands for. -/
def ofKey? : List Nat → Option Constant
  | 1 :: text => some (.utf8 (String.ofList (text.map Char.ofNat)))
  | [3, n] => some (.integer n.toUInt32.toInt32)
  | [4, n] => some (.float ⟨n.toUInt32⟩)
  | [5, n] => some (.long n.toUInt64.toInt64)
  | [6, n] => some (.double ⟨n.toUInt64⟩)
  | [7, n] => some (.cls n.toUInt16)
  | [8, n] => some (.string n.toUInt16)
  | [9, c, n] => some (.field c.toUInt16 n.toUInt16)
  | [10, c, n] => some (.method c.toUInt16 n.toUInt16)
  | [11, c, n] => some (.interfaceMethod c.toUInt16 n.toUInt16)
  | [12, n, d] => some (.nameAndType n.toUInt16 d.toUInt16)
  | [0, tag] => some (.other tag.toUInt8)
  | _ => none

theorem ofKey?_key (c : Constant) : ofKey? c.key = some c := by
  cases c with
  | utf8 s => simp [key, ofKey?, Function.comp_def, Char.ofNat_toNat]
  | _ => simp [key, ofKey?]

theorem key_injective {c d : Constant} (h : c.key = d.key) : c = d :=
  Option.some.inj (by rw [← ofKey?_key c, ← ofKey?_key d, h])

/-- The constant can stand in a class file. -/
def Writable : Constant → Prop
  | .utf8 s => (Text.encodeModifiedUtf8 s).length ≤ 65535
  | .other _ => False
  | _ => True

end Constant

/-! ### Builders -/

namespace PoolBuilder
variable {b b' b'' : PoolBuilder} {c : Constant} {i : UInt16}

/-- The builder knows an index of the constant. -/
def Has (b : PoolBuilder) (c : Constant) (i : UInt16) : Prop := b.index[c.key]? = some i

/-- Constants keep their indices. -/
def Grows (b b' : PoolBuilder) : Prop := ∀ c i, b.Has c i → b'.Has c i

theorem Grows.refl (b : PoolBuilder) : b.Grows b := fun _ _ h => h

theorem Grows.trans (h : b.Grows b') (h' : b'.Grows b'') : b.Grows b'' := fun c i hc => h' c i (h c i hc)

/-- Every constant stands at its index. -/
def Sound (b : PoolBuilder) : Prop := ∀ c i, b.Has c i → b.pool.get? i = some c

end PoolBuilder

open PoolBuilder

namespace ConstantPool
variable {p : ConstantPool} {c d : Constant} {i : UInt16}

theorem lt_count_of_get? (h : p.get? i = some c) : i.toNat < p.count := by
  by_contra hle
  rw [get?, Array.getElem?_eq_none (Nat.not_lt.mp hle)] at h
  cases h

/-- A new entry stands behind all others, which stay where they are. -/
theorem get?_add (p : ConstantPool) (c : Constant) (i : UInt16) :
    (p.add c).get? i = if i.toNat = p.count then some c else p.get? i := by
  have hpush : (p.entries.push (some c))[i.toNat]?.join = if i.toNat = p.count then some c else p.get? i := by
    rw [Array.getElem?_push, apply_ite Option.join]
    rfl
  unfold add
  split
  · -- the second index of a wide entry is behind the last, too
    have hsecond : ((p.entries.push (some c)).push none)[i.toNat]?.join = (p.entries.push (some c))[i.toNat]?.join := by
      rw [Array.getElem?_push]
      split
      · rename_i hlast
        rw [Array.getElem?_eq_none (Nat.le_of_eq hlast.symm)]
        rfl
      · rfl
    exact hsecond.trans hpush
  · exact hpush

theorem get?_add_of_some (h : p.get? i = some d) (c : Constant) : (p.add c).get? i = some d := by
  rw [get?_add, if_neg (Nat.ne_of_lt (lt_count_of_get? h)), h]

theorem toNat_count (h : p.hasRoom c = true) : p.count.toUInt16.toNat = p.count := by
  have hroom := of_decide_eq_true h
  simp only [Nat.toUInt16_eq, UInt16.toNat_ofNat']
  omega

theorem get?_add_count (h : p.hasRoom c = true) : (p.add c).get? p.count.toUInt16 = some c := by
  rw [get?_add, if_pos (toNat_count h)]

end ConstantPool

/-! ### Requests -/

namespace PoolM

variable {α β : Type} {b b' : PoolBuilder}

/-- What a computation gives that starts from the builder `b`, and the builder that it leaves. -/
def on (x : PoolM α) (b : PoolBuilder) : Except FormatError α × PoolBuilder := x b

@[simp] theorem on_lift (x : Except FormatError α) (b : PoolBuilder) : (lift x).on b = (x, b) := rfl

theorem on_lift_eq_ok {x : Except FormatError α} {a : α} :
    (lift x).on b = (.ok a, b') ↔ x = .ok a ∧ b = b' := by
  rw [on_lift, Prod.mk.injEq]

@[simp] theorem on_pure (a : α) (b : PoolBuilder) : (pure a : PoolM α).on b = (.ok a, b) := rfl

theorem on_bind (x : PoolM α) (k : α → PoolM β) (b : PoolBuilder) :
    on (x >>= k) b = match x.on b with
      | (.ok a, b') => (k a).on b'
      | (.error e, b') => (.error e, b') := by
  have hbind : on (x >>= k) b = ExceptT.bindCont k (x.on b).1 (x.on b).2 := rfl
  rw [hbind]
  cases x.on b with
  | mk r b' => cases r <;> rfl

theorem on_bind_ok {x : PoolM α} {k : α → PoolM β} {a : α} (h : x.on b = (.ok a, b')) : on (x >>= k) b = (k a).on b' := by
  rw [on_bind, h]

theorem on_bind_eq_ok {x : PoolM α} {k : α → PoolM β} {r : β} :
    on (x >>= k) b = (.ok r, b') ↔ ∃ a b₁, x.on b = (.ok a, b₁) ∧ (k a).on b₁ = (.ok r, b') := by
  rw [on_bind]
  cases x.on b with
  | mk y b₁ => cases y <;> simp

theorem on_intern (c : Constant) (b : PoolBuilder) :
    (intern c).on b = match b.index[c.key]? with
      | some i => (.ok i, b)
      | none =>
        if b.pool.hasRoom c then
          (.ok b.pool.count.toUInt16, ⟨b.pool.add c, b.index.insert c.key b.pool.count.toUInt16⟩)
        else (.error (.poolOverflow (b.pool.count + c.width)), b) := by
  cases hi : b.index[c.key]? with
  | some i => simp only [on, intern, hi]
  | none => simp only [on, intern, hi]

/-- A computation that does nothing to a pool but to ask for constants, all of which can stand in a class file. -/
inductive Interns : ∀ {α : Type}, PoolM α → Prop
  | lift {α : Type} (x : Except FormatError α) : Interns (lift x)
  | intern (c : Constant) (hc : c.Writable) : Interns (intern c)
  | bind {α β : Type} {x : PoolM α} {k : α → PoolM β} (hx : Interns x) (hk : ∀ a, Interns (k a)) : Interns (x >>= k)

/-- What asking for a constant keeps, the computation keeps, also if it fails. -/
theorem Interns.preserves {x : PoolM α} (h : Interns x) {I : PoolBuilder → Prop}
    (hI : ∀ c b, c.Writable → I b → I ((PoolM.intern c).on b).2) {b : PoolBuilder} (hb : I b) : I (x.on b).2 := by
  induction h generalizing b with
  | lift x => exact hb
  | intern c hc => exact hI c b hc hb
  | @bind α β x k _ _ ihx ihk =>
    have hx := ihx hb
    rw [on_bind]
    cases hon : x.on b with
    | mk r b' =>
      rw [hon] at hx
      cases r with
      | error e => exact hx
      | ok a => exact ihk a hx

theorem has_insert {c d : Constant} {i j : UInt16} {pool : ConstantPool} :
    PoolBuilder.Has ⟨pool, b.index.insert c.key i⟩ d j ↔ d = c ∧ j = i ∨ d ≠ c ∧ b.Has d j := by
  unfold PoolBuilder.Has
  rw [Std.TreeMap.getElem?_insert]
  split
  · rename_i hcmp
    obtain rfl := Constant.key_injective (Std.LawfulEqCmp.compare_eq_iff_eq.mp hcmp)
    simp [eq_comm]
  · rename_i hcmp
    have hne : d ≠ c := by
      rintro rfl
      exact hcmp (Std.LawfulEqCmp.compare_eq_iff_eq.mpr rfl)
    simp [hne]

theorem sound_intern (c : Constant) (b : PoolBuilder) (hb : b.Sound) : ((intern c).on b).2.Sound := by
  rw [on_intern]
  split
  · exact hb
  · split
    · rename_i hroom
      intro d i hd
      rcases has_insert.mp hd with ⟨rfl, rfl⟩ | ⟨-, hd⟩
      · exact ConstantPool.get?_add_count hroom
      · exact ConstantPool.get?_add_of_some (hb d i hd) c
    · exact hb

theorem Interns.sound {x : PoolM α} (h : Interns x) (hb : b.Sound) : (x.on b).2.Sound :=
  h.preserves (fun c b _ => sound_intern c b) hb

theorem grows_intern (c : Constant) (b : PoolBuilder) : b.Grows ((intern c).on b).2 := by
  rw [on_intern]
  split
  · exact .refl b
  · rename_i hnone
    split
    · refine fun d j hd => has_insert.mpr (.inr ⟨?_, hd⟩)
      rintro rfl
      rw [PoolBuilder.Has, hnone] at hd
      cases hd
    · exact .refl b

theorem Interns.grows {x : PoolM α} (h : Interns x) (b : PoolBuilder) : b.Grows (x.on b).2 :=
  h.preserves (fun c b' _ hb' => hb'.trans (grows_intern c b')) (.refl b)

theorem has_intern {c : Constant} {i : UInt16} (h : (intern c).on b = (.ok i, b')) : b.Grows b' ∧ b'.Has c i := by
  have hg := grows_intern c b
  rw [h] at hg
  refine ⟨hg, ?_⟩
  rw [on_intern] at h
  split at h
  · rename_i j hj
    cases h
    exact hj
  · split at h
    · cases h
      exact has_insert.mpr (.inl ⟨rfl, rfl⟩)
    · cases h

theorem on_intern_of_has {c : Constant} {i : UInt16} (h : b.Has c i) : (intern c).on b = (.ok i, b) := by
  rw [on_intern, h]

/-- A computation that has given a result gives it again, and then adds nothing. -/
theorem Interns.settles {x : PoolM α} (h : Interns x) {a : α} (hx : x.on b = (.ok a, b')) :
    b.Grows b' ∧ ∀ {b''}, b'.Grows b'' → x.on b'' = (.ok a, b'') := by
  induction h generalizing b b' with
  | lift x =>
    cases hx
    exact ⟨.refl b, fun _ => rfl⟩
  | intern c _ =>
    obtain ⟨hg, hc⟩ := has_intern hx
    exact ⟨hg, fun hg' => on_intern_of_has (hg' c _ hc)⟩
  | bind _ _ ihx ihk =>
    obtain ⟨a₁, b₁, hx, hk⟩ := on_bind_eq_ok.mp hx
    obtain ⟨hg, hagain⟩ := ihx hx
    obtain ⟨hg', hagain'⟩ := ihk a₁ hk
    refine ⟨hg.trans hg', fun hg'' => ?_⟩
    rw [on_bind, hagain (hg'.trans hg'')]
    exact hagain' hg''

/-- Asked where all is known already, the computation gives `a` and adds nothing. -/
def Gives (x : PoolM α) (b : PoolBuilder) (a : α) : Prop := x.on b = (.ok a, b)

theorem Interns.gives {x : PoolM α} (h : Interns x) {a : α} (hx : x.on b = (.ok a, b')) : x.Gives b' a :=
  (h.settles hx).2 (.refl b')

theorem Gives.unique {x : PoolM α} {a a' : α} (h : x.Gives b a) (h' : x.Gives b a') : a = a' := by
  cases h.symm.trans h'
  rfl

theorem gives_pure {a a' : α} : Gives (pure a) b a' ↔ a' = a := by
  simp [Gives, eq_comm]

/-- Where all is known, every step gives its result without adding to the pool. -/
theorem gives_bind {x : PoolM α} {k : α → PoolM β} {r : β} (hx : Interns x) (hk : ∀ a, Interns (k a)) :
    Gives (x >>= k) b r ↔ ∃ a, x.Gives b a ∧ (k a).Gives b r := by
  constructor
  · intro h
    obtain ⟨a, b₁, ha, hr⟩ := on_bind_eq_ok.mp h
    have hagain := (hx.settles ha).2 ((hk a).settles hr).1
    obtain rfl : b₁ = b := by
      rw [hagain] at ha
      cases ha
      rfl
    exact ⟨a, ha, hr⟩
  · rintro ⟨a, ha, hr⟩
    exact on_bind_eq_ok.mpr ⟨a, b, ha, hr⟩

namespace Interns

theorem pure (a : α) : Interns (pure a : PoolM α) := .lift (.ok a)

theorem throw (e : FormatError) : Interns (throw e : PoolM α) := .lift (.error e)

theorem ite {p : Prop} [Decidable p] {x y : PoolM α} (hx : Interns x) (hy : Interns y) : Interns (if p then x else y) := by
  split
  · exact hx
  · exact hy

theorem utf8 (s : String) : Interns (utf8 s) := by
  unfold PoolM.utf8
  dsimp only
  split
  · exact .throw _
  · rename_i hlength
    exact .intern _ (Nat.not_lt.mp hlength)

theorem cls (name : String) : Interns (cls name) := .bind (.utf8 name) fun _ => .intern _ trivial

theorem string (value : String) : Interns (string value) := .bind (.utf8 value) fun _ => .intern _ trivial

theorem nameAndType (name descriptor : String) : Interns (nameAndType name descriptor) :=
  .bind (.utf8 name) fun _ => .bind (.utf8 descriptor) fun _ => .intern _ trivial

theorem field (owner name descriptor : String) : Interns (field owner name descriptor) :=
  .bind (.cls owner) fun _ => .bind (.nameAndType name descriptor) fun _ => .intern _ trivial

theorem method (owner name descriptor : String) (interface : Bool) : Interns (method owner name descriptor interface) :=
  .bind (.cls owner) fun _ => .bind (.nameAndType name descriptor) fun _ => .intern _ (by cases interface <;> trivial)

end Interns

/-! ### What indices stand for -/

section Entries
variable {i : UInt16} {name descriptor owner : String}

theorem has_utf8 {s : String} (h : (utf8 s).on b = (.ok i, b')) : b'.Has (.utf8 s) i := by
  unfold utf8 at h
  dsimp only at h
  split at h
  · obtain ⟨_, _, hthrow, -⟩ := on_bind_eq_ok.mp h
    cases hthrow
  · exact (has_intern h).2

theorem has_cls (h : (cls name).on b = (.ok i, b')) : ∃ n, b'.Has (.utf8 name) n ∧ b'.Has (.cls n) i := by
  obtain ⟨n, b₁, hn, h⟩ := on_bind_eq_ok.mp h
  obtain ⟨hg, hi⟩ := has_intern h
  exact ⟨n, hg _ _ (has_utf8 hn), hi⟩

theorem has_string {s : String} (h : (string s).on b = (.ok i, b')) :
    ∃ n, b'.Has (.utf8 s) n ∧ b'.Has (.string n) i := by
  obtain ⟨n, b₁, hn, h⟩ := on_bind_eq_ok.mp h
  obtain ⟨hg, hi⟩ := has_intern h
  exact ⟨n, hg _ _ (has_utf8 hn), hi⟩

/-- The name and the type of a member, at `i`. -/
def HasMember (b : PoolBuilder) (name descriptor : String) (i : UInt16) : Prop :=
  ∃ n d, b.Has (.utf8 name) n ∧ b.Has (.utf8 descriptor) d ∧ b.Has (.nameAndType n d) i

theorem has_nameAndType (h : (nameAndType name descriptor).on b = (.ok i, b')) : HasMember b' name descriptor i := by
  obtain ⟨n, b₁, hn, h⟩ := on_bind_eq_ok.mp h
  obtain ⟨d, b₂, hd, h⟩ := on_bind_eq_ok.mp h
  obtain ⟨hg, hi⟩ := has_intern h
  have hgd := ((Interns.utf8 descriptor).settles hd).1
  exact ⟨n, d, hg _ _ (hgd _ _ (has_utf8 hn)), hg _ _ (has_utf8 hd), hi⟩

/-- A member of a class, at `i` as an entry that `entry` makes of the class and of its name and type. -/
theorem has_member {entry : UInt16 → UInt16 → Constant}
    (h : on (do let c ← cls owner; let m ← nameAndType name descriptor; intern (entry c m)) b = (.ok i, b')) :
    ∃ n c m, b'.Has (.utf8 owner) n ∧ b'.Has (.cls n) c ∧ HasMember b' name descriptor m ∧ b'.Has (entry c m) i := by
  obtain ⟨c, b₁, hc, h⟩ := on_bind_eq_ok.mp h
  obtain ⟨m, b₂, hm, h⟩ := on_bind_eq_ok.mp h
  obtain ⟨hg, hi⟩ := has_intern h
  have hgm := ((Interns.nameAndType name descriptor).settles hm).1.trans hg
  obtain ⟨n, hn, hc⟩ := has_cls hc
  obtain ⟨k, d, hk, hd, hm⟩ := has_nameAndType hm
  exact ⟨n, c, m, hgm _ _ hn, hgm _ _ hc, ⟨k, d, hg _ _ hk, hg _ _ hd, hg _ _ hm⟩, hi⟩

end Entries

/-! ### Pools that are built -/

end PoolM

/-- What can be asked of a pool. -/
inductive PoolRequest where
  | utf8 (s : String)
  | integer (v : Int32)
  | float (v : Binary32)
  | long (v : Int64)
  | double (v : Binary64)
  | cls (name : String)
  | string (value : String)
  | nameAndType (name descriptor : String)
  | field (owner name descriptor : String)
  | method (owner name descriptor : String) (interface : Bool)

def PoolRequest.ask : PoolRequest → PoolM UInt16
  | .utf8 s => PoolM.utf8 s
  | .integer v => PoolM.integer v
  | .float v => PoolM.float v
  | .long v => PoolM.long v
  | .double v => PoolM.double v
  | .cls name => PoolM.cls name
  | .string value => PoolM.string value
  | .nameAndType name descriptor => PoolM.nameAndType name descriptor
  | .field owner name descriptor => PoolM.field owner name descriptor
  | .method owner name descriptor interface => PoolM.method owner name descriptor interface

theorem PoolRequest.interns (r : PoolRequest) : r.ask.Interns := by
  cases r with
  | utf8 s => exact .utf8 s
  | integer v => exact .intern _ trivial
  | float v => exact .intern _ trivial
  | long v => exact .intern _ trivial
  | double v => exact .intern _ trivial
  | cls name => exact .cls name
  | string value => exact .string value
  | nameAndType name descriptor => exact .nameAndType name descriptor
  | field owner name descriptor => exact .field owner name descriptor
  | method owner name descriptor interface => exact .method owner name descriptor interface

namespace PoolBuilder

/-- The builder after more requests, some of which may have failed. -/
def answer (b : PoolBuilder) (requests : List PoolRequest) : PoolBuilder := requests.foldl (fun b r => (r.ask.on b).2) b

/-- The builder after requests, some of which may have failed. -/
def after (requests : List PoolRequest) : PoolBuilder := answer {} requests

theorem after_append (requests later : List PoolRequest) : after (requests ++ later) = (after requests).answer later :=
  List.foldl_append

/-- The builder that an answered request leaves. -/
theorem on_after {requests : List PoolRequest} {r : PoolRequest} {i : UInt16}
    (h : (r.ask.on (after requests)).1.toOption = some i) :
    r.ask.on (after requests) = (.ok i, after (requests ++ [r])) :=
  Prod.ext (toOption_eq_some.mp h) (after_append requests [r]).symm

/-- What every request keeps, all of them keep. -/
theorem answer_preserves {I : PoolBuilder → Prop} (hI : ∀ (r : PoolRequest) b, I b → I (r.ask.on b).2)
    (requests : List PoolRequest) {b : PoolBuilder} (hb : I b) : I (b.answer requests) := by
  induction requests generalizing b with
  | nil => exact hb
  | cons r rs ih => exact ih (hI r b hb)

theorem sound_after (requests : List PoolRequest) : (after requests).Sound := by
  have hstart : Sound {} := fun c i hc => by simp [Has] at hc
  exact answer_preserves (fun r b hb => r.interns.sound hb) requests hstart

end PoolBuilder

end Classwright
