import Classwright.Proofs.ClassFile.PoolBytes

/-! # What holds of every pool

Requests are all that ever happens to a pool, and many of them ask for parts before they ask for the whole. Whether they
succeed or not, they leave a pool without holes and without repetitions, in which entries refer to those before them. An
entry never changes, so that an index stands for what was asked for as long as the pool is used. Every such pool can be
written and is read back as it is. -/

namespace Classwright

namespace Constant

def isText : Constant → Bool
  | .utf8 _ => true
  | _ => false

def isClass : Constant → Bool
  | .cls _ => true
  | _ => false

def isNameAndType : Constant → Bool
  | .nameAndType _ _ => true
  | _ => false

/-- The indices in an entry, each with the kind of entry that it refers to. -/
def references : Constant → List (UInt16 × (Constant → Bool))
  | .cls text | .string text => [(text, isText)]
  | .nameAndType name descriptor => [(name, isText), (descriptor, isText)]
  | .field c m | .method c m | .interfaceMethod c m => [(c, isClass), (m, isNameAndType)]
  | _ => []

end Constant

namespace ConstantPool
variable {p q r : ConstantPool} {c : Constant}

/-! ### The shape of a pool -/

structure WellFormed (p : ConstantPool) : Prop where
  count_pos : 0 < p.count
  count_le : p.count ≤ 65535
  /-- The indices of an entry are all in the pool. -/
  room : ∀ i c, p.get? i = some c → i.toNat + c.width ≤ p.count
  /-- Only the first index and the second of a wide entry are empty. -/
  empty_iff : ∀ i : UInt16, i.toNat < p.count →
    (p.get? i = none ↔ i = 0 ∨ ∃ j c, p.get? j = some c ∧ c.width = 2 ∧ i.toNat = j.toNat + 1)
  distinct : ∀ i j c, p.get? i = some c → p.get? j = some c → i = j
  refers : ∀ i c, p.get? i = some c → ∀ r ∈ c.references, r.1 < i ∧ ∃ d, p.get? r.1 = some d ∧ r.2 d = true

/-- What the entry refers to is in the pool. -/
def Supports (p : ConstantPool) (c : Constant) : Prop :=
  ∀ r ∈ c.references, ∃ d, p.get? r.1 = some d ∧ r.2 d = true

theorem wellFormed_empty : WellFormed {} := by
  have hnone (i : UInt16) : get? {} i = none := by
    cases h : get? {} i with
    | none => rfl
    | some c =>
      have hlt : i.toNat < 1 := lt_count_of_get? h
      obtain rfl : i = 0 := UInt16.toNat_inj.mp (Nat.lt_one_iff.mp hlt)
      cases h
  refine ⟨by decide, by decide, fun i c h => ?_, fun i hi => ?_, fun i j c h => ?_, fun i c h => ?_⟩
  · rw [hnone] at h
    cases h
  · have hzero : i = 0 := UInt16.toNat_inj.mp (Nat.lt_one_iff.mp hi)
    exact ⟨fun _ => .inl hzero, fun _ => hnone i⟩
  · rw [hnone] at h
    cases h
  · rw [hnone] at h
    cases h

/-- A constant that is new and refers to what is there can be added. -/
theorem WellFormed.add (h : p.WellFormed) (hroom : p.hasRoom c = true) (hnew : ∀ i, p.get? i ≠ some c)
    (hsupports : p.Supports c) : (p.add c).WellFormed := by
  have hfits : p.count + c.width ≤ 65535 := of_decide_eq_true hroom
  have hcount := count_add p c
  have hwidth := c.width_eq
  have hold {i : UInt16} {d : Constant} (hd : (p.add c).get? i = some d) :
      i.toNat = p.count ∧ d = c ∨ p.get? i = some d := by
    rw [get?_add] at hd
    split at hd
    · cases hd
      exact .inl ⟨‹_›, rfl⟩
    · exact .inr hd
  have hkept {i : UInt16} (hi : i.toNat ≠ p.count) : (p.add c).get? i = p.get? i := by rw [get?_add, if_neg hi]
  refine ⟨?_, ?_, fun i d hd => ?_, fun i hi => ?_, fun i j d hi hj => ?_, fun i d hd r hr => ?_⟩
  · omega
  · omega
  · rcases hold hd with ⟨hi, rfl⟩ | hd
    · omega
    · have := h.room i d hd
      omega
  · rcases Nat.lt_trichotomy i.toNat p.count with hlt | heq | hgt
    · rw [hkept (Nat.ne_of_lt hlt), h.empty_iff i hlt]
      refine or_congr_right ⟨?_, ?_⟩
      · rintro ⟨j, d, hd, hwide, hj⟩
        exact ⟨j, d, get?_add_of_some hd c, hwide, hj⟩
      · rintro ⟨j, d, hd, hwide, hj⟩
        exact ⟨j, d, (hkept (by omega)).symm.trans hd, hwide, hj⟩
    · -- no wide entry ends behind the pool
      rw [get?_add, if_pos heq]
      refine ⟨fun hnone => absurd hnone (Option.some_ne_none c), ?_⟩
      rintro (rfl | ⟨j, d, hd, hwide, hj⟩)
      · have := h.count_pos
        rw [UInt16.toNat_zero] at heq
        omega
      · rw [hkept (by omega)] at hd
        have := h.room j d hd
        omega
    · refine ⟨fun _ => .inr ⟨p.count.toUInt16, c, get?_add_count hroom, ?_, ?_⟩, fun _ => ?_⟩
      · omega
      · rw [toNat_count hroom]
        omega
      · rw [hkept (by omega)]
        cases hd : p.get? i with
        | none => rfl
        | some d =>
          have := lt_count_of_get? hd
          omega
  · rcases hold hi with ⟨hlast, rfl⟩ | hbefore
    · rcases hold hj with ⟨hlast', -⟩ | hbefore
      · exact UInt16.toNat_inj.mp (hlast.trans hlast'.symm)
      · exact absurd hbefore (hnew j)
    · rcases hold hj with ⟨-, rfl⟩ | hbefore'
      · exact absurd hbefore (hnew i)
      · exact h.distinct i j d hbefore hbefore'
  · rcases hold hd with ⟨hi, rfl⟩ | hd
    · obtain ⟨e, he, hkind⟩ := hsupports r hr
      refine ⟨UInt16.lt_iff_toNat_lt.mpr ?_, e, get?_add_of_some he d, hkind⟩
      rw [hi]
      exact lt_count_of_get? he
    · obtain ⟨hlt, e, he, hkind⟩ := h.refers i d hd r hr
      exact ⟨hlt, e, get?_add_of_some he c, hkind⟩

/-! ### Pools that grow -/

/-- The second pool has the same at every index of the first. -/
structure Extends (p q : ConstantPool) : Prop where
  count_le : p.count ≤ q.count
  get?_eq : ∀ i : UInt16, i.toNat < p.count → q.get? i = p.get? i

theorem Extends.refl (p : ConstantPool) : p.Extends p := ⟨Nat.le_refl _, fun _ _ => rfl⟩

theorem Extends.trans (h : p.Extends q) (h' : q.Extends r) : p.Extends r := by
  refine ⟨Nat.le_trans h.count_le h'.count_le, fun i hi => ?_⟩
  rw [h'.get?_eq i (Nat.lt_of_lt_of_le hi h.count_le), h.get?_eq i hi]

theorem extends_add (p : ConstantPool) (c : Constant) : p.Extends (p.add c) := by
  refine ⟨?_, fun i hi => ?_⟩
  · rw [count_add]
    exact Nat.le_add_right _ _
  · rw [get?_add, if_neg (Nat.ne_of_lt hi)]

/-! ### What indices stand for -/

/-- The entry is a class of this name. -/
def HasClass (p : ConstantPool) (i : UInt16) (name : String) : Prop :=
  ∃ n, p.get? i = some (.cls n) ∧ p.get? n = some (.utf8 name)

/-- The entry is the name and the type of a member. -/
def HasNameAndType (p : ConstantPool) (i : UInt16) (name descriptor : String) : Prop :=
  ∃ n d, p.get? i = some (.nameAndType n d) ∧ p.get? n = some (.utf8 name) ∧ p.get? d = some (.utf8 descriptor)

end ConstantPool

/-- The index stands for what is asked for, with its parts where it says. -/
def PoolRequest.StandsAt (p : ConstantPool) (i : UInt16) : PoolRequest → Prop
  | .utf8 s => p.get? i = some (.utf8 s)
  | .integer v => p.get? i = some (.integer v)
  | .float v => p.get? i = some (.float v)
  | .long v => p.get? i = some (.long v)
  | .double v => p.get? i = some (.double v)
  | .cls name => p.HasClass i name
  | .string value => ∃ n, p.get? i = some (.string n) ∧ p.get? n = some (.utf8 value)
  | .nameAndType name descriptor => p.HasNameAndType i name descriptor
  | .field owner name descriptor =>
    ∃ c m, p.get? i = some (.field c m) ∧ p.HasClass c owner ∧ p.HasNameAndType m name descriptor
  | .method owner name descriptor interface =>
    ∃ c m, p.get? i = some (if interface then .interfaceMethod c m else .method c m) ∧ p.HasClass c owner ∧
      p.HasNameAndType m name descriptor

/-! ### Builders -/

/-- The pool is well formed, and the builder knows the index of all that is in it and of nothing else. -/
structure PoolBuilder.Kept (b : PoolBuilder) : Prop where
  sound : b.Sound
  complete : ∀ i c, b.pool.get? i = some c → b.Has c i
  wellFormed : b.pool.WellFormed

namespace PoolM
variable {α β : Type} {b b' : PoolBuilder} {c : Constant}

theorem kept_intern (hb : b.Kept) (hsupports : b.pool.Supports c) : ((intern c).on b).2.Kept := by
  have hsound := sound_intern c b hb.sound
  rw [on_intern] at hsound ⊢
  split
  · exact hb
  · rename_i hnone
    have hnew (i : UInt16) : b.pool.get? i ≠ some c := by
      intro hc
      have hhas := hb.complete i c hc
      rw [PoolBuilder.Has, hnone] at hhas
      cases hhas
    split
    · rename_i hroom
      simp only [hnone, hroom, if_true] at hsound
      refine ⟨hsound, fun i d hd => has_insert.mpr ?_, hb.wellFormed.add hroom hnew hsupports⟩
      rw [ConstantPool.get?_add] at hd
      split at hd
      · rename_i hi
        cases hd
        exact .inl ⟨rfl, UInt16.toNat_inj.mp (hi.trans (ConstantPool.toNat_count hroom).symm)⟩
      · exact .inr ⟨fun heq => hnew i (heq ▸ hd), hb.complete i d hd⟩
    · exact hb

theorem kept_bind {x : PoolM α} {k : α → PoolM β} (hx : (x.on b).2.Kept)
    (hk : ∀ a b', x.on b = (.ok a, b') → b'.Kept → ((k a).on b').2.Kept) : (on (x >>= k) b).2.Kept := by
  rw [on_bind]
  cases hon : x.on b with
  | mk r b' =>
    rw [hon] at hx
    cases r with
    | error e => exact hx
    | ok a => exact hk a b' hon hx

/-- An entry that refers to nothing. -/
theorem kept_plain (hc : c.references = []) (hb : b.Kept) : ((intern c).on b).2.Kept := by
  refine kept_intern hb ?_
  rw [ConstantPool.Supports, hc]
  exact List.forall_mem_nil _

theorem kept_utf8 (s : String) (hb : b.Kept) : ((utf8 s).on b).2.Kept := by
  unfold utf8
  dsimp only
  split
  · exact hb
  · exact kept_plain rfl hb

/-- An entry that refers to text only. -/
theorem kept_text {entry : UInt16 → Constant} (hentry : ∀ n, (entry n).references = [(n, Constant.isText)]) (s : String)
    (hb : b.Kept) : (on (do let n ← utf8 s; intern (entry n)) b).2.Kept := by
  refine kept_bind (kept_utf8 s hb) fun n b₁ hn hb₁ => kept_intern hb₁ ?_
  rw [ConstantPool.Supports, hentry]
  exact List.forall_mem_singleton.mpr ⟨_, hb₁.sound _ _ (has_utf8 hn), rfl⟩

theorem kept_nameAndType (name descriptor : String) (hb : b.Kept) : ((nameAndType name descriptor).on b).2.Kept := by
  refine kept_bind (kept_utf8 name hb) fun n b₁ hn hb₁ =>
    kept_bind (kept_utf8 descriptor hb₁) fun d b₂ hd hb₂ => kept_intern hb₂ ?_
  have hgrows := ((Interns.utf8 descriptor).settles hd).1
  exact List.forall_mem_cons.mpr ⟨⟨_, hb₂.sound _ _ (hgrows _ _ (has_utf8 hn)), rfl⟩,
    List.forall_mem_singleton.mpr ⟨_, hb₂.sound _ _ (has_utf8 hd), rfl⟩⟩

/-- An entry that refers to a class and to the name and the type of a member. -/
theorem kept_member {entry : UInt16 → UInt16 → Constant}
    (hentry : ∀ c m, (entry c m).references = [(c, Constant.isClass), (m, Constant.isNameAndType)])
    (owner name descriptor : String) (hb : b.Kept) :
    (on (do let c ← cls owner; let m ← nameAndType name descriptor; intern (entry c m)) b).2.Kept := by
  refine kept_bind (kept_text (fun _ => rfl) owner hb) fun c b₁ hc hb₁ =>
    kept_bind (kept_nameAndType name descriptor hb₁) fun m b₂ hm hb₂ => kept_intern hb₂ ?_
  have hgrows := ((Interns.nameAndType name descriptor).settles hm).1
  obtain ⟨_, -, hc⟩ := has_cls hc
  obtain ⟨_, _, -, -, hm⟩ := has_nameAndType hm
  rw [ConstantPool.Supports, hentry]
  exact List.forall_mem_cons.mpr ⟨⟨_, hb₂.sound _ _ (hgrows _ _ hc), rfl⟩,
    List.forall_mem_singleton.mpr ⟨_, hb₂.sound _ _ hm, rfl⟩⟩

theorem Interns.extends {x : PoolM α} (h : x.Interns) (b : PoolBuilder) : b.pool.Extends (x.on b).2.pool := by
  refine h.preserves (I := fun b' => b.pool.Extends b'.pool) (fun c b' _ hb' => ?_) (.refl _)
  rw [on_intern]
  split
  · exact hb'
  · split
    · exact hb'.trans (b'.pool.extends_add c)
    · exact hb'

end PoolM

open PoolM

namespace PoolRequest
variable {b b' : PoolBuilder}

theorem kept (r : PoolRequest) (hb : b.Kept) : (r.ask.on b).2.Kept := by
  cases r with
  | utf8 s => exact kept_utf8 s hb
  | integer v => exact kept_plain rfl hb
  | float v => exact kept_plain rfl hb
  | long v => exact kept_plain rfl hb
  | double v => exact kept_plain rfl hb
  | cls name => exact kept_text (fun _ => rfl) name hb
  | string value => exact kept_text (fun _ => rfl) value hb
  | nameAndType name descriptor => exact kept_nameAndType name descriptor hb
  | field owner name descriptor => exact kept_member (fun _ _ => rfl) owner name descriptor hb
  | method owner name descriptor interface =>
    exact kept_member (fun _ _ => by cases interface <;> rfl) owner name descriptor hb

theorem standsAt (r : PoolRequest) {i : UInt16} (hb : b'.Sound) (h : r.ask.on b = (.ok i, b')) :
    r.StandsAt b'.pool i := by
  have hclass {name : String} {n c : UInt16} (hn : b'.Has (.utf8 name) n) (hc : b'.Has (.cls n) c) :
      b'.pool.HasClass c name := ⟨n, hb _ _ hc, hb _ _ hn⟩
  have hmember {name descriptor : String} {m : UInt16} (hm : HasMember b' name descriptor m) :
      b'.pool.HasNameAndType m name descriptor := by
    obtain ⟨n, d, hn, hd, hm⟩ := hm
    exact ⟨n, d, hb _ _ hm, hb _ _ hn, hb _ _ hd⟩
  cases r with
  | utf8 s => exact hb _ _ (has_utf8 h)
  | integer v => exact hb _ _ (has_intern h).2
  | float v => exact hb _ _ (has_intern h).2
  | long v => exact hb _ _ (has_intern h).2
  | double v => exact hb _ _ (has_intern h).2
  | cls name =>
    obtain ⟨n, hn, hi⟩ := has_cls h
    exact hclass hn hi
  | string value =>
    obtain ⟨n, hn, hi⟩ := has_string h
    exact ⟨n, hb _ _ hi, hb _ _ hn⟩
  | nameAndType name descriptor => exact hmember (has_nameAndType h)
  | field owner name descriptor =>
    obtain ⟨n, c, m, hn, hc, hm, hi⟩ := has_member h
    exact ⟨c, m, hb _ _ hi, hclass hn hc, hmember hm⟩
  | method owner name descriptor interface =>
    obtain ⟨n, c, m, hn, hc, hm, hi⟩ := has_member h
    exact ⟨c, m, hb _ _ hi, hclass hn hc, hmember hm⟩

end PoolRequest

namespace PoolBuilder

theorem kept_empty : Kept {} := by
  refine ⟨valid_empty.sound, fun i c h => ?_, ConstantPool.wellFormed_empty⟩
  have hroom := ConstantPool.wellFormed_empty.room i c h
  have hwidth := c.width_eq
  have hcount : ({} : ConstantPool).count = 1 := rfl
  obtain rfl : i = 0 := UInt16.toNat_inj.mp (by rw [UInt16.toNat_zero]; omega)
  cases h

theorem kept_after (requests : List PoolRequest) : (after requests).Kept :=
  answer_preserves (fun r _ hb => r.kept hb) requests kept_empty

theorem extends_answer (b : PoolBuilder) (requests : List PoolRequest) : b.pool.Extends (b.answer requests).pool :=
  answer_preserves (I := fun b' => b.pool.Extends b'.pool) (fun r b' hb' => hb'.trans (r.interns.extends b')) requests
    (.refl _)

theorem grows_answer (b : PoolBuilder) (requests : List PoolRequest) : b.Grows (b.answer requests) :=
  answer_preserves (I := b.Grows) (fun r b' hb' => hb'.trans (r.interns.grows b')) requests (.refl b)

end PoolBuilder

open PoolBuilder

/-- After any requests, failed ones included, the pool is well formed. Whatever request comes next, and whatever comes
    after it, all entries stay as they are. The index that it was given stands for just what it asked for, and is the
    answer whenever it comes again. -/
theorem pool_well_formed_and_stable (requests : List PoolRequest) :
    (after requests).pool.WellFormed ∧ ∀ (r : PoolRequest) (later : List PoolRequest),
      (after requests).pool.Extends (after (requests ++ r :: later)).pool ∧
      ∀ i, (r.ask.on (after requests)).1 = .ok i →
        r.StandsAt (after (requests ++ r :: later)).pool i ∧
        r.ask.on (after (requests ++ r :: later)) = (.ok i, after (requests ++ r :: later)) := by
  refine ⟨(kept_after requests).wellFormed, fun r later => ?_⟩
  have hsound := (kept_after (requests ++ r :: later)).sound
  rw [after_append] at hsound ⊢
  refine ⟨extends_answer _ _, fun i hi => ?_⟩
  have hgrows : (r.ask.on (after requests)).2.Grows ((after requests).answer (r :: later)) := grows_answer _ later
  have hagain := (r.interns.settles (Prod.ext hi rfl)).2 hgrows
  exact ⟨r.standsAt hsound hagain, hagain⟩

theorem pool_well_formed_and_stable_field :
    let requests : List PoolRequest := [.long 5, .string "x"]
    let r : PoolRequest := .field "demo/Main" "x" "J"
    let final := after (requests ++ r :: [.integer 1, .cls "demo/Main"])
    (r.ask.on (after requests)).1 = .ok 9 ∧ r.StandsAt final.pool 9 ∧ r.ask.on final = (.ok 9, final) := by
  intro requests r final
  have hindex : (r.ask.on (after requests)).1 = .ok 9 := by decide +kernel
  exact ⟨hindex, ((pool_well_formed_and_stable requests).2 r _).2 9 hindex⟩

/-- Every pool that was built is read back from its bytes as it is, and reading goes on with what follows them. -/
theorem pool_read_back (requests : List PoolRequest) (rest : Bytes) (offset : Nat) :
    ConstantPool.read ⟨(after requests).pool.bytes ++ rest, offset⟩ =
      .ok ((after requests).pool, ⟨rest, offset + (after requests).pool.bytes.length⟩) := by
  have hwritable : (after requests).pool.Writable :=
    answer_preserves (I := fun b => b.pool.Writable) (fun r _ hb => r.interns.writable hb) requests valid_empty.writable
  exact ConstantPool.reads_bytes hwritable rest offset

end Classwright
