import Classwright.Proofs.Descriptor
import Classwright.Proofs.Frames.Order
import Classwright.Proofs.Lowering.Scope

/-! # Shapes of frames

How code was lowered tells what its stack holds and which locals it has. A shape says so much of a frame and no more, so
that all frames that come to an instruction have the same shape and can be joined. -/

namespace Classwright

theorem VType.joinLocal_top_left (a : VType) : VType.top.joinLocal a = .top := by
  cases a <;> rfl

theorem VType.joinLocal_top_right (a : VType) : a.joinLocal .top = .top := by
  cases a <;> rfl

theorem VType.width_of_isReference {t : VType} (h : t.isReference = true) : t.width = 1 := by
  cases t <;> cases h <;> rfl

/-- What is known about an entry of the stack. -/
inductive Entry where
  | exact (t : VType)
  /-- An object of some class. -/
  | object

namespace Entry
variable {e : Entry} {t u : VType}

def of : VType → Entry
  | .object _ => .object
  | t => .exact t

def Holds : Entry → VType → Prop
  | .exact t, u => u = t
  | .object, u => ∃ name, u = .object name

/-- One of the types that the entry can have. -/
def sample : Entry → VType
  | .exact t => t
  | .object => .object Name.object

theorem holds_exact : (exact t).Holds u ↔ u = t := Iff.rfl

theorem holds_of (t : VType) : (of t).Holds t := by
  cases t with
  | object name => exact ⟨name, rfl⟩
  | _ => rfl

theorem Holds.width_eq (h : e.Holds t) : t.width = e.sample.width := by
  cases e with
  | exact u => rw [h]; rfl
  | object =>
    obtain ⟨name, rfl⟩ := h
    rfl

theorem Holds.isReference_eq (h : e.Holds t) : t.isReference = e.sample.isReference := by
  cases e with
  | exact u => rw [h]; rfl
  | object =>
    obtain ⟨name, rfl⟩ := h
    rfl

theorem Holds.isUninitialized_eq (h : e.Holds t) : t.isUninitialized = e.sample.isUninitialized := by
  cases e with
  | exact u => rw [h]; rfl
  | object =>
    obtain ⟨name, rfl⟩ := h
    rfl

theorem Holds.hasKind_eq (h : e.Holds t) (kind : LocalKind) : t.hasKind kind = e.sample.hasKind kind := by
  cases e with
  | exact u => rw [h]; rfl
  | object =>
    obtain ⟨name, rfl⟩ := h
    cases kind <;> rfl

theorem Holds.join (h : e.Holds t) (h' : e.Holds u) : ∃ w, t.join? u = some w ∧ e.Holds w := by
  cases e with
  | exact v =>
    rw [h, h']
    exact ⟨v, if_pos rfl, rfl⟩
  | object =>
    obtain ⟨name, rfl⟩ := h
    obtain ⟨name', rfl⟩ := h'
    unfold VType.join?
    split
    · exact ⟨_, rfl, name, rfl⟩
    · exact ⟨_, rfl, _, rfl⟩

/-- Takes the place of a value of the type where one is popped. -/
def Serves (e : Entry) (wanted : VType) : Prop :=
  e = .exact wanted ∨ wanted.isReference = true ∧ e.sample.isReference = true

theorem serves_of (t : VType) : (of t).Serves t := by
  cases t with
  | object name => exact .inr ⟨rfl, rfl⟩
  | _ => exact .inl rfl

theorem Holds.matches (h : e.Holds t) (hs : e.Serves u) : t = u ∨ (u.isReference ∧ t.isReference) := by
  rcases hs with rfl | ⟨hu, he⟩
  · exact .inl h
  · exact .inr ⟨hu, h.isReference_eq.trans he⟩

end Entry

/-! ### Values of a type -/

namespace Ty
variable {t : Ty} {e : Entry} {b : Bool}

/-- The entry for a value of the type. -/
def entry (t : Ty) : Entry := (t.vtype?.map Entry.of).getD .object

/-- The entry is a value of the type. As long as a constructor has called no other one, `b` is false and the receiver
    can stand where an object should. -/
def Has (b : Bool) (t : Ty) (e : Entry) : Prop :=
  e = t.entry ∨ b = false ∧ t.isReference = true ∧ e = .exact .uninitializedThis

/-- The stack with a value of the type on top; there is none of type `void`. -/
def onto (t : Ty) (σ : List Entry) : List Entry := if t.isVoid then σ else t.entry :: σ

theorem eq_void (h : t.isVoid = true) : t = .void := by
  obtain ⟨elem, isArray⟩ := t
  simp only [isVoid, Bool.and_eq_true, beq_iff_eq, Bool.not_eq_true'] at h
  obtain ⟨rfl, rfl⟩ := h
  rfl

theorem width_pos (h : t.isVoid = false) : 0 < t.width := by
  obtain ⟨v, -, -, -, -, hv, -⟩ := exists_vtype? h
  rcases v.width_eq_one_or_two with hw | hw <;> omega

theorem onto_of_value (h : t.isVoid = false) (σ : List Entry) : t.onto σ = t.entry :: σ := if_neg (by simp [h])

theorem entry_eq {v : VType} (h : t.vtype? = some v) : t.entry = .of v := by
  rw [entry, h]
  rfl

theorem Has.eq_entry (h : t.Has true e) : e = t.entry := by
  rcases h with h | ⟨hb, -⟩
  · exact h
  · cases hb

theorem Has.eq_entry_of_number (h : t.Has b e) (ht : t.isReference = false) : e = t.entry := by
  rcases h with h | ⟨-, href, -⟩
  · exact h
  · rw [ht] at href
    cases href

theorem vtype?_of_isReference (h : t.isReference = true) : ∃ name, t.vtype? = some (.object name) := by
  obtain ⟨elem, isArray⟩ := t
  cases isArray with
  | true => exact ⟨_, rfl⟩
  | false =>
    cases elem with
    | cls name => exact ⟨name, rfl⟩
    | prim p => cases h

theorem entry_holds {u : VType} (h : t.entry.Holds u) : u ≠ .uninitializedThis ∧ ∀ site, u ≠ .uninitialized site := by
  cases ht : t.vtype? with
  | none =>
    rw [entry, ht] at h
    obtain ⟨name, rfl⟩ := h
    exact ⟨nofun, nofun⟩
  | some v =>
    rw [entry_eq ht] at h
    obtain ⟨elem, isArray⟩ := t
    cases isArray with
    | true =>
      cases ht
      obtain ⟨name, rfl⟩ := h
      exact ⟨nofun, nofun⟩
    | false =>
      cases elem with
      | cls name =>
        cases ht
        obtain ⟨name, rfl⟩ := h
        exact ⟨nofun, nofun⟩
      | prim p =>
        cases p <;> cases ht <;> cases h <;> exact ⟨nofun, nofun⟩

theorem isVoid_of_isReference (h : t.isReference = true) : t.isVoid = false := by
  cases hvoid : t.isVoid with
  | false => rfl
  | true =>
    obtain rfl := eq_void hvoid
    cases h

theorem entry_of_isReference (h : t.isReference = true) : t.entry = .object := by
  obtain ⟨name, hname⟩ := vtype?_of_isReference h
  rw [entry_eq hname]
  rfl

theorem Has.isReference (h : t.Has b e) (ht : t.isReference = true) : e.sample.isReference = true := by
  rcases h with rfl | ⟨-, -, rfl⟩
  · rw [entry_of_isReference ht]
    rfl
  · rfl

/-- What can be done with a value: pass it where one of its type is asked for, and store it as the type says. -/
theorem Has.value (h : t.Has b e) (hv : t.isVoid = false) : ∃ v kind, t.vtype? = some v ∧ t.localKind? = some kind ∧
    e.Serves v ∧ e.sample.hasKind kind = true ∧ e.sample.width = t.width := by
  obtain ⟨v, kind, hvt, hlk, hkind, hwidth, -⟩ := exists_vtype? hv
  refine ⟨v, kind, hvt, hlk, ?_⟩
  rcases h with rfl | ⟨-, href, rfl⟩
  · have hof := Entry.holds_of v
    rw [entry_eq hvt, ← hof.hasKind_eq, ← hof.width_eq]
    exact ⟨Entry.serves_of v, hkind, hwidth⟩
  · obtain ⟨name, hname⟩ := vtype?_of_isReference href
    rw [hname] at hvt
    cases hvt
    cases kind <;> cases hkind
    exact ⟨.inr ⟨rfl, rfl⟩, rfl, hwidth⟩

end Ty

/-! ### Shapes -/

/-- What is known about a frame: whether the receiver has been initialized, and the stack. -/
structure Shape where
  initialized : Bool
  stack : List Entry

/-- What a local holds once it has been assigned. -/
def Local.entry (b : Bool) (v : Local) : Entry :=
  if b = false ∧ v.slot.toNat = 0 then .exact .uninitializedThis else v.type.entry

namespace Local
variable (v : Local)

theorem entry_true : v.entry true = v.type.entry := if_neg nofun

variable {v}

theorem entry_receiver (h : v.slot.toNat = 0) : v.entry false = .exact .uninitializedThis := if_pos ⟨rfl, h⟩

theorem entry_of_ne (h : v.slot.toNat ≠ 0) (b : Bool) : v.entry b = v.type.entry := if_neg fun h' => h h'.2

theorem has_entry {b : Bool} (h : b = false → v.slot.toNat = 0 → v.type.isReference = true) :
    v.type.Has b (v.entry b) := by
  unfold entry
  split
  · rename_i hb
    exact .inr ⟨hb.1, h hb.1 hb.2, rfl⟩
  · exact .inl rfl

theorem ne_uninitialized_of_holds {b : Bool} {t : VType} (h : (v.entry b).Holds t) (site : Nat) :
    t ≠ .uninitialized site := by
  unfold entry at h
  split at h
  · rw [show t = _ from h]
    nofun
  · exact (Ty.entry_holds h).2 site

end Local

/-- The frame has the shape, and each local of the scope holds nothing or what it should. A receiver that has not been
    initialized is in the first slot. -/
structure Shape.Fits (S : Scope) (shape : Shape) (f : Frame) : Prop where
  stack : List.Forall₂ Entry.Holds shape.stack f.stack
  locals : ∀ x v, S.get? x = some v → f.getLocal v.slot.toNat = .top ∨
    (v.entry shape.initialized).Holds (f.getLocal v.slot.toNat)
  receiver : shape.initialized = false → f.getLocal 0 = .uninitializedThis

namespace Shape.Fits
variable {S : Scope} {b : Bool} {σ : List Entry} {e : Entry} {f g : Frame} {t : VType}

theorem push (h : Fits S ⟨b, σ⟩ f) (ht : e.Holds t) : Fits S ⟨b, e :: σ⟩ (f.push t) :=
  ⟨.cons ht h.stack, h.locals, h.receiver⟩

theorem pop (h : Fits S ⟨b, e :: σ⟩ f) : ∃ t g, f.pop = .ok (t, g) ∧ e.Holds t ∧ Fits S ⟨b, σ⟩ g := by
  obtain ⟨locals, stack⟩ := f
  obtain ⟨hs, hl, hr⟩ := h
  cases hs with
  | cons ht hs => exact ⟨_, _, rfl, ht, hs, hl, hr⟩

theorem popExpect (h : Fits S ⟨b, e :: σ⟩ f) {wanted : VType} (hs : e.Serves wanted) :
    ∃ g, f.popExpect wanted = .ok g ∧ Fits S ⟨b, σ⟩ g := by
  obtain ⟨t, g, hpop, ht, hg⟩ := h.pop
  refine ⟨g, ?_, hg⟩
  rw [Frame.popExpect, hpop, ok_bind]
  exact if_pos (ht.matches hs)

theorem popKind (h : Fits S ⟨b, e :: σ⟩ f) {kind : LocalKind} (hk : e.sample.hasKind kind = true) :
    ∃ t g, f.popKind kind = .ok (t, g) ∧ e.Holds t ∧ Fits S ⟨b, σ⟩ g := by
  obtain ⟨t, g, hpop, ht, hg⟩ := h.pop
  refine ⟨t, g, ?_, ht, hg⟩
  rw [Frame.popKind, hpop, ok_bind]
  exact if_pos ((ht.hasKind_eq kind).trans hk)

theorem popWord (h : Fits S ⟨b, e :: σ⟩ f) (hw : e.sample.width = 1) :
    ∃ t g, f.popWord = .ok (t, g) ∧ e.Holds t ∧ Fits S ⟨b, σ⟩ g := by
  obtain ⟨t, g, hpop, ht, hg⟩ := h.pop
  refine ⟨t, g, ?_, ht, hg⟩
  rw [Frame.popWord, hpop, ok_bind]
  exact if_pos (ht.width_eq.trans hw)

theorem popAll {es : List Entry} {wanted : List VType} (hs : List.Forall₂ Entry.Serves es wanted)
    (h : Fits S ⟨b, es ++ σ⟩ f) : ∃ g, f.popAll wanted = .ok g ∧ Fits S ⟨b, σ⟩ g := by
  induction hs generalizing f with
  | nil => exact ⟨f, rfl, h⟩
  | cons he _ ih =>
    obtain ⟨g, hpop, hg⟩ := h.popExpect he
    obtain ⟨g', hall, hg'⟩ := ih hg
    exact ⟨g', by rw [Frame.popAll, hpop, ok_bind, hall], hg'⟩

theorem pushAll (h : Fits S ⟨b, σ⟩ f) (ts : List VType) :
    Fits S ⟨b, (ts.map Entry.of).reverse ++ σ⟩ (f.pushAll ts) := by
  induction ts generalizing f σ with
  | nil => exact h
  | cons t ts ih =>
    have := ih (h.push (Entry.holds_of t))
    rwa [List.map_cons, List.reverse_cons, List.append_assoc]

/-! ### Locals -/

/-- A value is stored in a local. -/
theorem setLocal (hl : S.Laid) (hvalues : S.Values) (h : Fits S ⟨true, σ⟩ f)
    {x : String} {v : Local} (hv : S.get? x = some v) (ht : v.type.entry.Holds t) :
    Fits S ⟨true, σ⟩ (f.setLocal v.slot.toNat t) := by
  refine ⟨h.stack, fun y w hw => ?_, nofun⟩
  rw [Frame.getLocal_setLocal]
  by_cases hxy : y = x
  · subst hxy
    rw [hv] at hw
    cases hw
    rw [if_pos rfl]
    exact .inr ht
  · have hvw := Ty.width_pos (hvalues x v hv)
    have hww := Ty.width_pos (hvalues y w hw)
    have hne : w.slot.toNat ≠ v.slot.toNat := by
      rcases hl.apart x y v w hv hw (Ne.symm hxy) with h | h <;> omega
    rw [if_neg hne]
    split
    · exact .inl rfl
    · split
      · exact .inl rfl
      · exact h.locals y w hw

theorem map_of_ne {before after : VType} {ts : List VType} (hs : List.Forall₂ Entry.Holds σ ts)
    (hne : ∀ e ∈ σ, ¬e.Holds before) : ts.map (fun t => if t = before then after else t) = ts := by
  induction hs with
  | nil => rfl
  | cons ht _ ih =>
    obtain ⟨hhead, htail⟩ := List.forall_mem_cons.mp hne
    rw [List.map_cons, if_neg (by rintro rfl; exact hhead ht), ih htail]

/-- A constructor has initialized a new object, whose one copy is on the stack. -/
theorem markNew {site : Nat} (name : String) (h : Fits S ⟨b, .exact (.uninitialized site) :: σ⟩ f)
    (hσ : .exact (.uninitialized site) ∉ σ) :
    Fits S ⟨b, .object :: σ⟩ (f.markInitialized (.uninitialized site) (.object name)) := by
  refine ⟨?_, fun x v hv => ?_, fun hb => ?_⟩
  · obtain ⟨locals, stack⟩ := f
    cases h.stack with
    | @cons _ t _ ts ht hs =>
      obtain rfl : t = .uninitialized site := ht
      have hrest : ts.map (fun t => if t = .uninitialized site then .object name else t) = ts :=
        map_of_ne hs fun e he hold => by
          cases e with
          | exact u =>
            obtain rfl : .uninitialized site = u := hold
            exact hσ he
          | object =>
            obtain ⟨_, hold⟩ := hold
            cases hold
      refine .cons ⟨name, if_pos rfl⟩ ?_
      rwa [hrest]
  · rw [f.getLocal_markInitialized _ (by simp), if_neg]
    · exact h.locals x v hv
    · rcases h.locals x v hv with htop | hold
      · rw [htop]
        nofun
      · exact v.ne_uninitialized_of_holds hold site
  · rw [f.getLocal_markInitialized _ (by simp), h.receiver hb, if_neg nofun]

/-- A constructor has initialized the receiver. -/
theorem markThis (hthis : ∀ x v, S.get? x = some v → v.slot.toNat = 0 → v.type.isReference = true) (name : String)
    (h : Fits S ⟨false, []⟩ f) : Fits S ⟨true, []⟩ (f.markInitialized .uninitializedThis (.object name)) := by
  refine ⟨?_, fun x v hv => ?_, nofun⟩
  · obtain ⟨locals, stack⟩ := f
    cases h.stack
    exact .nil
  · rw [f.getLocal_markInitialized _ (by simp), Local.entry_true]
    rcases h.locals x v hv with htop | hold
    · rw [htop]
      exact .inl (if_neg nofun)
    · by_cases hslot : v.slot.toNat = 0
      · rw [Local.entry_receiver hslot] at hold
        obtain ⟨vname, hvt⟩ := Ty.vtype?_of_isReference (hthis x v hv hslot)
        rw [if_pos (Entry.holds_exact.mp hold), Ty.entry_eq hvt]
        exact .inr ⟨name, rfl⟩
      · rw [Local.entry_of_ne hslot] at hold
        rw [if_neg (Ty.entry_holds hold).1]
        exact .inr hold

/-! ### Joins -/

theorem join_stacks {xs ys : List VType} (hx : List.Forall₂ Entry.Holds σ xs) (hy : List.Forall₂ Entry.Holds σ ys) :
    ∃ zs, Frame.joinStacks xs ys = .ok zs ∧ List.Forall₂ Entry.Holds σ zs := by
  induction hx generalizing ys with
  | nil =>
    cases hy
    exact ⟨[], rfl, .nil⟩
  | cons hx _ ih =>
    cases hy with
    | cons hy hys =>
      obtain ⟨w, hw, hold⟩ := hx.join hy
      obtain ⟨zs, hzs, holds⟩ := ih hys
      refine ⟨w :: zs, ?_, .cons hold holds⟩
      rw [Frame.joinStacks, hw, hzs]
      rfl

/-- Frames of one shape have a join, and it is of that shape. -/
theorem join {shape : Shape} (h : Fits S shape f) (h' : Fits S shape g) :
    ∃ j, f.join g = .ok j ∧ Fits S shape j := by
  obtain ⟨zs, hzs, hstack⟩ := join_stacks (List.forall₂_reverse_iff.mpr h.stack) (List.forall₂_reverse_iff.mpr h'.stack)
  have hslot (n : Nat) : Frame.getLocal ⟨Frame.joinLocals f.locals g.locals, zs.reverse⟩ n =
      (f.getLocal n).joinLocal (g.getLocal n) := Frame.getD_joinLocals _ _ _
  refine ⟨⟨Frame.joinLocals f.locals g.locals, zs.reverse⟩, ?_, ?_, fun x v hv => ?_, fun hb => ?_⟩
  · have hlen : f.stack.length = g.stack.length := h.stack.length_eq.symm.trans h'.stack.length_eq
    rw [Frame.join, if_neg (not_not.mpr hlen), hzs]
    rfl
  · rw [← List.forall₂_reverse_iff, List.reverse_reverse]
    exact hstack
  · rw [hslot]
    rcases h.locals x v hv with htop | hold
    · rw [htop]
      exact .inl (VType.joinLocal_top_left _)
    · rcases h'.locals x v hv with htop | hold'
      · rw [htop]
        exact .inl (VType.joinLocal_top_right _)
      · obtain ⟨w, hw, hjoin⟩ := hold.join hold'
        rw [VType.joinLocal, hw]
        exact .inr hjoin
  · rw [hslot, h.receiver hb, h'.receiver hb]
    rfl

end Shape.Fits

end Classwright
