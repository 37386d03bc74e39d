import Classwright.Proofs.Descriptor
import Classwright.Proofs.Lowering.Method
import Classwright.Proofs.Simulation.Frames
import Classwright.Proofs.Simulation.Stmt

/-! # Where a method starts

The arguments of a call are stored under the names of the parameters and held by the first slots, one or two for each.
Slots of other locals hold nothing yet. -/

namespace Classwright

/-- What is stored when a method is called. -/
def Store.ofArgs : List ParamSig → List Num → Store
  | p :: params, v :: args => (Store.ofArgs params args).set p.name v
  | _, _ => fun _ => none

/-- There is an argument for each parameter, of its type. -/
def ArgsFit (params : List ParamSig) (args : List Num) : Prop := List.Forall₂ (fun p v => v.type = p.type) params args

theorem ArgsFit.numeric {params : List ParamSig} {args : List Num} (h : ArgsFit params args) :
    ∀ p ∈ params, p.type = .int ∨ p.type = .long := by
  induction h with
  | nil => nofun
  | @cons p n params args hn _ ih =>
    refine List.forall_mem_cons.mpr ⟨?_, ih⟩
    cases n with
    | int a => exact .inl hn.symm
    | long a => exact .inr hn.symm

theorem ArgsFit.values {params : List ParamSig} {args : List Num} (h : ArgsFit params args) :
    ∀ p ∈ params, p.type.isVoid = false := by
  intro p hp
  rcases h.numeric p hp with ht | ht
  · rw [ht]; rfl
  · rw [ht]; rfl

namespace Machine
open Value (num)

variable {s s' S : Scope} {st : Store} {locals : Nat → Option Value} {span : Span} {params : List ParamSig}
  {args : List Num}

theorem width_of_type {v : Num} {t : Ty} (h : v.type = t) : v.width = t.width := by
  subst h
  cases v <;> rfl

theorem width_pos (v : Num) : 0 < v.width := by
  cases v with
  | int a => exact Nat.one_pos
  | long a => exact Nat.two_pos

theorem entryLocals_eq_some {slot i : Nat} {v : Value} (h : entryLocals slot args i = some v) : ∃ n, v = num n := by
  induction args generalizing slot with
  | nil => cases h
  | cons n args ih =>
    rw [entryLocals, Function.update_apply] at h
    split at h
    · exact ⟨n, (Option.some.inj h).symm⟩
    · exact ih h

/-- Parameters that are declared in order have the slots that a call puts the arguments in. -/
structure Bound (s s' : Scope) (params : List ParamSig) (args : List Num) : Prop where
  held : ∀ x v, s'.get? x = some v → s.get? x = some v ∧ Store.ofArgs params args x = none ∨
    s.next ≤ v.slot.toNat ∧ ∃ n, Store.ofArgs params args x = some n ∧ n.type = v.type ∧
      entryLocals s.next args v.slot.toNat = some (num n)
  unknown : ∀ x, s'.get? x = none → Store.ofArgs params args x = none
  free : ∀ i, s'.next ≤ i → entryLocals s.next args i = none

theorem bound_addAll (hl : s.Laid) (h : s.addAll span params = .ok s') (ha : ArgsFit params args) :
    Bound s s' params args := by
  induction ha generalizing s with
  | nil =>
    cases h
    exact ⟨fun x v hv => .inl ⟨hv, rfl⟩, fun _ _ => rfl, fun _ _ => rfl⟩
  | @cons p n params args hn hargs ih =>
    obtain ⟨s₁, hadd, h⟩ := Scope.addAll_cons h
    have b := ih (hl.add hadd) h
    have hg := Scope.Grows.of_addAll (ArgsFit.values hargs) h
    obtain ⟨-, -, -, rfl⟩ := Scope.add_eq_ok hadd
    have hslot := hl.slot_candidate p.name p.type
    have hfound : s'.get? p.name = some (s.candidate p.name p.type) :=
      hg.get? (by simp [Scope.get?_push, Scope.candidate])
    have hnext : (s.push (s.candidate p.name p.type)).next = s.next + n.width := by
      rw [width_of_type hn]
      rfl
    have hw := width_pos n
    have hother : ∀ x, x ≠ p.name → Store.ofArgs (p :: params) (n :: args) x = Store.ofArgs params args x :=
      fun x hx => Function.update_of_ne hx _ _
    have hlater : ∀ i, s.next < i → entryLocals s.next (n :: args) i = entryLocals (s.next + n.width) args i :=
      fun i hi => Function.update_of_ne (by omega) _ _
    refine ⟨fun x v hv => ?_, fun x hx => ?_, fun i hi => ?_⟩
    · by_cases hx : x = p.name
      · subst hx
        obtain rfl : s.candidate p.name p.type = v := Option.some.inj (hfound.symm.trans hv)
        rw [hslot]
        exact .inr ⟨Nat.le_refl _, n, Function.update_self .., hn, Function.update_self ..⟩
      · rw [hother x hx]
        rcases b.held x v hv with ⟨hs, hnone⟩ | ⟨hle, m, hm, ht, hloc⟩
        · rcases Scope.get?_push_candidate hs with ⟨heq, -⟩ | ⟨-, hs⟩
          · exact absurd heq hx
          · exact .inl ⟨hs, hnone⟩
        · rw [hnext] at hle hloc
          exact .inr ⟨by omega, m, hm, ht, by rw [hlater _ (by omega), hloc]⟩
    · rw [hother x (by rintro rfl; rw [hfound] at hx; cases hx)]
      exact b.unknown x hx
    · have hle := hg.next_le
      rw [hlater i (by omega), ← hnext]
      exact b.free i hi

/-- A call starts with what is stored in its place. -/
theorem matches_entry (hl : s.Laid) (hempty : ∀ x, s.get? x = none) (hs : s.next = 0)
    (h : s.addAll span params = .ok s') (ha : ArgsFit params args) (hg : s'.Grows S) :
    Matches S (Store.ofArgs params args) (entryLocals 0 args) := by
  have b := bound_addAll hl h ha
  have hl' := hl.grows (.of_addAll ha.values h)
  rw [← hs]
  refine ⟨fun x v hv => ?_, fun x v n hv hn => ?_⟩
  · rcases hg.get?_inv hl' hv with hv' | ⟨hnone, hle⟩
    · rcases b.held x v hv' with ⟨hv, -⟩ | ⟨-, n, hn, -, hloc⟩
      · rw [hempty] at hv
        cases hv
      · rw [hn, hloc]
        rfl
    · rw [b.unknown x hnone, b.free _ hle]
      rfl
  · rcases hg.get?_inv hl' hv with hv' | ⟨hnone, hle⟩
    · rcases b.held x v hv' with ⟨hv, -⟩ | ⟨-, m, hm, ht, -⟩
      · rw [hempty] at hv
        cases hv
      · rw [hm] at hn
        cases hn
        exact ht
    · rw [b.unknown x hnone] at hn
      cases hn

theorem numeric_addAll {known : List String} (hn : Numeric s known) (h : s.addAll span params = .ok s')
    (hp : ∀ p ∈ params, p.type = .int ∨ p.type = .long) : Numeric s' (known ++ params.map (·.name)) := by
  induction params generalizing s known with
  | nil =>
    cases h
    rwa [List.map_nil, List.append_nil]
  | cons p params ih =>
    obtain ⟨s₁, hadd, h⟩ := Scope.addAll_cons h
    obtain ⟨hp, hparams⟩ := List.forall_mem_cons.mp hp
    have := ih (hn.add hp hadd) h hparams
    rwa [List.append_assoc] at this

/-! ### Frames at the start -/

theorem hasKind_entryLocals (slot : Nat) (ha : ArgsFit params args) (i : Nat)
    (hi : ((params.map (·.type)).flatMap Ty.slots).getD i .top ≠ .top) :
    ∃ v, entryLocals slot args (slot + i) = some v ∧
      (((params.map (·.type)).flatMap Ty.slots).getD i .top).hasKind v.kind = true := by
  induction ha generalizing slot i with
  | nil => exact absurd rfl hi
  | @cons p n params args hn _ ih =>
    rw [List.map_cons, List.flatMap_cons, ← hn] at *
    cases n with
    | int a =>
      cases i with
      | zero => exact ⟨num (.int a), Function.update_self .., rfl⟩
      | succ i =>
        obtain ⟨v, hv, hk⟩ := ih (slot + 1) i hi
        refine ⟨v, ?_, hk⟩
        rw [← hv, Nat.add_right_comm]
        exact Function.update_of_ne (by omega) _ _
    | long a =>
      match i with
      | 0 => exact ⟨num (.long a), Function.update_self .., rfl⟩
      | 1 => exact absurd rfl hi
      | i + 2 =>
        obtain ⟨v, hv, hk⟩ := ih (slot + 2) i hi
        refine ⟨v, ?_, hk⟩
        rw [← hv, Nat.add_right_comm slot 2 i]
        exact Function.update_of_ne (by omega) _ _

/-- The locals that a call starts with are as the descriptor of the method says. -/
theorem fits_entry {m : MethodHead} {method : MethodSig} {entry : Frame} (hd : m.descriptor = method.descriptor)
    (hs : m.isStatic = true) (he : m.entryFrame = .ok entry) (ha : ArgsFit method.params args) :
    Fits entry (entryLocals 0 args) := by
  have hnum : ∀ t ∈ method.paramTypes, t = .int ∨ t = .long := by
    intro t ht
    obtain ⟨p, hp, rfl⟩ := List.mem_map.mp ht
    exact ha.numeric p hp
  have hnamed : ∀ t ∈ method.paramTypes, t.WellNamed := fun t ht => by
    rcases hnum t ht with rfl | rfl <;> exact Ty.wellNamed_prim _ _
  have hvalues : ∀ t ∈ method.paramTypes, t.isVoid = false := fun t ht => by
    rcases hnum t ht with rfl | rfl <;> rfl
  rw [m.entryFrame_eq hd hnamed hvalues, if_pos hs] at he
  cases he
  intro i hi
  have h := hasKind_entryLocals 0 ha i hi
  rw [Nat.zero_add] at h
  exact h

end Machine

end Classwright
