import Classwright.Proofs.Frames.Paths
import Classwright.Proofs.Semantics.Machine

/-! # Frames and the machine

Where code has been typed, the machine only comes to instructions that have a frame, and a local that the frame says
something about holds a value. So it never loads from a slot that holds nothing. -/

namespace Classwright.Machine

variable {code : Array Instr} {p : Placement} {s s' : State} {m : MethodHead} {f g : Frame}
  {locals : Nat → Option Value}

/-! ### Steps -/

theorem arithmetic_of_endsBlock {op : Opcode} (h : op.endsBlock = true) (stack : List Value) :
    arithmetic op stack = .misfit := by
  cases op <;> cases h <;> rfl

theorem fallsThrough_of_operate {heap : List Object} {op : Opcode} {stack stack' : List Value}
    (h : operate heap op stack = .values stack') : op.endsBlock = false := by
  unfold operate at h
  split at h
  · rfl
  · rfl
  · rfl
  · cases h
  · cases h
  · cases h
  · split at h <;> cases h
  · cases hop : op.endsBlock with
    | false => rfl
    | true =>
      rw [arithmetic_of_endsBlock hop] at h
      cases h

theorem fallsThrough_of_decideJump {op : Opcode} {stack stack' : List Value}
    (h : decideJump op stack = some (false, stack')) : op.endsBlock = false := by
  unfold decideJump at h
  split at h
  · cases h
  all_goals first | rfl | cases h

/-- A step goes on behind the instruction or follows a jump, and only a store changes locals. -/
theorem exec_cases {instr : Instr} (h : exec p s instr = .state s') :
    (s'.locals = s.locals ∧ (∀ kind slot, instr ≠ .store kind slot) ∨
        ∃ kind slot v, instr = .store kind slot ∧ v.kind = kind ∧ s'.locals = setLocal s.locals slot.toNat v) ∧
      (instr.fallsThrough = true ∧ s'.pc = s.pc + 1 ∨ ∃ op l, instr = .jump op l ∧ p.position? l = some s'.pc) := by
  unfold exec at h
  split at h
  · cases h
    exact ⟨.inl ⟨rfl, nofun⟩, .inl ⟨rfl, rfl⟩⟩
  · cases h
    exact ⟨.inl ⟨rfl, nofun⟩, .inl ⟨rfl, rfl⟩⟩
  · cases h
    exact ⟨.inl ⟨rfl, nofun⟩, .inl ⟨rfl, rfl⟩⟩
  · cases h
    exact ⟨.inl ⟨rfl, nofun⟩, .inl ⟨rfl, rfl⟩⟩
  · split at h
    · split at h
      · cases h
        exact ⟨.inl ⟨rfl, nofun⟩, .inl ⟨rfl, rfl⟩⟩
      · cases h
    · cases h
  · split at h
    · split at h
      · rename_i slot _ v rest hstack hkind
        cases h
        exact ⟨.inr ⟨_, slot, v, rfl, hkind, rfl⟩, .inl ⟨rfl, rfl⟩⟩
      · cases h
    · cases h
  · rename_i op l
    split at h
    · split at h
      · rename_i j hj
        cases h
        exact ⟨.inl ⟨rfl, nofun⟩, .inr ⟨op, l, rfl, hj⟩⟩
      · cases h
    · rename_i rest hd
      cases h
      exact ⟨.inl ⟨rfl, nofun⟩, .inl ⟨by simp [Instr.fallsThrough, fallsThrough_of_decideJump hd], rfl⟩⟩
    · cases h
  · cases h
    exact ⟨.inl ⟨rfl, nofun⟩, .inl ⟨rfl, rfl⟩⟩
  · split at h
    · split at h
      · split at h
        · cases h
          exact ⟨.inl ⟨rfl, nofun⟩, .inl ⟨rfl, rfl⟩⟩
        · cases h
      · cases h
    · cases h
  · split at h
    · rename_i op _ stack ho
      cases h
      exact ⟨.inl ⟨rfl, nofun⟩, .inl ⟨by simp [Instr.fallsThrough, fallsThrough_of_operate ho], rfl⟩⟩
    · cases h
    · cases h
  · cases h

/-! ### Locals -/

/-- Where the frame knows something about a local, it holds a value of that kind. -/
def Fits (f : Frame) (locals : Nat → Option Value) : Prop :=
  ∀ i, f.getLocal i ≠ .top → ∃ v, locals i = some v ∧ (f.getLocal i).hasKind v.kind = true

namespace Fits

theorem of_locals_eq (h : Fits f locals) (hl : g.locals = f.locals) : Fits g locals := by
  unfold Fits Frame.getLocal
  rw [hl]
  exact h

theorem of_below (h : Fits f locals) (hb : f.Below g) : Fits g locals := by
  intro i hi
  have hbelow := (hb.locals i).below_of_ne_top hi
  obtain ⟨v, hv, hk⟩ := h i fun htop => by
    rcases hbelow.eq_or_reference with heq | ⟨href, -⟩
    · exact hi (heq ▸ htop)
    · rw [htop] at href
      cases href
  exact ⟨v, hv, by rwa [← hbelow.hasKind_eq]⟩

theorem width_eq (h : Fits f locals) {i : Nat} (hi : f.getLocal i ≠ .top) :
    (locals i).any (·.width = 2) = decide ((f.getLocal i).width = 2) := by
  obtain ⟨v, hv, hk⟩ := h i hi
  rw [hv, Option.any_some, Value.width, VType.width_of_hasKind hk]

theorem setLocal (h : Fits f locals) {slot : Nat} {t : VType} {v : Value} (hk : t.hasKind v.kind = true) :
    Fits (f.setLocal slot t) (Machine.setLocal locals slot v) := by
  intro i hi
  rw [Frame.getLocal_setLocal] at hi ⊢
  unfold Machine.setLocal Value.width
  rw [VType.width_of_hasKind hk]
  split at hi
  · rename_i heq
    rw [if_pos heq, if_pos heq]
    exact ⟨v, rfl, hk⟩
  · rename_i hne
    rw [if_neg hne, if_neg hne]
    split at hi
    · exact absurd rfl hi
    · rename_i hnext
      rw [if_neg hnext, if_neg hnext]
      split at hi
      · exact absurd rfl hi
      · rename_i hbefore
        have hw := h.width_eq hi
        unfold Value.width at hw
        rw [if_neg hbefore, hw, if_neg (by simpa using hbefore)]
        exact h i hi

theorem markInitialized (h : Fits f locals) {before after : VType}
    (hb : Frame.initializedType m code before = .ok after) : Fits (f.markInitialized before after) locals := by
  have hne : before ≠ .top := fun htop => by
    subst htop
    cases Frame.isUninitialized_of_initializedType hb
  intro i hi
  rw [f.getLocal_markInitialized after hne] at hi ⊢
  split
  · rename_i heq
    obtain ⟨v, hv, hk⟩ := h i (heq ▸ hne)
    exact ⟨v, hv, by rwa [Frame.hasKind_of_initializedType hb, ← heq]⟩
  · rename_i hother
    rw [if_neg hother] at hi
    exact h i hi

/-- An instruction that does not store leaves the locals as they are. -/
theorem of_apply (h : Fits f locals) {index : Nat} {instr : Instr} (ha : f.apply m code index instr = .ok g)
    (hi : ∀ kind slot, instr ≠ .store kind slot) : Fits g locals := by
  cases (Frame.apply_grows ha).1 with
  | same hl => exact h.of_locals_eq hl
  | store kind slot t heq => exact absurd heq (hi kind slot)
  | init before after hb hl => exact (h.markInitialized hb).of_locals_eq hl

theorem of_apply_store (h : Fits f locals) {index : Nat} {slot : UInt16} {v : Value}
    (ha : f.apply m code index (.store v.kind slot) = .ok g) : Fits g (Machine.setLocal locals slot.toNat v) := by
  obtain ⟨⟨t, f'⟩, hp, hg⟩ := bind_eq_ok.mp ha
  cases hg
  obtain ⟨-, hl, hk⟩ := Frame.popKind_eq_ok.mp hp
  exact (h.of_locals_eq hl.symm).setLocal hk

end Fits

/-! ### Runs -/

/-- The instruction that the machine is at has a frame that its locals fit. -/
def Typed (d : Dataflow) (s : State) : Prop := ∃ f, d.frameAt s.pc = some f ∧ Fits f s.locals

section
variable {entry : Frame} {d : Dataflow} (fix : Dataflow.Fixpoint m code p entry d)
include fix

theorem Typed.of_entry (h : Fits entry s.locals) (hpc : s.pc = 0) : Typed d s := by
  obtain ⟨g, hg, hb⟩ := fix.entry
  exact ⟨g, hpc ▸ hg, h.of_below hb⟩

theorem Typed.step (h : Typed d s) (hs : step code p s = .state s') : Typed d s' := by
  obtain ⟨f, hf, hfits⟩ := h
  obtain ⟨instr, after, hi, ha, hedge⟩ := fix.fits s.pc f hf
  rw [Machine.step, hi] at hs
  obtain ⟨hlocals, hpc⟩ := exec_cases hs
  have hafter : Fits after s'.locals := by
    rcases hlocals with ⟨hl, hstore⟩ | ⟨kind, slot, v, rfl, rfl, hl⟩
    · rw [hl]
      exact hfits.of_apply ha hstore
    · rw [hl]
      exact hfits.of_apply_store ha
  have he : Edge code p s.pc s'.pc := by
    rcases hpc with ⟨hfalls, hpc⟩ | ⟨op, l, rfl, hl⟩
    · rw [hpc]
      exact .next hi hfalls
    · exact .jump hi hl
  obtain ⟨g, hg, hb⟩ := hedge _ he
  exact ⟨g, hg, hafter.of_below hb⟩

theorem Typed.reaches (h : Typed d s) (hr : Reaches code p s s') : Typed d s' := by
  obtain ⟨n, hr⟩ := hr
  induction n generalizing s with
  | zero =>
    cases hr
    exact h
  | succ n ih =>
    rw [ReachesIn, run] at hr
    cases hs : Machine.step code p s with
    | state s₁ =>
      rw [hs] at hr
      exact ih (h.step fix hs) hr
    | halt _ => rw [hs] at hr; cases hr
    | stuck => rw [hs] at hr; cases hr

/-- Where an instruction loads from, there is a value of the kind it asks for. -/
theorem Typed.load (h : Typed d s) {kind : LocalKind} {slot : UInt16} (hi : code[s.pc]? = some (.load kind slot)) :
    ∃ v, s.locals slot.toNat = some v ∧ v.kind = kind := by
  obtain ⟨f, hf, hfits⟩ := h
  obtain ⟨instr, after, hi', ha, -⟩ := fix.fits s.pc f hf
  rw [hi] at hi'
  cases hi'
  simp only [Frame.apply] at ha
  obtain ⟨hk, -⟩ := ite_eq_ok.mp ha
  obtain ⟨v, hv, hkind⟩ := hfits _ (VType.ne_top_of_hasKind hk)
  exact ⟨v, hv, VType.kind_unique hkind hk⟩

end

end Classwright.Machine
