import Classwright.Proofs.Frames.Receiver

/-! # Receivers are initialized once

Once a path has called a constructor on the uninitialized receiver, no copy of it is left, so the path does not do so
again. Where the first part of the code is left only through such a call, every path out of it makes the call, and makes
it once. -/

namespace Classwright

/-- Only through the instruction at `k` does control leave the instructions in front of it, and none of them returns. -/
structure Gate (code : Array Instr) (p : Placement) (k : Nat) : Prop where
  pos : 0 < k
  closed : ∀ i j, Edge code p i j → i < k → j ≤ k
  returns : ∀ i, code[i]? = some (.op .returnVoid) → k < i

namespace Path
variable {code : Array Instr} {p : Placement} {is xs ys : List Nat} {i j k : Nat}

/-- The last step of a path. -/
theorem last (h : Path code p (is ++ [i]) j) : Path code p is i ∧ Edge code p i j := by
  generalize his : is ++ [i] = js at h
  cases h with
  | start => simp at his
  | step h he =>
    obtain ⟨rfl, heq⟩ := List.append_inj' his rfl
    cases heq
    exact ⟨h, he⟩

/-- A path comes to each instruction that it passes. -/
theorem comes (h : Path code p (xs ++ i :: ys) j) : Path code p xs i := by
  induction ys using List.reverseRecOn generalizing j with
  | nil => exact h.last.1
  | append_singleton ys z ih =>
    rw [← List.cons_append, ← List.append_assoc] at h
    exact ih h.last.1

/-- A path from in front of a gate to behind it passes the gate. -/
theorem mem_of_leaves (hk : Gate code p k) (h : Path code p (xs ++ i :: ys) j) (hi : i < k) (hj : k < j) : k ∈ ys := by
  induction ys using List.reverseRecOn generalizing j with
  | nil => exact absurd (hk.closed _ _ h.last.2 hi) (Nat.not_le.mpr hj)
  | append_singleton ys z ih =>
    rw [← List.cons_append, ← List.append_assoc] at h
    obtain ⟨h, he⟩ := h.last
    rcases Nat.lt_trichotomy z k with hz | rfl | hz
    · exact absurd (hk.closed _ _ he hz) (Nat.not_le.mpr hj)
    · simp
    · exact List.mem_append_left _ (ih h hz)

theorem eq_zero (h : Path code p [] i) : i = 0 := by
  generalize his : ([] : List Nat) = is at h
  cases h with
  | start => rfl
  | step _ _ => simp at his

theorem mem_of_lt (hk : Gate code p k) (h : Path code p is j) (hj : k < j) : k ∈ is := by
  cases is with
  | nil => exact absurd (h.eq_zero ▸ hj) (Nat.not_lt_zero k)
  | cons i is =>
    rw [← List.nil_append (i :: is)] at h
    have hfirst : i = 0 := h.comes.eq_zero
    exact List.mem_cons_of_mem i (h.mem_of_leaves hk (hfirst ▸ hk.pos) hj)

end Path

namespace Frame
variable {m : MethodHead} {code : Array Instr} {index : Nat} {instr : Instr} {f g : Frame} {is : List Nat}

/-- No copy of the receiver is uninitialized. -/
def Clean (f : Frame) : Prop := f.Only (· ≠ .uninitializedThis)

theorem ne_uninitializedThis {t : VType} (h : t.isUninitialized = false) : t ≠ .uninitializedThis := by
  rintro rfl
  cases h

theorem Clean.apply (h : f.Clean) (ha : f.apply m code index instr = .ok g) : g.Clean := by
  have hmeets : Meets Clean _ (f.apply m code index instr) := Only.apply (fun _ => ne_uninitializedThis) h nofun
  rwa [ha] at hmeets

theorem Clean.along (h : f.Clean) (ha : f.along m code is = .ok g) : g.Clean := by
  induction is generalizing f with
  | nil =>
    cases ha
    exact h
  | cons i is ih =>
    obtain ⟨f', hstep, ha⟩ := bind_eq_ok.mp ha
    unfold stepAt at hstep
    split at hstep
    · exact ih (h.apply hstep) ha
    · cases hstep

theorem clean_markInitialized (f : Frame) (name : String) : (f.markInitialized .uninitializedThis (.object name)).Clean := by
  refine ⟨fun slot => ?_, fun t ht => ?_⟩
  · rw [getLocal_markInitialized f _ (by simp)]
    split
    · nofun
    · assumption
  · obtain ⟨u, -, rfl⟩ := List.mem_map.mp ht
    split
    · nofun
    · assumption

/-- The call that initializes the receiver initializes all its copies. -/
theorem clean_of_initializes (ha : f.apply m code index instr = .ok g) (hi : f.initializes instr = true) : g.Clean := by
  cases instr with
  | invoke op member =>
    obtain ⟨params, result, f₁, f₂, hd, hargs, hreceiver, hresult⟩ := applyInvoke_eq_ok ha
    simp only [initializes, receiver?_eq hd hargs, Bool.and_eq_true, decide_eq_true_eq] at hi
    obtain ⟨⟨hop, hname⟩, hhead⟩ := hi
    rcases hreceiver with ⟨hstatic, -⟩ | ⟨-, hreceiver⟩
    · exact absurd hstatic hop
    · obtain ⟨⟨t, f'⟩, hpop, hreceiver⟩ := bind_eq_ok.mp hreceiver
      obtain ⟨hstack, -, -⟩ := popKind_eq_ok.mp hpop
      obtain rfl : t = .uninitializedThis := by
        rw [hstack] at hhead
        exact Option.some.inj hhead
      have hmark : f'.markInitialized .uninitializedThis (.object m.owner) = f₂ := by
        dsimp only at hreceiver
        rw [if_pos hname] at hreceiver
        exact Except.ok.inj hreceiver
      have hmeets : Meets Clean _ (f₂.pushResult result) :=
        Only.pushResult (fun _ => ne_uninitializedThis) (hmark ▸ clean_markInitialized f' _) result
      rwa [hresult] at hmeets
  | _ => cases hi

theorem Clean.initializes (h : f.Clean) (instr : Instr) : f.initializes instr = false := by
  cases instr with
  | invoke op member =>
    rw [Bool.eq_false_iff]
    intro hi
    simp only [Frame.initializes, Bool.and_eq_true, decide_eq_true_eq] at hi
    obtain ⟨-, hhead⟩ := hi
    unfold receiver? at hhead
    split at hhead
    · rename_i params _ _
      obtain ⟨f', hargs, hhead⟩ := Option.bind_eq_some_iff.mp hhead
      have hmeets := Only.popArgs h params.reverse
      rw [toOption_eq_some.mp hargs] at hmeets
      exact hmeets.stack _ (List.mem_of_mem_head? hhead) rfl
    · cases hhead
  | _ => rfl

end Frame

namespace Dataflow
variable {m : MethodHead} {code : Array Instr} {p : Placement} {entry : Frame} {d : Dataflow} {is xs ys : List Nat}
  {i j k : Nat}

/-- No path initializes the receiver twice. -/
theorem Fixpoint.initializes_once (fix : Fixpoint m code p entry d) (path : Path code p (xs ++ i :: ys) j)
    (hi : d.Initializes code i) : ¬d.Initializes code j := by
  rintro ⟨instr', g', hj, hg', hinit'⟩
  obtain ⟨instr, g, hi, hg, hinit⟩ := hi
  obtain ⟨e, f', halong, hf', hb'⟩ := fix.ordinary.path rfl path
  cases hg'.symm.trans hf'
  obtain ⟨_, after', hj', ha', -⟩ := fix.ordinary.fits j g' hg'
  cases hj.symm.trans hj'
  obtain ⟨f, _, halong₁, hf, hb⟩ := fix.ordinary.path rfl path.comes
  cases hg.symm.trans hf
  obtain ⟨_, after, hi', ha, -⟩ := fix.ordinary.fits i g hg
  cases hi.symm.trans hi'
  obtain ⟨f₁, hf₁, -⟩ := hb.apply rfl code i instr after ha
  -- The exact frame behind the first call has no copy of the receiver, and none comes back.
  have hclean : f₁.Clean := Frame.clean_of_initializes hf₁ (by rw [hb.initializes_eq ha, hinit])
  have hrest : f₁.along m.ordinary code ys = .ok e := by
    rw [Frame.along_append, halong₁, ok_bind, Frame.along, Frame.stepAt_eq hi, hf₁, ok_bind] at halong
    exact halong
  rw [← hb'.initializes_eq ha', (hclean.along hrest).initializes] at hinit'
  cases hinit'

/-- A path through a gate that initializes the receiver passes it once, and initializes the receiver nowhere else. -/
theorem Fixpoint.initializes_iff (fix : Fixpoint m code p entry d) (hk : Gate code p k) (path : Path code p is i)
    (hi : k < i) (hinit : ∀ xs, Path code p xs k → (∀ j ∈ xs, j < k) → d.Initializes code k) :
    ∃ before after, is = before ++ k :: after ∧ (∀ j ∈ before, j < k) ∧ (∀ j ∈ after, k < j) ∧
      ∀ j ∈ is, d.Initializes code j ↔ j = k := by
  obtain ⟨before, after, rfl, hfirst⟩ := List.eq_append_cons_of_mem (path.mem_of_lt hk hi)
  have hbefore : ∀ j ∈ before, j < k := fun j hj => by
    obtain ⟨xs, ys, rfl⟩ := List.append_of_mem hj
    rcases Nat.lt_trichotomy j k with hlt | rfl | hlt
    · exact hlt
    · exact absurd hj hfirst
    · exact absurd (List.mem_append_left _ (path.comes.comes.mem_of_lt hk hlt)) hfirst
  have hcall : d.Initializes code k := hinit before path.comes hbefore
  have hlast : k ∉ after := fun hmem => by
    obtain ⟨xs, ys, rfl⟩ := List.append_of_mem hmem
    rw [← List.cons_append, ← List.append_assoc] at path
    exact fix.initializes_once path.comes hcall hcall
  have hafter : ∀ j ∈ after, k < j := fun j hj => by
    obtain ⟨xs, ys, rfl⟩ := List.append_of_mem hj
    rcases Nat.lt_trichotomy j k with hlt | rfl | hlt
    · rw [← List.cons_append, ← List.append_assoc] at path
      exact absurd (List.mem_append_right _ (List.mem_cons_of_mem j (path.mem_of_leaves hk hlt hi))) hlast
    · exact absurd hj hlast
    · exact hlt
  refine ⟨before, after, rfl, hbefore, hafter, fun j hj => ⟨fun hother => ?_, fun heq => heq ▸ hcall⟩⟩
  rcases List.mem_append.mp hj with hmem | hmem
  · obtain ⟨xs, ys, rfl⟩ := List.append_of_mem hmem
    exact absurd hcall (fix.initializes_once path.comes hother)
  · rcases List.mem_cons.mp hmem with heq | hmem
    · exact heq
    · obtain ⟨xs, ys, rfl⟩ := List.append_of_mem hmem
      rw [← List.cons_append, ← List.append_assoc] at path
      exact absurd hother (fix.initializes_once path.comes hcall)

end Dataflow

end Classwright
