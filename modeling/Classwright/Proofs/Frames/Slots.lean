import Classwright.Proofs.Frames.Values
import Mathlib.Data.List.DropRight

/-! # Values and their slots

Among the locals a value of two words takes two slots, the second of which is unusable. Stack maps list values, so the
slots have to be told from them again. That works for all frames that are found. -/

namespace Classwright

namespace VType

/-- The slots that a value takes. -/
def slots (t : VType) : List VType := if t.width = 2 then [t, .top] else [t]

/-- The slots that values take one after another. -/
def spread (ts : List VType) : List VType := ts.flatMap slots

/-- Without the unusable slots at the end. -/
def trim (ts : List VType) : List VType := ts.rdropWhile (· == .top)

@[simp] theorem spread_nil : spread [] = [] := rfl

theorem spread_cons_wide {t : VType} (h : t.width = 2) (ts : List VType) :
    spread (t :: ts) = t :: .top :: spread ts := by
  simp [spread, slots, h]

theorem spread_cons_narrow {t : VType} (h : t.width ≠ 2) (ts : List VType) : spread (t :: ts) = t :: spread ts := by
  simp [spread, slots, h]

@[simp] theorem spread_append (ts us : List VType) : spread (ts ++ us) = spread ts ++ spread us := List.flatMap_append

theorem mem_spread {t : VType} {ts : List VType} (h : t ∈ spread ts) : t ∈ ts ∨ t = .top := by
  obtain ⟨u, hu, ht⟩ := List.mem_flatMap.mp h
  unfold slots at ht
  split at ht
  · rcases List.mem_cons.mp ht with rfl | ht
    · exact .inl hu
    · exact .inr (List.mem_singleton.mp ht)
  · obtain rfl := List.mem_singleton.mp ht
    exact .inl hu

theorem trim_concat_top (ts : List VType) : trim (ts ++ [.top]) = trim ts := List.rdropWhile_concat_pos _ _ _ rfl

theorem trim_concat {t : VType} (h : t ≠ .top) (ts : List VType) : trim (ts ++ [t]) = ts ++ [t] :=
  List.rdropWhile_concat_neg _ _ _ (by simpa using h)

/-- Unusable values at the end make no difference to the slots. -/
theorem trim_spread_trim (ts : List VType) : trim (spread (trim ts)) = trim (spread ts) := by
  induction ts using List.reverseRecOn with
  | nil => rfl
  | append_singleton ts t ih =>
    by_cases ht : t = .top
    · subst ht
      have htop : spread [.top] = [.top] := rfl
      rw [trim_concat_top, ih, spread_append, htop, trim_concat_top]
    · rw [trim_concat ht]

theorem trim_eq_self {ts : List VType} (h : ∀ t ∈ ts, t ≠ .top) : trim ts = ts :=
  List.rdropWhile_eq_self_iff.mpr fun hne => by simpa using h _ (List.getLast_mem hne)

end VType

open VType

namespace Frame

/-! ### Values from slots -/

/-- The values that slots hold: what comes behind a value of two words is passed over. -/
def values (slots : List VType) : List VType := valuesFrom [] slots

theorem valuesFrom_append (acc acc' slots : List VType) :
    valuesFrom (acc ++ acc') slots = acc'.reverse ++ valuesFrom acc slots := by
  fun_induction valuesFrom acc slots with
  | case1 acc => simp [valuesFrom]
  | case2 acc t => simp [valuesFrom]
  | case3 acc t u rest hw ih =>
    rw [valuesFrom, if_pos hw]
    exact ih
  | case4 acc t u rest hw ih =>
    rw [valuesFrom, if_neg hw]
    exact ih

theorem values_wide {t : VType} (h : t.width = 2) (u : VType) (slots : List VType) :
    values (t :: u :: slots) = t :: values slots := by
  rw [values, valuesFrom, if_pos h]
  exact valuesFrom_append [] [t] slots

theorem values_narrow {t : VType} (h : t.width ≠ 2) (slots : List VType) : values (t :: slots) = t :: values slots := by
  cases slots with
  | nil => rfl
  | cons u rest =>
    rw [values, valuesFrom, if_neg h]
    exact valuesFrom_append [] [t] (u :: rest)

theorem values_spread (ts : List VType) : values (spread ts) = ts := by
  induction ts with
  | nil => rfl
  | cons t ts ih =>
    by_cases h : t.width = 2
    · rw [spread_cons_wide h, values_wide h, ih]
    · rw [spread_cons_narrow h, values_narrow h, ih]

theorem compactLocals_eq (f : Frame) : f.compactLocals = trim (values f.locals) := rfl

/-- Behind a value of two words there is another slot, which is unusable. -/
def Paired (slots : List VType) : Prop :=
  ∀ i, (slots.getD i .top).width = 2 → slots.getD (i + 1) .top = .top ∧ i + 1 < slots.length

theorem Paired.tail {t : VType} {slots : List VType} (h : Paired (t :: slots)) : Paired slots := fun i hi =>
  (h (i + 1) hi).imp_right Nat.succ_lt_succ_iff.mp

theorem Paired.cons {t : VType} {slots : List VType} (h : Paired slots)
    (ht : t.width = 2 → slots.getD 0 .top = .top ∧ 0 < slots.length) : Paired (t :: slots) := by
  intro i hi
  cases i with
  | zero => exact (ht hi).imp_right Nat.succ_lt_succ
  | succ i => exact (h i hi).imp_right Nat.succ_lt_succ

theorem paired_spread (ts : List VType) : Paired (spread ts) := by
  induction ts with
  | nil =>
    intro i hi
    cases hi
  | cons t ts ih =>
    by_cases h : t.width = 2
    · rw [spread_cons_wide h]
      have htop : Paired (.top :: spread ts) := ih.cons nofun
      exact htop.cons fun _ => ⟨rfl, Nat.zero_lt_succ _⟩
    · rw [spread_cons_narrow h]
      exact ih.cons fun ht => absurd ht h

/-- The slots are those of the values. -/
theorem spread_values {slots : List VType} (h : Paired slots) : spread (values slots) = slots := by
  match slots with
  | [] => rfl
  | t :: slots =>
    by_cases hw : t.width = 2
    · match slots with
      | [] => exact absurd (h 0 hw).2 (Nat.lt_irrefl 1)
      | u :: slots =>
        obtain rfl : u = .top := (h 0 hw).1
        rw [values_wide hw, spread_cons_wide hw, spread_values h.tail.tail]
    · rw [values_narrow hw, spread_cons_narrow hw, spread_values h.tail]

theorem trim_spread_compactLocals {f : Frame} (h : Paired f.locals) :
    trim (spread f.compactLocals) = trim f.locals := by
  rw [compactLocals_eq, trim_spread_trim, spread_values h]

theorem length_values_le (slots : List VType) : (values slots).length ≤ slots.length := by
  match slots with
  | [] => exact Nat.le_refl _
  | [t] => exact Nat.le_refl _
  | t :: u :: slots =>
    by_cases hw : t.width = 2
    · rw [values_wide hw]
      exact Nat.succ_le_succ (Nat.le_succ_of_le (length_values_le slots))
    · rw [values_narrow hw]
      exact Nat.succ_le_succ (length_values_le (u :: slots))

theorem length_compactLocals_le (f : Frame) : f.compactLocals.length ≤ f.locals.length :=
  Nat.le_trans (List.rdropWhile_prefix _ _).length_le (length_values_le f.locals)

theorem mem_values {t : VType} {slots : List VType} (h : t ∈ values slots) : t ∈ slots := by
  match slots with
  | [] => exact h
  | u :: slots =>
    by_cases hw : u.width = 2
    · match slots with
      | [] => exact h
      | v :: slots =>
        rw [values_wide hw] at h
        rcases List.mem_cons.mp h with rfl | h
        · exact List.mem_cons_self
        · exact List.mem_cons_of_mem u (List.mem_cons_of_mem v (mem_values h))
    · rw [values_narrow hw] at h
      rcases List.mem_cons.mp h with rfl | h
      · exact List.mem_cons_self
      · exact List.mem_cons_of_mem u (mem_values h)

theorem Only.mem {f : Frame} {P : VType → Prop} (h : f.Only P) {t : VType} (ht : t ∈ f.compactLocals ++ f.stack) :
    P t := by
  rcases List.mem_append.mp ht with ht | ht
  · exact h.of_mem (List.mem_append_left _ (mem_values ((List.rdropWhile_prefix _ _).subset ht)))
  · exact h.stack t ht

theorem length_stack_le (f : Frame) : f.stack.length ≤ f.stackWords := by
  unfold stackWords
  induction f.stack with
  | nil => exact Nat.le_refl _
  | cons t ts ih =>
    have hwidth : 1 ≤ t.width := by cases t <;> simp [VType.width]
    simp only [List.length_cons, List.foldr_cons]
    omega

/-! ### All frames -/

variable {m : MethodHead} {code : Array Instr} {f g : Frame}

/-- A store makes room for both halves of what it stores, and leaves no half of what it overwrites. -/
theorem Paired.setLocal (h : Paired f.locals) (slot : Nat) (t : VType) : Paired (f.setLocal slot t).locals := by
  intro i hi
  have hf : (f.getLocal i).width = 2 → f.getLocal (i + 1) = .top ∧ i + 1 < f.locals.length := h i
  change ((f.setLocal slot t).getLocal i).width = 2 at hi
  change (f.setLocal slot t).getLocal (i + 1) = .top ∧ _
  have htop : VType.top.width ≠ 2 := nofun
  rw [length_setLocal]
  rw [getLocal_setLocal] at hi ⊢
  grind

theorem Paired.markInitialized (h : Paired f.locals) {before after : VType} (hb : before ≠ .top)
    (ha : after.width ≠ 2) : Paired (f.markInitialized before after).locals := by
  intro i hi
  have hf : (f.getLocal i).width = 2 → f.getLocal (i + 1) = .top ∧ i + 1 < f.locals.length := h i
  have hlength : (f.markInitialized before after).locals.length = f.locals.length := List.length_map _
  change ((f.markInitialized before after).getLocal i).width = 2 at hi
  change (f.markInitialized before after).getLocal (i + 1) = .top ∧ _
  rw [hlength]
  rw [getLocal_markInitialized f after hb] at hi ⊢
  grind

theorem Paired.apply {index : Nat} {instr : Instr} (h : Paired f.locals) (ha : f.apply m code index instr = .ok g) :
    Paired g.locals := by
  cases (apply_grows ha).1 with
  | same hl => exact hl ▸ h
  | store kind slot t _ _ hl => exact hl ▸ h.setLocal slot.toNat t
  | init before after hinit hl _ =>
    obtain ⟨name, rfl⟩ := exists_object_of_initializedType hinit
    rw [hl]
    exact h.markInitialized (ne_top_of_initializedType hinit) nofun

/-- What is wide after a join was wide in both frames. -/
theorem Paired.join {j : Frame} (h : Paired f.locals) (hg : Paired g.locals) (hj : f.join g = .ok j) :
    Paired j.locals := by
  rw [(join_eq_ok hj).2.1]
  intro i hi
  rw [length_joinLocals]
  rw [getD_joinLocals] at hi ⊢
  obtain ⟨hbelow, hbelow'⟩ := joinLocal_below (f.locals.getD i .top) (g.locals.getD i .top)
  have hne : (f.locals.getD i .top).joinLocal (g.locals.getD i .top) ≠ .top := by
    intro htop
    rw [htop] at hi
    cases hi
  obtain ⟨htop, hlt⟩ := h i ((hbelow.below_of_ne_top hne).width_eq.trans hi)
  obtain ⟨htop', -⟩ := hg i ((hbelow'.below_of_ne_top hne).width_eq.trans hi)
  exact ⟨by rw [htop, htop', joinLocal_self], by omega⟩

end Frame

/-! ### The first frame -/

namespace MethodHead
variable {m : MethodHead}

/-- What a method is called on, as its code sees it. -/
def receiverTypes (m : MethodHead) : List VType :=
  if m.isStatic then [] else if m.isConstructor then [.uninitializedThis] else [.object m.owner]

/-- The types of parameters, as far as they have one. -/
def typesOf (params : List (List Char)) : List VType := params.filterMap fun d => (VType.ofDescriptor? d).join

/-- The values that a method starts with: its receiver and its parameters. -/
def initialValues (m : MethodHead) : List VType :=
  m.receiverTypes ++ match Descriptor.split? m.descriptor with
    | some (params, _) => typesOf params
    | none => []

theorem slotsOf_eq_ok {acc slots : List VType} {params : List (List Char)} (h : m.slotsOf acc params = .ok slots) :
    slots = acc.reverse ++ spread (typesOf params) := by
  induction params generalizing acc with
  | nil =>
    cases h
    simp [typesOf]
  | cons d rest ih =>
    obtain ⟨more, hmore, h⟩ := bind_eq_ok.mp h
    rw [ih h]
    unfold paramSlots at hmore
    split at hmore
    · cases hmore
    · cases hmore
    · rename_i t hd
      cases hmore
      have htypes : typesOf (d :: rest) = t :: typesOf rest := by simp [typesOf, hd]
      rw [htypes]
      simp [spread, VType.slots]

theorem entryFrame_def (m : MethodHead) : m.entryFrame =
    match Descriptor.split? m.descriptor with
    | none => .error (.badDescriptor m.descriptor)
    | some (params, _) => m.slotsOf m.receiverTypes params >>= fun slots => .ok { locals := slots } := rfl

theorem entryFrame_eq_ok {entry : Frame} (h : m.entryFrame = .ok entry) :
    entry = { locals := spread m.initialValues } := by
  rw [entryFrame_def] at h
  split at h
  · cases h
  · rename_i params result hd
    obtain ⟨slots, hslots, h⟩ := bind_eq_ok.mp h
    cases h
    have hreceiver : m.receiverTypes.reverse = spread m.receiverTypes := by
      unfold receiverTypes
      split
      · rfl
      · split <;> rfl
    rw [slotsOf_eq_ok hslots, initialValues, hd, spread_append, hreceiver]

theorem mem_initialValues {t : VType} (h : t ∈ m.initialValues) : t ≠ .top ∧ ∀ site, t ≠ .uninitialized site := by
  rcases List.mem_append.mp h with h | h
  · unfold receiverTypes at h
    split at h
    · cases h
    · split at h <;> cases List.mem_singleton.mp h <;> exact ⟨nofun, nofun⟩
  · split at h
    · obtain ⟨d, -, hd⟩ := List.mem_filterMap.mp h
      obtain ⟨htop, hinit⟩ := VType.ofDescriptor?_eq_some (Option.join_eq_some_iff.mp hd)
      refine ⟨htop, fun site heq => ?_⟩
      rw [heq] at hinit
      cases hinit
    · cases h

theorem compactLocals_entryFrame {entry : Frame} (h : m.entryFrame = .ok entry) :
    entry.compactLocals = m.initialValues := by
  rw [entryFrame_eq_ok h, Frame.compactLocals_eq, Frame.values_spread]
  exact trim_eq_self fun t ht => (mem_initialValues ht).1

theorem only_entryFrame {entry : Frame} {P : VType → Prop} (hP : P .top) (hall : ∀ t ∈ m.initialValues, P t)
    (h : m.entryFrame = .ok entry) : entry.Only P := by
  rw [entryFrame_eq_ok h]
  refine .of_forall_mem hP fun t ht => ?_
  rw [List.append_nil] at ht
  rcases mem_spread ht with ht | rfl
  · exact hall t ht
  · exact hP

end MethodHead

namespace Dataflow
variable {m : MethodHead} {code : Array Instr} {p : Placement} {entry : Frame} {d : Dataflow} {i : Nat} {f : Frame}

theorem paired_of_analyze (hentry : m.entryFrame = .ok entry) (h : analyze m code p entry = .ok d)
    (hf : d.frameAt i = some f) : Frame.Paired f.locals := by
  have hc : Carried m code p fun _ f => Frame.Paired f.locals :=
    ⟨fun _ _ _ _ _ _ hf ha _ => hf.apply ha, fun _ _ _ _ hf hg hj => hf.join hg hj⟩
  have hstart : Frame.Paired entry.locals := by
    rw [MethodHead.entryFrame_eq_ok hentry]
    exact Frame.paired_spread _
  have hall : Meets _ _ (analyze m code p entry) := analyze_meets hc hstart
  rw [h] at hall
  exact hall i f hf

theorem sited_of_analyze (hentry : m.entryFrame = .ok entry) (h : analyze m code p entry = .ok d)
    (hf : d.frameAt i = some f) : f.Only (VType.Sited code p) := by
  have hstart : entry.Only (VType.Sited code p) :=
    MethodHead.only_entryFrame nofun (fun t ht site heq => absurd heq ((MethodHead.mem_initialValues ht).2 site)) hentry
  have hall : Meets _ _ (analyze m code p entry) := analyze_meets carried_sited ⟨⟨[], .start⟩, hstart⟩
  rw [h] at hall
  exact (hall i f hf).2

end Dataflow

end Classwright
