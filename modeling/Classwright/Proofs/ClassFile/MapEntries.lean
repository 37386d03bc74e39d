import Classwright.Proofs.ClassFile.Disassembly

/-! # Where stack maps have frames

There is one frame for each offset that a live jump goes to, in the order of the offsets. -/

namespace Classwright

namespace StackMap

variable {code : Array Instr} {p : Placement} {flow : Dataflow} {offsets : Array Nat}

/-! ### Marks -/

/-- Only marks stand between two indices, and none at the second. -/
structure Leads (code : Array Instr) (i j : Nat) : Prop where
  le : i ≤ j
  marks : ∀ k, i ≤ k → k < j → ∃ l, code[k]? = some (.mark l)
  stops : ∃ instr, code[j]? = some instr ∧ instr.isMark = false

theorem skipMarks_eq {fuel i j : Nat} (h : Leads code i j) (hfuel : j - i ≤ fuel) : skipMarks code fuel i = j := by
  induction fuel generalizing i with
  | zero =>
    have hle := h.le
    rw [skipMarks]
    omega
  | succ fuel ih =>
    obtain ⟨instr, hj, hstop⟩ := h.stops
    rw [skipMarks]
    by_cases heq : i = j
    · subst heq
      rw [hj]
      cases instr with
      | mark l => cases hstop
      | _ => rfl
    · have hlt := Nat.lt_of_le_of_ne h.le heq
      obtain ⟨l, hl⟩ := h.marks i (Nat.le_refl i) hlt
      have hsize := (Array.getElem?_eq_some_iff.mp hj).1
      rw [hl]
      dsimp only
      rw [if_pos (Nat.lt_of_le_of_lt hlt hsize)]
      exact ih ⟨hlt, fun k hk => h.marks k (Nat.le_of_succ_le hk), h.stops⟩ (by omega)

/-! ### One frame for each offset -/

theorem collect_eq (acc : List Entry) (index : Nat) (instrs : List Instr) :
    collect code p flow offsets acc index instrs =
      acc.reverse ++ (instrs.zipIdx index).filterMap fun (instr, i) => entryOf? code p flow offsets i instr := by
  induction instrs generalizing acc index with
  | nil => simp [collect]
  | cons instr instrs ih =>
    rw [collect]
    split
    · rename_i e he
      rw [ih]
      simp [he]
    · rename_i he
      rw [ih]
      simp [he]

theorem mem_collect {e : Entry} : e ∈ collect code p flow offsets [] 0 code.toList ↔
    ∃ i instr, code[i]? = some instr ∧ entryOf? code p flow offsets i instr = some e := by
  simp only [collect_eq, List.reverse_nil, List.nil_append, List.mem_filterMap, Prod.exists, List.mem_zipIdx_iff_getElem?,
    Array.getElem?_toList]
  exact exists_comm

/-- Of entries in order, the first at each offset is kept. -/
theorem exists_dedup (acc : List Entry) {last : Entry} {es : List Entry}
    (h : (last :: es).Pairwise (·.offset ≤ ·.offset)) : ∃ kept, dedup (last :: acc) es = acc.reverse ++ last :: kept ∧
      (last :: kept).Pairwise (·.offset < ·.offset) ∧ kept ⊆ es ∧
      ∀ e ∈ es, ∃ e' ∈ last :: kept, e'.offset = e.offset := by
  induction es generalizing acc last with
  | nil => exact ⟨[], by simp [dedup], by simp, List.nil_subset _, nofun⟩
  | cons e es ih =>
    obtain ⟨hlast, hes⟩ := List.pairwise_cons.mp h
    rw [dedup]
    split
    · rename_i heq
      have hsub := List.pairwise_cons.mpr ⟨fun x hx => hlast x (List.mem_cons_of_mem e hx), (List.pairwise_cons.mp hes).2⟩
      obtain ⟨kept, hdedup, hsorted, hsubset, hfound⟩ := ih acc hsub
      refine ⟨kept, hdedup, hsorted, List.subset_cons_of_subset e hsubset, List.forall_mem_cons.mpr ⟨?_, hfound⟩⟩
      exact ⟨last, List.mem_cons_self, heq⟩
    · rename_i hne
      obtain ⟨kept, hdedup, hsorted, hsubset, hfound⟩ := ih (last :: acc) hes
      have hlt : last.offset < e.offset := Nat.lt_of_le_of_ne (hlast e List.mem_cons_self) hne
      refine ⟨e :: kept, by simp [hdedup], List.pairwise_cons.mpr ⟨?_, hsorted⟩, ?_, List.forall_mem_cons.mpr ⟨?_, ?_⟩⟩
      · refine List.forall_mem_cons.mpr ⟨hlt, fun x hx => Nat.lt_trans hlt ?_⟩
        exact (List.pairwise_cons.mp hsorted).1 x hx
      · exact List.cons_subset_cons e hsubset
      · exact ⟨e, List.mem_cons_of_mem last List.mem_cons_self, rfl⟩
      · intro x hx
        obtain ⟨x', hx', heq⟩ := hfound x hx
        exact ⟨x', List.mem_cons_of_mem last hx', heq⟩

theorem dedup_cases {es : List Entry} (h : es.Pairwise (·.offset ≤ ·.offset)) :
    (dedup [] es).Pairwise (·.offset < ·.offset) ∧ dedup [] es ⊆ es ∧
      ∀ e ∈ es, ∃ e' ∈ dedup [] es, e'.offset = e.offset := by
  cases es with
  | nil => exact ⟨.nil, List.nil_subset _, nofun⟩
  | cons first rest =>
    obtain ⟨kept, hdedup, hsorted, hsubset, hfound⟩ := exists_dedup [] h
    have heq : dedup [] (first :: rest) = first :: kept := hdedup
    rw [heq]
    refine ⟨hsorted, List.cons_subset_cons first hsubset, List.forall_mem_cons.mpr ⟨?_, hfound⟩⟩
    exact ⟨first, List.mem_cons_self, rfl⟩

/-- The entries rise, they are among those that jumps need, and each of these has one at its offset. -/
theorem entries_cases : (entries code p flow offsets).Pairwise (·.offset < ·.offset) ∧
    (∀ e ∈ entries code p flow offsets, ∃ i instr, code[i]? = some instr ∧
      entryOf? code p flow offsets i instr = some e) ∧
    ∀ i instr e, code[i]? = some instr → entryOf? code p flow offsets i instr = some e →
      ∃ e' ∈ entries code p flow offsets, e'.offset = e.offset := by
  have hsorted : ((collect code p flow offsets [] 0 code.toList).mergeSort fun a b => a.offset ≤ b.offset).Pairwise
      fun a b => decide (a.offset ≤ b.offset) = true :=
    List.pairwise_mergeSort (by grind) (by grind) _
  obtain ⟨hrises, hsubset, hfound⟩ := dedup_cases (hsorted.imp of_decide_eq_true)
  refine ⟨hrises, fun e he => ?_, fun i instr e hi he => ?_⟩
  · exact mem_collect.mp (List.mem_mergeSort.mp (hsubset he))
  · exact hfound e (List.mem_mergeSort.mpr (mem_collect.mpr ⟨i, instr, hi, he⟩))

end StackMap

/-! ### Live jumps -/

namespace Code
variable {c : Code} {m : MethodHead} {p : Placement} {entry : Frame} {flow : Dataflow} {offsets : Array Nat} {i j : Nat}

/-- What is found about the instructions of a method: where labels are, and the frames. -/
structure Typed (c : Code) (m : MethodHead) (p : Placement) (entry : Frame) (flow : Dataflow) : Prop where
  placed : c.placement = .ok p
  entered : m.entryFrame = .ok entry
  analyzed : Dataflow.analyze m c.instrs p entry = .ok flow

namespace Typed

theorem isLive_iff (h : c.Typed m p entry flow) : flow.isLive i = true ↔ ∃ is, Path c.instrs p is i :=
  Dataflow.isLive_iff (c.position?_lt h.placed) h.analyzed i

theorem exists_instr (h : c.Typed m p entry flow) {f : Frame} (hf : flow.frameAt i = some f) :
    ∃ instr, c.instrs[i]? = some instr := by
  have fix := Dataflow.analyze_fixpoint (c.position?_lt h.placed) h.analyzed
  obtain ⟨instr, _, hi, -⟩ := fix.fits i f hf
  exact ⟨instr, hi⟩

end Typed

/-- A live jump goes to the mark at `j`. -/
def Targeted (c : Code) (p : Placement) (flow : Dataflow) (j : Nat) : Prop :=
  ∃ i op l, flow.isLive i = true ∧ c.instrs[i]? = some (.jump op l) ∧ p.position? l = some j

/-- A live jump comes to an instruction that is no mark. -/
theorem Targeted.exists_landing (h : c.Targeted p flow j) (ht : c.Typed m p entry flow) :
    ∃ f, flow.frameAt (c.landing j) = some f ∧ StackMap.Leads c.instrs j (c.landing j) := by
  obtain ⟨i, op, l, hlive, hi, hl⟩ := h
  obtain ⟨is, path⟩ := ht.isLive_iff.mp hlive
  have hland := ht.isLive_iff.mpr (path_landing (path.step (.jump hi hl)))
  obtain ⟨f, hf⟩ := Option.isSome_iff_exists.mp hland
  obtain ⟨instr, hinstr⟩ := ht.exists_instr hf
  exact ⟨f, hf, Nat.le_add_right _ _, fun k => mark_of_lt_landing, instr, hinstr, isMark_landing hinstr⟩

end Code

namespace StackMap
variable {c : Code} {m : MethodHead} {p : Placement} {entry : Frame} {flow : Dataflow} {offsets : Array Nat} {i j : Nat}

theorem Leads.landing_eq (h : Leads c.instrs i j) : c.landing i = j := by
  obtain ⟨instr, hj, hstop⟩ := h.stops
  rcases Nat.lt_trichotomy (c.landing i) j with hlt | heq | hgt
  · obtain ⟨l, hl⟩ := h.marks _ (Nat.le_add_right _ _) hlt
    cases Code.isMark_landing hl
  · exact heq
  · obtain ⟨l, hl⟩ := Code.mark_of_lt_landing h.le hgt
    rw [hj] at hl
    cases hl
    cases hstop

/-- The entry for a live jump is where the jump comes to. -/
theorem entryOf?_eq (ht : c.Typed m p entry flow) {op : Opcode} {l : Label} (hi : c.instrs[i]? = some (.jump op l))
    (hlive : flow.isLive i = true) (hl : p.position? l = some j) :
    entryOf? c.instrs p flow offsets i (.jump op l) =
      (flow.frameAt (c.landing j)).map fun frame => ⟨offsets.getD (c.landing j) 0, frame⟩ := by
  obtain ⟨f, -, hleads⟩ := Code.Targeted.exists_landing ⟨i, op, l, hlive, hi, hl⟩ ht
  obtain ⟨instr, hstop, -⟩ := hleads.stops
  have hlt := (Array.getElem?_eq_some_iff.mp hstop).1
  have hskip : skipMarks c.instrs c.instrs.size j = c.landing j := skipMarks_eq hleads (by omega)
  rw [entryOf?, if_pos hlive, hl, Option.bind_some, hskip]

theorem mem_entries (ht : c.Typed m p entry flow) {e : Entry} (he : e ∈ entries c.instrs p flow offsets) :
    ∃ j, c.Targeted p flow j ∧ e.offset = offsets.getD (c.landing j) 0 ∧ flow.frameAt (c.landing j) = some e.frame := by
  obtain ⟨i, instr, hi, he⟩ := entries_cases.2.1 e he
  unfold entryOf? at he
  split at he
  · rename_i op l
    have hlive : flow.isLive i = true := by
      by_contra hdead
      rw [if_neg hdead] at he
      cases he
    obtain ⟨j, hl⟩ := c.exists_position? ht.placed hi
    have heq : entryOf? c.instrs p flow offsets i (.jump op l) = some e := he
    rw [entryOf?_eq ht hi hlive hl] at heq
    obtain ⟨f, hf, rfl⟩ := Option.map_eq_some_iff.mp heq
    exact ⟨j, ⟨i, op, l, hlive, hi, hl⟩, rfl, hf⟩
  · cases he

theorem exists_mem_entries (ht : c.Typed m p entry flow) (h : c.Targeted p flow j) :
    ∃ e ∈ entries c.instrs p flow offsets, e.offset = offsets.getD (c.landing j) 0 := by
  obtain ⟨f, hf, -⟩ := h.exists_landing ht
  obtain ⟨i, op, l, hlive, hi, hl⟩ := h
  have heq : entryOf? c.instrs p flow offsets i (.jump op l) = _ := entryOf?_eq ht hi hlive hl
  rw [hf, Option.map_some] at heq
  exact entries_cases.2.2 i _ _ hi heq

end StackMap

end Classwright
