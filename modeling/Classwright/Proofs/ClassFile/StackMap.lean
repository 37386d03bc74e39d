import Classwright.Proofs.ClassFile.MapDecoder
import Classwright.Proofs.ClassFile.MapEntries
import Classwright.Proofs.ClassFile.Spelling
import Mathlib.Data.List.Perm.Subperm

/-! # Stack maps tell the frames

What is read back from a stack map are the frames that were found, at the targets of live jumps and nowhere else. As
each block of code that control does not fall into starts at such a target, it starts with a frame. -/

namespace Classwright

open Assembly VType

namespace StackMap
variable {c : Code} {m : MethodHead} {p : Placement} {entry : Frame} {flow : Dataflow} {codes : List Bytes}

/-- What frames that are read say of code whose instructions have these bytes. -/
structure Describes (c : Code) (p : Placement) (flow : Dataflow) (codes : List Bytes) (frames : List MapFrame) :
    Prop where
  rising : frames.Pairwise (·.offset < ·.offset)
  /-- There are frames where live jumps go, and nowhere else. -/
  targets : ∀ offset, offset ∈ frames.map (·.offset) ↔ ∃ j, c.Targeted p flow j ∧ start codes j = offset
  /-- They are those found at the instructions that the jumps come to. -/
  states : ∀ frame ∈ frames, ∀ j, c.Targeted p flow j → start codes j = frame.offset →
    ∃ f, flow.frameAt (c.landing j) = some f ∧ frame.stack = f.stack.reverse.map (located (start codes)) ∧
      trim (spread frame.locals) = trim (f.locals.map (located (start codes)))
  /-- Objects that are not initialized go by the instructions that have made them. -/
  sites : ∀ frame ∈ frames, ∀ offset, .uninitialized offset ∈ frame.locals ++ frame.stack →
    ∃ i name, flow.isLive i = true ∧ c.instrs[i]? = some (.type .new name) ∧ start codes i = offset
  /-- Where control does not come from the instruction in front, there is a frame. -/
  blocks : ∀ k i instr instr', c.instrs[k]? = some instr → instr.fallsThrough = false → c.instrs[i]? = some instr' →
    instr'.isMark = false → flow.isLive i = true → start codes i = start codes (k + 1) →
    start codes i ∈ frames.map (·.offset)

/-! ### Where blocks start -/

/-- To what is right behind an instruction that it does not fall through, or to marks in front of that, control comes by
    a jump. -/
theorem exists_jump_behind (ht : c.Typed m p entry flow) {bytes : Bytes} (hs : Spelled c p flow bytes codes) {k : Nat}
    {instr : Instr} (hk : c.instrs[k]? = some instr) (hfalls : instr.fallsThrough = false) {i : Nat}
    (hi : flow.isLive i = true) (hlt : k < i) (heq : start codes i = start codes (k + 1)) :
    ∃ j, c.Targeted p flow j ∧ j ≤ i ∧ ∀ n, j ≤ n → n < i → ∃ l, c.instrs[n]? = some (.mark l) := by
  induction i with
  | zero => cases hlt
  | succ i ih =>
    obtain ⟨is, path⟩ := ht.isLive_iff.mp hi
    cases path with
    | @step is i' _ path hedge =>
      have hlive := ht.isLive_iff.mpr ⟨_, path⟩
      cases hedge with
      | jump hjump hl =>
        refine ⟨i + 1, ⟨i', _, _, hlive, hjump, hl⟩, Nat.le_refl _, fun n hn hn' => ?_⟩
        omega
      | @next instr' hi' hf =>
        have hne : k ≠ i := by
          rintro rfl
          rw [hk] at hi'
          cases hi'
          rw [hfalls] at hf
          cases hf
        have hlt : k < i := by omega
        have hle : start codes (k + 1) ≤ start codes i := start_le hlt
        have hle' : start codes i ≤ start codes (i + 1) := start_le (Nat.le_succ i)
        -- Anything but a mark would take space between the two instructions.
        have hmark : instr'.isMark = true := by
          by_contra hm
          have hspace := hs.start_lt hi' (Bool.not_eq_true _ ▸ hm) hlive
          omega
        obtain ⟨l, rfl⟩ := Instr.isMark_iff.mp hmark
        obtain ⟨j, htarget, hj, hmarks⟩ := ih hlive hlt (by omega)
        refine ⟨j, htarget, Nat.le_succ_of_le hj, fun n hn hn' => ?_⟩
        rcases Nat.lt_succ_iff_lt_or_eq.mp hn' with hn' | rfl
        · exact hmarks n hn hn'
        · exact ⟨l, hi'⟩

theorem exists_targeted (ht : c.Typed m p entry flow) {bytes : Bytes} (hs : Spelled c p flow bytes codes) {k i : Nat}
    {instr instr' : Instr} (hk : c.instrs[k]? = some instr) (hfalls : instr.fallsThrough = false)
    (hi : c.instrs[i]? = some instr') (hm : instr'.isMark = false) (hl : flow.isLive i = true)
    (heq : start codes i = start codes (k + 1)) : ∃ j, c.Targeted p flow j ∧ start codes j = start codes i := by
  have hlt : k < i := by
    have hspace := hs.start_lt hi hm hl
    rw [heq] at hspace
    exact Nat.lt_of_succ_lt_succ (lt_of_start_lt hspace)
  obtain ⟨j, htarget, hj, hmarks⟩ := exists_jump_behind ht hs hk hfalls hl hlt heq
  have hleads : Leads c.instrs j i := ⟨hj, hmarks, instr', hi, hm⟩
  exact ⟨j, htarget, by rw [← hs.start_landing j, hleads.landing_eq]⟩

/-! ### What is read -/

/-- Jumps to one offset come to one instruction. -/
theorem landing_eq_landing (ht : c.Typed m p entry flow) {bytes : Bytes} (hs : Spelled c p flow bytes codes)
    {j j' : Nat} (hj : c.Targeted p flow j) (hj' : c.Targeted p flow j') (heq : start codes j = start codes j') :
    c.landing j = c.landing j' := by
  obtain ⟨f, hf, hleads⟩ := hj.exists_landing ht
  obtain ⟨f', hf', hleads'⟩ := hj'.exists_landing ht
  obtain ⟨instr, hi, hm⟩ := hleads.stops
  obtain ⟨instr', hi', hm'⟩ := hleads'.stops
  have hlive : flow.isLive (c.landing j) = true := Option.isSome_iff_exists.mpr ⟨f, hf⟩
  have hlive' : flow.isLive (c.landing j') = true := Option.isSome_iff_exists.mpr ⟨f', hf'⟩
  exact hs.start_injective hi hi' hm hm' hlive hlive' (by rw [hs.start_landing, hs.start_landing, heq])

/-- Entries at the targets of live jumps, with the frames that were found there. -/
structure Placed (c : Code) (p : Placement) (flow : Dataflow) (codes : List Bytes) (es : List Entry) : Prop where
  rising : es.Pairwise (·.offset < ·.offset)
  targeted : ∀ e ∈ es, ∃ j, c.Targeted p flow j ∧ start codes j = e.offset ∧ flow.frameAt (c.landing j) = some e.frame
  covers : ∀ j, c.Targeted p flow j → ∃ e ∈ es, e.offset = start codes j

theorem placed_entries (ht : c.Typed m p entry flow) {bytes : Bytes} (hs : Spelled c p flow bytes codes)
    {offsets : Array Nat} (hoffsets : ∀ i < c.instrs.size, offsets.getD i 0 = start codes i) :
    Placed c p flow codes (entries c.instrs p flow offsets) := by
  have hat {j : Nat} (h : c.Targeted p flow j) : offsets.getD (c.landing j) 0 = start codes j := by
    obtain ⟨f, -, hleads⟩ := h.exists_landing ht
    obtain ⟨instr, hi, -⟩ := hleads.stops
    rw [hoffsets _ (Array.getElem?_eq_some_iff.mp hi).1, hs.start_landing]
  refine ⟨entries_cases.1, fun e he => ?_, fun j hj => ?_⟩
  · obtain ⟨j, hj, hoffset, hframe⟩ := mem_entries ht he
    exact ⟨j, hj, by rw [hoffset, hat hj], hframe⟩
  · obtain ⟨e, he, hoffset⟩ := exists_mem_entries ht hj
    exact ⟨e, he, hoffset.trans (hat hj)⟩

namespace Placed
variable {es : List Entry}

/-- There is code behind each offset, so it is less than the length. -/
theorem offset_lt (h : Placed c p flow codes es) (ht : c.Typed m p entry flow) {bytes : Bytes}
    (hs : Spelled c p flow bytes codes) {e : Entry} (he : e ∈ es) : e.offset < bytes.length := by
  obtain ⟨j, hj, hoffset, hframe⟩ := h.targeted e he
  obtain ⟨f, hf, hleads⟩ := hj.exists_landing ht
  obtain ⟨instr, hi, hm⟩ := hleads.stops
  have hspace := hs.start_lt hi hm (Option.isSome_iff_exists.mpr ⟨f, hf⟩)
  rw [hs.start_landing, hoffset] at hspace
  rw [hs.flatten]
  exact Nat.lt_of_lt_of_le hspace start_le_length

theorem length_le (h : Placed c p flow codes es) {bound : Nat} (hlt : ∀ e ∈ es, e.offset < bound) :
    es.length ≤ bound := by
  have hnodup : (es.map (·.offset)).Nodup := List.pairwise_map.mpr (h.rising.imp Nat.ne_of_lt)
  have hsubset : es.map (·.offset) ⊆ List.range bound := fun offset hoffset => by
    obtain ⟨e, he, rfl⟩ := List.mem_map.mp hoffset
    exact List.mem_range.mpr (hlt e he)
  simpa using (List.subperm_of_subset hnodup hsubset).length_le

theorem describes (h : Placed c p flow codes es) (ht : c.Typed m p entry flow) {bytes : Bytes}
    (hs : Spelled c p flow bytes codes) : Describes c p flow codes (es.map (Entry.read (start codes))) := by
  have htargets (offset : Nat) : offset ∈ (es.map (Entry.read (start codes))).map (·.offset) ↔
      ∃ j, c.Targeted p flow j ∧ start codes j = offset := by
    rw [List.map_map, List.mem_map]
    constructor
    · rintro ⟨e, he, rfl⟩
      obtain ⟨j, hj, hoffset, -⟩ := h.targeted e he
      exact ⟨j, hj, hoffset⟩
    · rintro ⟨j, hj, rfl⟩
      exact h.covers j hj
  refine ⟨List.pairwise_map.mpr h.rising, htargets, ?_, ?_, ?_⟩
  · intro frame hframe j hj hoffset
    obtain ⟨e, he, rfl⟩ := List.mem_map.mp hframe
    obtain ⟨j', hj', hoffset', hf⟩ := h.targeted e he
    rw [← landing_eq_landing ht hs hj hj' (hoffset.trans hoffset'.symm)] at hf
    refine ⟨e.frame, hf, rfl, ?_⟩
    have hpaired := Dataflow.paired_of_analyze ht.entered ht.analyzed hf
    rw [trim_map_located, ← Frame.trim_spread_compactLocals hpaired, ← trim_map_located, ← spread_map_located]
    rfl
  · intro frame hframe offset hmem
    obtain ⟨e, he, rfl⟩ := List.mem_map.mp hframe
    obtain ⟨j, -, -, hf⟩ := h.targeted e he
    have hsited := Dataflow.sited_of_analyze ht.entered ht.analyzed hf
    obtain ⟨t, htype, hlocated⟩ : ∃ t ∈ e.frame.compactLocals ++ e.frame.stack,
        t.located (start codes) = .uninitialized offset := by
      simpa [Entry.read, or_and_right, exists_or] using hmem
    obtain ⟨site, rfl, rfl⟩ := located_eq_uninitialized hlocated
    obtain ⟨is, name, path, hnew⟩ := hsited.mem htype site rfl
    exact ⟨site, name, ht.isLive_iff.mpr ⟨is, path⟩, hnew, rfl⟩
  · intro k i instr instr' hk hfalls hi hm hl heq
    exact (htargets _).mpr (exists_targeted ht hs hk hfalls hi hm hl heq)

/-- Laid-out code has room for all offsets that the entries refer to. -/
theorem fits (h : Placed c p flow codes es) (ht : c.Typed m p entry flow) {bytes : Bytes}
    (hs : Spelled c p flow bytes codes) {offsets : Array Nat}
    (hoffsets : ∀ i < c.instrs.size, offsets.getD i 0 = start codes i) (hlength : bytes.length ≤ 65535)
    (hframes : ∀ i f, flow.frameAt i = some f → f.stackWords < 65536 ∧ f.locals.length < 65536) {e : Entry}
    (he : e ∈ es) : (e.offset < 65536 ∧ Decoder.Fits (offsets.getD · 0) e.frame) ∧
      e.read (offsets.getD · 0) = e.read (start codes) := by
  obtain ⟨j, -, -, hf⟩ := h.targeted e he
  obtain ⟨hstack, hlocals⟩ := hframes _ _ hf
  have hsites : ∀ t ∈ e.frame.compactLocals ++ e.frame.stack, ∀ site, t = .uninitialized site →
      offsets.getD site 0 = start codes site := fun t hmem site heq => by
    have hsited := Dataflow.sited_of_analyze ht.entered ht.analyzed hf
    obtain ⟨is, name, -, hnew⟩ := hsited.mem hmem site heq
    exact hoffsets site (Array.getElem?_eq_some_iff.mp hnew).1
  have hoffset := h.offset_lt ht hs he
  refine ⟨⟨by omega, hlocals, Nat.lt_of_le_of_lt e.frame.length_stack_le hstack, ?_⟩, Entry.read_congr hsites⟩
  intro t hmem site heq
  have hstart : start codes site ≤ codes.flatten.length := start_le_length
  rw [← hs.flatten] at hstart
  have hsite := hsites t hmem site heq
  change offsets.getD site 0 < 65536
  omega

end Placed

end StackMap

open StackMap

/-- The stack map of a method is read back by the pool that is left, from the values that the method starts with: as
    many frames as it says, and no bytes are left over. They describe the code as its bytes are laid out. -/
theorem decode_stackMap {c : Code} {m : MethodHead} {requests : List PoolRequest} {a : Assembled} {b : PoolBuilder}
    (h : (c.assemble m true).on (.after requests) = (.ok a, b))
    (hframes : ∀ p entry flow, c.Typed m p entry flow →
      ∀ i f, flow.frameAt i = some f → f.stackWords < 65536 ∧ f.locals.length < 65536) :
    ∃ p entry flow codes frames, c.Typed m p entry flow ∧ Spelled c p flow a.code codes ∧
      decodeStackMap b.pool m.initialValues a.frameCount.toNat a.stackMap = some frames ∧
      frames.length = a.frameCount.toNat ∧ Describes c p flow codes frames := by
  have hsound : b.Sound := by
    have hsound := (c.assemble_interns m true).sound (PoolBuilder.sound_after requests)
    rwa [h] at hsound
  obtain ⟨p, entry, flow, offsets, size, b₁, b₂, parts⟩ := Code.exists_parts h
  obtain ⟨codes, hs, rfl, hoffsets⟩ := parts.getD_offsets
  have ht : c.Typed m p entry flow := ⟨parts.placed, parts.entered, parts.typed⟩
  have hmapped := parts.mapped
  have hcounted := parts.counted
  rw [if_pos rfl] at hmapped hcounted
  have hplaced := placed_entries ht hs hoffsets
  generalize entries c.instrs p flow offsets = es at hmapped hcounted hplaced
  have hfits {e : StackMap.Entry} (he : e ∈ es) :=
    hplaced.fits ht hs hoffsets parts.size_le (hframes p entry flow ht) he
  have hcount : a.frameCount.toNat = es.length := by
    have hlength := hplaced.length_le fun e he => hplaced.offset_lt ht hs he
    have hsize := parts.size_le
    rw [hcounted, Nat.toUInt16_eq, UInt16.toNat_ofNat', Nat.mod_eq_of_lt (by omega)]
  obtain ⟨bytes, hbytes, hreads⟩ :=
    Decoder.reads_entries hsound hplaced.rising (by simp) (fun e he => (hfits he).1) hmapped (.refl _)
  have hinitial : m.initialValues.map (located (offsets.getD · 0)) = m.initialValues :=
    map_located_eq_self fun t ht => (MethodHead.mem_initialValues ht).2
  rw [MethodHead.compactLocals_entryFrame ht.entered, hinitial, List.map_congr_left fun e he => (hfits he).2,
    ← hcount] at hreads
  have hread := hreads []
  rw [List.append_nil] at hread
  have hdecode : decodeStackMap b.pool m.initialValues a.frameCount.toNat a.stackMap =
      some (es.map (StackMap.Entry.read (start codes))) := by
    rw [decodeStackMap, hbytes, List.reverse_nil, List.flatten_nil, List.nil_append, hread]
  exact ⟨p, entry, flow, codes, _, ht, hs, hdecode, by rw [List.length_map, hcount], hplaced.describes ht hs⟩

/-- Chooses a number for an object while it is not initialized, with an instruction that control cannot come to. -/
def choice : Code :=
  ⟨#[.type .new "demo/Box", .op .dup, .load .int 0, .jump .ifeq ⟨0⟩, .int 1,
    .invoke .invokespecial ⟨"demo/Box", "<init>", "(I)V", false⟩, .op .areturn, .int 7, .mark ⟨0⟩, .int 2,
    .invoke .invokespecial ⟨"demo/Box", "<init>", "(I)V", false⟩, .op .areturn], 1⟩

def choiceHead : MethodHead := ⟨"demo/Boxes", "choice", "(IJ)Ldemo/Box;", true⟩

theorem choice_frames_fit {p : Placement} {entry : Frame} {flow : Dataflow} (h : choice.Typed choiceHead p entry flow)
    {i : Nat} {f : Frame} (hf : flow.frameAt i = some f) : f.stackWords < 65536 ∧ f.locals.length < 65536 := by
  obtain ⟨hp, hentry, hflow⟩ := h
  have hplaced : choice.placement = .ok ⟨#[some 8]⟩ := rfl
  have hentered : choiceHead.entryFrame = .ok { locals := [.integer, .long, .top] } := by decide +kernel
  rw [hplaced] at hp
  rw [hentered] at hentry
  cases hp
  cases hentry
  have hfits : ((Dataflow.analyze choiceHead choice.instrs ⟨#[some 8]⟩ { locals := [.integer, .long, .top] }).map
      fun flow => flow.frames.toList.all fun f => f.all fun f =>
        f.stackWords < 65536 && f.locals.length < 65536).toOption = some true := by
    decide +kernel
  rw [hflow] at hfits
  have hmem : some f ∈ flow.frames.toList :=
    Array.mem_toList_iff.mpr (Array.mem_of_getElem? (Option.join_eq_some_iff.mp hf))
  have hf := List.all_eq_true.mp (Option.some.inj hfits) _ hmem
  simpa using hf

theorem decode_stackMap_choice :
    ∃ a b p entry flow codes frames, (choice.assemble choiceHead true).on (.after []) = (.ok a, b) ∧
      (∀ p entry flow, choice.Typed choiceHead p entry flow →
        ∀ i f, flow.frameAt i = some f → f.stackWords < 65536 ∧ f.locals.length < 65536) ∧
      choice.Typed choiceHead p entry flow ∧ Spelled choice p flow a.code codes ∧
      decodeStackMap b.pool choiceHead.initialValues a.frameCount.toNat a.stackMap = some frames ∧
      frames.length = a.frameCount.toNat ∧ Describes choice p flow codes frames := by
  have hok : ((choice.assemble choiceHead true).on (.after [])).1.toBool = true := by decide +kernel
  cases h : (choice.assemble choiceHead true).on (.after []) with
  | mk r b =>
    rw [h] at hok
    cases r with
    | error e => cases hok
    | ok a =>
      have hfits : ∀ p entry flow, choice.Typed choiceHead p entry flow →
          ∀ i f, flow.frameAt i = some f → f.stackWords < 65536 ∧ f.locals.length < 65536 :=
        fun _ _ _ ht _ _ => choice_frames_fit ht
      obtain ⟨p, entry, flow, codes, frames, hread⟩ := decode_stackMap h hfits
      exact ⟨a, b, p, entry, flow, codes, frames, rfl, hfits, hread⟩

-- The objects go by the offset of the instruction that has made them.
example : (match (choice.assemble choiceHead true).on (.after []) with
    | (.ok a, b) => decodeStackMap b.pool choiceHead.initialValues a.frameCount.toNat a.stackMap
    | _ => none) = some [⟨13, [.integer, .long], [.uninitialized 0, .uninitialized 0]⟩] := by
  decide +kernel

end Classwright
