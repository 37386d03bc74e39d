import Classwright.Proofs.ClassFile.Layout
import Classwright.Proofs.Frames.Stored

/-! # Assembled code is read back

Reading the bytes of a method gives its instructions: those that control can come to, without marks, in their order.
Each branch goes to the first instruction behind the mark of its label. -/

namespace Classwright

/-- Instructions with their indices, the first of which is `index`, as they should be read: the live ones, each with its
    offset. -/
def listing (live : Nat → Bool) (at_ : Nat → Nat) (offset : Label → Nat) (index : Nat) (instrs : List Instr) :
    List (Nat × Decoded) :=
  (instrs.zipIdx index).filterMap fun (instr, i) => if live i then (instr.decoded? offset).map (at_ i, ·) else none

section Listing
variable {live : Nat → Bool} {at_ : Nat → Nat} {offset : Label → Nat} {index : Nat} {instr : Instr}
  {instrs : List Instr}

theorem listing_dead (h : live index = false) :
    listing live at_ offset index (instr :: instrs) = listing live at_ offset (index + 1) instrs := by
  simp [listing, h]

theorem listing_mark (h : instr.decoded? offset = none) :
    listing live at_ offset index (instr :: instrs) = listing live at_ offset (index + 1) instrs := by
  simp [listing, h]

theorem listing_live (h : live index = true) {d : Decoded} (hd : instr.decoded? offset = some d) :
    listing live at_ offset index (instr :: instrs) = (at_ index, d) :: listing live at_ offset (index + 1) instrs := by
  simp [listing, h, hd]

end Listing

namespace Decoder

theorem instructions_append {pool : ConstantPool} {pc fuel : Nat} {bytes rest : Bytes} {d : Decoded}
    {ds : List (Nat × Decoded)} (h : Reads (instruction pool pc) bytes d)
    (hrest : ∀ fuel, rest.length ≤ fuel → instructions pool fuel (pc + bytes.length) rest = some ds)
    (hfuel : (bytes ++ rest).length ≤ fuel) :
    instructions pool fuel pc (bytes ++ rest) = some ((pc, d) :: ds) := by
  have hne : bytes ≠ [] := by
    rintro rfl
    cases h []
  obtain ⟨b, bytes, rfl⟩ := List.exists_cons_of_ne_nil hne
  rw [List.length_append, List.length_cons] at hfuel
  obtain ⟨fuel, rfl⟩ : ∃ k, fuel = k + 1 := ⟨fuel - 1, by omega⟩
  have hlen : (b :: bytes ++ rest).length - rest.length = (b :: bytes).length := by
    rw [List.length_append, Nat.add_sub_cancel]
  rw [List.cons_append, instructions, ← List.cons_append, h rest]
  dsimp only [Option.bind_eq_bind, Option.bind_some]
  rw [hlen, hrest fuel (by omega)]
  rfl

end Decoder

open Decoder Assembly PoolM

variable {flow : Dataflow} {before after final : PoolBuilder} {index pc fuel : Nat} {instrs : List Instr} {codes : List Bytes}
  {target : Label → Except FormatError Nat} {offsets : Array Nat} {offset : Label → Nat}

theorem getElem?_of_drop {α : Type} {xs ys : List α} {i : Nat} {x : α} (h : xs.drop i = x :: ys) :
    xs[i]? = some x ∧ xs.drop (i + 1) = ys := by
  have hhead : (xs.drop i)[0]? = some x := by rw [h]; rfl
  rw [List.getElem?_drop, Nat.add_zero] at hhead
  rw [← List.tail_drop, h]
  exact ⟨hhead, rfl⟩

theorem encode_mark {instr : Instr} (h : instr.decoded? offset = none) {pc : Nat} {bytes : Bytes} {b b' : PoolBuilder}
    (he : (instr.encode pc target).on b = (.ok bytes, b')) : bytes = [] := by
  cases instr with
  | mark l =>
    cases he
    rfl
  | invoke o m =>
    rw [Instr.decoded?] at h
    split at h <;> cases h
  | _ => cases h

/-- Instructions that have been typed are read from their bytes: those in `instrs`, which stand in `code` from `index`
    on and have their offsets from `pc` on. -/
theorem instructions_coded {code : List Instr} {at_ : Nat → Nat} (hs : final.Sound) (hgrows : after.Grows final)
    (hoffset : ∀ l t, target l = .ok t → offset l = t)
    (htyped : ∀ i instr, code[i]? = some instr → flow.isLive i = true →
      instr.Proper ∧ ∃ m c k f g, Frame.apply m c k f instr = .ok g)
    (hat : ∀ i < code.length, offsets.toList[i]? = some (at_ i))
    (hc : Coded flow target offsets before after index instrs codes) (hcode : code.drop index = instrs)
    (hpc : offsets.toList.drop index = offsetsFrom pc (codes.map List.length)) (hfuel : codes.flatten.length ≤ fuel) :
    instructions final.pool fuel pc codes.flatten = some (listing flow.isLive at_ offset index instrs) := by
  induction hc generalizing pc fuel with
  | nil => rw [List.flatten_nil, instructions]; rfl
  | @live index bytes instr instrs codes b b' hl hb he hg _ ih =>
    obtain ⟨hi, hcode⟩ := getElem?_of_drop hcode
    obtain ⟨hpc, hrest⟩ := getElem?_of_drop hpc
    obtain ⟨hproper, m, c, k, f, g, ha⟩ := htyped index instr hi hl
    rw [Array.getD_eq_getD_getElem?, ← Array.getElem?_toList, hpc, Option.getD_some] at he
    cases hd : instr.decoded? offset with
    | none =>
      obtain rfl := encode_mark hd he
      rw [listing_mark hd]
      exact ih hcode hrest hfuel
    | some d =>
      have hread := reads_encode hproper ha he hs (hg.trans hgrows) hoffset hd
      rw [hat index (List.getElem?_eq_some_iff.mp hi).1, Option.some.injEq] at hpc
      rw [listing_live hl hd, List.flatten_cons, hpc]
      exact instructions_append hread (fun fuel hfuel => ih hcode hrest hfuel) hfuel
  | @dead index instr instrs codes hl _ ih =>
    obtain ⟨-, hcode⟩ := getElem?_of_drop hcode
    obtain ⟨-, hrest⟩ := getElem?_of_drop hpc
    rw [listing_dead hl]
    exact ih hcode hrest hfuel

/-! ### Where branches land -/

theorem Instr.isMark_iff {instr : Instr} : instr.isMark = true ↔ ∃ l, instr = .mark l := by
  cases instr <;> simp [isMark]

namespace Code
variable {c : Code} {p : Placement} {j k : Nat}

/-- The first instruction from `j` on that is no mark. -/
def landing (c : Code) (j : Nat) : Nat := j + (c.instrs.toList.drop j).findIdx (!·.isMark)

theorem mark_of_lt_landing (hj : j ≤ k) (hk : k < c.landing j) : ∃ l, c.instrs[k]? = some (.mark l) := by
  have h : k - j < (c.instrs.toList.drop j).findIdx (!·.isMark) := by unfold landing at hk; omega
  have hlt := Nat.lt_of_lt_of_le h List.findIdx_le_length
  have hmark := List.not_of_lt_findIdx h
  rw [Bool.not_eq_false', Instr.isMark_iff] at hmark
  obtain ⟨l, hl⟩ := hmark
  have hget := List.getElem?_eq_getElem hlt
  rw [hl, List.getElem?_drop, Nat.add_sub_cancel' hj, Array.getElem?_toList] at hget
  exact ⟨l, hget⟩

theorem isMark_landing {instr : Instr} (h : c.instrs[c.landing j]? = some instr) : instr.isMark = false := by
  unfold landing at h
  rw [← Array.getElem?_toList, ← List.getElem?_drop] at h
  obtain ⟨hlt, rfl⟩ := List.getElem?_eq_some_iff.mp h
  simpa using List.findIdx_getElem (w := hlt)

/-- Control that comes to a mark goes on to the first instruction behind it. -/
theorem path_landing {is : List Nat} (h : Path c.instrs p is j) : ∃ is', Path c.instrs p is' (c.landing j) := by
  suffices hpath : ∀ n, j + n ≤ c.landing j → ∃ is', Path c.instrs p is' (j + n) by
    obtain ⟨is', h'⟩ := hpath _ (Nat.le_refl _)
    exact ⟨is', h'⟩
  intro n hn
  induction n with
  | zero => exact ⟨is, h⟩
  | succ n ih =>
    obtain ⟨is', h'⟩ := ih (by omega)
    obtain ⟨l, hl⟩ := mark_of_lt_landing (Nat.le_add_right j n) hn
    exact ⟨_, h'.step (.next hl rfl)⟩

end Code

theorem Assembly.Sized.sum_landing {b : PoolBuilder} {c : Code} {sizes : List Nat} {j : Nat}
    (h : Sized flow b 0 c.instrs.toList sizes) :
    (sizes.take (c.landing j)).sum = (sizes.take j).sum := by
  suffices hsum : ∀ n, j + n ≤ c.landing j → (sizes.take (j + n)).sum = (sizes.take j).sum from
    hsum _ (Nat.le_refl _)
  intro n hn
  induction n with
  | zero => rfl
  | succ n ih =>
    obtain ⟨l, hl⟩ := Code.mark_of_lt_landing (Nat.le_add_right j n) hn
    rw [← Array.getElem?_toList] at hl
    rw [← Nat.add_assoc, List.take_add_one, h.mark hl, List.sum_append, ih (by omega)]
    rfl

/-- Code that has been assembled is read back, by the pool that it leaves: the instructions that control can come to,
    without marks, in their order and up to the end of the bytes. A branch goes to the first instruction behind its label
    that is no mark. -/
theorem decode_assembled {c : Code} {m : MethodHead} {stackMaps : Bool} {requests : List PoolRequest} {a : Assembled}
    {b : PoolBuilder} (hproper : ∀ instr ∈ c.instrs, instr.Proper)
    (h : (c.assemble m stackMaps).on (.after requests) = (.ok a, b)) :
    ∃ (p : Placement) (live : Nat → Bool) (at_ : Nat → Nat), c.placement = .ok p ∧
      (∀ i, live i = true ↔ ∃ is, Path c.instrs p is i) ∧
      decode b.pool a.code =
        some (listing live at_ (fun l => at_ (c.landing ((p.position? l).getD 0))) 0 c.instrs.toList) ∧
      ∀ i op l, live i = true → c.instrs[i]? = some (.jump op l) → ∃ j instr, p.position? l = some j ∧
        live (c.landing j) = true ∧ c.instrs[c.landing j]? = some instr ∧ instr.isMark = false := by
  obtain ⟨p, entry, flow, offsets, size, b₁, b₂, hp, hentry, hflow, hlayout, hcode, hg⟩ := Code.assemble_eq_ok h
  have hlive := Dataflow.isLive_iff (c.position?_lt hp) hflow
  have fix := Dataflow.analyze_fixpoint (c.position?_lt hp) hflow
  obtain ⟨sizes, hsized, hoffsets, -⟩ := layout_eq_ok hlayout
  obtain ⟨codes, hcodes, hbytes⟩ := encodeAll_eq_ok (.refl _) hcode
  rw [Array.toList_empty, List.nil_append] at hoffsets
  have hat : ∀ i < c.instrs.toList.length, offsets.toList[i]? = some (sizes.take i).sum := fun i hi => by
    rw [hoffsets, getElem?_offsetsFrom (hsized.length.symm ▸ hi), Nat.zero_add]
  refine ⟨p, flow.isLive, fun i => (sizes.take i).sum, hp, hlive, ?_, fun i op l hi hjump => ?_⟩
  · have hs : b.Sound := by
      have hs := (c.assemble_interns m stackMaps).sound (PoolBuilder.sound_after requests)
      rwa [h] at hs
    have hoffset : ∀ l t, offsetOf p offsets l = .ok t →
        (sizes.take (c.landing ((p.position? l).getD 0))).sum = t := fun l t hl => by
      obtain ⟨j, hj, ht⟩ := bind_eq_ok.mp hl
      cases ht
      have hj := Placement.target_eq_ok.mp hj
      rw [hj, Option.getD_some, hsized.sum_landing, Array.getD_eq_getD_getElem?, ← Array.getElem?_toList,
        hat j (c.position?_lt hp l j hj), Option.getD_some]
    rw [hbytes]
    refine instructions_coded hs hg hoffset (fun i instr hi hl => ?_) hat hcodes rfl ?_ (Nat.le_refl _)
    · obtain ⟨f, hf⟩ := Option.isSome_iff_exists.mp hl
      obtain ⟨instr', g, hi', ha, -⟩ := fix.fits i f hf
      rw [Array.getElem?_toList, hi'] at hi
      cases hi
      exact ⟨hproper _ (Array.mem_of_getElem? hi'), m, c.instrs, i, f, g, ha⟩
    · rw [List.drop_zero, hoffsets, hsized.eq_lengths hcodes]
  · obtain ⟨j, hj⟩ := c.exists_position? hp hjump
    obtain ⟨is, path⟩ := (hlive i).mp hi
    have hland := (hlive _).mpr (Code.path_landing (path.step (.jump hjump hj)))
    obtain ⟨f, hf⟩ := Option.isSome_iff_exists.mp hland
    obtain ⟨instr, _, hinstr, _⟩ := fix.fits _ f hf
    exact ⟨j, instr, hj, hland, hinstr, Code.isMark_landing hinstr⟩

/-- Takes an element out of a list and tells whether it is there, with an instruction that control cannot come to. -/
def probe : Code :=
  ⟨#[.load .ref 0, .int 70000, .invoke .invokeinterface ⟨"java/util/List", "get", "(I)Ljava/lang/Object;", true⟩,
    .jump .ifnonnull ⟨0⟩, .int 0, .op .ireturn, .long 5, .mark ⟨0⟩, .op .iconst1, .op .ireturn], 1⟩

def probeHead : MethodHead := ⟨"demo/Lists", "probe", "(Ljava/util/List;)I", true⟩

theorem decode_assembled_probe :
    ∃ a b p live at_, (∀ instr ∈ probe.instrs, instr.Proper) ∧
      (probe.assemble probeHead true).on (.after [.cls "demo/Lists"]) = (.ok a, b) ∧ probe.placement = .ok p ∧
      decode b.pool a.code =
        some (listing live at_ (fun l => at_ (probe.landing ((p.position? l).getD 0))) 0 probe.instrs.toList) := by
  have hproper : ∀ instr ∈ probe.instrs, instr.Proper := by simp [probe, Instr.Proper, Opcode.isJump]
  have hok : ((probe.assemble probeHead true).on (.after [.cls "demo/Lists"])).1.toBool = true := by decide +kernel
  cases h : (probe.assemble probeHead true).on (.after [.cls "demo/Lists"]) with
  | mk r b =>
    rw [h] at hok
    cases r with
    | error e => cases hok
    | ok a =>
      obtain ⟨p, live, at_, hp, -, hd, -⟩ := decode_assembled hproper h
      exact ⟨a, b, p, live, at_, hproper, rfl, hp, hd⟩

-- The dead instruction is left out, and the branch goes to the byte at 13.
example : (match (probe.assemble probeHead true).on (.after [.cls "demo/Lists"]) with
    | (.ok a, b) => decode b.pool a.code
    | _ => none) =
      some [(0, .load .ref 0), (1, .int 70000),
        (3, .invoke .invokeinterface ⟨"java/util/List", "get", "(I)Ljava/lang/Object;", true⟩ (some 2)),
        (8, .jump .ifnonnull 13), (11, .int 0), (12, .op .ireturn), (13, .int 1), (14, .op .ireturn)] := by
  decide +kernel

end Classwright
