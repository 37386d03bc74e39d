import Classwright.Proofs.ClassFile.Layout
import Classwright.Proofs.Frames.Receiver
import Classwright.Proofs.Frames.Stored
import Mathlib.Order.Bounds.Basic

/-! # The limits of a method

While instructions are visited the widest stack and the highest slot are noted. Visits go up to the frames that are kept
at the end, and a frame is as wide as any below it, so the marks are those of the frames that are found. In a class file
both are numbers of 16 bits: they are the true limits just where those fit. -/

namespace Classwright

/-! ### Widths -/

namespace Frame.Below
variable {m : MethodHead} {code : Array Instr} {f f' g g' : Frame}

theorem stackWords_eq (h : f.Below g) : f.stackWords = g.stackWords := by
  obtain ⟨-, hstack⟩ := h
  unfold Frame.stackWords
  generalize f.stack = xs, g.stack = ys at hstack
  induction hstack with
  | nil => rfl
  | cons ht _ ih => rw [List.foldr_cons, List.foldr_cons, ih, ht.width_eq]

/-- Frames of one width have one width after an instruction. -/
theorem apply_stackWords (h : f.Below g) {i : Nat} {instr : Instr} (hf : f.apply m code i instr = .ok f')
    (hg : g.apply m code i instr = .ok g') : f'.stackWords = g'.stackWords := by
  obtain ⟨f'', hf'', hb⟩ := h.apply (m := m.ordinary) rfl code i instr g' (Frame.apply_ordinary hg)
  rw [Frame.apply_ordinary hf] at hf''
  cases hf''
  exact hb.stackWords_eq

end Frame.Below

namespace Dataflow
variable {m : MethodHead} {code : Array Instr} {p : Placement} {entry : Frame} {d d' : Dataflow} {f : Frame}

/-- The widths of the stack in words, before and after each live instruction. -/
def widths (m : MethodHead) (code : Array Instr) (d : Dataflow) : Set Nat :=
  {n | ∃ i instr f after, code[i]? = some instr ∧ d.frameAt i = some f ∧ f.apply m code i instr = .ok after ∧
    (n = f.stackWords ∨ n = after.stackWords)}

/-- The slots that a method starts with, and how far the live loads and stores reach. -/
def extents (code : Array Instr) (entry : Frame) (d : Dataflow) : Set Nat :=
  {n | n = entry.locals.length ∨ ∃ i k slot, (code[i]? = some (.load k slot) ∨ code[i]? = some (.store k slot)) ∧
    d.isLive i = true ∧ n = slot.toNat + k.width}

/-! ### Marks -/

/-- Sending a frame on takes no note of it. -/
theorem Sent.limits {ts : List Nat} (h : Sent f ts d d') : d'.maxStack = d.maxStack ∧ d'.maxLocals = d.maxLocals := by
  induction h with
  | nil d => exact ⟨rfl, rfl⟩
  | cons hr _ ih =>
    rcases reach_eq_ok hr with ⟨g, -, rfl⟩ | ⟨_, -, -, rfl⟩
    · exact ih
    · exact ih

/-- What holds of the marks between two visits. A frame that gave a mark may have gone up since. -/
structure Marks (m : MethodHead) (code : Array Instr) (entry : Frame) (d : Dataflow) : Prop where
  size : d.frames.size = code.size
  noted : ∀ i f, d.frameAt i = some f → i ∈ d.pending ∨ ∃ instr after, code[i]? = some instr ∧
    f.apply m code i instr = .ok after ∧ words f ≤ d.maxStack ∧ words after ≤ d.maxStack ∧
    instr.localsUsed ≤ d.maxLocals
  entered : entry.locals.length ≤ d.maxLocals
  stack : d.maxStack = 0 ∨ ∃ i instr f after g, code[i]? = some instr ∧ f.apply m code i instr = .ok after ∧
    d.frameAt i = some g ∧ f.Below g ∧ (d.maxStack = words f ∨ d.maxStack = words after)
  locals : d.maxLocals = entry.locals.length ∨ ∃ i instr g, code[i]? = some instr ∧ d.frameAt i = some g ∧
    d.maxLocals = instr.localsUsed

theorem marks_start (hne : 0 < code.size) : Marks m code entry (start code entry) where
  size := by simp [start]
  noted i f h := by
    rw [frameAt_start hne] at h
    split at h
    · rename_i hi
      exact .inl (by simp [start, hi])
    · cases h
  entered := Nat.le_refl _
  stack := .inl rfl
  locals := .inl rfl

/-- A visit takes note of its instruction. -/
theorem Marks.visit {i : Nat} {rest : List Nat} {instr : Instr} (hp : ∀ l j, p.position? l = some j → j < code.size)
    (marks : Marks m code entry d) (hperm : d.pending.Perm (i :: rest)) (hi : code[i]? = some instr)
    (hf : d.frameAt i = some f) (h : Dataflow.visit m code p { d with pending := rest } i instr f = .ok d') :
    Marks m code entry d' := by
  obtain ⟨after, ts, ha, -, hlt, hs⟩ := visit_eq_ok hp hi h
  have A := hs.advances Frame.joinOrder_below fun t ht => marks.size ▸ hlt t ht
  have hstack : d'.maxStack = max (max d.maxStack (words f)) (words after) := hs.limits.1
  have hlocals : d'.maxLocals = max d.maxLocals instr.localsUsed := hs.limits.2
  have hkept : ∀ j g, d.frameAt j = some g → ∃ g', d'.frameAt j = some g' ∧ g.Below g' := A.kept
  refine ⟨A.size.trans marks.size, fun k g hg => ?_, by have := marks.entered; omega, ?_, ?_⟩
  · rcases A.changed k with hsame | hpend
    · replace hsame : d'.frameAt k = d.frameAt k := hsame
      rw [hsame] at hg
      rcases marks.noted k g hg with hk | ⟨instr', after', hi', ha', hbefore, hafter, hused⟩
      · rcases List.mem_cons.mp (hperm.mem_iff.mp hk) with rfl | hk
        · rw [hf] at hg
          cases hg
          exact .inr ⟨instr, after, hi, ha, by omega, by omega, by omega⟩
        · exact .inl (A.pending k hk)
      · exact .inr ⟨instr', after', hi', ha', by omega, by omega, by omega⟩
    · exact .inl hpend
  · obtain ⟨g', hg', hb'⟩ := hkept i f hf
    by_cases hnew : d'.maxStack = words f ∨ d'.maxStack = words after
    · exact .inr ⟨i, instr, f, after, g', hi, ha, hg', hb', hnew⟩
    · have hold : d'.maxStack = d.maxStack := by omega
      rw [hold]
      rcases marks.stack with hzero | ⟨j, instr₁, f₁, after₁, g₁, hj, ha₁, hg₁, hb₁, hmark⟩
      · exact .inl hzero
      · obtain ⟨g₂, hg₂, hb₂⟩ := hkept j g₁ hg₁
        exact .inr ⟨j, instr₁, f₁, after₁, g₂, hj, ha₁, hg₂, hb₁.trans hb₂, hmark⟩
  · obtain ⟨g', hg', -⟩ := hkept i f hf
    by_cases hnew : d'.maxLocals = instr.localsUsed
    · exact .inr ⟨i, instr, g', hi, hg', hnew⟩
    · have hold : d'.maxLocals = d.maxLocals := by omega
      rw [hold]
      rcases marks.locals with hentry | ⟨j, instr₁, g₁, hj, hg₁, hmark⟩
      · exact .inl hentry
      · obtain ⟨g₂, hg₂, -⟩ := hkept j g₁ hg₁
        exact .inr ⟨j, instr₁, g₂, hj, hg₂, hmark⟩

/-! ### What is found -/

theorem Marks.stack_isGreatest (fix : Fixpoint m code p entry d) (hnil : d.pending = [])
    (marks : Marks m code entry d) : IsGreatest (Set.image (· % 65536) (d.widths m code)) d.maxStack := by
  constructor
  · rcases marks.stack with hzero | ⟨i, instr, f, after, g, hi, ha, hg, hb, hmark⟩
    · -- the stack where the method starts is no wider than the mark
      obtain ⟨g, hg, -⟩ := fix.entry
      rcases marks.noted 0 g hg with hpending | ⟨instr, after, hi, ha, hbefore, -⟩
      · rw [hnil] at hpending
        cases hpending
      · exact ⟨g.stackWords, ⟨0, instr, g, after, hi, hg, ha, .inl rfl⟩,
          Nat.le_antisymm hbefore (hzero ▸ Nat.zero_le _)⟩
    · obtain ⟨instr', after', hi', ha', -⟩ := fix.fits i g hg
      obtain rfl : instr = instr' := Option.some.inj (hi.symm.trans hi')
      rcases hmark with hmark | hmark
      · exact ⟨g.stackWords, ⟨i, instr, g, after', hi, hg, ha', .inl rfl⟩, by rw [hmark, words, hb.stackWords_eq]⟩
      · exact ⟨after'.stackWords, ⟨i, instr, g, after', hi, hg, ha', .inr rfl⟩,
          by rw [hmark, words, hb.apply_stackWords ha ha']⟩
  · rintro _ ⟨n, ⟨i, instr, f, after, hi, hf, ha, hn⟩, rfl⟩
    rcases marks.noted i f hf with hpending | ⟨instr', after', hi', ha', hbefore, hafter, -⟩
    · rw [hnil] at hpending
      cases hpending
    · obtain rfl : instr = instr' := Option.some.inj (hi.symm.trans hi')
      obtain rfl : after = after' := Except.ok.inj (ha.symm.trans ha')
      rcases hn with rfl | rfl
      · exact hbefore
      · exact hafter

theorem Marks.locals_isGreatest (hnil : d.pending = []) (marks : Marks m code entry d) :
    IsGreatest (d.extents code entry) d.maxLocals := by
  constructor
  · rcases marks.locals with hentry | ⟨i, instr, g, hi, hg, hmark⟩
    · exact .inl hentry
    · have hlive : d.isLive i = true := Option.isSome_iff_exists.mpr ⟨g, hg⟩
      cases instr with
      | load k slot => exact .inr ⟨i, k, slot, .inl hi, hlive, hmark⟩
      | store k slot => exact .inr ⟨i, k, slot, .inr hi, hlive, hmark⟩
      | _ =>
        -- other instructions use no local, so the mark is where the method starts
        have hzero : d.maxLocals = 0 := hmark
        exact .inl (by have := marks.entered; omega)
  · rintro n (rfl | ⟨i, k, slot, hi, hlive, rfl⟩)
    · exact marks.entered
    · obtain ⟨f, hf⟩ := Option.isSome_iff_exists.mp hlive
      rcases marks.noted i f hf with hpending | ⟨instr, after, hi', -, -, -, hused⟩
      · rw [hnil] at hpending
        cases hpending
      · rcases hi with hi | hi
        · obtain rfl := Option.some.inj (hi.symm.trans hi')
          exact hused
        · obtain rfl := Option.some.inj (hi.symm.trans hi')
          exact hused

/-- The marks at the end are the widest stack, as a 16-bit number, and the highest slot. -/
theorem limits_of_analyzeIn {order : Nat → Nat} (hp : ∀ l j, p.position? l = some j → j < code.size)
    (h : analyzeIn order m code p entry = .ok d) :
    IsGreatest (Set.image (· % 65536) (d.widths m code)) d.maxStack ∧ IsGreatest (d.extents code entry) d.maxLocals := by
  have marks : Marks m code entry d := analyzeIn_keeps hp marks_start (fun marks => marks.visit hp) h
  have hnil := pending_of_analyzeIn hp h
  exact ⟨marks.stack_isGreatest (fixpoint_of_analyzeIn hp h) hnil, marks.locals_isGreatest hnil⟩

theorem analyze_limits (hp : ∀ l j, p.position? l = some j → j < code.size) (h : analyze m code p entry = .ok d) :
    IsGreatest (Set.image (· % 65536) (d.widths m code)) d.maxStack ∧ IsGreatest (d.extents code entry) d.maxLocals :=
  limits_of_analyzeIn hp (analyzeIn_first.trans h)

end Dataflow

/-! ### Limits in class files -/

/-- No number lies above a limit of 16 bits. -/
theorem lt_of_isGreatest {s : Set Nat} {x : UInt16} (h : IsGreatest s x.toNat) : ∀ n ∈ s, n < 65536 :=
  fun _ hn => Nat.lt_of_le_of_lt (h.2 hn) x.toNat_lt

/-- The stack limit of a method body is the widest that its stack gets, counted as a 16-bit number, and its limit of
    locals is the lowest number that covers the entry and all live loads and stores, cut to 16 bits. Either is the true
    limit just where no true number is greater than 16 bits can say. -/
theorem assembled_limits {c : Code} {m : MethodHead} {stackMaps : Bool} {a : Assembled} {b b' : PoolBuilder}
    (h : (c.assemble m stackMaps).on b = (.ok a, b')) :
    ∃ p entry d, c.placement = .ok p ∧ m.entryFrame = .ok entry ∧ Dataflow.analyze m c.instrs p entry = .ok d ∧
      IsGreatest (Set.image (· % 65536) (d.widths m c.instrs)) a.maxStack.toNat ∧
      (IsGreatest (d.widths m c.instrs) a.maxStack.toNat ↔ ∀ n ∈ d.widths m c.instrs, n < 65536) ∧
      (∃ n, IsGreatest (d.extents c.instrs entry) n ∧ a.maxLocals.toNat = n % 65536) ∧
      (IsGreatest (d.extents c.instrs entry) a.maxLocals.toNat ↔ ∀ n ∈ d.extents c.instrs entry, n < 65536) := by
  obtain ⟨p, entry, d, offsets, size, b₁, b₂, parts⟩ := c.exists_parts h
  obtain ⟨hstack, hlocals⟩ := Dataflow.analyze_limits (c.position?_lt parts.placed) parts.typed
  have hmaxStack : a.maxStack.toNat = d.maxStack := by
    obtain ⟨n, -, hn⟩ := hstack.1
    rw [parts.maxStack, Nat.toUInt16_eq, UInt16.toNat_ofNat', ← hn, Nat.mod_mod]
  have hmaxLocals : a.maxLocals.toNat = d.maxLocals % 65536 := by
    rw [parts.maxLocals, Nat.toUInt16_eq, UInt16.toNat_ofNat']
  refine ⟨p, entry, d, parts.placed, parts.entered, parts.typed, hmaxStack ▸ hstack, ⟨lt_of_isGreatest, fun hfit => ?_⟩,
    ⟨_, hlocals, hmaxLocals⟩, ⟨lt_of_isGreatest, fun hfit => ?_⟩⟩
  · have hsame : Set.image (· % 65536) (d.widths m c.instrs) = d.widths m c.instrs := by
      rw [Set.image_congr fun n hn => Nat.mod_eq_of_lt (hfit n hn), Set.image_id']
    rw [hmaxStack, ← hsame]
    exact hstack
  · rw [hmaxLocals, Nat.mod_eq_of_lt (hfit _ hlocals.1)]
    exact hlocals

/-- Keeps a `long` in a slot. -/
def keepLong (slot : UInt16) : Code := ⟨#[.long 1, .store .long slot, .op .returnVoid], 0⟩

def keepLongHead : MethodHead := ⟨"demo/Main", "run", "()V", true⟩

theorem assembled_limits_keepLong : ∃ a b' p entry d,
    ((keepLong 2).assemble keepLongHead true).on {} = (.ok a, b') ∧ keepLongHead.entryFrame = .ok entry ∧
      Dataflow.analyze keepLongHead (keepLong 2).instrs p entry = .ok d ∧ a.maxStack = 2 ∧ a.maxLocals = 4 ∧
      IsGreatest (Set.image (· % 65536) (d.widths keepLongHead (keepLong 2).instrs)) 2 ∧
      IsGreatest (d.extents (keepLong 2).instrs entry) 4 := by
  obtain ⟨a, b', h, hlimits⟩ := exists_ok_of_any (show (((keepLong 2).assemble keepLongHead true).on {}).1.toOption.any
    (fun a => decide (a.maxStack = 2 ∧ a.maxLocals = 4)) = true by decide +kernel)
  obtain ⟨hstack, hlocals⟩ := of_decide_eq_true hlimits
  obtain ⟨p, entry, d, -, hentry, hd, hwidths, -, -, hextents⟩ := assembled_limits h
  have hfit : ∀ n ∈ d.extents (keepLong 2).instrs entry, n < 65536 := by
    rintro n (rfl | ⟨i, k, slot, hi, -, rfl⟩)
    · cases hentry
      decide
    · have hused : ∀ instr ∈ (keepLong 2).instrs, instr.localsUsed < 65536 := by decide
      rcases hi with hi | hi
      · exact hused _ (Array.mem_of_getElem? hi)
      · exact hused _ (Array.mem_of_getElem? hi)
  rw [hstack] at hwidths
  rw [hlocals] at hextents
  exact ⟨a, b', p, entry, d, h, hentry, hd, hstack, hlocals, hwidths, hextents.mpr hfit⟩

/-- A method that uses the last slot is assembled with one local, although it reaches over 65537. -/
theorem keepLong_last_slot : ∃ a b' p entry d,
    ((keepLong 65535).assemble keepLongHead true).on {} = (.ok a, b') ∧ (keepLong 65535).placement = .ok p ∧
      keepLongHead.entryFrame = .ok entry ∧ Dataflow.analyze keepLongHead (keepLong 65535).instrs p entry = .ok d ∧
      65537 ∈ d.extents (keepLong 65535).instrs entry ∧ a.maxLocals = 1 := by
  obtain ⟨a, b', h, hlocals⟩ := exists_ok_of_any (show (((keepLong 65535).assemble keepLongHead true).on {}).1.toOption.any
    (fun a => decide (a.maxLocals = 1)) = true by decide +kernel)
  obtain ⟨p, entry, d, offsets, size, b₁, b₂, parts⟩ := Code.exists_parts h
  have fix := Dataflow.analyze_fixpoint (Code.position?_lt parts.placed) parts.typed
  have hlive : d.isLive 1 = true := fix.isLive (.step .start (.next rfl rfl))
  exact ⟨a, b', p, entry, d, h, parts.placed, parts.entered, parts.typed,
    .inr ⟨1, .long, 65535, .inr rfl, hlive, rfl⟩, of_decide_eq_true hlocals⟩

end Classwright
