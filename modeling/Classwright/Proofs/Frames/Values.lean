import Classwright.Proofs.Frames.Stored

/-! # Which values frames hold

Uninitialized objects come from the `new` instructions that control has passed. A value of two words among the locals
keeps the slot behind it unusable. -/

namespace Classwright

namespace Frame

/-- All values of the frame are such as `P` says. -/
structure Only (P : VType → Prop) (f : Frame) : Prop where
  locals : ∀ slot, P (f.getLocal slot)
  stack : ∀ t ∈ f.stack, P t

namespace Only
variable {P : VType → Prop} {f g : Frame} {m : MethodHead} {code : Array Instr} {op : Opcode} {member : MemberRef}

theorem imp {Q : VType → Prop} (h : f.Only P) (hPQ : ∀ t, P t → Q t) : f.Only Q :=
  ⟨fun slot => hPQ _ (h.locals slot), fun t ht => hPQ t (h.stack t ht)⟩

theorem of_mem (h : f.Only P) {t : VType} (ht : t ∈ f.locals ++ f.stack) : P t := by
  rcases List.mem_append.mp ht with ht | ht
  · obtain ⟨slot, hslot⟩ := List.mem_iff_getElem?.mp ht
    have hP := h.locals slot
    rwa [getLocal, List.getD_eq_getElem?_getD, hslot] at hP
  · exact h.stack t ht

/-- Slots that a list of locals does not have are unusable. -/
theorem of_forall_mem (htop : P .top) (h : ∀ t ∈ f.locals ++ f.stack, P t) : f.Only P := by
  refine ⟨fun slot => ?_, fun t ht => h t (List.mem_append_right _ ht)⟩
  rw [getLocal, List.getD_eq_getElem?_getD]
  cases hslot : f.locals[slot]? with
  | none => exact htop
  | some t => exact h t (List.mem_append_left _ (List.mem_of_getElem? hslot))

/-- A value from the stack and the frame without it. -/
def Rest (P : VType → Prop) (r : VType × Frame) : Prop := P r.1 ∧ r.2.Only P

theorem pop (h : f.Only P) : Meets (Rest P) (fun _ => True) f.pop := by
  unfold Frame.pop
  split
  · trivial
  · rename_i t rest hstack
    have hall := hstack ▸ h.stack
    exact ⟨hall t List.mem_cons_self, h.locals, fun u hu => hall u (List.mem_cons_of_mem t hu)⟩

theorem popExpect (h : f.Only P) (wanted : VType) : Meets (Only P) (fun _ => True) (f.popExpect wanted) :=
  h.pop.bind fun r hr => by
    dsimp only
    split
    · exact hr.2
    · trivial

theorem popKind (h : f.Only P) (wanted : LocalKind) : Meets (Rest P) (fun _ => True) (f.popKind wanted) :=
  h.pop.bind fun r hr => by
    dsimp only
    split
    · exact hr
    · trivial

theorem popWord (h : f.Only P) : Meets (Rest P) (fun _ => True) f.popWord :=
  h.pop.bind fun r hr => by
    dsimp only
    split
    · exact hr
    · trivial

theorem popAll (h : f.Only P) (wanted : List VType) : Meets (Only P) (fun _ => True) (f.popAll wanted) := by
  induction wanted generalizing f with
  | nil => exact h
  | cons t rest ih => exact (h.popExpect t).bind fun g hg => ih hg

theorem push (h : f.Only P) {t : VType} (ht : P t) : (f.push t).Only P :=
  ⟨h.locals, List.forall_mem_cons.mpr ⟨ht, h.stack⟩⟩

theorem pushAll (h : f.Only P) {ts : List VType} (hts : ∀ t ∈ ts, P t) : (f.pushAll ts).Only P := by
  induction ts generalizing f with
  | nil => exact h
  | cons t ts ih =>
    obtain ⟨ht, hts⟩ := List.forall_mem_cons.mp hts
    exact ih (h.push ht) hts

section Initialized
variable (hP : ∀ t, t.isUninitialized = false → P t)
include hP

theorem setLocal (h : f.Only P) {t : VType} (ht : P t) (slot : Nat) : (f.setLocal slot t).Only P := by
  refine ⟨fun i => ?_, h.stack⟩
  have htop : P .top := hP .top rfl
  rw [getLocal_setLocal]
  split_ifs
  · exact ht
  · exact htop
  · exact htop
  · exact h.locals i

omit hP in
theorem markInitialized (h : f.Only P) {before after : VType} (hb : before ≠ .top) (ha : P after) :
    (f.markInitialized before after).Only P := by
  refine ⟨fun i => ?_, fun t ht => ?_⟩
  · rw [getLocal_markInitialized f after hb]
    split
    · exact ha
    · exact h.locals i
  · obtain ⟨u, hu, rfl⟩ := List.mem_map.mp ht
    split
    · exact ha
    · exact h.stack u hu

theorem applyOp (h : f.Only P) : Meets (Only P) (fun _ => True) (f.applyOp m op) := by
  unfold Frame.applyOp
  split
  · rename_i pops pushes he
    exact (h.popAll pops).bind fun g hg => hg.pushAll fun t ht => hP t (Opcode.initialized_of_effect he t ht)
  · split
    · exact h.popWord.bind fun r hr => hr.2
    · refine h.pop.bind fun r hr => ?_
      dsimp only
      split
      · exact hr.2.popWord.bind fun r hr => hr.2
      · exact hr.2
    · exact h.popWord.bind fun r hr => hr.2.pushAll (by simp [hr.1])
    · exact h.popWord.bind fun r hr => hr.2.popWord.bind fun r' hr' => hr'.2.pushAll (by simp [hr.1, hr'.1])
    · refine h.pop.bind fun r hr => ?_
      dsimp only
      split
      · exact hr.2.pushAll (by simp [hr.1])
      · exact hr.2.popWord.bind fun r' hr' => hr'.2.pushAll (by simp [hr.1, hr'.1])
    · refine h.pop.bind fun r hr => hr.2.popWord.bind fun r' hr' => ?_
      dsimp only
      split
      · exact hr'.2.pushAll (by simp [hr.1, hr'.1])
      · exact hr'.2.popWord.bind fun r'' hr'' => hr''.2.pushAll (by simp [hr.1, hr'.1, hr''.1])
    · exact h.popWord.bind fun r hr => hr.2.popWord.bind fun r' hr' => hr'.2.pushAll (by simp [hr.1, hr'.1])
    · exact (h.popKind .ref).bind fun r hr => hr.2
    · exact (h.popKind .ref).bind fun r hr => hr.2
    · split
      · trivial
      · exact h
    · trivial

omit hP in
theorem applyJump (h : f.Only P) : Meets (Only P) (fun _ => True) (f.applyJump op) := by
  unfold Frame.applyJump
  split
  · exact (h.popKind .ref).bind fun r hr => (hr.2.popKind .ref).bind fun r' hr' => hr'.2
  · exact (h.popKind .ref).bind fun r hr => (hr.2.popKind .ref).bind fun r' hr' => hr'.2
  · exact (h.popKind .ref).bind fun r hr => hr.2
  · exact (h.popKind .ref).bind fun r hr => hr.2
  · exact h.popAll _

theorem applyField (h : f.Only P) : Meets (Only P) (fun _ => True) (f.applyField op member) := by
  unfold Frame.applyField
  split
  · trivial
  · trivial
  · rename_i t hd
    have ht := hP t (VType.ofDescriptor?_eq_some hd).2
    split
    · exact h.push ht
    · exact h.popExpect t
    · exact (h.popKind .ref).bind fun r hr => hr.2.push ht
    · exact (h.popExpect t).bind fun g hg => (hg.popKind .ref).bind fun r hr => hr.2
    · trivial

omit hP in
theorem popArgs (h : f.Only P) (ds : List (List Char)) : Meets (Only P) (fun _ => True) (f.popArgs ds) := by
  induction ds generalizing f with
  | nil => exact h
  | cons d rest ih =>
    have harg : Meets (Only P) (fun _ => True) (f.popArg d) := by
      unfold Frame.popArg
      split
      · trivial
      · exact h
      · exact h.popExpect _
    exact harg.bind fun g hg => ih hg

theorem pushResult (h : f.Only P) (d : List Char) : Meets (Only P) (fun _ => True) (f.pushResult d) := by
  unfold Frame.pushResult
  split
  · trivial
  · exact h
  · rename_i t hd
    exact h.push (hP t (VType.ofDescriptor?_eq_some hd).2)

theorem popReceiver (h : f.Only P) : Meets (Only P) (fun _ => True) (Frame.popReceiver m code f member) := by
  refine (h.popKind .ref).bind fun r hr => ?_
  dsimp only
  split
  · cases hinit : initializedType m code r.1 with
    | error fault => trivial
    | ok after =>
      refine hr.2.markInitialized ?_ (hP after ?_)
      · intro htop
        rw [htop] at hinit
        cases hinit
      · unfold initializedType at hinit
        split at hinit
        · cases hinit
          rfl
        · split at hinit <;> cases hinit
          rfl
        · cases hinit
  · exact hr.2

theorem applyInvoke (h : f.Only P) : Meets (Only P) (fun _ => True) (Frame.applyInvoke m code f op member) := by
  unfold Frame.applyInvoke
  split
  · trivial
  · rename_i params result hd
    refine (h.popArgs _).bind fun g hg => ?_
    dsimp only
    split
    · exact hg.pushResult hP result
    · exact (hg.popReceiver hP).bind fun g' hg' => hg'.pushResult hP result

/-- An instruction moves values, makes initialized ones, or makes an object that is not initialized. -/
theorem apply (h : f.Only P) {index : Nat} {instr : Instr}
    (hnew : ∀ name, instr = .type .new name → P (.uninitialized index)) :
    Meets (Only P) (fun _ => True) (f.apply m code index instr) := by
  cases instr with
  | mark l => exact h
  | load kind slot =>
    unfold Frame.apply
    dsimp only
    split
    · exact h.push (h.locals _)
    · trivial
  | store kind slot => exact (h.popKind kind).bind fun r hr => hr.2.setLocal hP hr.1 _
  | jump op l => exact h.applyJump
  | field op member => exact h.applyField hP
  | invoke op member => exact h.applyInvoke hP
  | type op name =>
    simp only [Frame.apply]
    split
    · exact h.push (hnew name rfl)
    · exact (h.popKind .ref).bind fun r hr => hr.2.push (hP _ rfl)
    · trivial
  | op op => exact h.applyOp hP
  | _ => exact h.push (hP _ rfl)

/-- What joins make of values is initialized, or it was there before. -/
theorem of_below (h : f.Only P) (hb : f.Below g) : g.Only P := by
  have habove {a b : VType} (ha : P a) (hab : VType.Below a b) : P b := by
    cases hu : b.isUninitialized with
    | false => exact hP b hu
    | true => exact (hab.eq_iff hu).mpr rfl ▸ ha
  refine ⟨fun slot => ?_, fun t ht => ?_⟩
  · by_cases htop : g.getLocal slot = .top
    · rw [htop]
      exact hP _ rfl
    · exact habove (h.locals slot) ((hb.locals slot).below_of_ne_top htop)
  · obtain ⟨u, hu, hut⟩ := exists_of_forall₂ hb.stack ht
    exact habove (h.stack u hu) hut

end Initialized

end Only

end Frame

/-! ### Where uninitialized objects come from -/

/-- If the value is an object that is not initialized, control can come to the `new` instruction that made it. -/
def VType.Sited (code : Array Instr) (p : Placement) (t : VType) : Prop :=
  ∀ site, t = .uninitialized site → ∃ is name, Path code p is site ∧ code[site]? = some (.type .new name)

theorem VType.sited_of_initialized {code : Array Instr} {p : Placement} {t : VType} (h : t.isUninitialized = false) :
    t.Sited code p := by
  rintro site rfl
  cases h

theorem Dataflow.carried_sited {m : MethodHead} {code : Array Instr} {p : Placement} :
    Carried m code p fun i f => (∃ is, Path code p is i) ∧ f.Only (VType.Sited code p) where
  apply i j instr f g hi hf ha hedge := by
    obtain ⟨⟨is, path⟩, honly⟩ := hf
    refine ⟨⟨_, path.step hedge⟩, ?_⟩
    have hnew : ∀ name, instr = .type .new name → (VType.uninitialized i).Sited code p := by
      rintro name rfl site ⟨⟩
      exact ⟨is, name, path, hi⟩
    have happly : Meets _ _ (f.apply m code i instr) := honly.apply (fun _ => VType.sited_of_initialized) hnew
    rw [ha] at happly
    exact happly
  join i f g j hf hg hj :=
    ⟨hf.1, hf.2.of_below (fun _ => VType.sited_of_initialized) (Frame.join_below hj).1⟩

end Classwright
