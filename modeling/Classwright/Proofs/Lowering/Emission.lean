import Classwright.Proofs.Lowering.Grouping
import Classwright.Proofs.Lowering.Runs
import Classwright.Proofs.Syntax

/-! # Emitted code stays

Lowering adds code and labels to what is there already, and leaves the open blocks as they were once it is done. -/

namespace Classwright

/-- Whether the instruction is no call, has nothing to do with labels and lets control go on behind it. -/
def Instr.isPlain : Instr → Bool
  | .mark _ | .jump _ _ | .invoke _ _ => false
  | .op o => !o.endsBlock
  | _ => true

/-- Whether the instruction loads or stores a local. -/
def Instr.isAccess : Instr → Bool
  | .load _ _ | .store _ _ => true
  | _ => false

/-- Whether the instruction is plain and has nothing to do with locals. -/
def Instr.isInert (i : Instr) : Bool := i.isPlain && !i.isAccess

theorem Instr.isPlain_of_isInert {i : Instr} (h : i.isInert = true) : i.isPlain = true := (Bool.and_eq_true_iff.mp h).1

theorem Instr.isAccess_of_isInert {i : Instr} (h : i.isInert = true) : i.isAccess = false := by
  simpa using (Bool.and_eq_true_iff.mp h).2

theorem Instr.all_isPlain {is : List Instr} (h : is.all isInert = true) : is.all isPlain = true :=
  List.all_eq_true.mpr fun i hi => isPlain_of_isInert (List.all_eq_true.mp h i hi)

theorem Ty.plain_loadCode (t : Ty) (slot : UInt16) : (t.loadCode slot).all Instr.isPlain = true := by
  unfold loadCode
  cases t.localKind? <;> rfl

theorem Ty.plain_storeCode (t : Ty) (slot : UInt16) : (t.storeCode slot).all Instr.isPlain = true := by
  unfold storeCode
  cases t.localKind? <;> rfl

theorem Ty.inert_discardCode (t : Ty) : t.discardCode.all Instr.isInert = true := by
  unfold discardCode
  split <;> rfl

theorem Ty.returnCode_eq (t : Ty) : ∃ op, t.returnCode = .op op := by
  unfold returnCode
  split <;> exact ⟨_, rfl⟩

theorem inert_dropReceiver (t : Ty) : (dropReceiver t).all Instr.isInert = true := by
  unfold dropReceiver
  split <;> rfl

theorem LiteralValue.inert_code (v : LiteralValue) : v.code.isInert = true := by
  cases v <;> rfl

theorem Ty.inert_convertCode? {t t' : Ty} {is : List Instr} (h : t.convertCode? t' = some is) :
    is.all Instr.isInert = true := by
  unfold convertCode? at h
  split at h
  · cases h
    rfl
  · cases h
    rfl
  · rename_i p q
    cases p <;> cases q <;> cases h <;> rfl
  · cases h

namespace OperatorCode
variable {op : Source.BinaryOp} {left right : Ty}

theorem numeric?_eq_some {t : Ty} {p : Prim} (h : t.numeric? = some p) : t = .prim p ∧ p.isNumeric = true := by
  obtain ⟨elem, isArray⟩ := t
  cases elem with
  | cls name => cases isArray <;> cases h
  | prim q =>
    cases isArray with
    | true => cases h
    | false =>
      cases q <;> cases h <;> exact ⟨rfl, rfl⟩

theorem of?_eq_some {code : OperatorCode} (h : of? op left right = some code) :
    ∃ p, left = .prim p ∧ p.isNumeric = true ∧ (right = .int ∧ (∃ o, shift? op p = some o ∧ code = .direct o) ∨
      right = left ∧ ((∃ o, arithmetic? op p = some o ∧ code = .direct o) ∨
        ∃ onInts onSign, jumps? op = some (onInts, onSign) ∧
          code = if p = .int then .comparison none onInts else .comparison (compare? op p) onSign)) := by
  obtain ⟨p, hp, hof⟩ := Option.bind_eq_some_iff.mp h
  obtain ⟨rfl, hnum⟩ := numeric?_eq_some hp
  refine ⟨p, rfl, hnum, ?_⟩
  split at hof
  · split at hof
    · rename_i hr
      obtain ⟨o, ho, rfl⟩ := Option.map_eq_some_iff.mp hof
      exact .inl ⟨hr, o, ho, rfl⟩
    · cases hof
  · split at hof
    · rename_i hr
      refine .inr ⟨hr.symm, ?_⟩
      split at hof
      · rename_i onInts onSign hjumps
        refine .inr ⟨onInts, onSign, hjumps, ?_⟩
        split at hof <;> simp_all
      · obtain ⟨o, ho, rfl⟩ := Option.map_eq_some_iff.mp hof
        exact .inl ⟨o, ho, rfl⟩
    · cases hof

theorem inert_direct {o : Opcode} (h : of? op left right = some (.direct o)) : (Instr.op o).isInert = true := by
  obtain ⟨p, -, -, ⟨-, o', ho, heq⟩ | ⟨-, ⟨o', ho, heq⟩ | ⟨onInts, onSign, -, heq⟩⟩⟩ := of?_eq_some h
  · cases heq
    cases op <;> cases p <;> cases ho <;> rfl
  · cases heq
    cases op <;> cases p <;> cases ho <;> rfl
  · split at heq <;> cases heq

theorem inert_comparison {compare : Option Opcode} {jump : Opcode}
    (h : of? op left right = some (.comparison compare jump)) : (compare.toList.map Instr.op).all Instr.isInert = true := by
  obtain ⟨p, -, -, ⟨-, o', -, heq⟩ | ⟨-, ⟨o', -, heq⟩ | ⟨onInts, onSign, -, heq⟩⟩⟩ := of?_eq_some h
  · cases heq
  · cases heq
  · split at heq
    · cases heq
      rfl
    · cases heq
      unfold compare?
      split
      · rfl
      · split <;> rfl
      · split <;> rfl
      · rfl

end OperatorCode

theorem Prim.inert_negateOp? {p : Prim} {o : Opcode} (h : p.negateOp? = some o) : (Instr.op o).isInert = true := by
  cases p <;> cases h <;> rfl

theorem all_ite {P : Instr → Bool} {b : Bool} {is js : List Instr} (his : is.all P = true) (hjs : js.all P = true) :
    (if b then is else js).all P = true := by
  cases b
  · exact hjs
  · exact his

/-- The labels that jumps out of the block go to are below `n`. -/
def Block.Below (n : Nat) : Block → Prop
  | .conditional _ _ => True
  | .loop _ next done => next.id < n ∧ done.id < n

theorem Block.Below.mono {n n' : Nat} {block : Block} (h : block.Below n) (hn : n ≤ n') : block.Below n' := by
  cases block with
  | conditional => trivial
  | loop => exact ⟨Nat.lt_of_lt_of_le h.1 hn, Nat.lt_of_lt_of_le h.2 hn⟩

namespace Emitter

@[simp] theorem instrs_emit (e : Emitter) (i : Instr) : (e.emit i).instrs = e.instrs.push i := rfl

@[simp] theorem labels_emit (e : Emitter) (i : Instr) : (e.emit i).labels = e.labels := rfl

@[simp] theorem blocks_emit (e : Emitter) (i : Instr) : (e.emit i).blocks = e.blocks := rfl

@[simp] theorem emitAll_nil (e : Emitter) : e.emitAll [] = e := rfl

@[simp] theorem emitAll_cons (e : Emitter) (i : Instr) (is : List Instr) :
    e.emitAll (i :: is) = (e.emit i).emitAll is := rfl

theorem emitAll_eq (e : Emitter) (is : List Instr) : e.emitAll is = { e with instrs := e.instrs ++ is.toArray } := by
  induction is generalizing e with
  | nil => simp
  | cons i is ih =>
    rw [emitAll_cons, ih, emit]
    simp

/-- The index of the next instruction. -/
def size (e : Emitter) : Nat := e.instrs.size

@[simp] theorem size_emit (e : Emitter) (i : Instr) : (e.emit i).size = e.size + 1 := Array.size_push i

@[simp] theorem size_emitAll (e : Emitter) (is : List Instr) : (e.emitAll is).size = e.size + is.length := by
  simp [emitAll_eq, size]

/-- The second emitter has what the first has, and more code and labels after it. -/
structure Grows (e e' : Emitter) : Prop where
  instrs : e.instrs.toList <+: e'.instrs.toList
  labels : e.labels ≤ e'.labels

namespace Grows
variable {e e' e'' : Emitter}

theorem refl (e : Emitter) : e.Grows e := ⟨List.prefix_refl _, Nat.le_refl _⟩

theorem trans (h : e.Grows e') (h' : e'.Grows e'') : e.Grows e'' :=
  ⟨h.instrs.trans h'.instrs, Nat.le_trans h.labels h'.labels⟩

theorem size_le (h : e.Grows e') : e.size ≤ e'.size := by
  simpa [size] using h.instrs.length_le

theorem emitAll (e : Emitter) (is : List Instr) : e.Grows (e.emitAll is) := by
  rw [emitAll_eq]
  exact ⟨by simp, Nat.le_refl _⟩

theorem emit (e : Emitter) (i : Instr) : e.Grows (e.emit i) := emitAll e [i]

end Grows

/-! ### Labels -/

/-- How often the label is marked. -/
def marks (e : Emitter) (l : Label) : Nat := e.instrs.toList.count (.mark l)

theorem marks_emit (e : Emitter) (i : Instr) (l : Label) :
    (e.emit i).marks l = e.marks l + if i = .mark l then 1 else 0 := by
  simp [marks, List.count_singleton]

@[simp] theorem marks_emit_mark (e : Emitter) (k l : Label) :
    (e.emit (.mark k)).marks l = e.marks l + if k.id = l.id then 1 else 0 := by
  rw [marks_emit]
  obtain ⟨k⟩ := k
  obtain ⟨l⟩ := l
  simp

@[simp] theorem marks_emit_jump (e : Emitter) (op : Opcode) (k l : Label) :
    (e.emit (.jump op k)).marks l = e.marks l := by simp [marks_emit]

theorem marks_emit_plain (e : Emitter) {i : Instr} (h : i.isPlain = true) (l : Label) :
    (e.emit i).marks l = e.marks l := by
  rw [marks_emit, if_neg (by rintro rfl; cases h), Nat.add_zero]

@[simp] theorem marks_emit_truth (e : Emitter) (value : Bool) (l : Label) :
    (e.emit (.truth value)).marks l = e.marks l := marks_emit_plain e rfl l

/-- Jumps go to labels that have been made, and so will those out of open loops. -/
structure Sealed (e : Emitter) : Prop where
  jumps : ∀ op l, .jump op l ∈ e.instrs → l.id < e.labels
  loops : ∀ block ∈ e.blocks, block.Below e.labels

namespace Sealed
variable {e : Emitter}

theorem emit (h : e.Sealed) {i : Instr} (hi : ∀ op l, i = .jump op l → l.id < e.labels) : (e.emit i).Sealed := by
  refine ⟨fun op l hl => ?_, h.loops⟩
  rcases Array.mem_push.mp hl with hl | hl
  · exact h.jumps op l hl
  · exact hi op l hl.symm

theorem plain (h : e.Sealed) {i : Instr} (hi : i.isPlain = true) : (e.emit i).Sealed :=
  h.emit fun op l heq => by
    rw [heq] at hi
    cases hi

theorem mark (h : e.Sealed) (l : Label) : (e.emit (.mark l)).Sealed := h.emit nofun

theorem jump (h : e.Sealed) (op : Opcode) {l : Label} (hl : l.id < e.labels) : (e.emit (.jump op l)).Sealed :=
  h.emit fun _ _ heq => by
    cases heq
    exact hl

theorem relabel (h : e.Sealed) {labels : Nat} (hl : e.labels ≤ labels) : { e with labels }.Sealed where
  jumps op l hj := Nat.lt_of_lt_of_le (h.jumps op l hj) hl
  loops block hb := (h.loops block hb).mono hl

theorem reopen (h : e.Sealed) {blocks : List Block} (hb : ∀ block ∈ blocks, block.Below e.labels) :
    { e with blocks }.Sealed := ⟨h.jumps, hb⟩

end Sealed

/-- What lowering makes of an emitter: it has the same open blocks, the labels made since are marked once each, and
    jumps go to labels. -/
structure Extends (e e' : Emitter) : Prop extends e.Grows e' where
  blocks : e'.blocks = e.blocks
  marks : ∀ l, e'.marks l = e.marks l + if e.labels ≤ l.id ∧ l.id < e'.labels then 1 else 0
  sealed : e.Sealed → e'.Sealed

namespace Extends
variable {e e' e'' : Emitter}

theorem refl (e : Emitter) : e.Extends e :=
  ⟨.refl e, rfl, fun l => by rw [if_neg (by omega), Nat.add_zero], id⟩

theorem trans (h : e.Extends e') (h' : e'.Extends e'') : e.Extends e'' := by
  refine ⟨h.toGrows.trans h'.toGrows, h'.blocks.trans h.blocks, fun l => ?_, fun hs => h'.sealed (h.sealed hs)⟩
  have hle := h.labels
  have hle' := h'.labels
  rw [h'.marks, h.marks]
  split_ifs <;> omega

theorem plain (e : Emitter) {i : Instr} (hi : i.isPlain = true) : e.Extends (e.emit i) := by
  refine ⟨.emit e i, rfl, fun l => ?_, fun hs => hs.plain hi⟩
  rw [marks_emit_plain e hi, if_neg (by rw [labels_emit]; omega), Nat.add_zero]

theorem call (e : Emitter) (op : Opcode) (member : MemberRef) : e.Extends (e.emit (.invoke op member)) := by
  refine ⟨.emit e _, rfl, fun l => ?_, fun hs => hs.emit nofun⟩
  rw [marks_emit, if_neg nofun, if_neg (by rw [labels_emit]; omega), Nat.add_zero]

theorem op (e : Emitter) (op : Opcode) : e.Extends (e.emit (.op op)) := by
  refine ⟨.emit e _, rfl, fun l => ?_, fun hs => hs.emit nofun⟩
  rw [marks_emit, if_neg nofun, if_neg (by rw [labels_emit]; omega), Nat.add_zero]

theorem returns (e : Emitter) (t : Ty) : e.Extends (e.emit t.returnCode) := by
  obtain ⟨code, hcode⟩ := t.returnCode_eq
  rw [hcode]
  exact op e code

theorem jump (op : Opcode) {l : Label} (hl : e.Sealed → l.id < e.labels) : e.Extends (e.emit (.jump op l)) := by
  refine ⟨.emit e _, rfl, fun k => ?_, fun hs => hs.jump op (hl hs)⟩
  rw [marks_emit_jump, if_neg (by rw [labels_emit]; omega), Nat.add_zero]

/-- Where jumps to a new label have been made, one of two truth values is pushed. -/
theorem truths (h : e.fresh.2.Extends e') (value value' : Bool) : e.Extends (e'.fresh.2.emitAll
    [.truth value, .jump .goto e'.fresh.1, .mark e.fresh.1, .truth value', .mark e'.fresh.1]) := by
  have hle : e.labels + 1 ≤ e'.labels := h.labels
  refine ⟨⟨?_, ?_⟩, h.blocks, fun l => ?_, fun hs => ?_⟩
  · exact h.instrs.trans (Grows.emitAll e'.fresh.2 _).instrs
  · exact Nat.le_succ_of_le (Nat.le_of_succ_le hle)
  · have hm : e'.fresh.2.marks l = e.marks l + if e.labels + 1 ≤ l.id ∧ l.id < e'.labels then 1 else 0 := h.marks l
    simp only [emitAll_cons, emitAll_nil, marks_emit_mark, marks_emit_truth, marks_emit_jump, labels_emit, hm]
    grind [fresh]
  · have hs' : e'.fresh.2.Sealed := (h.sealed (hs.relabel (Nat.le_succ _))).relabel (Nat.le_succ _)
    exact ((((hs'.plain rfl).jump .goto (Nat.lt_succ_self _)).mark _).plain rfl).mark _

end Extends

/-- The code that was emitted stands at the front of `code`. -/
def Within (e : Emitter) (code : Array Instr) : Prop := e.instrs.toList <+: code.toList

section Within
variable {e e' : Emitter} {code : Array Instr}

theorem Grows.within (h : e.Grows e') (w : e'.Within code) : e.Within code := h.instrs.trans w

theorem Within.get {is : List Instr} {k : Nat} {i : Instr} (w : (e.emitAll is).Within code) (h : is[k]? = some i) :
    code[e.size + k]? = some i := by
  obtain ⟨rest, hrest⟩ := w
  rw [emitAll_eq] at hrest
  obtain ⟨hlt, rfl⟩ := List.getElem?_eq_some_iff.mp h
  rw [← Array.getElem?_toList, ← hrest, size]
  simp [List.getElem?_append_right, List.getElem?_append_left, hlt]

theorem Within.instr {i : Instr} (w : (e.emit i).Within code) : code[e.size]? = some i :=
  Within.get (show (e.emitAll [i]).Within code from w) (k := 0) rfl

end Within

end Emitter

/-! ### Logical expressions -/

section Logical
variable {α : Type} (lower : α → EmitM Ty) (span : α → Span) (jump : Opcode)

/-- Jumps on each of a list of conditions. -/
def branchAll (taken : Label) : List α → EmitM Unit
  | [] => return ()
  | x :: rest => do
    let t ← lower x
    branchOn jump taken t (span x)
    branchAll taken rest

/-- Conditions of which the first that makes the jump decides. A single one is lowered as it is. -/
def lowerLogical (fallThrough : Bool) (site : Span) : List α → EmitM Ty
  | [] => throw (.unsupported .emptyExpression site)
  | [x] => lower x
  | xs => do
    let taken ← EmitM.fresh
    branchAll lower span jump taken xs
    joinBranches taken fallThrough
    return .int

end Logical

theorem lowerAlternatives_eq (c : Context) (s : Scope) (taken : Label) (terms : List Source.AndExpr) :
    lowerAlternatives c s taken terms = branchAll (lowerAnd c s) (·.span) .ifne taken terms := by
  induction terms with
  | nil => rfl
  | cons x rest ih => simp only [lowerAlternatives, branchAll, ih]

theorem lowerConjuncts_eq (c : Context) (s : Scope) (taken : Label) (terms : List Source.MathExpr) :
    lowerConjuncts c s taken terms = branchAll (lowerMath c s) (·.span) .ifeq taken terms := by
  induction terms with
  | nil => rfl
  | cons x rest ih => simp only [lowerConjuncts, branchAll, ih]

theorem lowerExpr_eq (c : Context) (s : Scope) (terms : List Source.AndExpr) (span : Span) :
    lowerExpr c s ⟨terms, span⟩ = lowerLogical (lowerAnd c s) (·.span) .ifne false span terms := by
  match terms with
  | [] => rfl
  | [x] => rfl
  | first :: second :: rest => simp [lowerExpr, lowerLogical, branchAll, lowerAlternatives_eq]

theorem lowerAnd_eq (c : Context) (s : Scope) (terms : List Source.MathExpr) (span : Span) :
    lowerAnd c s ⟨terms, span⟩ = lowerLogical (lowerMath c s) (·.span) .ifeq true span terms := by
  match terms with
  | [] => rfl
  | [x] => rfl
  | first :: second :: rest => simp [lowerAnd, lowerLogical, branchAll, lowerConjuncts_eq]

theorem runs_joinBranches {taken : Label} {fallThrough : Bool} {e e' : Emitter} {u : Unit}
    (h : Runs (joinBranches taken fallThrough) e u e') : e' = e.fresh.2.emitAll
      [.truth fallThrough, .jump .goto e.fresh.1, .mark taken, .truth !fallThrough, .mark e.fresh.1] := by
  obtain ⟨done, e₁, hdone, h⟩ := Runs.bind_iff.mp (show Runs (_ >>= _) e u e' from h)
  cases Runs.fresh_iff.mp hdone
  exact (Runs.emitAll_iff.mp h).symm

/-- Of several conditions each jumps to one label, or leads on to the next. -/
theorem runs_logical {α : Type} {lower : α → EmitM Ty} {span : α → Span} {jump : Opcode} {fallThrough : Bool}
    {site : Span} {x y : α} {rest : List α} {e e' : Emitter} {t : Ty}
    (h : Runs (lowerLogical lower span jump fallThrough site (x :: y :: rest)) e t e') :
    t = .int ∧ ∃ e₁, Runs (branchAll lower span jump e.fresh.1 (x :: y :: rest)) e.fresh.2 () e₁ ∧
      Runs (joinBranches e.fresh.1 fallThrough) e₁ () e' := by
  obtain ⟨taken, e₁, hfresh, h⟩ := Runs.bind_iff.mp (show Runs (_ >>= _) e t e' from h)
  obtain ⟨_, e₂, hall, h⟩ := Runs.bind_iff.mp h
  obtain ⟨_, e₃, hjoin, h⟩ := Runs.bind_iff.mp h
  obtain ⟨rfl, rfl⟩ := Runs.pure_iff.mp h
  cases Runs.fresh_iff.mp hfresh
  exact ⟨rfl, e₂, hall, hjoin⟩

theorem EmitM.grows_joinBranches {taken : Label} {fallThrough : Bool} {e e' : Emitter} {u : Unit}
    (h : Runs (joinBranches taken fallThrough) e u e') : e.Grows e' := by
  obtain rfl := runs_joinBranches h
  exact ⟨(Emitter.Grows.emitAll e.fresh.2 _).instrs, Nat.le_succ _⟩

/-! ### Calls -/

/-- The member of a call is that of a method which has been looked up. -/
def Context.Finds (c : Context) (member : MemberRef) : Prop :=
  ∃ m name args site, (c.method? member.owner name args site).result = .ok (some m) ∧ member.name = m.name ∧
    member.descriptor = m.descriptor

theorem runs_invoke {c : Context} {target : CallTarget} {name : String} {args : List Ty} {site : Span} {e e' : Emitter}
    {t : Ty} (h : Runs (lowerInvoke c target name args site) e t e') :
    ∃ m interface, (c.method? target.cls.name name args site).result = .ok (some m) ∧
      (target.staticOnly = true → m.isStatic = true) ∧ t = (if target.isNew then target.cls.type else m.returns) ∧
      e' = (e.emit (.invoke (CallKind.of target m).opcode ⟨target.cls.name, m.name, m.descriptor, interface⟩)).emitAll
        (if m.isStatic && target.receiverPushed then dropReceiver m.returns else []) := by
  obtain ⟨found, e₁, hfound, h⟩ := Runs.bind_iff.mp (show Runs (_ >>= _) e t e' from h)
  obtain ⟨hm, rfl⟩ := Runs.lift_iff.mp hfound
  split at h
  · cases Runs.throw_iff h
  · rename_i m
    rcases Runs.ite_iff.mp h with ⟨-, h⟩ | ⟨hstatic, h⟩
    · simp at h
    · obtain ⟨_, e₁, hemit, h⟩ := Runs.bind_iff.mp h
      obtain rfl := Runs.emit_iff.mp hemit
      obtain ⟨_, e₂, hdrop, h⟩ := Runs.bind_iff.mp h
      obtain rfl := Runs.emitAll_iff.mp hdrop
      obtain ⟨rfl, rfl⟩ := Runs.pure_iff.mp h
      exact ⟨m, _, hm, by simpa using hstatic, rfl, rfl⟩

/-- A constructor that calls none begins with the receiver and the constructor of the base class. -/
theorem runs_baseConstructor {c : Context} {site : Span} {e e' : Emitter} {u : Unit}
    (h : Runs (lowerBaseConstructor c site) e u e') : ∃ base m name, c.own.base = some name ∧
      (c.resolveClass name site).result = .ok base ∧ base.method? Name.init [] = some m ∧
      e' = e.emitAll [.this, .invoke .invokespecial ⟨base.name, Name.init, m.descriptor, false⟩] := by
  unfold lowerBaseConstructor at h
  split at h
  · cases Runs.throw_iff h
  · rename_i name hname
    obtain ⟨base, e₁, hrun, h⟩ := Runs.bind_iff.mp h
    obtain ⟨hbase, rfl⟩ := Runs.lift_iff.mp hrun
    split at h
    · cases Runs.throw_iff h
    · rename_i m hm
      exact ⟨base, m, name, hname, hbase, hm, (Runs.emitAll_iff.mp h).symm⟩

/-! ### Expressions -/

/-- What holds of computations holds of those that are made of them. -/
structure EmitM.Compositional (P : ∀ α : Type, EmitM α → Prop) : Prop where
  pure : ∀ {α : Type} (a : α), P α (Pure.pure a)
  bind : ∀ {α β : Type} {x : EmitM α} {k : α → EmitM β}, P α x → (∀ a, P β (k a)) → P β (x >>= k)

namespace EmitM.Compositional
variable {P : ∀ α : Type, EmitM α → Prop} {c : Context} {s : Scope} (hP : Compositional P)
include hP

theorem evalM {apply : Source.BinaryOp → Span → Ty → Ty → EmitM Ty} (happly : ∀ op site a b, P Ty (apply op site a b))
    {t : OpTree (EmitM Ty)} (ht : ∀ x ∈ t.leaves, P Ty x) : P Ty (t.evalM apply) := by
  induction t with
  | leaf x => exact ht x (by simp [OpTree.leaves])
  | node op site l r ihl ihr =>
    refine hP.bind (ihl fun x hx => ht x ?_) fun a => hP.bind (ihr fun x hx => ht x ?_) fun b => happly op site a b
    · simp [OpTree.leaves, hx]
    · simp [OpTree.leaves, hx]

theorem lowerUnaries (h : ∀ t op site, P Ty (lowerUnary c t op site)) (site : Span) (t : Ty)
    (ops : List Source.UnaryOp) : P Ty (Classwright.lowerUnaries c site t ops) := by
  induction ops generalizing t with
  | nil => exact hP.pure t
  | cons op ops ih => exact hP.bind (h t op site) ih

theorem lowerArgs {args : List Source.Expr} (h : ∀ x ∈ args, P Ty (lowerExpr c s x)) :
    P (List Ty) (Classwright.lowerArgs c s args) := by
  induction args with
  | nil => exact hP.pure []
  | cons x rest ih =>
    obtain ⟨hx, hrest⟩ := List.forall_mem_cons.mp h
    exact hP.bind hx fun t => hP.bind (ih hrest) fun ts => hP.pure _

end EmitM.Compositional

/-- What holds of everything that the lowering of expressions consists of. -/
structure EmitM.Pervasive (c : Context) (s : Scope) (P : ∀ α : Type, EmitM α → Prop) : Prop
    extends Compositional P where
  logical : ∀ {α : Type} {lower : α → EmitM Ty} {xs : List α}, (∀ x ∈ xs, P Ty (lower x)) →
    ∀ span jump fallThrough site, P Ty (lowerLogical lower span jump fallThrough site xs)
  operator : ∀ op left right site, P Ty (lowerOperator op left right site)
  unary : ∀ t op site, P Ty (lowerUnary c t op site)
  literal : ∀ l, P Ty (lowerLiteral l)
  link : ∀ state link, P ChainState (lowerLink c s state link)
  target : ∀ state name site, P (CallTarget × String) (callTarget c s state name site)
  invoke : ∀ target name args site, P Ty (lowerInvoke c target name args site)
  finish : ∀ site state, P Ty (finishChain site state)

namespace EmitM.Pervasive
variable {P : ∀ α : Type, EmitM α → Prop} {c : Context} {s : Scope} (hP : Pervasive c s P)
include hP

theorem links {links : List Source.Link}
    (h : ∀ call, .call call ∈ links → ∀ x ∈ call.args, P Ty (lowerExpr c s x)) (state : ChainState) :
    P ChainState (lowerLinks c s state links) := by
  induction links generalizing state with
  | nil => exact hP.pure state
  | cons link rest ih =>
    have hrest := ih fun call hc => h call (List.mem_cons_of_mem link hc)
    cases link with
    | call call =>
      obtain ⟨name, args, span⟩ := call
      exact hP.bind (hP.target state name span) fun target => hP.bind (hP.lowerArgs (h _ List.mem_cons_self))
        fun types => hP.bind (hP.invoke target.1 target.2 types span) fun t => hrest _
    | text l => exact hP.bind (hP.link state _) hrest
    | name x => exact hP.bind (hP.link state _) hrest
    | super site => exact hP.bind (hP.link state _) hrest

theorem exprSteps :
    Source.ExprSteps (fun x => P Ty (lowerExpr c s x)) (fun x => P Ty (lowerAnd c s x)) (fun x => P Ty (lowerMath c s x))
      (fun x => P Ty (lowerTerm c s x)) (fun x => P Ty (lowerOperand c s x)) where
  expr terms span h := by
    rw [lowerExpr_eq]
    exact hP.logical h _ _ _ _
  and terms span h := by
    rw [lowerAnd_eq]
    exact hP.logical h _ _ _ _
  math first rest span hfirst hrest := by
    rw [lowerMath_eq]
    refine hP.evalM (fun op site a b => hP.operator op a b site) ?_
    simp only [Source.MathExpr.tree, OpTree.map_group, OpTree.leaves_group, List.map_map]
    exact List.forall_mem_cons.mpr ⟨hfirst, List.forall_mem_map.mpr hrest⟩
  term unary operand span h := hP.bind h fun t => hP.lowerUnaries hP.unary span t unary
  literal := hP.literal
  chain links span h := hP.bind (hP.links h .start) fun state => hP.finish span state
  paren _ h := h

end EmitM.Pervasive

/-- Every run of the computation keeps to the relation. -/
def EmitM.Keeps {α : Type} (R : Emitter → Emitter → Prop) (x : EmitM α) : Prop := ∀ e a e', Runs x e a e' → R e e'

/-- A relation between emitters that lowering keeps to, because everything does which lowering consists of: calls of
    methods such as `found` says, and loads of the receiver and of locals such as `reads` says. -/
structure Emitter.KeptIn (found : MemberRef → Prop) (reads : Local → Prop) (R : Emitter → Emitter → Prop) : Prop where
  refl : ∀ e, R e e
  trans : ∀ {e e' e''}, R e e' → R e' e'' → R e e''
  labels : ∀ {e e'}, R e e' → e.labels ≤ e'.labels
  inert : ∀ e {i}, i.isInert = true → R e (e.emit i)
  this : ∀ e, R e (e.emit .this)
  read : ∀ e {v}, reads v → R e (e.emitAll (v.type.loadCode v.slot))
  call : ∀ e op {member}, found member → R e (e.emit (.invoke op member))
  jump : ∀ e op {l}, l.id < e.labels → R e (e.emit (.jump op l))
  truths : ∀ {e e'} value value', R e.fresh.2 e' → R e (e'.fresh.2.emitAll
    [.truth value, .jump .goto e'.fresh.1, .mark e.fresh.1, .truth value', .mark e'.fresh.1])

/-- Lowering keeps to the relation whichever locals it loads. -/
abbrev Emitter.Kept (found : MemberRef → Prop) (R : Emitter → Emitter → Prop) : Prop :=
  Emitter.KeptIn found (fun _ => True) R

/-- What holds of every instruction that is added holds of them all. -/
theorem Emitter.emitAll_related {R : Emitter → Emitter → Prop} (refl : ∀ e, R e e)
    (trans : ∀ {e e' e''}, R e e' → R e' e'' → R e e'') {is : List Instr} (h : ∀ i ∈ is, ∀ e, R e (e.emit i))
    (e : Emitter) : R e (e.emitAll is) := by
  induction is generalizing e with
  | nil => exact refl e
  | cons i is ih =>
    obtain ⟨hi, his⟩ := List.forall_mem_cons.mp h
    exact trans (hi e) (ih his _)

theorem Emitter.branchValue_eq (e : Emitter) (jump : Opcode) (taken : Bool) :
    e.branchValue jump taken = (e.fresh.2.emit (.jump jump e.fresh.1)).fresh.2.emitAll
      [.truth !taken, .jump .goto (e.fresh.2.emit (.jump jump e.fresh.1)).fresh.1, .mark e.fresh.1, .truth taken,
        .mark (e.fresh.2.emit (.jump jump e.fresh.1)).fresh.1] := rfl

namespace Emitter.KeptIn
open EmitM (Keeps)

variable {α β : Type} {c : Context} {s : Scope} {found : MemberRef → Prop} {reads : Local → Prop}
  {R : Emitter → Emitter → Prop} (hR : KeptIn found reads R)
include hR

theorem bind {x : EmitM α} {k : α → EmitM β} (hx : Keeps R x) (hk : ∀ a, Keeps R (k a)) : Keeps R (x >>= k) := by
  intro e b e'' h
  obtain ⟨a, e', h₁, h₂⟩ := Runs.bind_iff.mp h
  exact hR.trans (hx e a e' h₁) (hk a e' b e'' h₂)

theorem pure (a : α) : Keeps R (Pure.pure a : EmitM α) := by
  intro e b e' h
  obtain ⟨-, rfl⟩ := Runs.pure_iff.mp h
  exact hR.refl e

theorem compositional : EmitM.Compositional fun _ => Keeps R := ⟨hR.pure, hR.bind⟩

omit hR in
theorem throw (err : CompileError) : Keeps R (throw err : EmitM α) := fun _ _ _ h => absurd h Runs.throw_iff

theorem lift (x : Lookup α) : Keeps R (liftM x : EmitM α) := by
  intro e a e' h
  obtain ⟨-, rfl⟩ := Runs.lift_iff.mp h
  exact hR.refl e

theorem emit {i : Instr} (hi : i.isInert = true) : Keeps R (EmitM.emit i) := by
  intro e _ e' h
  obtain rfl := Runs.emit_iff.mp h
  exact hR.inert e hi

theorem emitThis : Keeps R (EmitM.emit .this) := by
  intro e _ e' h
  obtain rfl := Runs.emit_iff.mp h
  exact hR.this e

theorem inertAll (e : Emitter) {is : List Instr} (h : is.all Instr.isInert = true) : R e (e.emitAll is) :=
  emitAll_related hR.refl hR.trans (fun i hi e => hR.inert e (List.all_eq_true.mp h i hi)) e

theorem emitAll {is : List Instr} (his : is.all Instr.isInert = true) : Keeps R (EmitM.emitAll is) := by
  intro e _ e' h
  obtain rfl := Runs.emitAll_iff.mp h
  exact hR.inertAll e his

/-- The receiver is loaded where it is needed. -/
theorem emitReceiver (b : Bool) : Keeps R (EmitM.emitAll (if b then [] else [.this])) := by
  intro e _ e' h
  obtain rfl := Runs.emitAll_iff.mp h
  cases b
  · exact hR.this e
  · exact hR.refl e

theorem emitRead {v : Local} (hv : reads v) : Keeps R (EmitM.emitAll (v.type.loadCode v.slot)) := by
  intro e _ e' h
  obtain rfl := Runs.emitAll_iff.mp h
  exact hR.read e hv

theorem branch (e : Emitter) (jump : Opcode) (taken : Bool) : R e (e.branchValue jump taken) := by
  have hjump : R e.fresh.2 (e.fresh.2.emit (.jump jump e.fresh.1)) := hR.jump _ jump (Nat.lt_succ_self _)
  rw [Emitter.branchValue_eq]
  exact hR.truths (!taken) taken hjump

theorem branchValue (jump : Opcode) (taken : Bool) : Keeps R (modify (·.branchValue jump taken)) := by
  intro e _ e' h
  obtain rfl := Runs.modify_iff.mp h
  exact hR.branch e jump taken

omit hR in
theorem ite {p : Prop} [Decidable p] {x y : EmitM α} (hx : Keeps R x) (hy : Keeps R y) :
    Keeps R (if p then x else y) := by
  split
  · exact hx
  · exact hy

theorem unlessThrown {p : Prop} [Decidable p] {err : CompileError} {x : EmitM α} (hx : Keeps R x) :
    Keeps R (if p then MonadExcept.throw err >>= fun _ : PUnit => x else x) :=
  ite (hR.bind (throw _) fun _ => hx) hx

theorem expectCondition (t : Ty) (site : Span) : Keeps R (EmitM.expectCondition t site) := ite (hR.pure ()) (throw _)

theorem lowerOperator (op : Source.BinaryOp) (left right : Ty) (site : Span) :
    Keeps R (Classwright.lowerOperator op left right site) := by
  unfold Classwright.lowerOperator
  split
  · exact throw _
  · rename_i o ho
    exact hR.bind (hR.emit (OperatorCode.inert_direct ho)) fun _ => hR.pure _
  · rename_i compare jump ho
    exact hR.bind (hR.emitAll (OperatorCode.inert_comparison ho)) fun _ =>
      hR.bind (hR.branchValue _ _) fun _ => hR.pure _

theorem lowerUnary (t : Ty) (op : Source.UnaryOp) (site : Span) : Keeps R (Classwright.lowerUnary c t op site) := by
  unfold Classwright.lowerUnary
  split
  · split
    · rename_i o ho
      obtain ⟨p, -, ho⟩ := Option.bind_eq_some_iff.mp ho
      exact hR.bind (hR.emit (Prim.inert_negateOp? ho)) fun _ => hR.pure _
    · exact throw _
  · exact hR.bind (hR.expectCondition t site) fun _ => hR.bind (hR.branchValue _ _) fun _ => hR.pure _
  · refine hR.bind (hR.lift _) fun target => ?_
    split
    · rename_i is his
      exact hR.bind (hR.emitAll (Ty.inert_convertCode? his)) fun _ => hR.pure _
    · exact throw _

theorem lowerLiteral (l : Source.Literal) : Keeps R (Classwright.lowerLiteral l) :=
  hR.bind (hR.lift _) fun v => hR.bind (hR.emit v.inert_code) fun _ => hR.pure _

theorem lowerName (hreads : ∀ x v, s.get? x = some v → reads v) (ident : Source.Ident) :
    Keeps R (Classwright.lowerName c s ident) := by
  unfold Classwright.lowerName
  split
  · rename_i v hv
    exact hR.bind (hR.emitRead (hreads _ v hv)) fun _ => hR.pure _
  · refine hR.bind (hR.lift _) fun f => ?_
    split
    · exact hR.unlessThrown (hR.bind (hR.emitReceiver _) fun _ => hR.bind (hR.emit rfl) fun _ => hR.pure _)
    · refine hR.bind (hR.lift _) fun cls => ?_
      split
      · exact hR.pure _
      · exact throw _

theorem lowerStaticField (owner : ClassSig) (ident : Source.Ident) :
    Keeps R (Classwright.lowerStaticField c owner ident) :=
  hR.bind (hR.lift _) fun _ => hR.unlessThrown (hR.bind (hR.emit rfl) fun _ => hR.pure _)

theorem lowerValueField (t : Ty) (ident : Source.Ident) : Keeps R (Classwright.lowerValueField c t ident) :=
  hR.bind (hR.lift _) fun _ => hR.bind (hR.lift _) fun _ => hR.bind (hR.lift _) fun _ =>
    hR.bind (hR.emitAll (all_ite rfl rfl)) fun _ => hR.bind (hR.emit rfl) fun _ => hR.pure _

theorem lowerLink (hreads : ∀ x v, s.get? x = some v → reads v) (state : ChainState) (link : Source.Link) :
    Keeps R (Classwright.lowerLink c s state link) := by
  unfold Classwright.lowerLink
  split
  · exact hR.bind (hR.lowerLiteral _) fun _ => hR.pure _
  · exact hR.unlessThrown (hR.bind hR.emitThis fun _ => hR.pure _)
  · exact hR.lowerName hreads _
  · exact throw _
  · exact hR.lowerStaticField _ _
  · exact hR.lowerValueField _ _
  · exact throw _

theorem finishChain (site : Span) (state : ChainState) : Keeps R (Classwright.finishChain site state) := by
  unfold Classwright.finishChain
  split
  · exact throw _
  · exact throw _
  · exact hR.bind (hR.emit rfl) fun _ => hR.pure _
  · exact hR.pure _

theorem startCall (name : Source.Ident) (site : Span) : Keeps R (Classwright.startCall c s name site) := by
  unfold Classwright.startCall
  refine ite (hR.bind (hR.lift _) fun _ => hR.bind hR.emitThis fun _ => hR.pure _) ?_
  refine hR.bind (hR.lift _) fun cls => ?_
  split
  · exact hR.unlessThrown (hR.bind (hR.emitAll rfl) fun _ => hR.pure _)
  · exact hR.bind (hR.emitReceiver _) fun _ => hR.pure _

theorem superCall (name : Source.Ident) (site : Span) : Keeps R (Classwright.superCall c s name site) := by
  unfold Classwright.superCall
  split
  · exact throw _
  · exact hR.bind (hR.lift _) fun _ => ite (hR.bind (hR.lift _) fun _ => hR.pure _) (hR.pure _)

theorem callTarget (state : ChainState) (name : Source.Ident) (site : Span) :
    Keeps R (Classwright.callTarget c s state name site) := by
  unfold Classwright.callTarget
  split
  · exact hR.startCall name site
  · exact hR.superCall name site
  · exact hR.pure _
  · exact hR.bind (hR.lift _) fun _ => hR.bind (hR.lift _) fun _ => hR.pure _

theorem branchAll {lower : α → EmitM Ty} {xs : List α} (hxs : ∀ x ∈ xs, Keeps R (lower x)) {span : α → Span}
    {jump : Opcode} {taken : Label} {e e' : Emitter} {u : Unit} (ht : taken.id < e.labels)
    (h : Runs (Classwright.branchAll lower span jump taken xs) e u e') : R e e' := by
  induction xs generalizing e with
  | nil =>
    obtain ⟨-, rfl⟩ := Runs.pure_iff.mp h
    exact hR.refl e
  | cons x rest ih =>
    obtain ⟨hx, hrest⟩ := List.forall_mem_cons.mp hxs
    obtain ⟨t, e₁, hrun, h⟩ := Runs.bind_iff.mp (show Runs (_ >>= _) e u e' from h)
    obtain ⟨_, e₂, hbranch, h⟩ := Runs.bind_iff.mp h
    obtain ⟨rfl, rfl⟩ := Runs.branchOn_iff.mp hbranch
    have hfirst := hx e _ e₁ hrun
    have ht₁ := Nat.lt_of_lt_of_le ht (hR.labels hfirst)
    exact hR.trans (hR.trans hfirst (hR.jump e₁ jump ht₁)) (ih hrest ht₁ h)

theorem lowerLogical {lower : α → EmitM Ty} {xs : List α} (hxs : ∀ x ∈ xs, Keeps R (lower x)) (span : α → Span)
    (jump : Opcode) (fallThrough : Bool) (site : Span) :
    Keeps R (Classwright.lowerLogical lower span jump fallThrough site xs) := by
  match xs with
  | [] => exact throw _
  | [x] => exact hxs x List.mem_cons_self
  | x :: y :: rest =>
    intro e t e' h
    obtain ⟨rfl, e₁, hall, hjoin⟩ := runs_logical h
    obtain rfl := runs_joinBranches hjoin
    exact hR.truths fallThrough (!fallThrough) (hR.branchAll hxs (Nat.lt_succ_self _) hall)

section Calls
variable (hfound : ∀ {member}, c.Finds member → found member)
include hfound

theorem lowerInvoke (target : CallTarget) (name : String) (args : List Ty) (site : Span) :
    Keeps R (Classwright.lowerInvoke c target name args site) := by
  intro e t e' h
  obtain ⟨m, interface, hm, -, -, rfl⟩ := runs_invoke h
  exact hR.trans (hR.call e _ (hfound ⟨m, name, args, site, hm, rfl, rfl⟩))
    (hR.inertAll _ (all_ite (inert_dropReceiver _) rfl))

variable (hreads : ∀ x v, s.get? x = some v → reads v)
include hreads

theorem pervasive : EmitM.Pervasive c s fun _ => Keeps R where
  toCompositional := hR.compositional
  logical := hR.lowerLogical
  operator := hR.lowerOperator
  unary := hR.lowerUnary
  literal := hR.lowerLiteral
  link := hR.lowerLink hreads
  target := hR.callTarget
  invoke := hR.lowerInvoke hfound
  finish := hR.finishChain

theorem exprSteps :
    Source.ExprSteps (fun x => Keeps R (lowerExpr c s x)) (fun x => Keeps R (lowerAnd c s x))
      (fun x => Keeps R (lowerMath c s x)) (fun x => Keeps R (lowerTerm c s x))
      (fun x => Keeps R (lowerOperand c s x)) :=
  (hR.pervasive hfound hreads).exprSteps

end Calls

end Emitter.KeptIn

theorem Emitter.Kept.exprSteps {c : Context} {found : MemberRef → Prop} {R : Emitter → Emitter → Prop}
    (hR : Kept found R) (hfound : ∀ {member}, c.Finds member → found member) (s : Scope) :
    Source.ExprSteps (fun x => EmitM.Keeps R (lowerExpr c s x)) (fun x => EmitM.Keeps R (lowerAnd c s x))
      (fun x => EmitM.Keeps R (lowerMath c s x)) (fun x => EmitM.Keeps R (lowerTerm c s x))
      (fun x => EmitM.Keeps R (lowerOperand c s x)) :=
  KeptIn.exprSteps hR hfound fun _ _ _ => trivial

/-- The code of `e'` is that of `e` followed by instructions such as `P` says. -/
def Emitter.Appends (P : Instr → Prop) (e e' : Emitter) : Prop :=
  ∃ code, e'.instrs.toList = e.instrs.toList ++ code ∧ e.labels ≤ e'.labels ∧ ∀ i ∈ code, P i

namespace Emitter.Appends
variable {P : Instr → Prop} {e e' e'' : Emitter}

theorem refl (e : Emitter) : Appends P e e := ⟨[], by simp⟩

theorem trans (h : Appends P e e') (h' : Appends P e' e'') : Appends P e e'' := by
  obtain ⟨code, hcode, hlabels, hall⟩ := h
  obtain ⟨code', hcode', hlabels', hall'⟩ := h'
  refine ⟨code ++ code', by simp [hcode', hcode], Nat.le_trans hlabels hlabels', fun i hi => ?_⟩
  rcases List.mem_append.mp hi with hi | hi
  · exact hall i hi
  · exact hall' i hi

theorem fresh (e : Emitter) : Appends P e e.fresh.2 := ⟨[], by simp [Emitter.fresh]⟩

theorem emitAll (e : Emitter) {is : List Instr} (h : ∀ i ∈ is, P i) : Appends P e (e.emitAll is) :=
  ⟨is, by simp [emitAll_eq], by simp [emitAll_eq], h⟩

theorem emit (e : Emitter) {i : Instr} (h : P i) : Appends P e (e.emit i) :=
  emitAll e (List.forall_mem_singleton.mpr h)

theorem keptIn {found : MemberRef → Prop} {reads : Local → Prop} (hinert : ∀ i, i.isInert = true → P i)
    (hthis : P .this) (hread : ∀ v, reads v → ∀ i ∈ v.type.loadCode v.slot, P i)
    (hcall : ∀ op member, found member → P (.invoke op member)) (hjump : ∀ op l, P (.jump op l))
    (hmark : ∀ l, P (.mark l)) : KeptIn found reads (Appends P) where
  refl := refl
  trans := trans
  labels := fun ⟨_, _, hlabels, _⟩ => hlabels
  inert e i hi := emit e (hinert i hi)
  this e := emit e hthis
  read e v hv := emitAll e (hread v hv)
  call e op member hfound := emit e (hcall op member hfound)
  jump e op l _ := emit e (hjump op l)
  truths {e e'} value value' h := by
    refine (((fresh e).trans h).trans (fresh e')).trans (emitAll _ ?_)
    simp only [List.forall_mem_cons]
    exact ⟨hinert (.truth value) rfl, hjump _ _, hmark _, hinert (.truth value') rfl, hmark _, List.forall_mem_nil _⟩

theorem kept {found : MemberRef → Prop} (hplain : ∀ i, i.isPlain = true → P i)
    (hcall : ∀ op member, found member → P (.invoke op member)) (hjump : ∀ op l, P (.jump op l))
    (hmark : ∀ l, P (.mark l)) : Kept found (Appends P) :=
  keptIn (fun i hi => hplain i (Instr.isPlain_of_isInert hi)) (hplain .this rfl)
    (fun v _ i hi => hplain i (List.all_eq_true.mp (v.type.plain_loadCode v.slot) i hi)) hcall hjump hmark

end Emitter.Appends

theorem Emitter.Extends.plainAll (e : Emitter) {is : List Instr} (h : is.all Instr.isPlain = true) :
    e.Extends (e.emitAll is) :=
  emitAll_related refl trans (fun i hi e => plain e (List.all_eq_true.mp h i hi)) e

theorem Emitter.Extends.kept : Kept (fun _ => True) Extends where
  refl := refl
  trans := trans
  labels h := h.labels
  inert e _ hi := plain e (Instr.isPlain_of_isInert hi)
  this e := plain e rfl
  read e v _ := plainAll e (v.type.plain_loadCode v.slot)
  call e op member _ := call e op member
  jump _ op _ hl := jump op fun _ => hl
  truths value value' h := h.truths value value'

/-- The computation only adds to the code. -/
def EmitM.Adds {α : Type} (x : EmitM α) : Prop := EmitM.Keeps Emitter.Extends x

namespace EmitM.Adds
open Emitter (Extends)

theorem lowerOperator (op : Source.BinaryOp) (left right : Ty) (site : Span) :
    Adds (Classwright.lowerOperator op left right site) := Extends.kept.lowerOperator op left right site

theorem lowerUnaries (c : Context) (site : Span) (t : Ty) (ops : List Source.UnaryOp) :
    Adds (Classwright.lowerUnaries c site t ops) := Extends.kept.compositional.lowerUnaries Extends.kept.lowerUnary site t ops

theorem branchAll {α : Type} {lower : α → EmitM Ty} {xs : List α} (hxs : ∀ x ∈ xs, Adds (lower x)) {span : α → Span}
    {jump : Opcode} {taken : Label} {e e' : Emitter} {u : Unit} (ht : taken.id < e.labels)
    (h : Runs (Classwright.branchAll lower span jump taken xs) e u e') : e.Extends e' := Extends.kept.branchAll hxs ht h

theorem exprSteps (c : Context) (s : Scope) :
    Source.ExprSteps (fun x => Adds (lowerExpr c s x)) (fun x => Adds (lowerAnd c s x))
      (fun x => Adds (lowerMath c s x)) (fun x => Adds (lowerTerm c s x)) (fun x => Adds (lowerOperand c s x)) :=
  Extends.kept.exprSteps (fun _ => trivial) s

/-- Lowering an expression only adds code. -/
theorem lowerExpr (c : Context) (s : Scope) (x : Source.Expr) : Adds (Classwright.lowerExpr c s x) :=
  (exprSteps c s).forExpr x

theorem lowerArgs (c : Context) (s : Scope) (args : List Source.Expr) : Adds (Classwright.lowerArgs c s args) :=
  Extends.kept.compositional.lowerArgs fun x _ => lowerExpr c s x

theorem lowerInvoke (c : Context) (target : CallTarget) (name : String) (args : List Ty) (site : Span) :
    Adds (Classwright.lowerInvoke c target name args site) :=
  Extends.kept.lowerInvoke (fun _ => trivial) target name args site

theorem lowerAnd (c : Context) (s : Scope) (x : Source.AndExpr) : Adds (Classwright.lowerAnd c s x) :=
  (exprSteps c s).forAnds [x] x List.mem_cons_self

theorem lowerMath (c : Context) (s : Scope) (x : Source.MathExpr) : Adds (Classwright.lowerMath c s x) :=
  (exprSteps c s).forMaths [x] x List.mem_cons_self

theorem lowerTree (c : Context) (s : Scope) (tree : OpTree Source.Term) :
    Adds ((tree.map (lowerTerm c s)).evalM Pending.applyAt) := by
  refine Extends.kept.compositional.evalM (fun op site a b => lowerOperator op a b site) ?_
  rw [OpTree.leaves_map]
  exact List.forall_mem_map.mpr fun x _ => (exprSteps c s).forTerm x

theorem lowerCondition (c : Context) (s : Scope) (x : Source.Expr) : Adds (Classwright.lowerCondition c s x) :=
  Extends.kept.bind (lowerExpr c s x) fun t => Extends.kept.expectCondition t x.span

theorem lowerBaseConstructor (c : Context) (site : Span) : Adds (Classwright.lowerBaseConstructor c site) := by
  intro e _ e' h
  obtain ⟨base, m, name, -, -, -, rfl⟩ := runs_baseConstructor h
  exact (Extends.plain e rfl).trans (.call _ _ _)

end EmitM.Adds

end Classwright
