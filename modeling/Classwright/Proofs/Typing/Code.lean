import Classwright.Proofs.Frames.Worklist
import Classwright.Proofs.Lowering.Emission
import Classwright.Proofs.Typing.Shape

/-! # Typed code

A stretch of code is typed if each of its instructions has a shape, and takes every frame of its shape to frames of the
shapes of the instructions that can come next. Stretches are put together end to end. A jump that leaves a stretch goes
through a port: a label for which a shape is agreed upon, until its mark is put at one of the ends of a stretch. -/

namespace Classwright

/-- What can be wrong with code that has been lowered: a local is read that nothing has been assigned to, or the
    constructor of an object is called that has been initialized before. -/
inductive Excused : Instr → FrameFault → Prop
  | unassigned (kind : LocalKind) (slot : UInt16) : Excused (.load kind slot) (.wrongLocal slot .top kind)
  | initialized {op : Opcode} {member : MemberRef} (name : String) (h : member.name = Name.init) :
    Excused (.invoke op member) (.alreadyInitialized (.object name))

/-- A method with its code, the places of its labels and all its locals. -/
structure Subject where
  head : MethodHead
  code : Array Instr
  placement : Placement
  scope : Scope
  /-- Whether its body begins with the call of another constructor. -/
  explicit : Bool

/-! ### Values that are used -/

/-- How many arguments a call with the descriptor has. -/
def Descriptor.arity (d : String) : Nat :=
  match split? d with
  | some (params, _) => params.countP fun p => (VType.ofDescriptor? p).join.isSome
  | none => 0

/-- How many values on top of the stack the instruction makes use of: the object whose field is accessed and the value
    of the field, the arguments of a call and the receiver of a method, and what is cast, returned or thrown. -/
def Instr.uses : Instr → Nat
  | .field .getfield _ | .field .putstatic _ => 1
  | .field .putfield _ => 2
  | .invoke o member =>
    Descriptor.arity member.descriptor + if o = .invokestatic ∨ member.name = Name.init then 0 else 1
  | .type .checkcast _ => 1
  | .op .areturn | .op .athrow => 1
  | _ => 0

/-- Shapes that are agreed upon for labels. -/
def Ports : Type := Label → Shape → Prop

namespace Ports

def none : Ports := fun _ _ => False

def add (l : Label) (s : Shape) (out : Ports) : Ports := fun k t => k = l ∧ t = s ∨ out k t

theorem self_add (l : Label) (s : Shape) (out : Ports) : out.add l s l s := .inl ⟨rfl, rfl⟩

end Ports

namespace Subject

def Fits (B : Subject) (s : Shape) (f : Frame) : Prop := s.Fits B.scope f

/-- An object that has not been initialized is used only if it is the receiver, and only up to the call of another
    constructor that the body begins with. -/
def Usable (B : Subject) (b : Bool) (e : Entry) : Prop :=
  e.sample.isUninitialized = true → e = .exact .uninitializedThis ∧ b = false ∧ B.explicit = true

/-- What the instruction uses where frames have the shape can be used. -/
def Uses (B : Subject) (instr : Instr) (s : Shape) : Prop :=
  ∀ e ∈ s.stack.take instr.uses, B.Usable s.initialized e

theorem Uses.nothing {B : Subject} {instr : Instr} {s : Shape} (h : instr.uses = 0) : B.Uses instr s := by
  intro e he
  rw [h] at he
  cases he

/-- The instruction takes frames of one shape to frames of the other. -/
structure Steps (B : Subject) (i : Nat) (instr : Instr) (s s' : Shape) : Prop where
  uses : B.Uses instr s
  apply : ∀ f, B.Fits s f → Meets (B.Fits s') (Excused instr) (f.apply B.head B.code i instr)

/-- The code from `lo` up to `hi` takes frames of one shape to frames of the other. -/
def Typed (B : Subject) (out : Ports) (lo hi : Nat) (s s' : Shape) : Prop :=
  ∃ shapes : Nat → Shape, shapes lo = s ∧ shapes hi = s' ∧ ∀ i, lo ≤ i → i < hi → ∃ instr, B.code[i]? = some instr ∧
    B.Uses instr (shapes i) ∧ ∀ f, B.Fits (shapes i) f → Meets (fun g => ∀ j, Edge B.code B.placement i j →
      lo ≤ j ∧ j ≤ hi ∧ B.Fits (shapes j) g ∨ ∃ l t, out l t ∧ B.placement.position? l = some j ∧ B.Fits t g)
      (Excused instr) (f.apply B.head B.code i instr)

namespace Typed
variable {B : Subject} {out out' : Ports} {lo mid hi i : Nat} {s s₁ s' t : Shape}

theorem nil : B.Typed out i i s s := ⟨fun _ => s, rfl, rfl, fun _ hlo hhi => absurd hhi (Nat.not_lt.mpr hlo)⟩

theorem mono (h : B.Typed out lo hi s s') (hout : ∀ l t, out l t → out' l t) : B.Typed out' lo hi s s' := by
  obtain ⟨shapes, hs, hs', hall⟩ := h
  refine ⟨shapes, hs, hs', fun i hlo hhi => ?_⟩
  obtain ⟨instr, hi, hused, hrule⟩ := hall i hlo hhi
  refine ⟨instr, hi, hused, fun f hf => (hrule f hf).imp fun g hg j hj => ?_⟩
  rcases hg j hj with h | ⟨l, t, ht, hfits⟩
  · exact .inl h
  · exact .inr ⟨l, t, hout l t ht, hfits⟩

theorem trans (h : B.Typed out lo mid s s₁) (h' : B.Typed out mid hi s₁ s') (hlo : lo ≤ mid) (hhi : mid ≤ hi) :
    B.Typed out lo hi s s' := by
  obtain ⟨shapes, hs, hmid, hall⟩ := h
  obtain ⟨shapes', hmid', hs', hall'⟩ := h'
  obtain ⟨joined, hleft, hright⟩ : ∃ joined : Nat → Shape, (∀ j, j ≤ mid → joined j = shapes j) ∧
      ∀ j, mid ≤ j → joined j = shapes' j := by
    refine ⟨fun j => if j < mid then shapes j else shapes' j, fun j hj => ?_, fun j hj => if_neg (Nat.not_lt.mpr hj)⟩
    dsimp only
    split
    · rfl
    · obtain rfl : j = mid := by omega
      rw [hmid, hmid']
  refine ⟨joined, (hleft lo hlo).trans hs, (hright hi hhi).trans hs', fun i hi₁ hi₂ => ?_⟩
  by_cases him : i < mid
  · obtain ⟨instr, hi, hused, hrule⟩ := hall i hi₁ him
    rw [hleft i (Nat.le_of_lt him)]
    refine ⟨instr, hi, hused, fun f hf => (hrule f hf).imp fun g hg j hj => ?_⟩
    rcases hg j hj with ⟨h₁, h₂, hfits⟩ | h
    · rw [← hleft j h₂] at hfits
      exact .inl ⟨h₁, Nat.le_trans h₂ hhi, hfits⟩
    · exact .inr h
  · have him := Nat.not_lt.mp him
    obtain ⟨instr, hi, hused, hrule⟩ := hall' i him hi₂
    rw [hright i him]
    refine ⟨instr, hi, hused, fun f hf => (hrule f hf).imp fun g hg j hj => ?_⟩
    rcases hg j hj with ⟨h₁, h₂, hfits⟩ | h
    · rw [← hright j h₁] at hfits
      exact .inl ⟨Nat.le_trans hlo h₁, h₂, hfits⟩
    · exact .inr h

/-- Closes a port whose label is at one of the ends. -/
theorem close {l : Label} {k : Nat} (h : B.Typed (out.add l t) lo hi s s') (hle : lo ≤ hi)
    (hl : B.placement.position? l = some k) (hk : k = lo ∧ t = s ∨ k = hi ∧ t = s') : B.Typed out lo hi s s' := by
  obtain ⟨shapes, hs, hs', hall⟩ := h
  refine ⟨shapes, hs, hs', fun i hlo hhi => ?_⟩
  obtain ⟨instr, hi, hused, hrule⟩ := hall i hlo hhi
  refine ⟨instr, hi, hused, fun f hf => (hrule f hf).imp fun g hg j hj => ?_⟩
  rcases hg j hj with h | ⟨l', u, ⟨rfl, rfl⟩ | hu, hj, hfits⟩
  · exact .inl h
  · rw [hl] at hj
    cases hj
    rcases hk with ⟨rfl, rfl⟩ | ⟨rfl, rfl⟩
    · exact .inl ⟨Nat.le_refl _, hle, hs.symm ▸ hfits⟩
    · exact .inl ⟨hle, Nat.le_refl _, hs'.symm ▸ hfits⟩
  · exact .inr ⟨l', u, hu, hj, hfits⟩

/-! ### Single instructions -/

theorem single {instr : Instr} (hi : B.code[i]? = some instr) (hused : B.Uses instr s)
    (h : ∀ f, B.Fits s f → Meets (fun g => ∀ j, Edge B.code B.placement i j →
      j = i + 1 ∧ B.Fits s' g ∨ ∃ l t, out l t ∧ B.placement.position? l = some j ∧ B.Fits t g)
      (Excused instr) (f.apply B.head B.code i instr)) :
    B.Typed out i (i + 1) s s' := by
  refine ⟨fun j => if j = i then s else s', if_pos rfl, if_neg (Nat.succ_ne_self i), fun k hlo hhi => ?_⟩
  obtain rfl : k = i := by omega
  refine ⟨instr, hi, by simpa using hused, fun f hf => (h f (by simpa using hf)).imp fun g hg j hj => ?_⟩
  rcases hg j hj with ⟨rfl, hfits⟩ | h
  · exact .inl ⟨Nat.le_succ k, Nat.le_refl _, by simpa using hfits⟩
  · exact .inr h

theorem instr {instr : Instr} (hi : B.code[i]? = some instr) (hj : ∀ op l, instr ≠ .jump op l)
    (h : B.Steps i instr s s') : B.Typed out i (i + 1) s s' := by
  refine single hi h.uses fun f hf => (h.apply f hf).imp fun g hg j hedge => ?_
  rcases (edge_iff hi).mp hedge with ⟨op, l, rfl, -⟩ | ⟨-, rfl⟩
  · exact absurd rfl (hj op l)
  · exact .inl ⟨rfl, hg⟩

/-- Behind an instruction that ends a block, any shape will do. -/
theorem stop {op : Opcode} (hi : B.code[i]? = some (.op op)) (hop : op.endsBlock = true)
    (h : B.Steps i (.op op) s s₁) : B.Typed out i (i + 1) s s' := by
  refine single hi h.uses fun f hf => (h.apply f hf).imp fun g hg j hedge => ?_
  rcases (edge_iff hi).mp hedge with ⟨op, l, heq, -⟩ | ⟨hfalls, -⟩
  · cases heq
  · simp [Instr.fallsThrough, hop] at hfalls

theorem jump {op : Opcode} {l : Label} (hi : B.code[i]? = some (.jump op l)) (h : B.Steps i (.jump op l) s s₁)
    (hl : out l s₁) (hnext : op.endsBlock = true ∨ s₁ = s') :
    B.Typed out i (i + 1) s s' := by
  refine single hi h.uses fun f hf => (h.apply f hf).imp fun g hg j hedge => ?_
  rcases (edge_iff hi).mp hedge with ⟨_, _, heq, hj⟩ | ⟨hfalls, rfl⟩
  · cases heq
    exact .inr ⟨l, s₁, hl, hj, hg⟩
  · rcases hnext with hop | rfl
    · simp [Instr.fallsThrough, hop] at hfalls
    · exact .inl ⟨rfl, hg⟩

end Typed

/-! ### Code that is emitted -/

/-- Each label is where its mark stands. -/
def Marked (B : Subject) : Prop := ∀ l j, B.placement.position? l = some j ↔ B.code[j]? = some (.mark l)

/-- What has been emitted from `e` to `e'` is typed, wherever it stands in the code. -/
structure Emits (B : Subject) (out : Ports) (e e' : Emitter) (s s' : Shape) : Prop where
  grows : e.Grows e'
  typed : e'.Within B.code → B.Typed out e.size e'.size s s'

namespace Emits
variable {B : Subject} {out out' : Ports} {e e₁ e' : Emitter} {s s₁ s' t : Shape} {instr : Instr} {op : Opcode}
  {l : Label}

theorem nil : B.Emits out e e s s := ⟨.refl e, fun _ => .nil⟩

theorem mono (h : B.Emits out e e' s s') (hout : ∀ l t, out l t → out' l t) : B.Emits out' e e' s s' :=
  ⟨h.grows, fun w => (h.typed w).mono hout⟩

/-- Code without ports can stand anywhere. -/
theorem anywhere (h : B.Emits .none e e' s s') : B.Emits out e e' s s' := h.mono fun _ _ => False.elim

theorem trans (h : B.Emits out e e₁ s s₁) (h' : B.Emits out e₁ e' s₁ s') : B.Emits out e e' s s' :=
  ⟨h.grows.trans h'.grows, fun w => (h.typed (h'.grows.within w)).trans (h'.typed w) h.grows.size_le h'.grows.size_le⟩

/-- Open blocks and labels make no difference. -/
theorem relabel {e₂ : Emitter} (h : B.Emits out e e' s s') (hi : e₂.instrs = e'.instrs) (hl : e'.labels ≤ e₂.labels) :
    B.Emits out e e₂ s s' := by
  refine ⟨⟨hi ▸ h.grows.instrs, Nat.le_trans h.grows.labels hl⟩, fun w => ?_⟩
  unfold Emitter.Within Emitter.size at *
  rw [hi] at w ⊢
  exact h.typed w

theorem relabel_left {e₂ : Emitter} (h : B.Emits out e e' s s') (hi : e₂.instrs = e.instrs) (hl : e₂.labels ≤ e.labels) :
    B.Emits out e₂ e' s s' := by
  refine ⟨⟨hi ▸ h.grows.instrs, Nat.le_trans hl h.grows.labels⟩, fun w => ?_⟩
  have htyped := h.typed w
  unfold Emitter.size at *
  rwa [hi]

/-- What an instruction does can depend on the code in front of it. -/
theorem emit_within (h : e.Within B.code → B.Steps e.size instr s s') (hj : ∀ op l, instr ≠ .jump op l) :
    B.Emits out e (e.emit instr) s s' := by
  have hgrows := Emitter.Grows.emit e instr
  refine ⟨hgrows, fun w => ?_⟩
  rw [Emitter.size_emit]
  exact .instr w.instr hj (h (hgrows.within w))

theorem emit (h : B.Steps e.size instr s s') (hj : ∀ op l, instr ≠ .jump op l) : B.Emits out e (e.emit instr) s s' :=
  emit_within (fun _ => h) hj

theorem stop (hop : op.endsBlock = true) (h : B.Steps e.size (.op op) s s₁) :
    B.Emits out e (e.emit (.op op)) s s' :=
  ⟨.emit e _, fun w => by
    rw [Emitter.size_emit]
    exact .stop w.instr hop h⟩

theorem jump (h : B.Steps e.size (.jump op l) s s₁) (hl : out l s₁) (hnext : op.endsBlock = true ∨ s₁ = s') :
    B.Emits out e (e.emit (.jump op l)) s s' :=
  ⟨.emit e _, fun w => by
    rw [Emitter.size_emit]
    exact .jump w.instr h hl hnext⟩

theorem steps_mark (i : Nat) (l : Label) (s : Shape) : B.Steps i (.mark l) s s :=
  ⟨.nothing rfl, fun _ hf => hf⟩

/-- Puts the mark of a label where jumps to it find frames of one shape. -/
theorem mark (hB : B.Marked) (h : B.Emits (out.add l t) e e₁ s t)
    (h' : B.Emits (out.add l t) (e₁.emit (.mark l)) e' t s') : B.Emits out e e' s s' := by
  have hmark : B.Emits (out.add l t) e₁ (e₁.emit (.mark l)) t t := emit (steps_mark _ l t) nofun
  have hrest := hmark.trans h'
  refine ⟨h.grows.trans hrest.grows, fun w => ?_⟩
  have hl : B.placement.position? l = some e₁.size := (hB l e₁.size).mpr (h'.grows.within w).instr
  have hfirst := (h.typed (hrest.grows.within w)).close h.grows.size_le hl (.inr ⟨rfl, rfl⟩)
  exact hfirst.trans ((hrest.typed w).close hrest.grows.size_le hl (.inl ⟨rfl, rfl⟩)) h.grows.size_le hrest.grows.size_le

theorem place (hB : B.Marked) (h : B.Emits (out.add l t) e e' s t) : B.Emits out e (e'.emit (.mark l)) s t :=
  mark hB h .nil

end Emits

end Subject

end Classwright
