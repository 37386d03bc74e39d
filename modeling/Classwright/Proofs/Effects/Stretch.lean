import Classwright.Proofs.Effects.Instr
import Classwright.Proofs.Lowering.Accesses

/-! # Stretches of code that lead to their end

From an instruction of an expression, with values of certain kinds on the stack, every way leads forward to the end of
the expression and finds there what the expression should leave. That is said of an instruction when it holds for all
that can come next. So code is looked at from its end: a stretch of code that has been emitted passes on what holds
behind it to where it begins. -/

namespace Classwright

/-- A way through the instructions from `lo` up to `hi`: those that it has passed since it was at `i`, and the one that
    it has come to. -/
inductive Crossing (code : Array Instr) (p : Placement) (lo hi : Nat) : Nat → List Nat → Nat → Prop
  | here (i : Nat) : Crossing code p lo hi i [] i
  | step {i j k : Nat} {is : List Nat} (hlo : lo ≤ i) (hhi : i < hi) (he : Edge code p i k)
      (h : Crossing code p lo hi k is j) : Crossing code p lo hi i (i :: is) j

/-- No constructor call among the instructions fails where each is applied to what the one before it has left. -/
def Frame.Accepts (m : MethodHead) (code : Array Instr) : Frame → List Nat → Prop
  | _, [] => True
  | f, i :: is =>
    (∀ instr, code[i]? = some instr → instr.constructs = true → ∃ g, f.apply m code i instr = .ok g) ∧
      ∀ g, f.stepAt m code i = .ok g → g.Accepts m code is

theorem Frame.accepts_of_along {m : MethodHead} {code : Array Instr} {f g : Frame} {is : List Nat}
    (h : f.along m code is = .ok g) : f.Accepts m code is := by
  induction is generalizing f with
  | nil => trivial
  | cons i is ih =>
    obtain ⟨f₁, hstep, hrest⟩ := bind_eq_ok.mp h
    refine ⟨fun instr hi _ => ⟨f₁, (stepAt_eq hi).symm.trans hstep⟩, fun f₂ hstep₂ => ?_⟩
    cases hstep.symm.trans hstep₂
    exact ih hrest

/-- Code of an expression may load the receiver of a method that has one, and locals of the scope as what they are. -/
def Scope.Reads (s : Scope) (kind : LocalKind) (slot : UInt16) : Prop :=
  kind = .ref ∧ slot = 0 ∧ s.method.isStatic = false ∨
    ∃ x v, s.get? x = some v ∧ v.slot = slot ∧ v.type.localKind? = some kind

/-- Code of a method up to a certain instruction, and the kinds of the values that are to be on the stack there. -/
structure Stretch where
  head : MethodHead
  code : Array Instr
  placement : Placement
  scope : Scope
  last : Nat
  left : List LocalKind

namespace Stretch

/-- What a frame must hold for the code from `lo` on: each local that is loaded there. -/
def Provides (S : Stretch) (lo : Nat) (f : Frame) : Prop :=
  ∀ k kind slot, lo ≤ k → k < S.last → S.code[k]? = some (.load kind slot) → S.scope.Reads kind slot →
    (f.getLocal slot.toNat).hasKind kind = true

theorem Provides.map {S : Stretch} {lo : Nat} {f : Frame} (h : S.Provides lo f) {settled : VType → VType}
    (hs : ∀ t k, (settled t).hasKind k = t.hasKind k) (stack : List VType) :
    S.Provides lo ⟨f.locals.map settled, stack⟩ := by
  intro k kind slot hlo hhi hk hreads
  have hf := h k kind slot hlo hhi hk hreads
  simp only [Frame.getLocal, List.getD_eq_getElem?_getD, List.getElem?_map] at hf ⊢
  cases hslot : f.locals[slot.toNat]? with
  | none =>
    rw [hslot] at hf
    exact hf
  | some t =>
    rw [hslot] at hf
    exact (hs t kind).trans hf

/-! ### Ways to the end -/

/-- Where values of the kinds are on top of the stack, every way from the instruction goes forward to the end, and finds
    there what is to be left. -/
inductive Leads (S : Stretch) : Nat → List LocalKind → Prop
  | done : S.Leads S.last S.left
  | step {i : Nat} {instr : Instr} {pops pushes rest : List LocalKind} (hlt : i < S.last)
      (hi : S.code[i]? = some instr) (hreads : ∀ kind slot, instr = .load kind slot → S.scope.Reads kind slot)
      (h : Exchanges S.head S.code i instr pops pushes) (hnext : ∃ j, Edge S.code S.placement i j)
      (hforward : ∀ j, Edge S.code S.placement i j → i < j)
      (hall : ∀ j, Edge S.code S.placement i j → S.Leads j (pushes ++ rest)) : S.Leads i (pops ++ rest)

namespace Leads
variable {S : Stretch} {i j : Nat} {instr : Instr} {ks pops pushes rest : List LocalKind}

theorem le_last (h : S.Leads i ks) : i ≤ S.last := by
  cases h with
  | done => exact Nat.le_refl _
  | step hlt => exact Nat.le_of_lt hlt

theorem eq_left (h : S.Leads i ks) (hi : i = S.last) : ks = S.left := by
  cases h with
  | done => rfl
  | step hlt => exact absurd hi (Nat.ne_of_lt hlt)

theorem exists_edge (h : S.Leads i ks) (hi : i < S.last) : ∃ j, Edge S.code S.placement i j := by
  cases h with
  | done => exact absurd hi (Nat.lt_irrefl _)
  | step _ _ _ _ hnext => exact hnext

/-- One step of a way: unless it is a constructor call that fails, the instruction leaves a frame from which the way
    goes on. -/
theorem apply {lo : Nat} {f : Frame} {top base : List VType} (h : S.Leads i ks) (hlo : lo ≤ i) (hlt : i < S.last)
    (hstack : f.stack = top ++ base) (htop : OfKinds ks top) (hf : S.Provides lo f)
    (ha : ∀ instr, S.code[i]? = some instr → instr.constructs = true → ∃ g, f.apply S.head S.code i instr = .ok g) :
    ∃ instr g top' ks', S.code[i]? = some instr ∧ f.apply S.head S.code i instr = .ok g ∧
      g.stack = top' ++ base.map (f.settle S.head S.code instr) ∧ OfKinds ks' top' ∧ S.Provides lo g ∧
      ∀ j, Edge S.code S.placement i j → i < j ∧ S.Leads j ks' := by
  cases h with
  | done => exact absurd hlt (Nat.lt_irrefl _)
  | @step _ instr pops pushes rest _ hi hreads h hnext hforward hall =>
    obtain ⟨taken, below, rfl, htaken, hbelow⟩ := htop.split
    obtain ⟨locals, stack⟩ := f
    obtain rfl : stack = taken ++ (below ++ base) := by rw [← List.append_assoc, ← hstack]
    obtain ⟨hok, hresult⟩ := h locals taken (below ++ base) htaken fun kind slot heq =>
      hf i kind slot hlo hlt (heq ▸ hi) (hreads kind slot heq)
    obtain ⟨g, hg⟩ : ∃ g, Frame.apply S.head S.code i ⟨locals, taken ++ (below ++ base)⟩ instr = .ok g := by
      cases hc : instr.constructs with
      | false => exact hok hc
      | true => exact ha instr hi hc
    obtain ⟨given, hgiven, rfl⟩ := hresult g hg
    have hkinds : ∀ t k, (Frame.settle S.head S.code ⟨locals, taken ++ (below ++ base)⟩ instr t).hasKind k =
        t.hasKind k := fun _ _ => Frame.hasKind_settle _
    refine ⟨instr, _, given ++ below.map _, pushes ++ rest, hi, hg, ?_, hgiven.append (hbelow.map hkinds),
      hf.map hkinds _, fun j hj => ⟨hforward j hj, hall j hj⟩⟩
    rw [List.map_append, List.append_assoc]

/-- Along a whole way nothing fails but constructor calls. The way goes forward and does not leave the stretch. What was
    on the stack below is still there, initialized where a constructor has been called on it. -/
theorem along {lo : Nat} {f : Frame} {is : List Nat} {top base : List VType}
    (hc : Crossing S.code S.placement lo S.last i is j) (h : S.Leads i ks) (hstack : f.stack = top ++ base)
    (htop : OfKinds ks top) (hf : S.Provides lo f) (ha : f.Accepts S.head S.code is) :
    ∃ g top' ks', f.along S.head S.code is = .ok g ∧ g.stack = top' ++ base.map (f.become S.head S.code is) ∧
      OfKinds ks' top' ∧ S.Leads j ks' ∧ (∀ k ∈ is ++ [j], i ≤ k) ∧ (is ++ [j]).Pairwise (· < ·) := by
  induction hc generalizing f top base ks with
  | here i => exact ⟨f, top, ks, rfl, by simpa [Frame.become] using hstack, htop, h, by simp, by simp⟩
  | @step i j k is hlo hhi he _ ih =>
    obtain ⟨hinit, hrest⟩ := ha
    obtain ⟨instr, g, top₁, ks₁, hi, hg, hstack₁, htop₁, hf₁, hnext⟩ := h.apply hlo hhi hstack htop hf hinit
    obtain ⟨hlt, hleads⟩ := hnext k he
    have hstep : f.stepAt S.head S.code i = .ok g := (Frame.stepAt_eq hi).trans hg
    obtain ⟨g', top', ks', halong, hstack', htop', hj, hle, hforward⟩ := ih hleads hstack₁ htop₁ hf₁ (hrest g hstep)
    have hafter : ∀ n ∈ is ++ [j], i < n := fun n hn => Nat.lt_of_lt_of_le hlt (hle n hn)
    refine ⟨g', top', ks', ?_, ?_, htop', hj, ?_, List.pairwise_cons.mpr ⟨hafter, hforward⟩⟩
    · rw [Frame.along, hstep, ok_bind, halong]
    · rw [hstack', List.map_map, Frame.become_cons hi hg]
    · rw [List.cons_append, List.forall_mem_cons]
      exact ⟨Nat.le_refl i, fun n hn => Nat.le_of_lt (hafter n hn)⟩

/-! ### Single instructions -/

/-- An instruction that control goes on behind. -/
theorem next (hlt : i < S.last) (hi : S.code[i]? = some instr) (hj : ∀ op l, instr ≠ .jump op l)
    (hfalls : instr.fallsThrough = true) (hreads : ∀ kind slot, instr = .load kind slot → S.scope.Reads kind slot)
    (h : Exchanges S.head S.code i instr pops pushes) (hrest : S.Leads (i + 1) (pushes ++ rest)) :
    S.Leads i (pops ++ rest) := by
  have hedge : ∀ j, Edge S.code S.placement i j → j = i + 1 := fun j he => by
    rcases (edge_iff hi).mp he with ⟨op, l, heq, -⟩ | ⟨-, rfl⟩
    · exact absurd heq (hj op l)
    · rfl
  refine .step hlt hi hreads h ⟨i + 1, .next hi hfalls⟩ (fun j he => ?_) fun j he => hedge j he ▸ hrest
  rw [hedge j he]
  exact Nat.lt_succ_self i

/-- A jump to a label that lies ahead. -/
theorem jump {op : Opcode} {l : Label} (hlt : i < S.last) (hi : S.code[i]? = some (.jump op l))
    (h : Exchanges S.head S.code i (.jump op l) pops [])
    (hl : S.placement.position? l = some j) (hij : i < j) (htaken : S.Leads j rest)
    (hnext : op.endsBlock = false → S.Leads (i + 1) rest) : S.Leads i (pops ++ rest) := by
  have hedge : ∀ k, Edge S.code S.placement i k → k = j ∨ op.endsBlock = false ∧ k = i + 1 := fun k he => by
    rcases (edge_iff hi).mp he with ⟨op', l', heq, hk⟩ | ⟨hfalls, rfl⟩
    · cases heq
      rw [hl] at hk
      cases hk
      exact .inl rfl
    · exact .inr ⟨by simpa [Instr.fallsThrough] using hfalls, rfl⟩
  refine .step hlt hi nofun h ⟨j, .jump hi hl⟩ (fun k he => ?_) fun k he => ?_
  · rcases hedge k he with rfl | ⟨-, rfl⟩
    · exact hij
    · exact Nat.lt_succ_self i
  · rcases hedge k he with rfl | ⟨hop, rfl⟩
    · exact htaken
    · exact hnext hop

end Leads

/-! ### Code that is emitted -/

/-- Each label is where its mark stands. -/
def Marked (S : Stretch) : Prop := ∀ l j, S.placement.position? l = some j ↔ S.code[j]? = some (.mark l)

/-- What has been emitted from `e` to `e'` takes values of the kinds `before` and leaves values of the kinds `after`. It
    jumps to labels that were made meanwhile and to labels of `out`, which are put behind it and find none of these
    values. -/
structure Passes (S : Stretch) (out : Label → Prop) (e e' : Emitter) (before after : List LocalKind) : Prop where
  jumps : e.Appends (fun i => ∀ op l, i = .jump op l → out l ∨ e.labels ≤ l.id ∧ l.id < e'.labels) e'
  leads : e'.Within S.code → e'.size ≤ S.last → ∀ rest,
    (∀ l, out l → ∃ j, S.placement.position? l = some j ∧ e'.size ≤ j ∧ S.Leads j rest) →
    S.Leads e'.size (after ++ rest) → S.Leads e.size (before ++ rest)

/-- Jumps go to no other labels than those that are made meanwhile. -/
abbrev nowhere : Label → Prop := fun _ => False

end Stretch

theorem Emitter.Appends.grows {P : Instr → Prop} {e e' : Emitter} (h : e.Appends P e') : e.Grows e' := by
  obtain ⟨code, hcode, hlabels, -⟩ := h
  exact ⟨⟨code, hcode.symm⟩, hlabels⟩

namespace Stretch.Passes
variable {S : Stretch} {out out' : Label → Prop} {e e₁ e' : Emitter} {before mid after pops pushes : List LocalKind}
  {instr : Instr}

theorem nil : S.Passes out e e before before := ⟨.refl e, fun _ _ _ _ h => h⟩

theorem trans (h : S.Passes out e e₁ before mid) (h' : S.Passes out e₁ e' mid after) :
    S.Passes out e e' before after := by
  have hlabels := h.jumps.grows.labels
  have hlabels' := h'.jumps.grows.labels
  refine ⟨(h.jumps.imp fun i hi op l hl => ?_).trans (h'.jumps.imp fun i hi op l hl => ?_),
    fun w hlast rest hout hrest => ?_⟩
  · exact (hi op l hl).imp_right fun h => ⟨h.1, Nat.lt_of_lt_of_le h.2 hlabels'⟩
  · exact (hi op l hl).imp_right fun h => ⟨Nat.le_trans hlabels h.1, h.2⟩
  · have hsize := h'.jumps.grows.size_le
    refine h.leads (h'.jumps.grows.within w) (Nat.le_trans hsize hlast) rest (fun l hl => ?_)
      (h'.leads w hlast rest hout hrest)
    obtain ⟨j, hj, hle, hleads⟩ := hout l hl
    exact ⟨j, hj, Nat.le_trans hsize hle, hleads⟩

theorem mono (h : S.Passes out e e' before after) (hout : ∀ l, out l → out' l) :
    S.Passes out' e e' before after :=
  ⟨h.jumps.imp fun _ hi op l hl => (hi op l hl).imp_left (hout l),
    fun w hlast rest hport => h.leads w hlast rest fun l hl => hport l (hout l hl)⟩

/-- Code that jumps nowhere else can stand anywhere. -/
theorem anywhere (h : S.Passes nowhere e e' before after) : S.Passes out e e' before after :=
  h.mono fun _ => False.elim

/-- What lies below is left alone. -/
theorem above (h : S.Passes nowhere e e' before after) (below : List LocalKind) :
    S.Passes nowhere e e' (before ++ below) (after ++ below) := by
  refine ⟨h.jumps, fun w hlast rest _ hrest => ?_⟩
  rw [List.append_assoc] at hrest ⊢
  exact h.leads w hlast (below ++ rest) nofun hrest

/-! ### Emitting -/

theorem single (hj : ∀ op l, instr ≠ .jump op l) (hfalls : instr.fallsThrough = true)
    (hreads : ∀ kind slot, instr = .load kind slot → S.scope.Reads kind slot)
    (h : Exchanges S.head S.code e.size instr pops pushes) : S.Passes out e (e.emit instr) pops pushes := by
  refine ⟨.emit e fun op l heq => absurd heq (hj op l), fun w hlast rest _ hrest => ?_⟩
  rw [Emitter.size_emit] at hlast hrest
  exact .next hlast w.instr hj hfalls hreads h hrest

theorem load {kind : LocalKind} {slot : UInt16} (h : S.scope.Reads kind slot) :
    S.Passes out e (e.emit (.load kind slot)) [] [kind] := by
  refine single nofun rfl (fun kind' slot' heq => ?_) (.load kind slot)
  cases heq
  exact h

theorem this (h : S.scope.method.isStatic = false) : S.Passes out e (e.emit .this) [] [.ref] :=
  load (.inl ⟨rfl, rfl, h⟩)

theorem inert (hi : instr.isInert = true) (h : Exchanges S.head S.code e.size instr pops pushes) :
    S.Passes out e (e.emit instr) pops pushes := by
  have hplain := Instr.isPlain_of_isInert hi
  have haccess := Instr.isAccess_of_isInert hi
  refine single (fun op l heq => ?_) ?_ (fun kind slot heq => ?_) h
  · rw [heq] at hplain
    cases hplain
  · cases instr with
    | op o => exact hplain
    | jump op l => cases hplain
    | _ => rfl
  · rw [heq] at haccess
    cases haccess

theorem call {op : Opcode} {member : MemberRef} (h : Exchanges S.head S.code e.size (.invoke op member) pops pushes) :
    S.Passes out e (e.emit (.invoke op member)) pops pushes := single nofun rfl nofun h

/-- A jump to a label that is put behind the code, or on. -/
theorem jump {op : Opcode} {l : Label} (hl : out l) (h : Exchanges S.head S.code e.size (.jump op l) pops []) :
    S.Passes out e (e.emit (.jump op l)) pops [] := by
  refine ⟨.emit e fun op' l' heq => ?_, fun w hlast rest hout hrest => ?_⟩
  · cases heq
    exact .inl hl
  · rw [Emitter.size_emit] at hlast hrest
    obtain ⟨j, hj, hle, hleads⟩ := hout l hl
    rw [Emitter.size_emit] at hle
    exact .jump hlast w.instr h hj hle hleads fun _ => hrest

/-- Where jumps to a new label have been made, one of two truth values is pushed. -/
theorem truths (hS : S.Marked) (h : S.Passes (· = e.fresh.1) e.fresh.2 e₁ before []) (value value' : Bool) :
    S.Passes nowhere e (e₁.fresh.2.emitAll
      [.truth value, .jump .goto e₁.fresh.1, .mark e.fresh.1, .truth value', .mark e₁.fresh.1]) before [.int] := by
  have hle : e.labels + 1 ≤ e₁.labels := h.jumps.grows.labels
  refine ⟨?_, fun w hlast rest _ hrest => ?_⟩
  · refine (((Emitter.Appends.fresh e).trans (h.jumps.imp ?_)).trans (.fresh e₁)).trans (.emitAll _ ?_)
    · rintro i hi op l rfl
      rcases hi op l rfl with rfl | ⟨hlo, hhi⟩
      · exact .inr ⟨Nat.le_refl _, Nat.lt_succ_of_lt hle⟩
      · exact .inr ⟨Nat.le_of_succ_le hlo, Nat.lt_succ_of_lt hhi⟩
    · rintro i hi op l rfl
      obtain ⟨-, rfl⟩ : op = .goto ∧ l = e₁.fresh.1 := by simpa [Instr.truth] using hi
      exact .inr ⟨Nat.le_of_succ_le hle, Nat.lt_succ_self _⟩
  · have hget {k : Nat} {i : Instr} (hi : [.truth value, .jump .goto e₁.fresh.1, .mark e.fresh.1, .truth value',
        .mark e₁.fresh.1][k]? = some i) : S.code[e₁.size + k]? = some i :=
      Emitter.Within.get (e := e₁.fresh.2) w hi
    rw [Emitter.size_emitAll] at hlast hrest
    have hsize : e₁.size + 5 ≤ S.last := hlast
    have htruth (i : Nat) (b : Bool) : Exchanges S.head S.code i (.truth b) [] [.int] := .push rfl rfl fun _ => rfl
    -- The instructions are gone through from the last to the first.
    have hdone : S.Leads (e₁.size + 4) (.int :: rest) :=
      Leads.next (by omega) (hget (k := 4) rfl) nofun rfl nofun (.mark _) hrest
    have hother : S.Leads (e₁.size + 3) rest :=
      Leads.next (by omega) (hget (k := 3) rfl) nofun rfl nofun (htruth _ _) hdone
    have htaken : S.Leads (e₁.size + 2) rest :=
      Leads.next (by omega) (hget (k := 2) rfl) nofun rfl nofun (.mark _) hother
    have hgoto : S.Leads (e₁.size + 1) (.int :: rest) :=
      Leads.jump (by omega) (hget (k := 1) rfl) (.jump (fun _ => rfl) .nil) ((hS _ _).mpr (hget (k := 4) rfl))
        (by omega) hdone nofun
    have hfirst : S.Leads e₁.size rest :=
      Leads.next (by omega) (hget (k := 0) rfl) nofun rfl nofun (htruth _ _) hgoto
    refine h.leads ((Emitter.Grows.emitAll e₁.fresh.2 _).within w) (by omega) rest (fun l hl => ?_) hfirst
    subst hl
    exact ⟨_, (hS _ _).mpr (hget (k := 2) rfl), by omega, htaken⟩

theorem branchValue (hS : S.Marked) {op : Opcode} (hop : ∀ f : Frame, f.applyJump op = f.popAll op.jumpIntegers)
    (hpops : OfKinds pops op.jumpIntegers) (taken : Bool) :
    S.Passes nowhere e (e.branchValue op taken) pops [.int] := by
  rw [Emitter.branchValue_eq]
  exact truths hS (jump rfl (.jump hop hpops)) (!taken) taken

end Stretch.Passes

/-! ### Computations -/

/-- Whatever the computation gives, the code that it emits takes values of the kinds `before` from the stack and leaves
    others instead. -/
def EmitM.Turns {α : Type} (S : Stretch) (x : EmitM α) (before : List LocalKind) (after : α → List LocalKind) : Prop :=
  ∀ ⦃e : Emitter⦄ ⦃a : α⦄ ⦃e' : Emitter⦄, Runs x e a e' → S.Passes Stretch.nowhere e e' before (after a)

namespace EmitM.Turns
open Stretch (Passes)

variable {S : Stretch} {α β : Type} {x : EmitM α} {k : α → EmitM β} {before : List LocalKind} {mid : α → List LocalKind}
  {after : β → List LocalKind}

theorem bind (hx : Turns S x before mid) (hk : ∀ a, Turns S (k a) (mid a) after) : Turns S (x >>= k) before after := by
  intro e b e' h
  obtain ⟨a, e₁, ha, hb⟩ := Runs.bind_iff.mp h
  exact (hx ha).trans (hk a hb)

theorem pure {b : β} (h : after b = before) : Turns S (Pure.pure b) before after := by
  intro e b' e' hr
  obtain ⟨rfl, rfl⟩ := Runs.pure_iff.mp hr
  rw [h]
  exact .nil

theorem throw (err : CompileError) : Turns S (throw err) before after := fun _ _ _ h => absurd h Runs.throw_iff

/-- What has been looked up is known. -/
theorem lift {x : Lookup α} (h : ∀ a, x.result = .ok a → Turns S (k a) before after) :
    Turns S (liftM x >>= k) before after := by
  intro e b e' hr
  obtain ⟨a, e₁, hrun, hb⟩ := Runs.bind_iff.mp hr
  obtain ⟨ha, rfl⟩ := Runs.lift_iff.mp hrun
  exact h a ha hb

theorem unlessThrown {p : Prop} [Decidable p] {err : CompileError} {y : EmitM β} (h : ¬p → Turns S y before after) :
    Turns S (if p then MonadExcept.throw err >>= fun _ : PUnit => y else y) before after := by
  split
  · intro e b e' hr
    obtain ⟨_, _, hthrow, -⟩ := Runs.bind_iff.mp hr
    cases Runs.throw_iff hthrow
  · exact h ‹_›

theorem emits {is : List Instr} {ks : List LocalKind} (h : ∀ e, S.Passes Stretch.nowhere e (e.emitAll is) before ks) :
    Turns S (EmitM.emitAll is) before fun _ => ks := by
  intro e u e' hr
  obtain rfl := Runs.emitAll_iff.mp hr
  exact h e

theorem emit {i : Instr} {ks : List LocalKind} (h : ∀ e, S.Passes Stretch.nowhere e (e.emit i) before ks) :
    Turns S (EmitM.emit i) before fun _ => ks := by
  intro e u e' hr
  obtain rfl := Runs.emit_iff.mp hr
  exact h e

/-- What lies below is left alone. -/
theorem above {x : EmitM β} (h : Turns S x before after) (below : List LocalKind) :
    Turns S x (before ++ below) fun b => after b ++ below := fun _ _ _ hr => (h hr).above below

end EmitM.Turns

end Classwright
