import Classwright.Proofs.Typing.Operators

/-! # Typing calls

A call finds its receiver and its arguments on the stack, and leaves its result in their place. -/

namespace Classwright

/-- What loading the receiver pushes. -/
def Entry.receiver (b : Bool) : Entry := if b then .object else .exact .uninitializedThis

theorem Entry.isReference_receiver (b : Bool) : (receiver b).sample.isReference = true := by cases b <;> rfl

/-! ### Values -/

namespace Ty
variable {b : Bool} {t : Ty} {σ σ' : List Entry} {v : Entry}

/-- What stands on the stack for a value of the type. -/
inductive Leaves (b : Bool) (t : Ty) (σ : List Entry) : List Entry → Prop
  | void (h : t.isVoid = true) : Leaves b t σ σ
  | value {v : Entry} (h : t.isVoid = false) (hv : t.Has b v) : Leaves b t σ (v :: σ)

theorem leaves_onto (b : Bool) (t : Ty) (σ : List Entry) : t.Leaves b σ (t.onto σ) := by
  unfold onto
  split
  · exact .void ‹_›
  · exact .value (Bool.eq_false_iff.mpr ‹_›) (.inl rfl)

theorem Leaves.exists_value (h : t.Leaves b σ σ') (hv : t.isVoid = false) : ∃ v, t.Has b v ∧ σ' = v :: σ := by
  cases h with
  | void h =>
    rw [hv] at h
    cases h
  | value _ hv => exact ⟨_, hv, rfl⟩

theorem Has.ne_uninitialized (h : t.Has b v) (site : Nat) : v ≠ .exact (.uninitialized site) := by
  rcases h with rfl | ⟨-, -, rfl⟩
  · intro heq
    have hold : t.entry.Holds (.uninitialized site) := heq ▸ rfl
    exact (entry_holds hold).2 site rfl
  · nofun

end Ty

/-- New objects on the stack come from instructions before `n`. -/
def Sites (n : Nat) (σ : List Entry) : Prop := ∀ site, .exact (.uninitialized site) ∈ σ → site < n

namespace Sites
variable {n k : Nat} {σ : List Entry} {v : Entry}

theorem nil : Sites n [] := nofun

theorem mono (h : Sites n σ) (hnk : n ≤ k) : Sites k σ := fun site hs => Nat.lt_of_lt_of_le (h site hs) hnk

theorem cons (h : Sites n σ) (hv : ∀ site, v ≠ .exact (.uninitialized site)) : Sites n (v :: σ) := by
  intro site hs
  rcases List.mem_cons.mp hs with heq | hs
  · exact absurd heq.symm (hv site)
  · exact h site hs

theorem leaves {b : Bool} {t : Ty} {σ' : List Entry} (h : Sites n σ) (hl : t.Leaves b σ σ') : Sites n σ' := by
  cases hl with
  | void _ => exact h
  | value _ hv => exact h.cons hv.ne_uninitialized

theorem receiver (h : Sites n σ) (b : Bool) : Sites n (.receiver b :: σ) :=
  h.cons fun _ => by cases b <;> nofun

end Sites

/-! ### The method around it -/

/-- The code is that of a method which is compiled among well-formed classes. All its locals have values, and the
    receiver is in the first slot. -/
structure Subject.Sound (B : Subject) (c : Context) : Prop where
  classes : c.classes.WellFormed
  marked : B.Marked
  laid : B.scope.Laid
  values : B.scope.Values
  receiver : B.scope.method.isStatic = false →
    ∃ x v, B.scope.get? x = some v ∧ v.slot = 0 ∧ v.type.isReference = true
  head : B.head.isConstructor = B.scope.method.isConstructor
  constructors : B.scope.method.isConstructor = true → B.scope.method.isStatic = false
  explicit : B.explicit = true → B.scope.method.isStatic = false

namespace Subject
variable {B : Subject} {c : Context} {b : Bool} {σ : List Entry} {i : Nat}

/-- No other local is where the receiver is. -/
theorem Sound.isReference_receiver (hB : B.Sound c) (hstatic : B.scope.method.isStatic = false) {x : String} {v : Local}
    (hv : B.scope.get? x = some v) (hslot : v.slot.toNat = 0) : v.type.isReference = true := by
  obtain ⟨y, w, hw, hzero, href⟩ := hB.receiver hstatic
  by_cases hxy : x = y
  · subst hxy
    rw [hw] at hv
    cases hv
    exact href
  · have hvw := Ty.width_pos (hB.values x v hv)
    have hww := Ty.width_pos (hB.values y w hw)
    have hzero : w.slot.toNat = 0 := by rw [hzero]; rfl
    rcases hB.laid.apart x y v w hv hw hxy with h | h <;> omega

theorem Usable.receiver (hb : b = false → B.explicit = true) : B.Usable b (.receiver b) := by
  cases b with
  | true => exact usable_object
  | false => exact fun _ => ⟨rfl, rfl, hb rfl⟩

theorem Steps.this (hB : B.Sound c) (hstatic : B.scope.method.isStatic = false) :
    B.Steps i .this ⟨b, σ⟩ ⟨b, .receiver b :: σ⟩ := by
  obtain ⟨x, v, hv, hzero, href⟩ := hB.receiver hstatic
  have hentry : v.entry b = .receiver b := by
    cases b with
    | true => rw [v.entry_true, Ty.entry_of_isReference href]; rfl
    | false => exact Local.entry_receiver (by rw [hzero]; rfl)
  have hload : B.Steps i (.load .ref v.slot) ⟨b, σ⟩ ⟨b, v.entry b :: σ⟩ := .load hv (by
    rw [hentry]
    exact Entry.isReference_receiver b)
  rw [hentry, hzero] at hload
  exact hload

end Subject

/-! ### Calls -/

theorem CallKind.opcode_of (target : CallTarget) (m : MethodSig) :
    (CallKind.of target m).opcode = .invokestatic ↔ m.isStatic = true := by
  unfold CallKind.of
  split
  · simp [CallKind.opcode, *]
  · split
    · simp [CallKind.opcode, *]
    · split <;> simp [CallKind.opcode, *]

theorem values_of_invoke {c : Context} (hc : c.classes.WellFormed) {target : CallTarget} {name : String} {args : List Ty}
    {site : Span} {e e' : Emitter} {t : Ty} (h : Runs (lowerInvoke c target name args site) e t e') :
    ∀ t ∈ args, t.isVoid = false := by
  obtain ⟨m, -, hfound, -⟩ := runs_invoke h
  obtain ⟨hm, -, rfl⟩ := Context.wellFormed_method? hc hfound
  exact fun t ht => (hm.params t ht).1

namespace Subject
variable {B : Subject} {c : Context} {b : Bool} {σ σ₁ : List Entry} {e e₁ e' : Emitter}

/-- The result of a static method comes to lie where the receiver was. -/
theorem Emits.dropReceiver {v : Entry} (hw : v.sample.width = 1) (t : Ty) :
    B.Emits .none e (e.emitAll (dropReceiver t)) ⟨b, t.onto (v :: σ)⟩ ⟨b, t.onto σ⟩ := by
  cases hvoid : t.isVoid with
  | true =>
    obtain rfl := Ty.eq_void hvoid
    exact .emit (Steps.pop hw) nofun
  | false =>
    obtain ⟨u, -, -, -, -, -, hwidth⟩ := Ty.Has.value (b := b) (t := t) (.inl rfl) hvoid
    rw [Ty.onto_of_value hvoid, Ty.onto_of_value hvoid]
    rcases t.entry.sample.width_eq_one_or_two with h | h
    · simp only [Classwright.dropReceiver, ← hwidth, h]
      exact .trans (.emit (Steps.swap h hw) nofun) (.emit (Steps.pop hw) nofun)
    · simp only [Classwright.dropReceiver, ← hwidth, h]
      exact .trans (.trans (.emit (Steps.dup2X1 h hw) nofun) (.emit (Steps.pop2 h) nofun)) (.emit (Steps.pop hw) nofun)

/-- What a call finds below its arguments. -/
inductive Below (B : Subject) (b : Bool) (e : Emitter) (target : CallTarget) (name : String) (σ : List Entry) :
    List Entry → Prop
  | nothing (hstatic : target.staticOnly = true) (hpushed : target.receiverPushed = false)
      (hnew : target.isNew = false) : Below B b e target name σ σ
  | receiver {v : Entry} (hv : v.sample.isReference = true) (hu : B.Usable b v) (hobject : b = true → v = .object)
      (hpushed : target.receiverPushed = true) (hnew : target.isNew = false) : Below B b e target name σ (v :: σ)
  | this (hname : name = Name.init) (hnew : target.isNew = false) : Below B b e target name σ (.receiver b :: σ)
  | new {site : Nat} (hname : name = Name.init) (hnew : target.isNew = true)
      (hsite : e.Within B.code → B.code[site]? = some (.type .new target.cls.name))
      (hσ : .exact (.uninitialized site) ∉ σ) :
      Below B b e target name σ (.exact (.uninitialized site) :: .exact (.uninitialized site) :: σ)

/-- A call takes its arguments and its receiver and leaves its result. -/
theorem Emits.invoke (hB : B.Sound c) (hb : b = false → B.explicit = true) {target : CallTarget} {name : String}
    {args : List Ty} {site : Span} {t : Ty} (h : Runs (lowerInvoke c target name args site) e t e')
    (hbelow : B.Below b e₁ target name σ σ₁) (hg : e₁.Grows e) {vs : List Entry}
    (hargs : List.Forall₂ (Ty.Has b) args vs) (hvoid : t.isVoid = true → b = true) :
    ∃ σ', t.Leaves b σ σ' ∧ B.Emits .none e e' ⟨b, vs.reverse ++ σ₁⟩ ⟨b, σ'⟩ := by
  obtain ⟨m, interface, hfound, hstatic, rfl, rfl⟩ := runs_invoke h
  obtain ⟨hm, rfl, rfl⟩ := Context.wellFormed_method? hB.classes hfound
  have hopcode := CallKind.opcode_of target m
  have husable := Usable.of_args hargs hb
  have hinit : m.name = Name.init → m.isStatic = false ∧ m.returns = .void := fun hname =>
    hm.constructors (beq_iff_eq.mpr hname)
  cases hms : m.isStatic with
  | true =>
    have hnotInit : m.name ≠ Name.init := fun hname => by
      rw [hms] at hinit
      cases (hinit hname).1
    rw [hopcode.mpr hms]
    cases hbelow with
    | nothing _ hpushed hnew =>
      rw [hnew, hpushed]
      exact ⟨_, Ty.leaves_onto b _ σ, .emit (Steps.invokestatic hm hargs rfl husable) nofun⟩
    | receiver hv _ _ hpushed hnew =>
      rw [hnew, hpushed]
      refine ⟨_, Ty.leaves_onto b _ σ, .trans (.emit (Steps.invokestatic hm hargs rfl husable) nofun)
        (.dropReceiver ?_ _)⟩
      exact VType.width_of_isReference hv
    | this hname => exact absurd hname hnotInit
    | new hname => exact absurd hname hnotInit
  | false =>
    have hop : (CallKind.of target m).opcode ≠ .invokestatic := fun h => by
      rw [hopcode.mp h] at hms
      cases hms
    rw [Bool.false_and]
    by_cases hname : m.name = Name.init
    · obtain ⟨-, hreturns⟩ := hinit hname
      cases hbelow with
      | nothing hs =>
        rw [hstatic hs] at hms
        cases hms
      | receiver hv _ hobject _ hnew =>
        rw [hnew, hreturns] at hvoid ⊢
        obtain rfl := hobject (hvoid rfl)
        exact ⟨_, .void rfl, .emit (Steps.construct_object hm hargs rfl hop hname husable _) nofun⟩
      | this _ hnew =>
        rw [hnew, hreturns] at hvoid ⊢
        obtain rfl := hvoid rfl
        exact ⟨_, .void rfl, .emit (Steps.construct_object hm hargs rfl hop hname husable _) nofun⟩
      | new _ hnew hsite hσ =>
        rw [hnew]
        refine ⟨_, .value rfl (.inl rfl), .emit_within (fun w => ?_) nofun⟩
        exact Steps.construct hm hargs rfl hop hname hreturns husable (hsite (hg.within w)) hσ
    · cases hbelow with
      | nothing hs =>
        rw [hstatic hs] at hms
        cases hms
      | receiver hv hu _ _ hnew =>
        rw [hnew]
        exact ⟨_, Ty.leaves_onto b _ σ, .emit (Steps.invoke hm hargs rfl hop hname hv husable hu) nofun⟩
      | this h => exact absurd h hname
      | new h => exact absurd h hname

end Subject

end Classwright
