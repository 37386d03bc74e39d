import Classwright.Proofs.Typing.Method

/-! # Lowered code can be typed

The verifier accepts the code of a method that has been lowered, or it objects to one of two things that lowering does
not look for: a local is read before anything is assigned to it, or a constructor is called that has been called
before. -/

namespace Classwright

open Source (Stmt)

/-! ### The end of the code -/

theorem MethodSig.closing_eq (m : MethodSig) : ∃ is op, m.closing = is ++ [.op op] ∧ op.endsBlock = true := by
  unfold closing
  split
  · rename_i hvoid
    rw [Ty.eq_void hvoid]
    exact ⟨[], .returnVoid, rfl, rfl⟩
  · exact ⟨[.type .new Name.runtimeException, .op .dup, .str "No return statement",
      .invoke .invokespecial ⟨Name.runtimeException, Name.init, Ty.methodDescriptor [.string] .void, false⟩],
      .athrow, rfl, rfl⟩

/-! ### Shapes of all frames -/

namespace Subject
variable {B : Subject} {shapes : Nat → Shape}

/-- Each instruction has a shape of the frames before it, and what can come next finds frames of its own shape. -/
structure Assigned (B : Subject) (shapes : Nat → Shape) : Prop where
  uses : ∀ ⦃i instr⦄, B.code[i]? = some instr → B.Uses instr (shapes i)
  apply : ∀ ⦃i instr f⦄, B.code[i]? = some instr → B.Fits (shapes i) f →
    Meets (fun g => ∀ j, Edge B.code B.placement i j → B.Fits (shapes j) g) (Excused instr)
      (f.apply B.head B.code i instr)

theorem Typed.exists_assigned {s s' : Shape} (h : B.Typed .none 0 B.code.size s s') :
    ∃ shapes : Nat → Shape, shapes 0 = s ∧ B.Assigned shapes := by
  obtain ⟨shapes, hfirst, -, hall⟩ := h
  have hat {i : Nat} {instr : Instr} (hi : B.code[i]? = some instr) : ∃ instr', B.code[i]? = some instr' ∧ _ :=
    hall i (Nat.zero_le i) (Array.getElem?_eq_some_iff.mp hi).1
  refine ⟨shapes, hfirst, fun i instr hi => ?_, fun i instr f hi hf => ?_⟩
  · obtain ⟨instr', hi', hused, -⟩ := hat hi
    cases hi.symm.trans hi'
    exact hused
  · obtain ⟨instr', hi', -, hrule⟩ := hat hi
    cases hi.symm.trans hi'
    refine (hrule f hf).imp fun g hg j hj => ?_
    rcases hg j hj with ⟨-, -, hfits⟩ | ⟨l, t, hport, -⟩
    · exact hfits
    · exact hport.elim

theorem Assigned.carried (h : B.Assigned shapes) :
    Dataflow.Carried B.head B.code B.placement fun i f => B.Fits (shapes i) f where
  apply i j instr f g hi hf ha hj := by
    have hmeets := h.apply hi hf
    rw [ha] at hmeets
    exact hmeets j hj
  join i f g j hf hg hj := by
    obtain ⟨j', hj', hfits⟩ := Shape.Fits.join hf hg
    rw [hj] at hj'
    cases hj'
    exact hfits

/-- Nothing but what is excused can be wrong with code that has shapes. -/
theorem Assigned.excused (h : B.Assigned shapes)
    (hjumps : ∀ (i : Nat) (op : Opcode) (l : Label), B.code[i]? = some (.jump op l) →
      ∃ j, B.placement.position? l = some j)
    (hlast : ∃ (n : Nat) (op : Opcode), B.code.size = n + 1 ∧ B.code[n]? = some (.op op) ∧ op.endsBlock = true)
    {err : FormatError} (hfail : Dataflow.Failure B.head B.code B.placement (fun i f => B.Fits (shapes i) f) err) :
    ∃ i instr fault, B.code[i]? = some instr ∧ err = .inconsistentFrame i fault ∧ Excused instr fault := by
  obtain ⟨n, op, hsize, hn, hop⟩ := hlast
  cases hfail with
  | @apply i instr f fault hi hf ha =>
    have hmeets := h.apply hi hf
    rw [ha] at hmeets
    have hexcused : Excused instr fault := hmeets
    exact ⟨i, instr, fault, hi, by cases hexcused <;> rfl, hexcused⟩
  | join hf hg hj =>
    obtain ⟨j, hj', -⟩ := Shape.Fits.join hf hg
    rw [hj] at hj'
    cases hj'
  | unplaced hi hl =>
    obtain ⟨j, hj⟩ := hjumps _ _ _ hi
    rw [hl] at hj
    cases hj
  | @fallsOff i instr f hi hf hfalls hend =>
    obtain rfl : i = n := by
      have hlt := (Array.getElem?_eq_some_iff.mp hi).1
      omega
    cases hi.symm.trans hn
    simp [Instr.fallsThrough, hop] at hfalls
  | empty hempty => omega

end Subject

/-! ### Methods -/

namespace Lowered
variable {c : Context} {method : MethodSig} {body : List Stmt} {site : Span} {out : MethodBody} {s₀ s : Scope}
  {e₀ e : Emitter} {p : Placement}

/-- Control does not go past the last instruction. -/
theorem exists_last (h : Lowered c method body site out s₀ s e₀ e) :
    ∃ n op, out.code.instrs.size = n + 1 ∧ out.code.instrs[n]? = some (.op op) ∧ op.endsBlock = true := by
  obtain ⟨is, op, heq, hop⟩ := method.closing_eq
  refine ⟨e.size + is.length, op, ?_, h.within.get (by rw [heq]; simp), hop⟩
  have hsize : (e.emitAll method.closing).size = e.size + is.length + 1 := by simp [heq, Nat.add_assoc]
  rw [h.code]
  exact hsize

/-- What is typed of a method. -/
def subject (c : Context) (method : MethodSig) (body : List Stmt) (out : MethodBody) (p : Placement) (s : Scope) :
    Subject :=
  ⟨c.head method, out.code.instrs, p, s, method.isConstructor && beginsWithConstructor body⟩

section Typing
variable (hc : c.classes.WellFormed) (hm : method.WellFormed) (hp : out.code.placement = .ok p)
include hc hm hp

theorem sound (h : Lowered c method body site out s₀ s e₀ e) : (subject c method body out p s).Sound c := by
  have hopens := Scope.opens (fun hc => (hm.constructors hc).1) hm.params h.scope
  obtain ⟨locals, hfills, -⟩ := hopens.fills
  have hmethod : s.method = method := h.grows.method.trans hopens.method_eq
  have hstatic : method.isConstructor = true → s.method.isStatic = false := fun hctor => by
    rw [hmethod]
    exact (hm.constructors hctor).1
  refine ⟨hc, out.code.position?_eq_some hp, hfills.laid.grows h.grows, hfills.values.grows h.grows, fun hs => ?_, ?_,
    ?_, fun hexplicit => hstatic (Bool.and_eq_true_iff.mp hexplicit).1⟩
  · rw [show (subject c method body out p s).scope.method = method from hmethod] at hs
    obtain ⟨x, v, hv, hslot, href⟩ := hopens.receiver hs
    exact ⟨x, v, h.grows.get? hv, hslot, href⟩
  · exact congrArg MethodSig.isConstructor hmethod.symm
  · intro hctor
    rw [show (subject c method body out p s).scope.method = method from hmethod] at hctor
    exact hstatic hctor

/-- Up to the call of another constructor, the receiver of a constructor is uninitialized. -/
theorem emits (h : Lowered c method body site out s₀ s e₀ e) (s' : Shape) :
    (subject c method body out p s).Emits .none {} (e.emitAll method.closing) ⟨!method.isConstructor, []⟩ s' := by
  have hB := h.sound hc hm hp
  refine .trans ?_ (Subject.emits_closing hB method s')
  rcases h.opening with ⟨hopen, hbase⟩ | ⟨hopen, rfl⟩
  · obtain ⟨hctor, -⟩ := Bool.and_eq_true_iff.mp hopen
    have hstatic := hB.constructors (by rw [← hB.head]; exact hctor)
    have hexits : Subject.Exits .none e₀.blocks := by
      rw [(EmitM.Adds.lowerBaseConstructor c site _ _ _ hbase).blocks]
      nofun
    rw [hctor]
    exact (Subject.emits_base hB hstatic hbase).trans (Subject.clean_block hB body h.body .refl .none hexits)
  · cases hctor : method.isConstructor with
    | false => exact Subject.clean_block hB body h.body .refl .none nofun
    | true =>
      have hbegins : beginsWithConstructor body = true := by simpa [hctor] using hopen
      exact Subject.emits_first hB (by simp [subject, hctor, hbegins]) hbegins .refl h.body nofun

omit hc hp in
/-- The receiver of a constructor is uninitialized at the entry. -/
theorem exists_entry (h : Lowered c method body site out s₀ s e₀ e) : ∃ f : Frame,
    (c.head method).entryFrame = .ok f ∧ (subject c method body out p s).Fits ⟨!method.isConstructor, []⟩ f := by
  have hopens := Scope.opens (fun hc => (hm.constructors hc).1) hm.params h.scope
  obtain ⟨locals, hfills, hentry⟩ := hopens.fills
  refine ⟨{ locals }, hentry, hfills.fits h.grows fun hctor => ?_⟩
  obtain ⟨x, v, hv, hslot, -⟩ := hopens.receiver (hm.constructors (by simpa using hctor)).1
  exact ⟨x, v, hv, hslot⟩

/-- The code can be given shapes that start from the entry. -/
theorem exists_assigned (h : Lowered c method body site out s₀ s e₀ e) : ∃ (f : Frame) (shapes : Nat → Shape),
    (c.head method).entryFrame = .ok f ∧ (subject c method body out p s).Fits (shapes 0) f ∧
      (subject c method body out p s).Assigned shapes := by
  obtain ⟨f, hentry, hfits⟩ := h.exists_entry (p := p) hm
  have htyped := (h.emits hc hm hp .idle).typed h.within
  have hsize : (e.emitAll method.closing).size = (subject c method body out p s).code.size := by
    rw [subject, h.code]
    rfl
  rw [hsize] at htyped
  obtain ⟨shapes, hfirst, hassigned⟩ := htyped.exists_assigned
  exact ⟨f, shapes, hentry, hfirst ▸ hfits, hassigned⟩

end Typing

end Lowered

/-- The method has been lowered, among well-formed classes, to code that the verifier accepts or that has one of two
    faults: it reads a local that nothing has been assigned to, or it calls the constructor of an object that has been
    initialized. -/
theorem lowered_typed_or_excused {c : Context} {method : MethodSig} {body : List Stmt} {site : Span} {out : MethodBody}
    (hc : c.classes.WellFormed) (hm : method.WellFormed) (hlower : (lowerMethod c method body site).result = .ok out) :
    ∃ p f, out.code.placement = .ok p ∧ (c.head method).entryFrame = .ok f ∧
      ((∃ d, Dataflow.analyze (c.head method) out.code.instrs p f = .ok d) ∨
        ∃ i instr fault, Dataflow.analyze (c.head method) out.code.instrs p f = .error (.inconsistentFrame i fault) ∧
          out.code.instrs[i]? = some instr ∧ Excused instr fault) := by
  obtain ⟨s₀, s, e₀, e, h⟩ := exists_lowered hlower
  obtain ⟨p, hp⟩ := h.exists_placement
  obtain ⟨f, shapes, hentry, hfirst, hassigned⟩ := h.exists_assigned hc hm hp
  refine ⟨p, f, hp, hentry, ?_⟩
  have hmeets : Meets _ _ (Dataflow.analyze (c.head method) out.code.instrs p f) :=
    Dataflow.analyze_meets hassigned.carried hfirst
  cases hresult : Dataflow.analyze (c.head method) out.code.instrs p f with
  | ok d => exact .inl ⟨d, rfl⟩
  | error err =>
    rw [hresult] at hmeets
    obtain ⟨i, instr, fault, hi, rfl, hexcused⟩ :=
      hassigned.excused (fun i op l => out.code.exists_position? hp) h.exists_last hmeets
    exact .inr ⟨i, instr, fault, rfl, hi, hexcused⟩

/-! ### A class that counts -/

def counterClass : ClassSig where
  name := "demo/Counter"
  fields := [⟨"count", false, .int⟩]
  methods := [.constructor [], .constructor [⟨"n", .int⟩]]

def counterTable : ClassTable where
  provider _ := .ok none
  sources := [⟨0, { name := Name.object, base := none, methods := [.constructor []] }⟩, ⟨1, counterClass⟩]

def counterContext : Context where
  classes := counterTable.view
  imports := {}
  own := counterClass
  options := {}

theorem wellFormed_counter : counterContext.classes.WellFormed :=
  ClassTable.wellFormed_view (by decide) nofun

/-- Bodies of a constructor: one without statements, one that reads a local which has no value, and one that calls
    another constructor too late. -/
def counterBodies : List (List Stmt) :=
  let chain (links : List Source.Link) : Source.Expr := (Source.MathExpr.mk ⟨[], .chain links {}, {}⟩ [] {}).toAnd.toExpr
  [[],
    [.var [⟨⟨"x", {}⟩, { name := "int" }, none, {}⟩] {}, .expr (chain [.name ⟨"x", {}⟩])],
    [.expr (chain [.name ⟨"n", {}⟩]), .expr (chain [.call ⟨⟨Name.constructorKeyword, {}⟩, [], {}⟩])]]

theorem lowered_typed_or_excused_counter : counterContext.classes.WellFormed ∧
    (MethodSig.constructor [⟨"n", .int⟩]).WellFormed ∧ ∀ body ∈ counterBodies, ∃ out p f,
      (lowerMethod counterContext (.constructor [⟨"n", .int⟩]) body {}).result = .ok out ∧
      out.code.placement = .ok p ∧ (counterContext.head (.constructor [⟨"n", .int⟩])).entryFrame = .ok f ∧
      ((∃ d, Dataflow.analyze (counterContext.head (.constructor [⟨"n", .int⟩])) out.code.instrs p f = .ok d) ∨
        ∃ i instr fault, Dataflow.analyze (counterContext.head (.constructor [⟨"n", .int⟩])) out.code.instrs p f =
          .error (.inconsistentFrame i fault) ∧ out.code.instrs[i]? = some instr ∧ Excused instr fault) := by
  have hm : (MethodSig.constructor [⟨"n", .int⟩]).WellFormed := by decide
  refine ⟨wellFormed_counter, hm, fun body hbody => ?_⟩
  have hok : ∀ body ∈ counterBodies,
      (lowerMethod counterContext (.constructor [⟨"n", .int⟩]) body {}).result.toOption.isSome = true := by
    decide +kernel
  obtain ⟨out, hout⟩ := Option.isSome_iff_exists.mp (hok body hbody)
  rw [toOption_eq_some] at hout
  obtain ⟨p, f, hrest⟩ := lowered_typed_or_excused wellFormed_counter hm hout
  exact ⟨out, p, f, hout, hrest⟩

-- The verifier accepts the first body and objects to the others.
example : (counterBodies.map fun body =>
    match (lowerMethod counterContext (.constructor [⟨"n", .int⟩]) body {}).result with
    | .ok out => do
      let p ← out.code.placement.toOption
      match Dataflow.analyze (counterContext.head (.constructor [⟨"n", .int⟩])) out.code.instrs p
          { locals := [.uninitializedThis, .integer] } with
      | .ok _ => none
      | .error err => some err
    | .error _ => none) = [none, some (.inconsistentFrame 2 (.wrongLocal 2 .top .int)),
      some (.inconsistentFrame 5 (.alreadyInitialized (.object "demo/Counter")))] := by
  decide +kernel

end Classwright
