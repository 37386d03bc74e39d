import Classwright.Classes.Table
import Classwright.Proofs.Hierarchy
import Classwright.Proofs.Lowering.Emission

/-! # Which constructors are called

A constructor is looked up as methods are: in the class that is named, and if it has none for these arguments in the
classes above it. The code names the first class all the same. So a call is refused exactly if neither the class nor
one above it has such a constructor, and a class without one is taken to have that of its base class. -/

namespace Classwright

/-! ### Calls in the code of an expression -/

/-- The code of `e'` is that of `e` followed by code which calls only methods that were looked up. -/
def Emitter.Calls (c : Context) (e e' : Emitter) : Prop :=
  ∃ code, e'.instrs.toList = e.instrs.toList ++ code ∧ e.labels ≤ e'.labels ∧
    ∀ op member, .invoke op member ∈ code → c.Finds member

theorem Emitter.Calls.kept (c : Context) : Kept c.Finds (Calls c) := by
  have heq : Calls c = Appends fun i => ∀ op member, i = .invoke op member → c.Finds member := by
    funext e e'
    simp only [Calls, Appends, eq_iff_iff]
    refine exists_congr fun code => and_congr_right' (and_congr_right' ⟨fun h i hi op member heq => ?_, ?_⟩)
    · exact h op member (heq ▸ hi)
    · exact fun h op member hi => h _ hi op member rfl
  rw [heq]
  refine Appends.kept (fun i hi op member heq => ?_) (fun op member hfinds _ _ heq => ?_) (fun _ _ _ _ => nofun)
    fun _ _ _ => nofun
  · rw [heq] at hi
    cases hi
  · cases heq
    exact hfinds

theorem Context.Finds.exists_above {c : Context} {member : MemberRef} (h : c.Finds member) :
    ∃ cls m, c.classes.Above member.owner cls ∧ cls.method? member.name m.paramTypes = some m ∧
      m.descriptor = member.descriptor ∧ ∀ own m', c.classes.find member.owner = .ok own →
        own.method? member.name m.paramTypes = some m' → m' = m := by
  obtain ⟨m, name, args, site, hfound, hname, hdesc⟩ := h
  have hwalk := Lookup.locate_eq_ok.mp hfound
  obtain ⟨cls, habove, hm⟩ := ClassView.walk_some hwalk
  obtain ⟨rfl, rfl⟩ := cls.method?_eq_some hm
  rw [hname]
  refine ⟨cls, m, habove, hm, hdesc.symm, fun own m' hown hm' => ?_⟩
  have hself : (c.classes.method? member.owner m.name m.paramTypes).result = .ok (some m') :=
    ClassView.walk_self hown hm'
  cases hwalk.symm.trans hself
  rfl

/-! ### Calls that are refused -/

/-- What is called as it is need not be static. -/
theorem callTarget_special {c : Context} {s : Scope} {state : ChainState} {name : Source.Ident} {site : Span}
    {target : CallTarget} {method : String} {e e' : Emitter}
    (h : Runs (callTarget c s state name site) e (target, method) e') (hs : target.special = true) :
    target.staticOnly = false := by
  cases state with
  | start =>
    simp only [callTarget, startCall, Runs.ite_iff, Runs.bind_iff, Runs.pure_iff] at h
    rcases h with ⟨-, _, _, -, _, _, -, heq, -⟩ | ⟨-, found, _, -, h⟩
    · cases heq
      rfl
    · cases found with
      | some cls =>
        simp only [Runs.ite_iff, Runs.bind_iff, Runs.pure_iff, Runs.throw_iff] at h
        rcases h with ⟨-, _, _, hthrow, -⟩ | ⟨-, _, _, -, heq, -⟩
        · cases hthrow
        · cases heq
          rfl
      | none =>
        simp only [Runs.bind_iff, Runs.pure_iff] at h
        obtain ⟨_, _, -, heq, -⟩ := h
        cases heq
        cases hs
  | super superSite =>
    simp only [callTarget, superCall] at h
    split at h
    · cases Runs.throw_iff h
    · simp only [Runs.ite_iff, Runs.bind_iff, Runs.pure_iff] at h
      obtain ⟨_, _, -, ⟨-, _, _, -, heq, -⟩ | ⟨-, heq, -⟩⟩ := h
      · cases heq
        rfl
      · cases heq
        rfl
  | cls cls =>
    obtain ⟨heq, -⟩ := Runs.pure_iff.mp h
    cases heq
    cases hs
  | value t =>
    simp only [callTarget, Runs.bind_iff, Runs.pure_iff] at h
    obtain ⟨_, _, -, _, _, -, heq, -⟩ := h
    cases heq
    cases hs

/-- How the lowering of a call can end. The instruction that makes the call has the index `n`. -/
inductive CallEnds (c : Context) (owner name : String) (args : List Ty) (site : Span) {α : Type} (x : EmitM α)
    (e : Emitter) (n : Nat) : Prop where
  /-- The lookup of the method fails. -/
  | fault (err : CompileError) (hfound : (c.method? owner name args site).result = .error err) (hx : Fails x e err)
  /-- No class has the method. -/
  | unknown (hnone : ∀ cls, c.classes.Above owner cls → cls.method? name args = none)
      (hx : Fails x e (.unknownMethod name (", ".intercalate (args.map (·.text))) owner site))
  /-- A class has the method, but the code names the class where the search began. -/
  | called {cls : ClassSig} {m : MethodSig} {a : α} {e' : Emitter} {op : Opcode} {interface : Bool}
      (habove : c.classes.Above owner cls) (hm : cls.method? name args = some m) (hx : Runs x e a e')
      (hcall : e'.instrs[n]? = some (.invoke op ⟨owner, name, m.descriptor, interface⟩))

namespace CallEnds
variable {c : Context} {owner name : String} {args : List Ty} {site : Span} {α β : Type} {e e₀ : Emitter} {n : Nat}

theorem after {x : EmitM α} {k : α → EmitM β} {a : α} (hx : Runs x e₀ a e)
    (h : CallEnds c owner name args site (k a) e n) : CallEnds c owner name args site (x >>= k) e₀ n := by
  cases h with
  | fault err hfound hk => exact .fault err hfound (hx.fails_bind hk)
  | unknown hnone hk => exact .unknown hnone (hx.fails_bind hk)
  | called habove hm hk hcall => exact .called habove hm (Runs.bind_iff.mpr ⟨_, _, hx, hk⟩) hcall

theorem map {x : EmitM α} (f : α → β) (h : CallEnds c owner name args site x e n) :
    CallEnds c owner name args site (x >>= fun a => pure (f a)) e n := by
  cases h with
  | fault err hfound hx => exact .fault err hfound hx.bind
  | unknown hnone hx => exact .unknown hnone hx.bind
  | called habove hm hx hcall =>
    exact .called habove hm (Runs.bind_iff.mpr ⟨_, _, hx, Runs.pure_iff.mpr ⟨rfl, rfl⟩⟩) hcall

end CallEnds

theorem lowerInvoke_ends (c : Context) {target : CallTarget} (ht : target.staticOnly = false) (name : String)
    (args : List Ty) (site : Span) (e : Emitter) :
    CallEnds c target.cls.name name args site (lowerInvoke c target name args site) e e.size := by
  cases hfound : (c.method? target.cls.name name args site).result with
  | error err => exact .fault err hfound (.bind (.lift hfound))
  | ok found =>
    have hlookup : Runs (liftM (c.method? target.cls.name name args site) : EmitM _) e found e :=
      Runs.lift_iff.mpr ⟨hfound, rfl⟩
    have hwalk := Lookup.locate_eq_ok.mp hfound
    cases found with
    | none => exact .unknown (fun cls => ClassView.walk_none hwalk) (hlookup.fails_bind rfl)
    | some m =>
      obtain ⟨cls, habove, hm⟩ := ClassView.walk_some hwalk
      obtain ⟨rfl, -⟩ := cls.method?_eq_some hm
      have hruns : ∃ t e', Runs (lowerInvoke c target m.name args site) e t e' :=
        ⟨_, _, Runs.bind_iff.mpr ⟨some m, e, hlookup, Runs.ite_iff.mpr (.inr ⟨by simp [ht], Runs.bind_iff.mpr ⟨(), _,
          Runs.emit_iff.mpr rfl, Runs.bind_iff.mpr ⟨(), _, Runs.emitAll_iff.mpr rfl, Runs.pure_iff.mpr ⟨rfl, rfl⟩⟩⟩⟩)⟩⟩
      obtain ⟨t, e', hrun⟩ := hruns
      obtain ⟨m', interface, hfound', -, -, rfl⟩ := runs_invoke hrun
      cases hfound.symm.trans hfound'
      exact .called habove hm hrun (Emitter.Within.instr (Emitter.Grows.emitAll _ _).instrs)

/-- Each constructor that an expression calls is one of the class that the code names or of a class above it, and one of
    the class itself goes first. The call of a constructor is refused only if neither the class nor one above it has a
    constructor for the arguments. -/
theorem constructor_found_above (c : Context) (s : Scope) :
    (∀ x e t e', Runs (lowerExpr c s x) e t e' → ∃ code, e'.instrs.toList = e.instrs.toList ++ code ∧
      ∀ op member, .invoke op member ∈ code → member.name = Name.init →
        ∃ cls m, c.classes.Above member.owner cls ∧ cls.method? Name.init m.paramTypes = some m ∧
          m.descriptor = member.descriptor ∧ ∀ own m', c.classes.find member.owner = .ok own →
            own.method? Name.init m.paramTypes = some m' → m' = m) ∧
    ∀ state name args site target types e e₁ e₂, Runs (callTarget c s state name site) e (target, Name.init) e₁ →
      target.special = true → Runs (lowerArgs c s args) e₁ types e₂ →
      CallEnds c target.cls.name Name.init types site (lowerLinks c s state [.call ⟨name, args, site⟩]) e e₂.size := by
  refine ⟨fun x e t e' h => ?_, fun state name args site target types e e₁ e₂ htarget hspecial hargs => ?_⟩
  · obtain ⟨code, hcode, -, hcalls⟩ := ((Emitter.Calls.kept c).exprSteps id s).forExpr x e t e' h
    refine ⟨code, hcode, fun op member hmem hname => ?_⟩
    rw [← hname]
    exact (hcalls op member hmem).exists_above
  · have hinvoke := lowerInvoke_ends c (callTarget_special htarget hspecial) Name.init types site e₂
    exact .after htarget (.after hargs (hinvoke.map ChainState.value))

/-! ### A constructor that is not there -/

def baseClass : ClassSig where
  name := "demo/Base"
  methods := [.constructor [⟨"n", .int⟩]]

/-- A class without a constructor that takes a number, but with a base class that has one. -/
def derivedClass : ClassSig where
  name := "demo/Derived"
  base := baseClass.name
  methods := [.constructor []]

def derivedContext : Context where
  classes := ClassTable.view { provider := fun _ => .ok none, sources := [⟨0, baseClass⟩, ⟨1, derivedClass⟩] }
  imports := {}
  own := derivedClass
  options := {}

def derivedScope : Scope := { method := .constructor [] }

def fiveExpr : Source.Expr := (Source.MathExpr.mk ⟨[], .literal ⟨"5", {}⟩, {}⟩ [] {}).toAnd.toExpr

/-- A new object of the class, made of a number. -/
def derivedExpr : Source.Expr :=
  (Source.MathExpr.mk ⟨[], .chain [.call ⟨⟨derivedClass.name, {}⟩, [fiveExpr], {}⟩] {}, {}⟩ [] {}).toAnd.toExpr

def derivedCode : List Instr :=
  [.type .new derivedClass.name, .op .dup, .int 5, .invoke .invokespecial ⟨derivedClass.name, Name.init, "(I)V", false⟩]

theorem runs_derivedExpr :
    Runs (lowerExpr derivedContext derivedScope derivedExpr) {} derivedClass.type (Emitter.emitAll {} derivedCode) := by
  rfl

theorem constructor_found_above_derived :
    Runs (lowerExpr derivedContext derivedScope derivedExpr) {} derivedClass.type (Emitter.emitAll {} derivedCode) ∧
    (∃ cls m, derivedContext.classes.Above derivedClass.name cls ∧ cls.method? Name.init m.paramTypes = some m ∧
      m.descriptor = "(I)V") ∧
    ∃ target e₁ e₂, Runs (callTarget derivedContext derivedScope .start ⟨derivedClass.name, {}⟩ {}) {}
        (target, Name.init) e₁ ∧ target.special = true ∧
      Runs (lowerArgs derivedContext derivedScope [fiveExpr]) e₁ [.int] e₂ ∧
      CallEnds derivedContext target.cls.name Name.init [.int] {}
        (lowerLinks derivedContext derivedScope .start [.call ⟨⟨derivedClass.name, {}⟩, [fiveExpr], {}⟩]) {}
        e₂.size := by
  obtain ⟨hexpr, hcall⟩ := constructor_found_above derivedContext derivedScope
  obtain ⟨code, hcode, hcalls⟩ := hexpr _ _ _ _ runs_derivedExpr
  obtain rfl : derivedCode = code := by simpa [Emitter.emitAll_eq] using hcode
  obtain ⟨cls, m, habove, hm, hdesc, -⟩ := hcalls _ _ (List.mem_of_getElem? (i := 3) rfl) rfl
  have htarget : Runs (callTarget derivedContext derivedScope .start ⟨derivedClass.name, {}⟩ {}) {}
      ({ cls := derivedClass, special := true, isNew := true }, Name.init)
      (Emitter.emitAll {} (derivedCode.take 2)) := rfl
  have hargs : Runs (lowerArgs derivedContext derivedScope [fiveExpr]) (Emitter.emitAll {} (derivedCode.take 2)) [.int]
      (Emitter.emitAll {} (derivedCode.take 3)) := rfl
  exact ⟨runs_derivedExpr, ⟨cls, m, habove, hm, hdesc⟩, _, _, _, htarget, rfl, hargs,
    hcall _ _ _ _ _ _ _ _ _ htarget rfl hargs⟩

/-- The expression is accepted, although the class has no such constructor. -/
theorem derivedExpr_calls_inherited :
    Runs (lowerExpr derivedContext derivedScope derivedExpr) {} derivedClass.type (Emitter.emitAll {} derivedCode) ∧
    .invoke .invokespecial ⟨derivedClass.name, Name.init, "(I)V", false⟩ ∈ derivedCode ∧
    derivedContext.classes.find derivedClass.name = .ok derivedClass ∧
    ∀ m ∈ derivedClass.methods, m.name = Name.init → m.descriptor ≠ "(I)V" :=
  ⟨runs_derivedExpr, List.mem_of_getElem? (i := 3) rfl, rfl, by decide⟩

end Classwright
