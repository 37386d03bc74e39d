import Classwright.Classes.Table
import Classwright.Compiler.Declared
import Classwright.Proofs.Hierarchy
import Classwright.Proofs.Lowering.Emission

/-! # Whose members a value has

The type of a value is told by the full name of its class. Where a field or a method of the value is wanted, that name
is looked up among the imports of the unit once more, as if it had been written there. This changes nothing if the class
is in a package. But if a class without a package has the short name of another that the unit imports or declares, the
members of that other class are taken. -/

namespace Classwright

open Source (CompilationUnit)

/-! ### Imports -/

/-- The full names that a unit knows by their short ones. -/
def Source.CompilationUnit.fullNames (u : CompilationUnit) : List String :=
  u.decl.name.name :: u.imports.map (·.name)

theorem Name.slash_not_mem_short (full : String) : '/' ∉ (Name.short full).toList := by
  intro h
  rw [Name.short, String.toList_ofList, List.mem_reverse] at h
  simpa using List.all_eq_true.mp List.all_takeWhile '/' h

namespace Imports
variable {i i' : Imports} {names : List String}

/-- The imports know each of the names by its short one, and no other. -/
def Knows (i : Imports) (names : List String) : Prop :=
  ∀ short full, i.find? short = some full ↔ full ∈ names ∧ Name.short full = short

theorem Knows.add (h : i.Knows names) {full : String} {span : Span} (ha : i.add full span = .ok i') :
    i'.Knows (names ++ [full]) := by
  intro short full'
  rw [List.mem_append, List.mem_singleton, or_and_right, ← h short full']
  unfold Imports.add at ha
  dsimp only at ha
  split at ha
  · rename_i hnone
    cases ha
    rw [show (⟨i.names ++ [(Name.short full, full)]⟩ : Imports).find? short = _ from List.lookup_append,
      List.lookup_cons, show i.names.lookup short = i.find? short from rfl]
    cases heq : short == Name.short full with
    | true =>
      rw [eq_of_beq heq, hnone]
      simp only [Option.none_or, Option.some.injEq, reduceCtorEq, false_or]
      exact ⟨fun h => ⟨h.symm, by rw [h]⟩, fun h => h.1.symm⟩
    | false =>
      rw [List.lookup_nil, Option.or_none]
      refine ⟨.inl, ?_⟩
      rintro (h | ⟨rfl, rfl⟩)
      · exact h
      · exact absurd rfl (ne_of_beq_false heq)
  · rename_i first hfirst
    split at ha
    · rename_i heq
      subst heq
      cases ha
      refine ⟨.inl, ?_⟩
      rintro (h | ⟨rfl, rfl⟩)
      · exact h
      · exact hfirst
    · cases ha

theorem Knows.addAll (h : i.Knows names) {fulls : List (String × Span)} (ha : i.addAll fulls = .ok i') :
    i'.Knows (names ++ fulls.map (·.1)) := by
  induction fulls generalizing i names with
  | nil =>
    cases ha
    simpa using h
  | cons full fulls ih =>
    obtain ⟨i₁, hadd, ha⟩ := bind_eq_ok.mp ha
    simpa using ih (h.add hadd) ha

theorem knows_fullNames {u : CompilationUnit} (h : u.scopeOfNames = .ok i) : i.Knows u.fullNames := by
  have hempty : Knows {} [] := fun short full => by simp [find?]
  simpa [Source.CompilationUnit.fullNames, Function.comp_def] using hempty.addAll h

/-- A name stands for itself exactly if no other class is known by it. -/
theorem Knows.resolve_eq_self (h : i.Knows names) (name : String) :
    i.resolve name = name ↔ ∀ full ∈ names, Name.short full = name → full = name := by
  unfold resolve
  cases hfind : i.find? name with
  | none =>
    refine iff_of_true rfl fun full hmem hshort => ?_
    cases hfind.symm.trans ((h name full).mpr ⟨hmem, hshort⟩)
  | some full =>
    obtain ⟨hmem, hshort⟩ := (h name full).mp hfind
    refine ⟨fun heq full' hmem' hshort' => ?_, fun hall => hall full hmem hshort⟩
    cases hfind.symm.trans ((h name full').mpr ⟨hmem', hshort'⟩)
    exact heq

theorem Knows.resolve_slash (h : i.Knows names) {name : String} (hname : '/' ∈ name.toList) : i.resolve name = name :=
  (h.resolve_eq_self name).mpr fun full _ hshort => absurd hname (hshort ▸ Name.slash_not_mem_short full)

end Imports

/-! ### Chains -/

section Chains
variable {c : Context} {s : Scope} {e e' : Emitter} {state : ChainState} {n : String}

theorem lowerLinks_append (c : Context) (s : Scope) (state : ChainState) (links links' : List Source.Link) :
    lowerLinks c s state (links ++ links') = lowerLinks c s state links >>= fun mid => lowerLinks c s mid links' := by
  induction links generalizing state with
  | nil => simp [lowerLinks]
  | cons link rest ih =>
    cases link with
    | call call =>
      obtain ⟨name, args, span⟩ := call
      simp only [List.cons_append, lowerLinks, ih, bind_assoc]
    | text l => simp only [List.cons_append, lowerLinks, ih, bind_assoc]
    | name x => simp only [List.cons_append, lowerLinks, ih, bind_assoc]
    | super site => simp only [List.cons_append, lowerLinks, ih, bind_assoc]

theorem Runs.unique {σ α : Type} {x : StateT σ Lookup α} {s s₁ s₂ : σ} {a b : α} (h : Runs x s a s₁)
    (h' : Runs x s b s₂) : a = b ∧ s₁ = s₂ := by
  cases Except.ok.inj (h.symm.trans h')
  exact ⟨rfl, rfl⟩

/-- What comes of a chain behind a part of it that is known. -/
theorem Runs.append_iff {links links' : List Source.Link} {mid : ChainState} {e₁ : Emitter}
    (h : Runs (lowerLinks c s .start links) e mid e₁) :
    Runs (lowerLinks c s .start (links ++ links')) e state e' ↔ Runs (lowerLinks c s mid links') e₁ state e' := by
  rw [lowerLinks_append, Runs.bind_iff]
  constructor
  · rintro ⟨mid', e₂, h', hrest⟩
    obtain ⟨rfl, rfl⟩ := h.unique h'
    exact hrest
  · exact fun hrest => ⟨mid, e₁, h, hrest⟩

theorem resolveClass_eq_ok {name : String} {site : Span} {cls : ClassSig} :
    (c.resolveClass name site).result = .ok cls ↔ c.classes.find (c.imports.resolve name) = .ok cls :=
  Lookup.locate_eq_ok

/-- The field of a value whose members are those of the class `cls`. The code says that it is the owner. -/
def TakesField (c : Context) (cls : ClassSig) (ident : Source.Ident) (e : Emitter) (state : ChainState) (e' : Emitter) :
    Prop :=
  ∃ f, (c.classes.field? cls.name ident.name).result = .ok (some f) ∧ state = .value f.type ∧
    e' = (e.emitAll (if f.isStatic then [.op .pop] else [])).emit (f.getCode cls.name)

/-- The call of a method of such a value. -/
def CallsMethod (c : Context) (s : Scope) (cls : ClassSig) (call : Source.Call) (e : Emitter) (state : ChainState)
    (e' : Emitter) : Prop :=
  ∃ types e₁ m, Runs (lowerArgs c s call.args) e types e₁ ∧
    (c.classes.method? cls.name call.name.name types).result = .ok (some m) ∧ state = .value m.returns ∧
    e' = (e₁.emit (.invoke (CallKind.of { cls } m).opcode ⟨cls.name, m.name, m.descriptor, cls.isInterface⟩)).emitAll
      (if m.isStatic then dropReceiver m.returns else [])

theorem requireField_eq_ok {owner : ClassSig} {ident : Source.Ident} {f : FieldSig} :
    (requireField c owner ident).result = .ok f ↔ (c.classes.field? owner.name ident.name).result = .ok (some f) := by
  unfold requireField
  rw [Lookup.bind_result]
  constructor
  · rintro ⟨found, hfound, h⟩
    cases found with
    | none => cases h
    | some f' =>
      cases h
      exact Lookup.locate_eq_ok.mp hfound
  · exact fun h => ⟨some f, Lookup.locate_eq_ok.mpr h, rfl⟩

theorem runs_valueField {ident : Source.Ident} :
    Runs (lowerLinks c s (.value (.object n)) [.name ident]) e state e' ↔
      ∃ cls, c.classes.find (c.imports.resolve n) = .ok cls ∧ TakesField c cls ident e state e' := by
  simp only [lowerLinks, lowerLink, lowerValueField, Runs.bind_iff, Runs.lift_iff, Runs.pure_iff, Runs.emitAll_iff,
    Runs.emit_iff, resolveClass_eq_ok, requireField_eq_ok]
  constructor
  · rintro ⟨_, _, ⟨name, _, ⟨hname, rfl⟩, cls, _, ⟨hcls, rfl⟩, f, _, ⟨hf, rfl⟩, _, _, rfl, _, _, rfl, rfl, rfl⟩, rfl,
      rfl⟩
    cases hname
    exact ⟨cls, hcls, f, hf, rfl, rfl⟩
  · rintro ⟨cls, hcls, f, hf, rfl, rfl⟩
    exact ⟨_, _, ⟨n, e, ⟨rfl, rfl⟩, cls, e, ⟨hcls, rfl⟩, f, e, ⟨hf, rfl⟩, (), _, rfl, (), _, rfl, rfl, rfl⟩, rfl, rfl⟩

/-- The method of a value is chosen by the types of its arguments. -/
theorem runs_valueInvoke {cls : ClassSig} {name : String} {types : List Ty} {site : Span} {t : Ty} :
    Runs (lowerInvoke c { cls, receiverPushed := true } name types site) e t e' ↔
      ∃ m, (c.classes.method? cls.name name types).result = .ok (some m) ∧ t = m.returns ∧
        e' = (e.emit (.invoke (CallKind.of { cls } m).opcode ⟨cls.name, m.name, m.descriptor, cls.isInterface⟩)).emitAll
          (if m.isStatic then dropReceiver m.returns else []) := by
  have hof (m : MethodSig) : CallKind.of { cls, receiverPushed := true } m = CallKind.of { cls } m := rfl
  have hkind (m : MethodSig) : (CallKind.of { cls } m != .special) = true := by
    cases hs : m.isStatic <;> cases hi : cls.isInterface <;> simp [CallKind.of, hs, hi]
  unfold lowerInvoke
  rw [Runs.bind_iff]
  constructor
  · rintro ⟨found, e₁, hfound, h⟩
    obtain ⟨hm, rfl⟩ := Runs.lift_iff.mp hfound
    cases found with
    | none => cases Runs.throw_iff h
    | some m =>
      obtain ⟨rfl, rfl⟩ : _ ∧ _ := by simpa [hof, hkind] using h
      exact ⟨m, Lookup.locate_eq_ok.mp hm, rfl, rfl⟩
  · rintro ⟨m, hm, rfl, rfl⟩
    exact ⟨some m, e, Runs.lift_iff.mpr ⟨Lookup.locate_eq_ok.mpr hm, rfl⟩, by simp [hof, hkind]⟩

theorem runs_valueCall {call : Source.Call} :
    Runs (lowerLinks c s (.value (.object n)) [.call call]) e state e' ↔
      ∃ cls, c.classes.find (c.imports.resolve n) = .ok cls ∧ CallsMethod c s cls call e state e' := by
  obtain ⟨name, args, span⟩ := call
  simp only [lowerLinks, callTarget, Runs.bind_iff, Runs.lift_iff, Runs.pure_iff, resolveClass_eq_ok]
  constructor
  · rintro ⟨target, _, ⟨owner, _, ⟨howner, rfl⟩, cls, _, ⟨hcls, rfl⟩, rfl, rfl⟩, types, e₁, hargs, t, _, hinvoke, rfl,
      rfl⟩
    cases howner
    obtain ⟨m, hm, rfl, rfl⟩ := runs_valueInvoke.mp hinvoke
    exact ⟨cls, hcls, types, e₁, m, hargs, hm, rfl, rfl⟩
  · rintro ⟨cls, hcls, types, e₁, m, hargs, hm, rfl, rfl⟩
    exact ⟨_, e, ⟨n, e, ⟨rfl, rfl⟩, cls, e, ⟨hcls, rfl⟩, rfl, rfl⟩, types, e₁, hargs, _, _,
      runs_valueInvoke.mpr ⟨m, hm, rfl, rfl⟩, rfl, rfl⟩

end Chains

/-- A member of a value is looked up in the class that the unit means by the name of the value's class, and that class
    is the owner in the code. It is the value's own class exactly if the unit neither imports nor declares another
    class with that name as its short one; with a class in a package this cannot be. -/
theorem member_owner_resolved {u : CompilationUnit} {c : Context} {s : Scope} {links : List Source.Link} {n : String}
    {e e₁ : Emitter} (himports : u.scopeOfNames = .ok c.imports)
    (hvalue : Runs (lowerLinks c s .start links) e (.value (.object n)) e₁) :
    (∀ ident state e', Runs (lowerLinks c s .start (links ++ [.name ident])) e state e' ↔
      ∃ cls, c.classes.find (c.imports.resolve n) = .ok cls ∧ TakesField c cls ident e₁ state e') ∧
    (∀ call state e', Runs (lowerLinks c s .start (links ++ [.call call])) e state e' ↔
      ∃ cls, c.classes.find (c.imports.resolve n) = .ok cls ∧ CallsMethod c s cls call e₁ state e') ∧
    (c.imports.resolve n = n ↔ ∀ full ∈ u.fullNames, Name.short full = n → full = n) ∧
    ('/' ∈ n.toList → c.imports.resolve n = n) := by
  have hknows := Imports.knows_fullNames himports
  refine ⟨fun ident state e' => ?_, fun call state e' => ?_, hknows.resolve_eq_self n, hknows.resolve_slash⟩
  · rw [hvalue.append_iff, runs_valueField]
  · rw [hvalue.append_iff, runs_valueCall]

/-! ### A class that is taken for another -/

def plainHelper : ClassSig where
  name := "Helper"
  fields := [⟨"x", false, .int⟩]

def demoHelper : ClassSig := { plainHelper with name := "demo/Helper" }

/-- Makes a value of the class without a package. -/
def helperFactory : ClassSig where
  name := "demo/Factory"
  methods := [⟨"make", true, false, false, plainHelper.type, []⟩]

def importingClass : ClassSig where
  name := "demo/Main"

/-- Imports the class that is not the one of the value. -/
def importingUnit : CompilationUnit where
  imports := [⟨demoHelper.name, {}⟩]
  decl :=
    { name := ⟨importingClass.name, {}⟩, isInterface := false, base := none, interfaces := [], fields := []
      methods := [], annotations := [], span := {} }

def importingContext : Context where
  classes := ClassTable.view
    { provider := fun name => .ok (if name = Name.object then some { name, base := none } else none)
      sources := [⟨0, importingClass⟩, ⟨1, plainHelper⟩, ⟨2, demoHelper⟩, ⟨3, helperFactory⟩] }
  imports := ⟨[("Main", importingClass.name), ("Helper", demoHelper.name)]⟩
  own := importingClass
  options := {}

def importingScope : Scope := { method := ⟨"run", true, false, false, .void, []⟩ }

def madeHelper : List Source.Link := [.name ⟨helperFactory.name, {}⟩, .call ⟨⟨"make", {}⟩, [], {}⟩]

def madeCode : List Instr := [.invoke .invokestatic ⟨helperFactory.name, "make", "()LHelper;", false⟩]

theorem runs_madeHelper : Runs (lowerLinks importingContext importingScope .start madeHelper) {}
    (.value (.object plainHelper.name)) (Emitter.emitAll {} madeCode) := by
  rfl

theorem member_owner_resolved_made :
    importingUnit.scopeOfNames = .ok importingContext.imports ∧
    Runs (lowerLinks importingContext importingScope .start madeHelper) {} (.value (.object plainHelper.name))
      (Emitter.emitAll {} madeCode) ∧
    (∃ e', Runs (lowerLinks importingContext importingScope .start (madeHelper ++ [.name ⟨"x", {}⟩])) {} (.value .int)
        e' ∧
      TakesField importingContext demoHelper ⟨"x", {}⟩ (Emitter.emitAll {} madeCode) (.value .int) e') ∧
    importingContext.imports.resolve plainHelper.name ≠ plainHelper.name := by
  have himports : importingUnit.scopeOfNames = .ok importingContext.imports := rfl
  obtain ⟨hfield, -, hself, -⟩ := member_owner_resolved himports runs_madeHelper
  have htakes : TakesField importingContext demoHelper ⟨"x", {}⟩ (Emitter.emitAll {} madeCode) (.value .int)
      (Emitter.emitAll {} (madeCode ++ [.field .getfield ⟨demoHelper.name, "x", "I", false⟩])) :=
    ⟨⟨"x", false, .int⟩, rfl, rfl, rfl⟩
  have hknown : demoHelper.name ∈ importingUnit.fullNames := List.mem_of_getElem? (i := 1) rfl
  refine ⟨himports, runs_madeHelper, ⟨_, (hfield _ _ _).mpr ⟨demoHelper, rfl, htakes⟩, htakes⟩, fun heq => ?_⟩
  exact absurd (hself.mp heq demoHelper.name hknown rfl) (by decide)

/-- The value is of the class without a package, which has the field, and the code reads that of the other class. -/
theorem madeHelper_read_as_import :
    Runs (lowerLinks importingContext importingScope .start madeHelper) {} (.value (.object plainHelper.name))
      (Emitter.emitAll {} madeCode) ∧
    importingContext.classes.find plainHelper.name = .ok plainHelper ∧
    plainHelper.field? "x" = some ⟨"x", false, .int⟩ ∧ plainHelper.name ≠ demoHelper.name ∧
    Runs (lowerLinks importingContext importingScope .start (madeHelper ++ [.name ⟨"x", {}⟩])) {} (.value .int)
      (Emitter.emitAll {} (madeCode ++ [.field .getfield ⟨demoHelper.name, "x", "I", false⟩])) :=
  ⟨runs_madeHelper, rfl, rfl, by decide, rfl⟩

end Classwright
