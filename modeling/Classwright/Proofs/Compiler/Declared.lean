import Classwright.Compiler.Declared
import Classwright.Proofs.Descriptor

/-! # What a unit declares

The signature of a class lists the members of its declaration in their order. If the names in a unit can stand in
descriptors, the types of all members can be told from theirs. -/

namespace Classwright

open Source (ClassDecl CompilationUnit FieldDecl MethodDecl ParamDecl TypeRef)

/-! ### Names -/

/-- The name can stand in a descriptor. -/
def Name.Plain (name : String) : Prop := name.toList ≠ [] ∧ ';' ∉ name.toList

instance : DecidablePred Name.Plain := fun _ => inferInstanceAs (Decidable (_ ∧ _))

namespace Imports
variable {i i' : Imports}

/-- The names of all classes in scope can stand in descriptors. -/
def Plain (i : Imports) : Prop := ∀ entry ∈ i.names, Name.Plain entry.2

theorem Plain.add (h : i.Plain) {full : String} {span : Span} (hf : Name.Plain full) (ha : i.add full span = .ok i') :
    i'.Plain := by
  unfold Imports.add at ha
  dsimp only at ha
  split at ha
  · cases ha
    intro entry hentry
    rcases List.mem_append.mp hentry with hentry | hentry
    · exact h entry hentry
    · rw [List.mem_singleton.mp hentry]
      exact hf
  · split at ha
    · cases ha
      exact h
    · cases ha

theorem Plain.addAll (h : i.Plain) {names : List (String × Span)} (hn : ∀ n ∈ names, Name.Plain n.1)
    (ha : i.addAll names = .ok i') : i'.Plain := by
  induction names generalizing i with
  | nil =>
    cases ha
    exact h
  | cons n names ih =>
    obtain ⟨hfirst, hrest⟩ := List.forall_mem_cons.mp hn
    obtain ⟨i₁, hadd, ha⟩ := bind_eq_ok.mp ha
    exact ih (h.add hfirst hadd) hrest ha

theorem Plain.resolve (h : i.Plain) {name : String} (hn : Name.Plain name) : Name.Plain (i.resolve name) := by
  unfold Imports.resolve Imports.find?
  cases hl : i.names.lookup name with
  | none => exact hn
  | some full =>
    obtain ⟨before, behind, hnames, -⟩ := List.lookup_eq_some_iff.mp hl
    exact h (name, full) (by rw [hnames]; simp)

theorem Plain.legible (h : i.Plain) {t : TypeRef} {ty : Ty} (ht : Name.Plain t.name) (hr : i.resolveType t = .ok ty) :
    ty.Legible := by
  obtain ⟨-, hr⟩ := ite_error_eq_ok.mp hr
  obtain ⟨hvoid, hr⟩ := ite_error_eq_ok.mp hr
  cases hr
  cases hprim : Prim.ofKeyword? t.name with
  | none => exact ⟨Ty.wellNamed_cls.mpr (h.resolve ht), nofun⟩
  | some p =>
    refine ⟨Ty.wellNamed_prim p _, fun heq => hvoid ?_⟩
    injection heq with helem harray
    injection helem with helem
    simp [hprim, helem, harray]

/-! ### Members -/

theorem fieldSig_eq_ok {d : FieldDecl} {f : FieldSig} (h : i.fieldSig d = .ok f) : i.resolveType d.type = .ok f.type := by
  obtain ⟨t, ht, h⟩ := bind_eq_ok.mp h
  obtain ⟨-, h⟩ := ite_error_eq_ok.mp h
  cases h
  exact ht

theorem fieldSigs_eq_ok {before fs : List FieldSig} {ds : List FieldDecl} (h : i.fieldSigs before ds = .ok fs) :
    ∃ new, fs = before ++ new ∧ List.Forall₂ (fun d f => i.resolveType d.type = .ok f.type) ds new := by
  induction ds generalizing before with
  | nil =>
    cases h
    exact ⟨[], by simp, .nil⟩
  | cons d ds ih =>
    obtain ⟨-, h⟩ := ite_error_eq_ok.mp h
    obtain ⟨f, hf, h⟩ := bind_eq_ok.mp h
    obtain ⟨new, rfl, hnew⟩ := ih h
    exact ⟨f :: new, by simp, .cons (fieldSig_eq_ok hf) hnew⟩

theorem paramSigs_eq_ok {ds : List ParamDecl} {ps : List ParamSig} (h : i.paramSigs ds = .ok ps) :
    List.Forall₂ (fun d p => i.resolveType d.type = .ok p.type ∧ p.type.isVoid = false) ds ps := by
  induction ds generalizing ps with
  | nil =>
    cases h
    exact .nil
  | cons d ds ih =>
    obtain ⟨t, ht, h⟩ := bind_eq_ok.mp h
    obtain ⟨hvoid, h⟩ := ite_error_eq_ok.mp h
    obtain ⟨rest, hrest, h⟩ := bind_eq_ok.mp h
    cases h
    exact .cons ⟨ht, Bool.eq_false_iff.mpr hvoid⟩ (ih hrest)

end Imports

/-- The name of a method in a class file. -/
def Source.MethodDecl.compiledName (d : MethodDecl) : String :=
  if d.name.name = Name.constructorKeyword then Name.init else d.name.name

namespace Imports
variable {i : Imports}

theorem declare_eq_ok {name : String} {isStatic isNative hasBody : Bool} {returns : Ty} {params : List ParamSig}
    {span : Span} {m : MethodSig} (h : MethodSig.declare name isStatic isNative hasBody returns params span = .ok m) :
    m.name = (if name = Name.constructorKeyword then Name.init else name) ∧ m.returns = returns ∧ m.params = params := by
  obtain ⟨-, h⟩ := ite_error_eq_ok.mp h
  obtain ⟨-, h⟩ := ite_error_eq_ok.mp h
  obtain ⟨-, h⟩ := ite_error_eq_ok.mp h
  cases h
  exact ⟨rfl, rfl, rfl⟩

/-- What the declaration of a method says about its signature. -/
structure Heads (i : Imports) (d : MethodDecl) (m : MethodSig) : Prop where
  name : m.name = d.compiledName
  returns : i.resolveType d.returns = .ok m.returns
  params : i.paramSigs d.params = .ok m.params

theorem methodSig_eq_ok {d : MethodDecl} {m : MethodSig} (h : i.methodSig d = .ok m) : i.Heads d m := by
  obtain ⟨-, h⟩ := ite_error_eq_ok.mp h
  obtain ⟨returns, hreturns, h⟩ := bind_eq_ok.mp h
  obtain ⟨params, hparams, h⟩ := bind_eq_ok.mp h
  obtain ⟨-, h⟩ := ite_error_eq_ok.mp h
  obtain ⟨hname, rfl, rfl⟩ := declare_eq_ok h
  exact ⟨hname, hreturns, hparams⟩

theorem methodSigs_eq_ok {before ms : List MethodSig} {ds : List MethodDecl} (h : i.methodSigs before ds = .ok ms) :
    ∃ new, ms = before ++ new ∧ List.Forall₂ i.Heads ds new := by
  induction ds generalizing before with
  | nil =>
    cases h
    exact ⟨[], by simp, .nil⟩
  | cons d ds ih =>
    obtain ⟨m, hm, h⟩ := bind_eq_ok.mp h
    obtain ⟨-, h⟩ := ite_error_eq_ok.mp h
    obtain ⟨new, rfl, hnew⟩ := ih h
    exact ⟨m :: new, by simp, .cons (methodSig_eq_ok hm) hnew⟩

end Imports

/-! ### Classes -/

/-- The class is no interface and declares no constructor. -/
def Source.ClassDecl.lacksConstructor (d : ClassDecl) : Bool :=
  !d.isInterface && !d.methods.any (·.compiledName == Name.init)

/-- What the declaration of a class says about its signature. -/
structure Imports.Lists (i : Imports) (d : ClassDecl) (c : ClassSig) (declared : List MethodSig) : Prop where
  interfaces : c.interfaces.length = d.interfaces.length
  fields : List.Forall₂ (fun d f => i.resolveType d.type = .ok f.type) d.fields c.fields
  heads : List.Forall₂ i.Heads d.methods declared
  methods : c.methods = declared ++ if d.lacksConstructor then [Imports.implicitConstructor] else []

theorem Imports.any_isConstructor {i : Imports} {ds : List MethodDecl} {ms : List MethodSig}
    (h : List.Forall₂ i.Heads ds ms) : ms.any (·.isConstructor) = ds.any (·.compiledName == Name.init) := by
  induction h with
  | nil => rfl
  | cons hm _ ih => rw [List.any_cons, List.any_cons, ih, MethodSig.isConstructor, hm.name]

theorem Imports.classSig_eq_ok {i : Imports} {d : ClassDecl} {c : ClassSig} (h : i.classSig d = .ok c) :
    ∃ declared, i.Lists d c declared := by
  obtain ⟨fields, hfields, h⟩ := bind_eq_ok.mp h
  obtain ⟨methods, hmethods, h⟩ := bind_eq_ok.mp h
  cases h
  obtain ⟨fs, rfl, hfs⟩ := fieldSigs_eq_ok hfields
  obtain ⟨ms, hnew, hms⟩ := methodSigs_eq_ok hmethods
  rw [List.nil_append] at hnew
  subst hnew
  refine ⟨methods, by simp, hfs, hms, ?_⟩
  have hlacks : (!d.isInterface && !methods.any (·.isConstructor)) = d.lacksConstructor := by
    rw [Source.ClassDecl.lacksConstructor, any_isConstructor hms]
  dsimp only
  rw [hlacks]
  split <;> simp

/-- The types of a class can be told from their descriptors, and none of its methods is taken for its initializer. -/
structure ClassSig.Legible (c : ClassSig) : Prop where
  fields : ∀ f ∈ c.fields, f.type.Legible
  methods : ∀ m ∈ c.methods, m.name ≠ "<clinit>" ∧ m.returns.Legible ∧ ∀ t ∈ m.paramTypes, t.Legible ∧ t.isVoid = false

/-- The names of all classes and types in the unit can stand in descriptors, and no method goes by the name of the
    initializer of classes. -/
structure Source.CompilationUnit.WellNamed (u : CompilationUnit) : Prop where
  own : Name.Plain u.decl.name.name
  imports : ∀ i ∈ u.imports, Name.Plain i.name
  fields : ∀ f ∈ u.decl.fields, Name.Plain f.type.name
  methods : ∀ m ∈ u.decl.methods, m.name.name ≠ "<clinit>" ∧ Name.Plain m.returns.name ∧
    ∀ p ∈ m.params, Name.Plain p.type.name

theorem Imports.Heads.legible {i : Imports} (hi : i.Plain) {d : MethodDecl} {m : MethodSig} (h : i.Heads d m)
    (hname : d.name.name ≠ "<clinit>") (hreturns : Name.Plain d.returns.name)
    (hparams : ∀ p ∈ d.params, Name.Plain p.type.name) :
    m.name ≠ "<clinit>" ∧ m.returns.Legible ∧ ∀ t ∈ m.paramTypes, t.Legible ∧ t.isVoid = false := by
  refine ⟨?_, hi.legible hreturns h.returns, ?_⟩
  · rw [h.name, Source.MethodDecl.compiledName]
    split
    · decide
    · exact hname
  · intro t ht
    obtain ⟨p, hp, rfl⟩ := List.mem_map.mp ht
    obtain ⟨d', hd', htype, hvoid⟩ := exists_of_forall₂ (paramSigs_eq_ok h.params) hp
    exact ⟨hi.legible (hparams d' hd') htype, hvoid⟩

theorem Imports.Lists.legible {u : CompilationUnit} (hu : u.WellNamed) {i : Imports} (hi : i.Plain) {c : ClassSig}
    {declared : List MethodSig} (h : i.Lists u.decl c declared) : c.Legible := by
  constructor
  · intro f hf
    obtain ⟨d, hd, htype⟩ := exists_of_forall₂ h.fields hf
    exact hi.legible (hu.fields d hd) htype
  · intro m hm
    rw [h.methods] at hm
    rcases List.mem_append.mp hm with hm | hm
    · obtain ⟨d, hd, hheads⟩ := exists_of_forall₂ h.heads hm
      obtain ⟨hname, hreturns, hparams⟩ := hu.methods d hd
      exact hheads.legible hi hname hreturns hparams
    · split at hm
      · rw [List.mem_singleton.mp hm]
        exact ⟨by decide, ⟨Ty.wellNamed_prim _ _, by decide⟩, by simp [MethodSig.paramTypes, Imports.implicitConstructor]⟩
      · cases hm

theorem Options.declare_eq_ok {o : Options} {u : CompilationUnit} {c : ClassSig} {i : Imports}
    (h : o.declare u = .ok (c, i)) : u.scopeOfNames = .ok i ∧ i.classSig u.decl = .ok c := by
  obtain ⟨i', hi, h⟩ := bind_eq_ok.mp h
  obtain ⟨-, -, h⟩ := bind_eq_ok.mp h
  obtain ⟨c', hc, h⟩ := bind_eq_ok.mp h
  obtain ⟨-, -, h⟩ := bind_eq_ok.mp h
  obtain ⟨-, -, h⟩ := bind_eq_ok.mp h
  cases h
  exact ⟨hi, hc⟩

theorem Source.CompilationUnit.WellNamed.plain {u : CompilationUnit} (hu : u.WellNamed) {i : Imports}
    (h : u.scopeOfNames = .ok i) : i.Plain := by
  refine Imports.Plain.addAll (i := {}) (by simp [Imports.Plain]) (fun n hn => ?_) h
  rcases List.mem_cons.mp hn with rfl | hn
  · exact hu.own
  · obtain ⟨ident, hident, rfl⟩ := List.mem_map.mp hn
    exact hu.imports ident hident

end Classwright
