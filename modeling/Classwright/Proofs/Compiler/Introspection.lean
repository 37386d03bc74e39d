import Classwright.Proofs.ClassFile.Layout
import Classwright.Proofs.ClassFile.Parsing
import Classwright.Proofs.Compiler.Batches
import Classwright.Proofs.Compiler.Declared
import Classwright.Proofs.Lowering.Runs

/-! # Compiled classes are known by their files

What other classes can see of a compiled class is read back from its file, except for the names of parameters. The file
says of the root class that it has no base. -/

namespace Classwright

open Source (CompilationUnit FieldDecl MethodDecl)

/-! ### Members as they are written -/

/-- What the file keeps of a field. -/
structure FieldSig.Written (d : Dialect) (f : FieldSig) (g : ClassFile.Field) : Prop where
  access : g.access = f.access d
  name : g.name = f.name
  descriptor : g.descriptor = f.type.descriptor

/-- What the file keeps of a method. -/
structure MethodSig.Written (m : MethodSig) (g : ClassFile.Method) : Prop where
  access : g.access = m.access
  name : g.name = m.name
  descriptor : g.descriptor = m.descriptor

theorem Runs.ofPool_iff {α : Type} {x : PoolM α} {b b' : PoolBuilder} {a : α} :
    Runs (UnitM.ofPool x) b a b' ↔ x.on b = (.ok a, b') := by
  unfold Runs UnitM.ofPool
  split
  · rename_i a₁ b₁ hx
    rw [show x.on b = (.ok a₁, b₁) from hx]
    simp [pure]
  · rename_i e b₁ hx
    rw [show x.on b = (.error e, b₁) from hx]
    simp [Lookup.fail]

namespace Context
variable {c : Context} {b b' : PoolBuilder}

theorem compileFields_result {fs : List FieldSig} {ds : List FieldDecl} {gs : List ClassFile.Field}
    (hlength : fs.length = ds.length) (h : (c.compileFields fs ds).result = .ok gs) :
    List.Forall₂ (FieldSig.Written c.options.dialect) fs gs := by
  induction fs generalizing ds gs with
  | nil =>
    cases h
    exact .nil
  | cons f fs ih =>
    cases ds with
    | nil => cases hlength
    | cons d ds =>
      obtain ⟨annotations, -, h⟩ := Lookup.bind_result.mp h
      obtain ⟨rest, hrest, h⟩ := Lookup.bind_result.mp h
      cases h
      exact .cons ⟨rfl, rfl, rfl⟩ (ih (Nat.succ.inj hlength) hrest)

theorem compileBody_runs {m : MethodSig} {body : List Source.Stmt} {site : Span}
    {r : Assembled × List ClassFile.LocalVariable} (hb : b.Valid) (h : Runs (c.compileBody m body site) b r b') :
    b'.Valid := by
  obtain ⟨lowered, b₁, hlowered, h⟩ := Runs.bind_iff.mp h
  obtain ⟨-, rfl⟩ := Runs.lift_iff.mp hlowered
  obtain ⟨code, b₂, hcode, h⟩ := Runs.bind_iff.mp h
  obtain ⟨-, rfl⟩ := Runs.pure_iff.mp h
  exact (Code.assemble_interns _ _ _).valid (Runs.ofPool_iff.mp hcode) hb

theorem compileMethod_runs {m : MethodSig} {d : Option MethodDecl} {g : ClassFile.Method} (hb : b.Valid)
    (h : Runs (c.compileMethod m d) b g b') : m.Written g ∧ b'.Valid := by
  obtain ⟨annotations, b₁, hannotations, h⟩ := Runs.bind_iff.mp h
  obtain ⟨-, rfl⟩ := Runs.lift_iff.mp hannotations
  obtain ⟨params, b₂, hparams, h⟩ := Runs.bind_iff.mp h
  obtain ⟨-, rfl⟩ := Runs.lift_iff.mp hparams
  rcases Runs.ite_iff.mp h with ⟨-, h⟩ | ⟨-, h⟩
  · obtain ⟨r, b₃, hbody, h⟩ := Runs.bind_iff.mp h
    obtain ⟨rfl, rfl⟩ := Runs.pure_iff.mp h
    exact ⟨⟨rfl, rfl, rfl⟩, compileBody_runs hb hbody⟩
  · obtain ⟨rfl, rfl⟩ := Runs.pure_iff.mp h
    exact ⟨⟨rfl, rfl, rfl⟩, hb⟩

theorem compileMethods_runs {ms : List MethodSig} {ds : List MethodDecl} {gs : List ClassFile.Method} (hb : b.Valid)
    (h : Runs (c.compileMethods ms ds) b gs b') : List.Forall₂ MethodSig.Written ms gs ∧ b'.Valid := by
  induction ms generalizing ds gs b with
  | nil =>
    obtain ⟨rfl, rfl⟩ := Runs.pure_iff.mp h
    exact ⟨.nil, hb⟩
  | cons m ms ih =>
    obtain ⟨g, b₁, hg, h⟩ := Runs.bind_iff.mp h
    obtain ⟨rest, b₂, hrest, h⟩ := Runs.bind_iff.mp h
    obtain ⟨rfl, rfl⟩ := Runs.pure_iff.mp h
    obtain ⟨hm, hb₁⟩ := compileMethod_runs hb hg
    obtain ⟨hms, hb₂⟩ := ih hb₁ hrest
    exact ⟨.cons hm hms, hb₂⟩

/-- The class file that is written for a class lists its members. -/
structure Lists (c : Context) (file : ClassFile) : Prop where
  access : file.access = c.own.access
  name : file.name = c.own.name
  superName : file.superName = c.own.base
  interfaces : file.interfaces = c.own.interfaces
  fields : List.Forall₂ (FieldSig.Written c.options.dialect) c.own.fields file.fields
  methods : List.Forall₂ MethodSig.Written c.own.methods file.methods

section
variable {u : CompilationUnit} {file : ClassFile}

/-- The members of the class file are compiled from those that are declared. -/
theorem classFile_members (h : Runs (c.classFile u) {} file b) :
    (c.compileFields c.own.fields u.decl.fields).result = .ok file.fields ∧
      Runs (c.compileMethods c.own.methods u.decl.methods) {} file.methods b ∧ file.access = c.own.access ∧
      file.name = c.own.name ∧ file.superName = c.own.base ∧ file.interfaces = c.own.interfaces := by
  obtain ⟨annotations, b₁, hannotations, h⟩ := Runs.bind_iff.mp h
  obtain ⟨-, rfl⟩ := Runs.lift_iff.mp hannotations
  obtain ⟨fields, b₂, hlifted, h⟩ := Runs.bind_iff.mp h
  obtain ⟨hfields, rfl⟩ := Runs.lift_iff.mp hlifted
  obtain ⟨methods, b₃, hmethods, h⟩ := Runs.bind_iff.mp h
  obtain ⟨rfl, rfl⟩ := Runs.pure_iff.mp h
  exact ⟨hfields, hmethods, rfl, rfl, rfl, rfl⟩

theorem valid_classFile (h : Runs (c.classFile u) {} file b) : b.Valid :=
  (compileMethods_runs PoolBuilder.valid_empty (classFile_members h).2.1).2

theorem lists_classFile (hlength : c.own.fields.length = u.decl.fields.length) (h : Runs (c.classFile u) {} file b) :
    c.Lists file := by
  obtain ⟨hfields, hmethods, haccess, hname, hsuper, hinterfaces⟩ := classFile_members h
  exact ⟨haccess, hname, hsuper, hinterfaces, compileFields_result hlength hfields,
    (compileMethods_runs PoolBuilder.valid_empty hmethods).1⟩

theorem compile_runs {cls : CompiledClass} (h : (c.compile u).result = .ok cls) :
    ∃ file b b', Runs (c.classFile u) {} file b ∧ file.write.on b = (.ok cls.bytes, b') := by
  obtain ⟨-, -, h⟩ := Lookup.bind_result.mp h
  obtain ⟨⟨bytes, b'⟩, hclass, h⟩ := Lookup.bind_result.mp h
  cases h
  have hruns : Runs (c.compileClass u) {} bytes b' := hclass
  obtain ⟨file, b, hfile, hruns⟩ := Runs.bind_iff.mp hruns
  exact ⟨file, b, b', hfile, Runs.ofPool_iff.mp hruns⟩

end

end Context

/-! ### Flags -/

theorem FieldSig.has_isStatic (f : FieldSig) (d : Dialect) : Access.has (f.access d) Access.isStatic = f.isStatic := by
  unfold FieldSig.access
  cases d.hasPublicFields <;> cases f.isStatic <;> rfl

theorem MethodSig.has_flags (m : MethodSig) :
    Access.has m.access Access.isStatic = m.isStatic ∧ Access.has m.access Access.isNative = m.isNative ∧
      Access.has m.access Access.isAbstract = m.isAbstract := by
  unfold MethodSig.access
  cases m.isStatic <;> cases m.isNative <;> cases m.isAbstract <;> exact ⟨rfl, rfl, rfl⟩

theorem ClassSig.has_isInterface (c : ClassSig) : Access.has c.access Access.isInterface = c.isInterface := by
  unfold ClassSig.access
  cases c.isInterface with
  | true =>
    rw [if_pos rfl]
    decide
  | false =>
    rw [if_neg Bool.false_ne_true]
    cases c.methods.any (·.isAbstract) <;> decide

/-! ### Reading the signature -/

/-- The method with parameters that are known by their types only. -/
def MethodSig.unnamed (m : MethodSig) : MethodSig := { m with params := MethodSig.unnamedParams m.paramTypes }

/-- What a class file says about the class. -/
def ClassSig.compiled (c : ClassSig) : ClassSig :=
  { c with base := if c.name = Name.object then none else c.base, methods := c.methods.map (·.unnamed) }

theorem fieldSig?_written {b : PoolBuilder} {d : Dialect} {f : FieldSig} {g : ClassFile.Field} {q : Parsed.Field}
    (hf : f.type.Legible) (hg : f.Written d g) (hq : ClassFile.FieldStored b g q) : ParsedClass.fieldSig? q = some f := by
  rw [ParsedClass.fieldSig?, hq.descriptor, hg.descriptor, Ty.ofDescriptor?_descriptor hf, Option.map_some, hq.name, hg.name,
    hq.access, hg.access, f.has_isStatic]

theorem methodSig?_written {b : PoolBuilder} {m : MethodSig} {g : ClassFile.Method} {q : Parsed.Method}
    (hname : m.name ≠ "<clinit>") (hreturns : m.returns.Legible) (hparams : ∀ t ∈ m.paramTypes, t.Legible ∧ t.isVoid = false)
    (hg : m.Written g) (hq : ClassFile.MethodStored b g q) : ParsedClass.methodSig? q = some m.unnamed := by
  have htypes : Ty.ofMethodDescriptor? q.descriptor = some (m.paramTypes, m.returns) := by
    rw [hq.descriptor, hg.descriptor]
    exact Ty.ofMethodDescriptor?_methodDescriptor (fun t ht => (hparams t ht).1) (fun t ht => (hparams t ht).2) hreturns
  obtain ⟨hstatic, hnative, habstract⟩ := m.has_flags
  have haccess : q.access = m.access := hq.access.trans hg.access
  have hnamed : q.name = m.name := hq.name.trans hg.name
  rw [ParsedClass.methodSig?, if_neg (hnamed ▸ hname), htypes, Option.map_some, hnamed, haccess, hstatic, hnative, habstract]
  rfl

/-- The file that was written for a class says what the class is. -/
theorem Context.Lists.signature_eq {c : Context} {file : ClassFile} {b : PoolBuilder} {p : ParsedClass} (h : c.Lists file)
    (hlegible : c.own.Legible) (hp : ClassFile.Stored b file p) : p.signature = c.own.compiled := by
  have hfields : p.fields.filterMap ParsedClass.fieldSig? = c.own.fields := by
    have hmap := filterMap_of_forall₂ (g := id) (forall₂_comp h.fields hp.fields) fun f hf q hq => by
      obtain ⟨g, hg, hq⟩ := hq
      exact fieldSig?_written (hlegible.fields f hf) hg hq
    rwa [List.map_id] at hmap
  have hmethods : p.methods.filterMap ParsedClass.methodSig? = c.own.methods.map (·.unnamed) :=
    filterMap_of_forall₂ (forall₂_comp h.methods hp.methods) fun m hm q hq => by
      obtain ⟨g, hg, hq⟩ := hq
      obtain ⟨hname, hreturns, hparams⟩ := hlegible.methods m hm
      exact methodSig?_written hname hreturns hparams hg hq
  rw [ParsedClass.signature, hfields, hmethods, hp.name, h.name, hp.access, h.access, c.own.has_isInterface, hp.superName,
    h.superName, hp.interfaces, h.interfaces]
  rfl

/-! ### The whole compiler -/

namespace Compiler
variable {k k' : Compiler} {u : CompilationUnit} {cls : CompiledClass}

theorem compile_eq_ok (h : k.compile u = (.ok cls, k')) :
    ∃ sig imports k₁, k.options.declare u = .ok (sig, imports) ∧
      k.registerUnit u = (.ok ⟨u, ⟨k.table.next, sig⟩, imports⟩, k₁) ∧ k.Extends [sig] k' ∧
      (Context.compile ⟨k₁.table.view, imports, sig, k.options⟩ u).result = .ok cls := by
  unfold compile at h
  rcases k.registerUnit_cases u with ⟨e, hu⟩ | ⟨sig, imports, k₁, hdeclare, hu, hextends⟩
  · rw [hu] at h
    cases h
  · have hlookup := k₁.compileRegistered_extends ⟨u, ⟨k.table.next, sig⟩, imports⟩
    have hresult := k₁.compileRegistered_result ⟨u, ⟨k.table.next, sig⟩, imports⟩
    rw [hu] at h
    dsimp only at h
    cases hr : k₁.compileRegistered ⟨u, ⟨k.table.next, sig⟩, imports⟩ with
    | mk result k₂ =>
      rw [hr] at h hlookup hresult
      cases result with
      | error e => cases h
      | ok cls' =>
        cases h
        rw [hextends.options] at hresult
        exact ⟨sig, imports, k₁, hdeclare, hu, by simpa using hextends.trans hlookup, hresult.symm⟩

/-- The unit is compiled to this class file, and this pool is left when the file is written. -/
def Makes (k : Compiler) (u : CompilationUnit) (file : ClassFile) (b' : PoolBuilder) : Prop :=
  ∃ r k₁ b bytes, k.registerUnit u = (.ok r, k₁) ∧
    Runs (Context.classFile ⟨k₁.table.view, r.imports, r.registration.sig, k.options⟩ u) {} file b ∧
    file.write.on b = (.ok bytes, b')

/-- A file with less bytes than 32 bits can count has no attribute with more. -/
theorem sized_of_length (h : k.compile u = (.ok cls, k')) (hsize : cls.bytes.length < 2 ^ 32) {file : ClassFile}
    {b' : PoolBuilder} (hfile : k.Makes u file b') : file.Sized b' := by
  obtain ⟨r, k₁, b, bytes, hr, hruns, hwrite⟩ := hfile
  obtain ⟨sig, imports, k₂, -, hu, -, hcompile⟩ := compile_eq_ok h
  obtain ⟨rfl, rfl⟩ : r = ⟨u, ⟨k.table.next, sig⟩, imports⟩ ∧ k₁ = k₂ := by
    have heq := hr.symm.trans hu
    exact ⟨Except.ok.inj (Prod.mk.inj heq).1, (Prod.mk.inj heq).2⟩
  obtain ⟨file', b₁, b₁', hruns', hwrite'⟩ := Context.compile_runs hcompile
  obtain ⟨rfl, rfl⟩ : file = file' ∧ b = b₁ := Prod.mk.inj (Except.ok.inj (hruns.symm.trans hruns'))
  obtain ⟨hbytes, rfl⟩ := Prod.mk.inj (hwrite.symm.trans hwrite')
  obtain rfl := Except.ok.inj hbytes
  exact ClassFile.sized_of_length (ClassFile.valid_of_write (Context.valid_classFile hruns) hwrite).sound hwrite hsize

end Compiler

/-- The members of the class can be counted, the implicit constructor among them. -/
structure Source.CompilationUnit.Counted (u : CompilationUnit) : Prop where
  interfaces : u.decl.interfaces.length ≤ 65535
  fields : u.decl.fields.length ≤ 65535
  methods : u.decl.methods.length + (if u.decl.lacksConstructor then 1 else 0) ≤ 65535

/-- A compiled class is read back from its file as it stands in the table, with parameters that are known by their types
    only, and without a base if it is the root class. Its methods are those that it declares, behind which stands a
    constructor if it is no interface and declares none. The number of bytes of an attribute is a 32-bit number, so each
    attribute has to have less than that. -/
theorem introspect_compiled {k k' : Compiler} {u : CompilationUnit} {cls : CompiledClass} (hnames : u.WellNamed)
    (hcounts : u.Counted) (h : k.compile u = (.ok cls, k')) (hsized : ∀ file b', k.Makes u file b' → file.Sized b') :
    ∃ sig declared, k.options.Declares u sig ∧ ⟨k.table.next, sig⟩ ∈ k'.table.sources ∧
      Provider.introspect cls.bytes = .ok sig.compiled ∧
      List.Forall₂ (fun d m => m.name = d.compiledName) u.decl.methods declared ∧
      sig.methods = declared ++ if u.decl.lacksConstructor then [Imports.implicitConstructor] else [] := by
  obtain ⟨sig, imports, k₁, hdeclare, hregister, hextends, hcompile⟩ := Compiler.compile_eq_ok h
  obtain ⟨hscope, hsig⟩ := Options.declare_eq_ok hdeclare
  obtain ⟨declared, hlists⟩ := Imports.classSig_eq_ok hsig
  have hlegible := hlists.legible hnames (hnames.plain hscope)
  obtain ⟨file, b, b', hruns, hwrite⟩ := Context.compile_runs hcompile
  have hfile := Context.lists_classFile hlists.fields.length_eq.symm hruns
  have hcounted : file.Counted := by
    refine ⟨?_, ?_, ?_⟩
    · rw [hfile.interfaces, hlists.interfaces]
      exact hcounts.interfaces
    · rw [← hfile.fields.length_eq, ← hlists.fields.length_eq]
      exact hcounts.fields
    · rw [← hfile.methods.length_eq, hlists.methods, List.length_append, ← hlists.heads.length_eq]
      have := hcounts.methods
      split at this <;> simp_all
  have hmakes : k.Makes u file b' := ⟨_, k₁, b, cls.bytes, hregister, hruns, hwrite⟩
  obtain ⟨p, hparse, hstored⟩ := ClassFile.parse_written hcounted (Context.valid_classFile hruns) hwrite
    (hsized file b' hmakes)
  have hread : Provider.introspect cls.bytes = .ok sig.compiled := by
    rw [Provider.introspect, hparse]
    exact congrArg Except.ok (hfile.signature_eq hlegible hstored)
  have hmem : ⟨k.table.next, sig⟩ ∈ k'.table.sources := by
    rw [hextends.table.sources]
    simp [numbered]
  exact ⟨sig, declared, ⟨imports, hdeclare⟩, hmem, hread, hlists.heads.imp fun _ _ hm => hm.name, hlists.methods⟩

/-- A class with overloaded methods, fields of its own type and of arrays, and no constructor. -/
def meterUnit : CompilationUnit where
  imports := [⟨"java/lang/Runnable", {}⟩]
  decl :=
    { name := ⟨"demo/Meter", {}⟩, isInterface := false, base := none, interfaces := [⟨"Runnable", {}⟩]
      fields := [⟨⟨"next", {}⟩, .ofText "Meter", false, [], {}⟩, ⟨⟨"limits", {}⟩, .ofText "long[]!", true, [], {}⟩]
      methods :=
        [⟨⟨"run", {}⟩, .ofText "void", [], false, false, some [], [], {}⟩,
         ⟨⟨"run", {}⟩, .ofText "int",
           [⟨⟨"label", {}⟩, .ofText "java/lang/String", [], {}⟩, ⟨⟨"n", {}⟩, .ofText "int", [], {}⟩], true, true, none, [], {}⟩]
      annotations := []
      span := {} }

theorem meterUnit_compiles : (match (Compiler.ofProvider .platform {}).compile meterUnit with
    | (.ok cls, _) => decide (cls.bytes.length < 2 ^ 32)
    | _ => false) = true := by
  decide +kernel

theorem introspect_compiled_meter : ∃ cls k' sig declared, meterUnit.WellNamed ∧ meterUnit.Counted ∧
    (Compiler.ofProvider .platform {}).compile meterUnit = (.ok cls, k') ∧
    (∀ file b', (Compiler.ofProvider .platform {}).Makes meterUnit file b' → file.Sized b') ∧
    ⟨0, sig⟩ ∈ k'.table.sources ∧ Provider.introspect cls.bytes = .ok sig.compiled ∧
    List.Forall₂ (fun d m => m.name = d.compiledName) meterUnit.decl.methods declared ∧
    sig.methods = declared ++ [Imports.implicitConstructor] := by
  have hnames : meterUnit.WellNamed := ⟨by decide +kernel, by decide +kernel, by decide +kernel, by decide +kernel⟩
  have hcounts : meterUnit.Counted := ⟨by decide +kernel, by decide +kernel, by decide +kernel⟩
  have hok := meterUnit_compiles
  split at hok
  · rename_i cls k' hcls
    have hsized : ∀ file b', Compiler.Makes _ meterUnit file b' → file.Sized b' :=
      fun _ _ => Compiler.sized_of_length hcls (of_decide_eq_true hok)
    obtain ⟨sig, declared, -, hmem, hread, hheads, hmethods⟩ := introspect_compiled hnames hcounts hcls hsized
    exact ⟨cls, k', sig, declared, hnames, hcounts, hcls, hsized, hmem, hread, hheads, hmethods⟩
  · cases hok

/-- A unit without members. -/
def bareUnit (name : String) (isInterface : Bool) (base : Option String) : CompilationUnit where
  imports := []
  decl :=
    { name := ⟨name, {}⟩, isInterface, base := base.map (⟨·, {}⟩), interfaces := [], fields := [], methods := []
      annotations := [], span := {} }

/-- The class of the unit stands in the table as the first signature, and its file says the second. -/
def ReadBack (u : CompilationUnit) (sig read : ClassSig) : Prop :=
  ∃ cls k', (Compiler.ofProvider .platform {}).compile u = (.ok cls, k') ∧ k'.table.sources = [⟨0, sig⟩] ∧
    Provider.introspect cls.bytes = .ok read

theorem readBack_of_decide {u : CompilationUnit} {sig read : ClassSig}
    (h : (match (Compiler.ofProvider .platform {}).compile u with
      | (.ok cls, k') => decide (k'.table.sources = [⟨0, sig⟩] ∧ (Provider.introspect cls.bytes).toOption = some read)
      | _ => false) = true) : ReadBack u sig read := by
  split at h
  · rename_i cls k' hcls
    obtain ⟨hsources, hread⟩ := of_decide_eq_true h
    exact ⟨cls, k', hcls, hsources, toOption_eq_some.mp hread⟩
  · cases h

/-- The base of the root class is lost, and an interface gets no constructor although it declares none. -/
theorem readBack_root_and_interface :
    ReadBack (bareUnit Name.object false (some "java/lang/RuntimeException"))
      { name := Name.object, base := some "java/lang/RuntimeException", methods := [Imports.implicitConstructor] }
      { name := Name.object, base := none, methods := [Imports.implicitConstructor] } ∧
    ReadBack (bareUnit "demo/Shape" true none)
      { name := "demo/Shape", isInterface := true, base := some Name.object }
      { name := "demo/Shape", isInterface := true, base := some Name.object } :=
  ⟨readBack_of_decide (by decide +kernel), readBack_of_decide (by decide +kernel)⟩

end Classwright
