import Classwright.Proofs.Compiler.Batches
import Classwright.Proofs.Compiler.Declared
import Classwright.Proofs.Typing.Shape
import Mathlib.Algebra.Group.Int.Defs
import Mathlib.Algebra.GroupWithZero.Nat
import Mathlib.Data.List.Nodup

/-! # Rules that registered classes keep

Whatever class a unit puts into the table keeps the static rules of class files, whichever of the checks looks after
them. Two rules hold only as far as the declaration goes: interfaces are listed as often as they are named, and methods
that differ in the types of their parameters have different descriptors only where the names of classes can stand in
them. -/

namespace Classwright

open Source (ClassDecl CompilationUnit FieldDecl MethodDecl ParamDecl TypeRef)

/-! ### The rules -/

/-- Values of the type can be held: it is neither `void` nor an array of it. -/
def Ty.IsHeld (t : Ty) : Prop := t.isVoid = false ∧ t ≠ Ty.void.arrayOf

/-- The rules for a method. -/
structure MethodSig.Lawful (m : MethodSig) : Prop where
  returns : m.returns ≠ Ty.void.arrayOf
  params : ∀ t ∈ m.paramTypes, t.IsHeld
  slots : (if m.isStatic then 0 else 1) + (m.paramTypes.map Ty.width).sum ≤ 255
  static_code : m.isStatic = true → m.isAbstract = false
  constructor_shape : m.isConstructor = true →
    m.isStatic = false ∧ m.isNative = false ∧ m.returns = .void ∧ m.hasCode = true

/-- The rules for an interface that is written for a release. -/
structure ClassSig.LawfulInterface (c : ClassSig) (release : Nat) : Prop where
  base : c.base = some Name.object
  fields : c.fields = []
  constructors : ∀ m ∈ c.methods, m.isConstructor = false
  methods : ∀ m ∈ c.methods, m.isAbstract = true ∨ 8 ≤ release ∧ m.isStatic = true ∧ m.hasCode = true

/-- The rules for a class, or an interface, that is written for a release. -/
structure ClassSig.Lawful (c : ClassSig) (release : Nat) : Prop where
  supertypes : c.base ≠ some c.name ∧ c.name ∉ c.interfaces
  field_names : (c.fields.map (·.name)).Nodup
  fields : ∀ f ∈ c.fields, f.type.IsHeld
  overloads : (c.methods.map fun m => (m.name, m.paramTypes)).Nodup
  methods : ∀ m ∈ c.methods, m.Lawful
  constructed : c.isInterface = false → ∃ m ∈ c.methods, m.isConstructor = true
  asInterface : c.isInterface = true → c.LawfulInterface release

/-! ### Members -/

/-- A member whose key is new can be added. -/
theorem nodup_map_concat {α κ : Type} {f : α → κ} {xs : List α} {x : α} (h : (xs.map f).Nodup)
    (hx : ∀ y ∈ xs, f y ≠ f x) : ((xs ++ [x]).map f).Nodup := by
  rw [List.map_append, List.nodup_append]
  refine ⟨h, List.nodup_singleton _, fun a ha b hb => ?_⟩
  obtain ⟨y, hy, rfl⟩ := List.mem_map.mp ha
  rw [List.mem_singleton.mp hb]
  exact hx y hy

namespace Imports
variable {i : Imports}

theorem resolveType_ne {t : TypeRef} {ty : Ty} (h : i.resolveType t = .ok ty) : ty ≠ Ty.void.arrayOf := by
  obtain ⟨-, h⟩ := ite_error_eq_ok.mp h
  obtain ⟨hvoid, h⟩ := ite_error_eq_ok.mp h
  cases h
  intro heq
  injection heq with helem harray
  cases hprim : Prim.ofKeyword? t.name with
  | none => rw [hprim] at helem; cases helem
  | some p =>
    rw [hprim] at helem
    injection helem with helem
    simp [hprim, helem, harray] at hvoid

theorem fieldSig_isHeld {d : FieldDecl} {f : FieldSig} (h : i.fieldSig d = .ok f) :
    f.name = d.name.name ∧ f.type.IsHeld := by
  obtain ⟨t, ht, h⟩ := bind_eq_ok.mp h
  obtain ⟨hvoid, h⟩ := ite_error_eq_ok.mp h
  cases h
  exact ⟨rfl, Bool.eq_false_iff.mpr hvoid, resolveType_ne ht⟩

theorem fieldSigs_lawful {before fs : List FieldSig} {ds : List FieldDecl} (h : i.fieldSigs before ds = .ok fs)
    (hnames : (before.map (·.name)).Nodup) (hheld : ∀ f ∈ before, f.type.IsHeld) :
    (fs.map (·.name)).Nodup ∧ ∀ f ∈ fs, f.type.IsHeld := by
  induction ds generalizing before with
  | nil =>
    cases h
    exact ⟨hnames, hheld⟩
  | cons d ds ih =>
    obtain ⟨hnew, h⟩ := ite_error_eq_ok.mp h
    obtain ⟨f, hf, h⟩ := bind_eq_ok.mp h
    obtain ⟨hname, htype⟩ := fieldSig_isHeld hf
    refine ih h (nodup_map_concat hnames fun g hg heq => hnew ?_) ?_
    · exact List.any_eq_true.mpr ⟨g, hg, by simpa [hname] using heq⟩
    · exact List.forall_mem_append.mpr ⟨hheld, List.forall_mem_singleton.mpr htype⟩

theorem paramSigs_isHeld {ds : List ParamDecl} {ps : List ParamSig} (h : i.paramSigs ds = .ok ps) :
    ∀ p ∈ ps, p.type.IsHeld := by
  intro p hp
  obtain ⟨d, -, htype, hvoid⟩ := exists_of_forall₂ (paramSigs_eq_ok h) hp
  exact ⟨hvoid, resolveType_ne htype⟩

theorem foldr_width (ps : List ParamSig) (n : Nat) :
    ps.foldr (fun p n => p.type.width + n) n = n + (ps.map (·.type.width)).sum := by
  induction ps with
  | nil => rfl
  | cons p ps ih =>
    rw [List.foldr_cons, ih, List.map_cons, List.sum_cons]
    omega

/-- A head that is accepted has the shape that its kind of method asks for. -/
theorem declare_shape {name : String} {isStatic isNative hasBody : Bool} {returns : Ty} {params : List ParamSig}
    {span : Span} {m : MethodSig} (h : MethodSig.declare name isStatic isNative hasBody returns params span = .ok m) :
    m.isStatic = isStatic ∧ (m.isStatic = true → m.isAbstract = false) ∧ (m.isConstructor = true →
      m.isStatic = false ∧ m.isNative = false ∧ m.returns = .void ∧ m.hasCode = true) := by
  obtain ⟨hstatic, h⟩ := ite_error_eq_ok.mp h
  obtain ⟨hshape, h⟩ := ite_error_eq_ok.mp h
  obtain ⟨hcode, h⟩ := ite_error_eq_ok.mp h
  cases h
  refine ⟨rfl, fun hs => ?_, fun hc => ?_⟩
  · simpa [show isStatic = true from hs] using hstatic
  · have hinit : (if name = Name.constructorKeyword then Name.init else name) = Name.init := beq_iff_eq.mp hc
    obtain ⟨hinstance, hreturns⟩ : isStatic = false ∧ returns.isVoid = true := by simpa [hinit] using hshape
    obtain ⟨hnative, hbody⟩ : isNative = false ∧ hasBody = true := by simpa [hinit] using hcode
    refine ⟨hinstance, hnative, ?_, ?_⟩
    · exact Ty.eq_void hreturns
    · simp [MethodSig.hasCode, hnative, hbody]

theorem methodSig_lawful {d : MethodDecl} {m : MethodSig} (h : i.methodSig d = .ok m) : m.Lawful := by
  obtain ⟨-, h⟩ := ite_error_eq_ok.mp h
  obtain ⟨returns, hreturns, h⟩ := bind_eq_ok.mp h
  obtain ⟨params, hparams, h⟩ := bind_eq_ok.mp h
  obtain ⟨hslots, h⟩ := ite_error_eq_ok.mp h
  obtain ⟨-, rfl, rfl⟩ := declare_eq_ok h
  obtain ⟨hstatic, hcode, hshape⟩ := declare_shape h
  refine ⟨resolveType_ne hreturns, ?_, ?_, hcode, hshape⟩
  · intro t ht
    obtain ⟨p, hp, rfl⟩ := List.mem_map.mp ht
    exact paramSigs_isHeld hparams p hp
  · have hle := Nat.not_lt.mp hslots
    rw [foldr_width, ← hstatic] at hle
    simpa [MethodSig.paramTypes, Function.comp_def, maxParameterSlots] using hle

theorem methodSigs_lawful {before ms : List MethodSig} {ds : List MethodDecl} (h : i.methodSigs before ds = .ok ms)
    (hkeys : (before.map fun m => (m.name, m.paramTypes)).Nodup) (hlawful : ∀ m ∈ before, m.Lawful) :
    (ms.map fun m => (m.name, m.paramTypes)).Nodup ∧ ∀ m ∈ ms, m.Lawful := by
  induction ds generalizing before with
  | nil =>
    cases h
    exact ⟨hkeys, hlawful⟩
  | cons d ds ih =>
    obtain ⟨m, hm, h⟩ := bind_eq_ok.mp h
    obtain ⟨hnew, h⟩ := ite_error_eq_ok.mp h
    refine ih h (nodup_map_concat hkeys fun n hn heq => hnew ?_) ?_
    · exact List.any_eq_true.mpr ⟨n, hn, by simpa using heq⟩
    · exact List.forall_mem_append.mpr ⟨hlawful, List.forall_mem_singleton.mpr (methodSig_lawful hm)⟩

end Imports

/-! ### Classes -/

theorem implicitConstructor_lawful : Imports.implicitConstructor.Lawful where
  returns := by decide
  params := by simp [MethodSig.paramTypes, Imports.implicitConstructor]
  slots := by decide
  static_code := by decide
  constructor_shape := by decide

/-- What the signature of a class takes over from its declaration, and the rules that its members keep. -/
structure Imports.ListsLawful (i : Imports) (d : ClassDecl) (c : ClassSig) : Prop where
  isInterface : c.isInterface = d.isInterface
  base : d.base = none → c.base = some Name.object
  interfaces : c.interfaces = d.interfaces.map (i.resolve ·.name)
  field_names : (c.fields.map (·.name)).Nodup
  fields : ∀ f ∈ c.fields, f.type.IsHeld
  overloads : (c.methods.map fun m => (m.name, m.paramTypes)).Nodup
  methods : ∀ m ∈ c.methods, m.Lawful
  constructed : c.isInterface = false → ∃ m ∈ c.methods, m.isConstructor = true

theorem Imports.classSig_lawful {i : Imports} {d : ClassDecl} {c : ClassSig} (h : i.classSig d = .ok c) :
    i.ListsLawful d c := by
  obtain ⟨fields, hfields, h⟩ := bind_eq_ok.mp h
  obtain ⟨methods, hmethods, h⟩ := bind_eq_ok.mp h
  have hbase : d.base = none → c.base = some Name.object := by
    intro hnone
    rw [hnone] at h
    cases h
    rfl
  cases h
  obtain ⟨hnames, hheld⟩ := fieldSigs_lawful hfields .nil nofun
  obtain ⟨hkeys, hlawful⟩ := methodSigs_lawful hmethods .nil nofun
  -- the implicit constructor has a name that no method of the declaration has
  cases hneeds : !d.isInterface && !methods.any (·.isConstructor) with
  | true =>
    have hnone : methods.any (·.isConstructor) = false := by simpa using (Bool.and_eq_true_iff.mp hneeds).2
    have hnew : ∀ m ∈ methods, (m.name, m.paramTypes) ≠ (Name.init, []) := by
      intro m hm heq
      have hinit : m.isConstructor = true := beq_iff_eq.mpr (congrArg Prod.fst heq)
      exact List.any_eq_false.mp hnone m hm hinit
    refine ⟨rfl, hbase, rfl, hnames, hheld, nodup_map_concat hkeys hnew, ?_, fun _ => ?_⟩
    · exact List.forall_mem_append.mpr ⟨hlawful, List.forall_mem_singleton.mpr implicitConstructor_lawful⟩
    · exact ⟨Imports.implicitConstructor, List.mem_append_right _ (List.mem_singleton_self _), rfl⟩
  | false =>
    refine ⟨rfl, hbase, rfl, hnames, hheld, hkeys, hlawful, fun hclass => ?_⟩
    have hany : methods.any (·.isConstructor) = true := by simpa [show d.isInterface = false from hclass] using hneeds
    exact List.any_eq_true.mp hany

/-! ### The checks of a whole class -/

theorem ClassSig.interfaceFault?_eq_none {c : ClassSig} {declaredBase : Bool}
    (h : c.interfaceFault? declaredBase = none) :
    declaredBase = false ∧ c.fields = [] ∧
      ∀ m ∈ c.methods, m.isConstructor = false ∧ m.isNative = false ∧ (m.isAbstract = true ∨ m.isStatic = true) := by
  unfold interfaceFault? at h
  split at h
  · cases h
  case isFalse hbase =>
    split at h
    · cases h
    case h_2 hfields =>
      split at h
      · cases h
      case h_2 hplain =>
        split at h
        · cases h
        case h_2 hcode =>
          refine ⟨by simpa using hbase, hfields, fun m hm => ?_⟩
          obtain ⟨hconstructor, hnative⟩ : m.isConstructor = false ∧ m.isNative = false := by
            simpa using List.find?_eq_none.mp hplain m hm
          refine ⟨hconstructor, hnative, ?_⟩
          cases habstract : m.isAbstract with
          | true => exact .inl rfl
          | false => exact .inr (by simpa [habstract] using List.find?_eq_none.mp hcode m hm)

theorem ClassSig.checkRules_eq_ok {c : ClassSig} {declaredBase : Bool} {span : Span}
    (h : c.checkRules declaredBase span = .ok ()) :
    (c.base ≠ some c.name ∧ c.name ∉ c.interfaces) ∧
      (c.isInterface = true → c.interfaceFault? declaredBase = none) := by
  obtain ⟨hself, h⟩ := ite_error_eq_ok.mp h
  refine ⟨by simpa [ClassSig.namesItself] using hself, fun hinterface => ?_⟩
  rw [if_pos hinterface] at h
  split at h
  · cases h
  · assumption

theorem Target.allowsStaticInterfaceMethods_iff (t : Target) :
    t.allowsStaticInterfaceMethods = true ↔ 8 ≤ t.release := by
  have hleast := t.least
  have hmost := t.most
  rw [Target.allowsStaticInterfaceMethods, decide_eq_true_eq, UInt16.le_iff_toNat_le, Target.major, Nat.toUInt16_eq,
    UInt16.toNat_ofNat', Nat.mod_eq_of_lt (by omega), show (52 : UInt16).toNat = 52 from rfl]
  omega

/-- For a release that has no static methods in interfaces, a class that is accepted has none. -/
theorem Options.checkTarget_eq_ok {o : Options} {c : ClassSig} {d : ClassDecl} (h : o.checkTarget c d = .ok ())
    (hinterface : c.isInterface = true) (hlength : c.methods.length = d.methods.length) {m : MethodSig}
    (hm : m ∈ c.methods) (hstatic : m.isStatic = true) : 8 ≤ o.effectiveTarget.release := by
  rw [← Target.allowsStaticInterfaceMethods_iff]
  by_contra hold
  have hold : o.effectiveTarget.allowsStaticInterfaceMethods = false := by simpa using hold
  simp only [Options.checkTarget, hinterface, hold, Bool.not_true, Bool.or_self, Bool.false_eq_true, if_false] at h
  split at h
  · cases h
  case h_2 hnone =>
    have hzip : (c.methods.zip d.methods).map Prod.fst = c.methods := List.map_fst_zip (Nat.le_of_eq hlength)
    rw [← hzip] at hm
    obtain ⟨pair, hpair, rfl⟩ := List.mem_map.mp hm
    exact List.find?_eq_none.mp hnone pair hpair hstatic

theorem Options.declare_lawful {o : Options} {u : CompilationUnit} {c : ClassSig} {i : Imports}
    (h : o.declare u = .ok (c, i)) :
    c.Lawful o.effectiveTarget.release ∧ (c.isInterface = true → u.decl.base = none) ∧
      c.interfaces = u.decl.interfaces.map (i.resolve ·.name) := by
  obtain ⟨i', -, h⟩ := bind_eq_ok.mp h
  obtain ⟨-, -, h⟩ := bind_eq_ok.mp h
  obtain ⟨c', hc, h⟩ := bind_eq_ok.mp h
  obtain ⟨⟨⟩, hrules, h⟩ := bind_eq_ok.mp h
  obtain ⟨⟨⟩, htarget, h⟩ := bind_eq_ok.mp h
  cases h
  have hlists := Imports.classSig_lawful hc
  obtain ⟨hsuper, hfault⟩ := ClassSig.checkRules_eq_ok hrules
  have hdeclared (hinterface : c.isInterface = true) : u.decl.base = none := by
    simpa using (ClassSig.interfaceFault?_eq_none (hfault hinterface)).1
  refine ⟨⟨hsuper, hlists.field_names, hlists.fields, hlists.overloads, hlists.methods, hlists.constructed,
    fun hinterface => ?_⟩, hdeclared, hlists.interfaces⟩
  obtain ⟨-, hfields, hmethods⟩ := ClassSig.interfaceFault?_eq_none (hfault hinterface)
  refine ⟨hlists.base (hdeclared hinterface), hfields, fun m hm => (hmethods m hm).1, fun m hm => ?_⟩
  obtain ⟨-, hnative, habstract | hstatic⟩ := hmethods m hm
  · exact .inl habstract
  · have hcode : m.isAbstract = false := (hlists.methods m hm).static_code hstatic
    have hlength : c.methods.length = u.decl.methods.length := by
      obtain ⟨declared, hdecl⟩ := Imports.classSig_eq_ok hc
      have hlacks : u.decl.lacksConstructor = false := by
        simp [Source.ClassDecl.lacksConstructor, ← hlists.isInterface, hinterface]
      rw [hdecl.methods, hlacks, hdecl.heads.length_eq]
      simp
    exact .inr ⟨Options.checkTarget_eq_ok htarget hinterface hlength hm hstatic, hstatic,
      by simp [MethodSig.hasCode, hcode, hnative]⟩

/-! ### Descriptors -/

theorem Ty.IsHeld.legible {t : Ty} (h : t.IsHeld) (hn : t.WellNamed) : t.Legible := ⟨hn, h.2⟩

/-- Descriptors tell methods apart that differ in the types of their parameters. -/
theorem Ty.methodDescriptor_params {ps qs : List Ty} {r s : Ty} (hp : ∀ t ∈ ps, t.Legible) (hq : ∀ t ∈ qs, t.Legible)
    (h : methodDescriptor ps r = methodDescriptor qs s) : ps = qs := by
  have hread {ts : List Ty} (hts : ∀ t ∈ ts, t.Legible) : (ts.map descriptorChars).map ofChars? = ts.map some := by
    rw [List.map_map]
    exact List.map_congr_left fun t ht => ofChars?_descriptorChars (hts t ht)
  have hsplit := split?_methodDescriptor (fun t ht => (hp t ht).1) r
  rw [h, split?_methodDescriptor (fun t ht => (hq t ht).1) s] at hsplit
  injection hsplit with hsplit
  have hchars : ps.map descriptorChars = qs.map descriptorChars := (congrArg Prod.fst hsplit).symm
  refine List.map_injective_iff.mpr (fun _ _ => Option.some.inj) ?_
  rw [← hread hp, ← hread hq, hchars]

theorem ClassSig.Lawful.descriptors {c : ClassSig} {release : Nat} (h : c.Lawful release)
    (hn : ∀ m ∈ c.methods, ∀ t ∈ m.paramTypes, t.WellNamed) :
    (c.methods.map fun m => (m.name, m.descriptor)).Nodup := by
  have hlegible : ∀ m ∈ c.methods, ∀ t ∈ m.paramTypes, t.Legible := fun m hm t ht =>
    ((h.methods m hm).params t ht).legible (hn m hm t ht)
  refine List.pairwise_map.mpr ((List.pairwise_map.mp h.overloads).imp_of_mem fun {m n} hm hm' hne heq => hne ?_)
  obtain ⟨hname, hdescriptor⟩ := Prod.mk.inj heq
  rw [hname, Ty.methodDescriptor_params (hlegible m hm) (hlegible n hm') hdescriptor]

/-! ### Registered classes -/

/-- Every class that a unit registers keeps the static rules of class files. It lists its interfaces as it declares
    them, so one that is named twice is listed twice; its methods have different descriptors if the names of classes in
    them can be told apart. -/
theorem registered_class_lawful {k k' : Compiler} {u : CompilationUnit} {r : RegisteredUnit}
    (h : k.registerUnit u = (.ok r, k')) :
    r.registration.sig.Lawful k.options.effectiveTarget.release ∧
    (r.registration.sig.isInterface = true → u.decl.base = none) ∧
    (r.registration.sig.interfaces.Nodup ↔ (u.decl.interfaces.map (r.imports.resolve ·.name)).Nodup) ∧
    ((∀ m ∈ r.registration.sig.methods, ∀ t ∈ m.paramTypes, t.WellNamed) →
      (r.registration.sig.methods.map fun m => (m.name, m.descriptor)).Nodup) := by
  rcases k.registerUnit_cases u with ⟨e, hu⟩ | ⟨sig, imports, k₁, hdeclare, hu, -⟩
  · rw [hu] at h
    cases h
  rw [hu] at h
  cases h
  obtain ⟨hlawful, hbase, hinterfaces⟩ := Options.declare_lawful hdeclare
  exact ⟨hlawful, hbase, by rw [hinterfaces], hlawful.descriptors⟩

/-- A compiler that has seen no other unit registers the unit with such a result. -/
def Registers (u : CompilationUnit) (P : RegisteredUnit → Prop) : Prop :=
  ∃ r k', (Compiler.ofProvider .platform {}).registerUnit u = (.ok r, k') ∧ P r

theorem registers_of_decide {u : CompilationUnit} {P : RegisteredUnit → Prop} [DecidablePred P]
    (h : ((Compiler.ofProvider .platform {}).registerUnit u).1.toOption.any (decide <| P ·) = true) : Registers u P := by
  obtain ⟨r, k', hr, hP⟩ := exists_ok_of_any h
  exact ⟨r, k', hr, of_decide_eq_true hP⟩

/-- A queue with two constructors and two methods of one name. -/
def queueUnit : CompilationUnit where
  imports := [⟨"java/lang/Runnable", {}⟩]
  decl :=
    { name := ⟨"demo/Queue", {}⟩, isInterface := false, base := none
      interfaces := [⟨"Runnable", {}⟩]
      fields := [⟨⟨"size", {}⟩, .ofText "int", false, [], {}⟩, ⟨⟨"total", {}⟩, .ofText "long", true, [], {}⟩]
      methods :=
        [⟨⟨"constructor", {}⟩, .ofText "void", [], false, false, some [], [], {}⟩,
         ⟨⟨"constructor", {}⟩, .ofText "void", [⟨⟨"size", {}⟩, .ofText "int", [], {}⟩], false, false, some [], [], {}⟩,
         ⟨⟨"run", {}⟩, .ofText "void", [], false, false, some [], [], {}⟩,
         ⟨⟨"run", {}⟩, .ofText "int", [⟨⟨"times", {}⟩, .ofText "long", [], {}⟩], true, true, none, [], {}⟩]
      annotations := []
      span := {} }

theorem registered_class_lawful_queue : ∃ r k',
    (Compiler.ofProvider .platform {}).registerUnit queueUnit = (.ok r, k') ∧ r.registration.sig.Lawful 17 ∧
      r.registration.sig.interfaces.Nodup ∧ (r.registration.sig.methods.map fun m => (m.name, m.descriptor)).Nodup := by
  obtain ⟨r, k', h, hdistinct, hnamed⟩ : Registers queueUnit fun r =>
      (queueUnit.decl.interfaces.map (r.imports.resolve ·.name)).Nodup ∧
        ∀ m ∈ r.registration.sig.methods, ∀ t ∈ m.paramTypes, t.WellNamed :=
    registers_of_decide (by decide +kernel)
  obtain ⟨hlawful, -, hinterfaces, hdescriptors⟩ := registered_class_lawful h
  exact ⟨r, k', h, hlawful, hinterfaces.mpr hdistinct, hdescriptors hnamed⟩

/-- A class that names an interface twice. -/
def twiceUnit : CompilationUnit where
  imports := [⟨"java/lang/Runnable", {}⟩]
  decl :=
    { name := ⟨"demo/Task", {}⟩, isInterface := false, base := none
      interfaces := [⟨"Runnable", {}⟩, ⟨"java/lang/Runnable", {}⟩]
      fields := [], methods := [], annotations := [], span := {} }

/-- A class with a method of one parameter, whose type has the name of two types in a descriptor, and a method of these
    two. -/
def gluedUnit : CompilationUnit where
  imports := []
  decl :=
    { name := ⟨"demo/Glued", {}⟩, isInterface := false, base := none, interfaces := [], fields := []
      methods :=
        [⟨⟨"run", {}⟩, .ofText "void", [⟨⟨"x", {}⟩, .ofText "A;LB", [], {}⟩], false, false, some [], [], {}⟩,
         ⟨⟨"run", {}⟩, .ofText "void", [⟨⟨"x", {}⟩, .ofText "A", [], {}⟩, ⟨⟨"y", {}⟩, .ofText "B", [], {}⟩],
           false, false, some [], [], {}⟩]
      annotations := []
      span := {} }

/-- A class can come into the table with one interface twice, and with two methods of one name and descriptor. -/
theorem registered_with_repetitions :
    Registers twiceUnit (fun r => r.registration.sig.interfaces = ["java/lang/Runnable", "java/lang/Runnable"]) ∧
    Registers gluedUnit (fun r => (r.registration.sig.methods.filter (·.name == "run")).map (·.descriptor) =
      ["(LA;LB;)V", "(LA;LB;)V"]) :=
  ⟨registers_of_decide (by decide +kernel), registers_of_decide (by decide +kernel)⟩

end Classwright
