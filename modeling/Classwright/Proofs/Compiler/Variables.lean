import Classwright.Proofs.ClassFile.Encoded
import Classwright.Proofs.ClassFile.MapEntries
import Classwright.Proofs.Compiler.Introspection
import Classwright.Proofs.Compiler.Rules
import Classwright.Proofs.Frames.Limits
import Classwright.Proofs.Lowering.Accesses
import Classwright.Proofs.Typing.Entry

/-! # Variables and frames

The table of variables lists all locals of a method. Its frame has room for what the method is called with and for what
its live instructions load and store. So a variable is listed with a slot that the frame does not have where neither it
nor a later one is used. -/

namespace Classwright

open Source (CompilationUnit MethodDecl ParamDecl Stmt)

/-! ### Variables -/

/-- The words that a variable takes. -/
def ClassFile.LocalVariable.width (v : ClassFile.LocalVariable) : Nat := Descriptor.words v.descriptor.toList

/-- A local as the table lists it. -/
def Local.listed (v : Local) : ClassFile.LocalVariable := ⟨v.name, v.type.descriptor, v.slot⟩

theorem Ty.words_descriptor (t : Ty) : Descriptor.words t.descriptor.toList = t.width := by
  rw [descriptor, String.toList_ofList]
  obtain ⟨e, isArray⟩ := t
  cases isArray with
  | true => cases e <;> exact Decoder.words_array _
  | false =>
    cases e with
    | cls name => exact Decoder.words_of_long (by simp [descriptorChars, Elem.descriptor])
    | prim p => cases p <;> rfl

theorem Local.width_listed (v : Local) : v.listed.width = v.type.width := v.type.words_descriptor

/-- An instruction that control can come to loads or stores what the variable takes. -/
def Code.Uses (c : Code) (v : ClassFile.LocalVariable) : Prop :=
  ∃ p is i k, c.placement = .ok p ∧ Path c.instrs p is i ∧
    (c.instrs[i]? = some (.load k v.slot) ∨ c.instrs[i]? = some (.store k v.slot)) ∧ k.width = v.width

namespace Code.Typed
variable {c : Code} {m : MethodHead} {p : Placement} {entry : Frame} {d : Dataflow} {v : ClassFile.LocalVariable}

theorem uses_iff (h : c.Typed m p entry d) : c.Uses v ↔
    ∃ i k, (c.instrs[i]? = some (.load k v.slot) ∨ c.instrs[i]? = some (.store k v.slot)) ∧ d.isLive i = true ∧
      k.width = v.width := by
  constructor
  · rintro ⟨p', is, i, k, hp, path, hi, hk⟩
    cases h.placed.symm.trans hp
    exact ⟨i, k, hi, h.isLive_iff.mpr ⟨is, path⟩, hk⟩
  · rintro ⟨i, k, hi, hlive, hk⟩
    obtain ⟨is, path⟩ := h.isLive_iff.mp hlive
    exact ⟨p, is, i, k, h.placed, path, hi, hk⟩

theorem extent_of_uses (h : c.Typed m p entry d) (hv : c.Uses v) :
    v.slot.toNat + v.width ∈ d.extents c.instrs entry := by
  obtain ⟨i, k, hi, hlive, hk⟩ := h.uses_iff.mp hv
  exact .inr ⟨i, k, v.slot, hi, hlive, by rw [hk]⟩

end Code.Typed

/-- The number of locals that a method is called with. -/
def MethodSig.given (m : MethodSig) : Nat := (if m.isStatic then 0 else 1) + m.params.length

/-! ### Scopes of methods -/

namespace Scope
variable {owner : ClassSig} {method : MethodSig} {span : Span} {s : Scope}

theorem grows_ofMethod (hparams : ∀ t ∈ method.paramTypes, t.isVoid = false)
    (h : ofMethod owner method span = .ok s) : Grows { method } s := by
  refine .of_addAll (List.forall_mem_append.mpr ⟨fun p hp => ?_, fun p hp => hparams _ (List.mem_map_of_mem hp)⟩) h
  split at hp
  · cases hp
  · rw [List.mem_singleton.mp hp]
    rfl

theorem length_ofMethod (h : ofMethod owner method span = .ok s) : s.locals.toList.length = method.given := by
  rw [length_addAll h, List.length_append, MethodSig.given]
  cases method.isStatic <;> simp

end Scope

/-! ### Methods -/

namespace Lowered
variable {c : Context} {method : MethodSig} {body : List Stmt} {site : Span} {out : MethodBody} {s₀ s : Scope}
  {e₀ e : Emitter} {stackMaps : Bool} {a : Assembled} {b b' : PoolBuilder} {p : Placement} {entry : Frame}
  {d : Dataflow}

/-- What is loaded or stored is a local of the list, or the receiver where there may be none. -/
theorem exists_listed (h : Lowered c method body site out s₀ s e₀ e) (hlisted : s.Listed)
    {i : Nat} {k : LocalKind} {slot : UInt16}
    (hi : out.code.instrs[i]? = some (.load k slot) ∨ out.code.instrs[i]? = some (.store k slot)) :
    slot = 0 ∧ k.width = 1 ∨
      ∃ (n : Nat) (v : Local), s.locals.toList[n]? = some v ∧ v.slot = slot ∧ k.width = v.type.width := by
  obtain ⟨instr, hmem, hinstr⟩ : ∃ instr ∈ out.code.instrs, instr = .load k slot ∨ instr = .store k slot := by
    rcases hi with hi | hi
    · exact ⟨_, Array.mem_of_getElem? hi, .inl rfl⟩
    · exact ⟨_, Array.mem_of_getElem? hi, .inr rfl⟩
  rcases h.touches instr hmem k slot hinstr with rfl | ⟨x, v, hv, hslot, hkind⟩
  · rcases hinstr with hload | hstore
    · cases hload
      exact .inl ⟨rfl, rfl⟩
    · cases hstore
  · obtain ⟨n, hn⟩ := List.mem_iff_getElem?.mp ((hlisted.mem_iff v).mpr ⟨x, hv⟩)
    obtain ⟨-, k', -, hk', -, -, hwidth⟩ := Ty.exists_vtype? (hlisted.values x v hv)
    obtain rfl : k' = k := Option.some.inj (hk'.symm.trans hkind)
    exact .inr ⟨n, v, hn, hslot, hwidth⟩

/-- A frame is needed for the locals that are there from the start, for a receiver, or for a local that is used. -/
theorem extent_cases (h : Lowered c method body site out s₀ s e₀ e) (hlisted : s.Listed)
    (typed : out.code.Typed (c.head method) p entry d) {n : Nat} (hn : n ∈ d.extents out.code.instrs entry) :
    n = entry.locals.length ∨ n = 1 ∧ (∀ v : ClassFile.LocalVariable, v.slot = 0 → v.width = 1 → out.code.Uses v) ∨
      ∃ (j : Nat) (w : Local), s.locals.toList[j]? = some w ∧ out.code.Uses w.listed ∧
        n = w.slot.toNat + w.type.width := by
  rcases hn with rfl | ⟨i, k, slot, hi, hlive, rfl⟩
  · exact .inl rfl
  · rcases h.exists_listed hlisted hi with ⟨rfl, hk⟩ | ⟨j, w, hw, rfl, hk⟩
    · refine .inr (.inl ⟨by rw [hk]; rfl, fun v hslot hwidth => typed.uses_iff.mpr ⟨i, k, ?_, hlive, ?_⟩⟩)
      · rwa [hslot]
      · rw [hk, hwidth]
    · exact .inr (.inr ⟨j, w, hw, typed.uses_iff.mpr ⟨i, k, hi, hlive, hk.trans w.width_listed.symm⟩, by rw [hk]⟩)

section Frame
variable (hconstructor : method.isConstructor = true → method.isStatic = false)
  (hparams : ∀ t ∈ method.paramTypes, t.isVoid = false ∧ t.WellNamed)
include hparams

theorem listed (h : Lowered c method body site out s₀ s e₀ e) : s₀.Listed ∧ s.Listed := by
  have hlisted := (Scope.listed_empty method).grows (Scope.grows_ofMethod (fun t ht => (hparams t ht).1) h.scope)
  exact ⟨hlisted, hlisted.grows h.grows⟩

include hconstructor

/-- Slots are given out up to a limit, so the frame that a lowered method needs can be written down. -/
theorem exists_typed (h : Lowered c method body site out s₀ s e₀ e)
    (ha : (out.code.assemble (c.head method) stackMaps).on b = (.ok a, b')) :
    ∃ p entry d, out.code.Typed (c.head method) p entry d ∧ entry.locals.length = s₀.next ∧
      IsGreatest (d.extents out.code.instrs entry) a.maxLocals.toNat := by
  obtain ⟨locals, hfills, hframe⟩ := (Scope.opens hconstructor hparams h.scope).fills
  obtain ⟨p, entry, d, offsets, size, b₁, b₂, parts⟩ := out.code.exists_parts ha
  obtain rfl : { locals } = entry := Except.ok.inj (hframe.symm.trans parts.entered)
  have typed : out.code.Typed (c.head method) p { locals } d := ⟨parts.placed, parts.entered, parts.typed⟩
  have hgreatest := (Dataflow.analyze_limits (out.code.position?_lt parts.placed) parts.typed).2
  have hlisted := (h.listed hparams).2
  have hfits : d.maxLocals < 65536 := by
    have hslots : s.next ≤ 65535 := hlisted.next_le
    rcases h.extent_cases hlisted typed hgreatest.1 with heq | ⟨heq, -⟩ | ⟨j, w, hw, -, heq⟩
    · have hlength := hfills.length
      have hnext := h.grows.next_le
      dsimp only at heq
      omega
    · omega
    · obtain ⟨x, hx⟩ := (hlisted.mem_iff w).mp (List.mem_of_getElem? hw)
      have hbelow := hlisted.below x w hx
      omega
  refine ⟨p, _, d, typed, hfills.length, ?_⟩
  rwa [parts.maxLocals, Nat.toUInt16_eq, UInt16.toNat_ofNat', Nat.mod_eq_of_lt hfits]

/-- The frame has room for a local just if the method is called with it, or if the local or a later one is used. -/
theorem in_frame_iff (h : Lowered c method body site out s₀ s e₀ e)
    (ha : (out.code.assemble (c.head method) stackMaps).on b = (.ok a, b')) {n : Nat} {v : Local}
    (hv : s.locals.toList[n]? = some v) :
    v.slot.toNat + v.type.width ≤ a.maxLocals.toNat ↔
      n < method.given ∨ ∃ (j : Nat) (w : Local), n ≤ j ∧ s.locals.toList[j]? = some w ∧ out.code.Uses w.listed := by
  obtain ⟨hlisted₀, hlisted⟩ := h.listed hparams
  obtain ⟨p, entry, d, typed, hlength, hgreatest⟩ := h.exists_typed hconstructor hparams ha
  have hgiven : s₀.locals.toList.length = method.given := Scope.length_ofMethod h.scope
  rcases h.grows.getElem?_inv hlisted₀.toLaid hv with hfirst | ⟨hn, hslot⟩
  · -- what the method is called with is in the frame from the start
    obtain ⟨x, hx⟩ := (hlisted₀.mem_iff v).mp (List.mem_of_getElem? hfirst)
    have hbelow := hlisted₀.below x v hx
    have hentry := hgreatest.2 (.inl rfl)
    have hlt := (List.getElem?_eq_some_iff.mp hfirst).1
    exact ⟨fun _ => .inl (hgiven ▸ hlt), fun _ => by omega⟩
  · have hpos : 0 < v.type.width := by
      obtain ⟨x, hx⟩ := (hlisted.mem_iff v).mp (List.mem_of_getElem? hv)
      exact Ty.width_pos (hlisted.values x v hx)
    constructor
    · intro hle
      refine .inr ?_
      rcases h.extent_cases hlisted typed hgreatest.1 with heq | ⟨heq, huses⟩ | ⟨j, w, hw, huses, heq⟩
      · omega
      · -- a receiver takes just the slot of the first local
        have hzero : v.slot = 0 := UInt16.toNat_inj.mp (by simp; omega)
        exact ⟨n, v, Nat.le_refl n, hv, huses _ hzero (by rw [v.width_listed]; omega)⟩
      · refine ⟨j, w, Nat.le_of_not_lt fun hlt => ?_, hw, huses⟩
        have hbefore := hlisted.le_of_lt hw hv hlt
        omega
    · rintro (hlt | ⟨j, w, hle, hw, huses⟩)
      · omega
      · have hreach := hgreatest.2 (typed.extent_of_uses huses)
        rw [w.width_listed] at hreach
        rcases Nat.lt_or_eq_of_le hle with hlt | rfl
        · have hbefore := hlisted.le_of_lt hv hw hlt
          exact Nat.le_trans hbefore (Nat.le_trans (Nat.le_add_right _ _) hreach)
        · obtain rfl : v = w := Option.some.inj (hv.symm.trans hw)
          exact hreach

end Frame

end Lowered

/-! ### Class files -/

namespace Context
variable {c : Context} {b b' : PoolBuilder}

/-- The method of a class file has the code that its lowered body is assembled to, and lists the locals of the body. -/
structure HasBody (c : Context) (m : MethodSig) (d : Option MethodDecl) (g : ClassFile.Method) (out : MethodBody)
    (a : Assembled) : Prop where
  lowered : (lowerMethod c m ((d.bind (·.body)).getD []) (d.elim {} (·.span))).result = .ok out
  assembled : ∃ b b', (out.code.assemble (c.head m) (ClassFile.hasStackMaps c.options.effectiveTarget.major)).on b =
    (.ok a, b')
  code : g.code = some a
  locals : g.locals = out.locals.map Local.listed

theorem compileMethod_body {m : MethodSig} {d : Option MethodDecl} {g : ClassFile.Method}
    (h : Runs (c.compileMethod m d) b g b') :
    m.hasCode = false ∧ g.code = none ∨ m.hasCode = true ∧ ∃ out a, c.HasBody m d g out a := by
  obtain ⟨annotations, b₁, -, h⟩ := Runs.bind_iff.mp h
  obtain ⟨params, b₂, -, h⟩ := Runs.bind_iff.mp h
  rcases Runs.ite_iff.mp h with ⟨hcode, h⟩ | ⟨hcode, h⟩
  · obtain ⟨r, b₃, hbody, h⟩ := Runs.bind_iff.mp h
    obtain ⟨rfl, rfl⟩ := Runs.pure_iff.mp h
    obtain ⟨out, b₄, hlifted, hbody⟩ := Runs.bind_iff.mp hbody
    obtain ⟨hlowered, rfl⟩ := Runs.lift_iff.mp hlifted
    obtain ⟨a, b₅, ha, hbody⟩ := Runs.bind_iff.mp hbody
    obtain ⟨rfl, rfl⟩ := Runs.pure_iff.mp hbody
    exact .inr ⟨hcode, out, a, hlowered, ⟨_, _, Runs.ofPool_iff.mp ha⟩, rfl, rfl⟩
  · obtain ⟨rfl, rfl⟩ := Runs.pure_iff.mp h
    exact .inl ⟨Bool.eq_false_iff.mpr hcode, rfl⟩

/-- Each method of the class is compiled from its own declaration. -/
theorem compileMethods_each {ms : List MethodSig} {ds : List MethodDecl} {gs : List ClassFile.Method}
    (h : Runs (c.compileMethods ms ds) b gs b') :
    gs.length = ms.length ∧ ∀ (j : Nat) m, ms[j]? = some m →
      ∃ g b₁ b₂, gs[j]? = some g ∧ Runs (c.compileMethod m ds[j]?) b₁ g b₂ := by
  induction ms generalizing ds gs b with
  | nil =>
    obtain ⟨rfl, rfl⟩ := Runs.pure_iff.mp h
    exact ⟨rfl, nofun⟩
  | cons m ms ih =>
    obtain ⟨g, b₁, hg, h⟩ := Runs.bind_iff.mp h
    obtain ⟨rest, b₂, hrest, h⟩ := Runs.bind_iff.mp h
    obtain ⟨rfl, rfl⟩ := Runs.pure_iff.mp h
    obtain ⟨hlength, heach⟩ := ih hrest
    refine ⟨congrArg (· + 1) hlength, fun j m' hm' => ?_⟩
    cases j with
    | zero =>
      cases hm'
      exact ⟨g, b, b₁, rfl, List.head?_eq_getElem? ▸ hg⟩
    | succ j =>
      obtain ⟨g', b₃, b₄, hg', hruns⟩ := heach j m' hm'
      exact ⟨g', b₃, b₄, hg', List.getElem?_tail ▸ hruns⟩

/-- Which variables of its table lie in the frame of a method. -/
theorem HasBody.in_frame_iff {m : MethodSig} {d : Option MethodDecl} {g : ClassFile.Method} {out : MethodBody}
    {a : Assembled} (h : c.HasBody m d g out a) (hm : m.Lawful) (hnamed : ∀ t ∈ m.paramTypes, t.WellNamed) {n : Nat}
    {v : ClassFile.LocalVariable} (hv : g.locals[n]? = some v) :
    v.slot.toNat + v.width ≤ a.maxLocals.toNat ↔
      n < m.given ∨ ∃ (j : Nat) (w : ClassFile.LocalVariable), n ≤ j ∧ g.locals[j]? = some w ∧ out.code.Uses w := by
  obtain ⟨s₀, s, e₀, e, hlowered, hlocals⟩ := exists_lowered_listing h.lowered
  obtain ⟨b, b', ha⟩ := h.assembled
  have htable : ∀ {j : Nat} {w : ClassFile.LocalVariable},
      g.locals[j]? = some w ↔ ∃ y, s.locals.toList[j]? = some y ∧ y.listed = w := by
    intro j w
    rw [h.locals, hlocals, List.getElem?_map, Option.map_eq_some_iff]
  obtain ⟨x, hx, rfl⟩ := htable.mp hv
  rw [x.width_listed]
  refine (hlowered.in_frame_iff (fun hc => (hm.constructor_shape hc).1)
    (fun t ht => ⟨(hm.params t ht).1, hnamed t ht⟩) ha hx).trans (or_congr Iff.rfl ?_)
  constructor
  · rintro ⟨j, y, hle, hy, huses⟩
    exact ⟨j, y.listed, hle, htable.mpr ⟨y, hy, rfl⟩, huses⟩
  · rintro ⟨j, w, hle, hw, huses⟩
    obtain ⟨y, hy, rfl⟩ := htable.mp hw
    exact ⟨j, y, hle, hy, huses⟩

end Context

/-- A variable in the table of a compiled method lies in its frame just if the method is called with it, or if the
    variable or a later one is used by an instruction that control can come to. -/
theorem variable_in_frame_iff {k k' : Compiler} {u : CompilationUnit} {cls : CompiledClass}
    (h : k.compile u = (.ok cls, k')) :
    ∃ (c : Context) (file : ClassFile) (b b' : PoolBuilder), k.options.declare u = .ok (c.own, c.imports) ∧
      c.options = k.options ∧ file.write.on b = (.ok cls.bytes, b') ∧ file.methods.length = c.own.methods.length ∧
      ∀ (j : Nat) m, c.own.methods[j]? = some m → ∃ g, file.methods[j]? = some g ∧
        (m.hasCode = false ∧ g.code = none ∨ m.hasCode = true ∧ ∃ out a, c.HasBody m u.decl.methods[j]? g out a ∧
          ((∀ t ∈ m.paramTypes, t.WellNamed) → ∀ (n : Nat) v, g.locals[n]? = some v →
            (v.slot.toNat + v.width ≤ a.maxLocals.toNat ↔
              n < m.given ∨ ∃ n' w, n ≤ n' ∧ g.locals[n']? = some w ∧ out.code.Uses w))) := by
  obtain ⟨sig, imports, k₁, hdeclare, -, -, hcompile⟩ := Compiler.compile_eq_ok h
  obtain ⟨file, b, b', hfile, hwrite⟩ := Context.compile_runs hcompile
  obtain ⟨hlength, heach⟩ := Context.compileMethods_each (Context.classFile_members hfile).2.1
  have hlawful := (Options.declare_lawful hdeclare).1
  refine ⟨_, _, b, b', hdeclare, rfl, hwrite, hlength, fun j m hm => ?_⟩
  obtain ⟨g, b₁, b₂, hg, hruns⟩ := heach j m hm
  refine ⟨g, hg, (Context.compileMethod_body hruns).imp_right ?_⟩
  rintro ⟨hcode, out, a, hbody⟩
  exact ⟨hcode, out, a, hbody, fun hnamed n v hv =>
    hbody.in_frame_iff (hlawful.methods m (List.mem_of_getElem? hm)) hnamed hv⟩

/-- A class with a method that needs no object. -/
def spareUnit (params : List ParamDecl) (body : List Stmt) : CompilationUnit where
  imports := []
  decl :=
    { name := ⟨"demo/Main", {}⟩, isInterface := false, base := none, interfaces := [], fields := []
      methods := [⟨⟨"run", {}⟩, .ofText "void", params, true, false, some body, [], {}⟩]
      annotations := []
      span := {} }

/-- Of three variables the first gets no value, and the last gets one where control does not come. -/
def spareBody : List Stmt :=
  let n : Source.Expr := (Source.MathExpr.mk ⟨[], .chain [.name ⟨"n", {}⟩] {}, {}⟩ [] {}).toAnd.toExpr
  [.var [⟨⟨"x", {}⟩, .ofText "int", none, {}⟩, ⟨⟨"y", {}⟩, .ofText "long", some n, {}⟩] {}, .ret none {},
    .var [⟨⟨"z", {}⟩, .ofText "long", some n, {}⟩] {}]

def spareParams : List ParamDecl := [⟨⟨"n", {}⟩, .ofText "long", [], {}⟩]

def spareMethod : MethodSig := ⟨"run", true, false, false, .void, [⟨"n", .long⟩]⟩

theorem variable_in_frame_iff_spare :
    ∃ cls k' b b' a, ∃ (c : Context) (file : ClassFile) (g : ClassFile.Method) (out : MethodBody),
      (Compiler.ofProvider .platform {}).compile (spareUnit spareParams spareBody) = (.ok cls, k') ∧
      Options.declare {} (spareUnit spareParams spareBody) = .ok (c.own, c.imports) ∧
      c.own.methods[0]? = some spareMethod ∧ file.write.on b = (.ok cls.bytes, b') ∧ file.methods[0]? = some g ∧
      c.HasBody spareMethod (spareUnit spareParams spareBody).decl.methods[0]? g out a ∧
      ∀ (n : Nat) v, g.locals[n]? = some v → (v.slot.toNat + v.width ≤ a.maxLocals.toNat ↔
        n < 1 ∨ ∃ n' w, n ≤ n' ∧ g.locals[n']? = some w ∧ out.code.Uses w) := by
  obtain ⟨cls, k', h⟩ := exists_ok_of_toBool (show ((Compiler.ofProvider .platform {}).compile
    (spareUnit spareParams spareBody)).1.toBool = true by decide +kernel)
  obtain ⟨c, file, b, b', hdeclare, -, hwrite, -, hmethods⟩ := variable_in_frame_iff h
  have hfirst : (Options.declare {} (spareUnit spareParams spareBody)).toOption.map (·.1.methods[0]?) =
      some (some spareMethod) := by decide +kernel
  rw [show Options.declare {} (spareUnit spareParams spareBody) = .ok (c.own, c.imports) from hdeclare] at hfirst
  replace hfirst : c.own.methods[0]? = some spareMethod := Option.some.inj hfirst
  obtain ⟨g, hg, ⟨hcode, -⟩ | ⟨-, out, a, hbody, hframe⟩⟩ := hmethods 0 spareMethod hfirst
  · cases hcode
  · exact ⟨cls, k', b, b', a, c, file, g, out, h, hdeclare, hfirst, hwrite, hg, hbody, hframe (by decide)⟩

/-- A variable that nothing uses is listed with the first slot of a frame that has none. -/
theorem spare_outside_frame : ∃ cls k' p code,
    (Compiler.ofProvider .platform {}).compile (spareUnit [] [.var [⟨⟨"x", {}⟩, .ofText "int", none, {}⟩] {}]) =
      (.ok cls, k') ∧ ParsedClass.parse cls.bytes = .ok p ∧ (p.method? "run" "()V").bind (·.code) = some code ∧
      code.maxLocals = 0 ∧ code.locals p.pool = .ok [⟨0, 1, "x", "I", 0⟩] := by
  obtain ⟨cls, k', hcls, hread⟩ := exists_ok_of_any (show ((Compiler.ofProvider .platform {}).compile
      (spareUnit [] [.var [⟨⟨"x", {}⟩, .ofText "int", none, {}⟩] {}])).1.toOption.any (fun cls =>
        (ParsedClass.parse cls.bytes).toOption.any fun p => ((p.method? "run" "()V").bind (·.code)).any fun code =>
          decide (code.maxLocals = 0 ∧ (code.locals p.pool).toOption = some [⟨0, 1, "x", "I", 0⟩])) = true by
    decide +kernel)
  obtain ⟨p, hp, hread⟩ := (Option.any_eq_true _ _).mp hread
  obtain ⟨code, hcode, hread⟩ := (Option.any_eq_true _ _).mp hread
  obtain ⟨hmax, hlocals⟩ := of_decide_eq_true hread
  exact ⟨cls, k', p, code, hcls, toOption_eq_some.mp hp, hcode, hmax, toOption_eq_some.mp hlocals⟩

end Classwright
