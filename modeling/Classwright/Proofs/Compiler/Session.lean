import Classwright.Proofs.Compiler.Batches

/-! # Failed compilations leave no trace

A compiler is used step by step: units are compiled, classes are registered, taken back and looked up. A compilation
that fails leaves all sources as they were, and no later step can tell whether it was tried. Serial numbers do differ
afterwards, so two runs are compared up to a renaming of them. -/

namespace Classwright

open Source (CompilationUnit)

/-- A compiler in use, with the classes that its user has got hold of, in order. A class that does not stand in source
    is nothing that could be taken back. -/
structure Session where
  compiler : Compiler
  handles : List (Option Registration) := []

namespace Session

inductive Step where
  | compile (unit : CompilationUnit)
  | compileAll (units : List CompilationUnit)
  /-- The user gets hold of the class. -/
  | register (sig : ClassSig)
  /-- Takes back a class that the user has got hold of, given by its place among those. -/
  | unregister (handle : Nat)
  /-- The user gets hold of the class. -/
  | resolve (name : String)
  | field (owner name : String)
  | method (owner name : String) (args : List Ty)
  | check (name : String)

inductive Answer where
  | compiled (result : Except CompileError CompiledClass)
  | batch (result : Except BatchError (List CompiledClass))
  | registered (result : Except CompileError Unit)
  | unregistered (removed : Bool)
  | resolved (result : Except CompileError ClassSig)
  | field (result : Except CompileError (Option FieldSig))
  | method (result : Except CompileError (Option MethodSig))
  | checked (result : Except CompileError Unit)

/-- A compilation has failed. -/
def Answer.failed : Answer → Bool
  | .compiled (.error _) | .batch (.error _) => true
  | _ => false

/-- The units that a step compiles. -/
def Step.units? : Step → Option (List CompilationUnit)
  | .compile u => some [u]
  | .compileAll us => some us
  | _ => none

/-- A lookup in the classes that the compiler sees. -/
def look {α : Type} (s : Session) (x : ClassView → Lookup α) (answer : Except CompileError α → Answer) :
    Answer × Session :=
  (answer (s.compiler.lookup x).1, { s with compiler := (s.compiler.lookup x).2 })

def step (s : Session) : Step → Answer × Session
  | .compile u => (.compiled (s.compiler.compile u).1, { s with compiler := (s.compiler.compile u).2 })
  | .compileAll us => (.batch (s.compiler.compileAll us).1, { s with compiler := (s.compiler.compileAll us).2 })
  | .register sig =>
    match s.compiler.register sig with
    | (.ok r, k) => (.registered (.ok ()), ⟨k, s.handles ++ [some r]⟩)
    | (.error e, k) => (.registered (.error e), { s with compiler := k })
  | .unregister handle =>
    match s.handles[handle]?.join with
    | some r => (.unregistered (s.compiler.table.holds r), { s with compiler := s.compiler.unregister r })
    | none => (.unregistered false, s)
  | .resolve name =>
    match s.compiler.lookup (·.resolve name) with
    | (.ok sig, k) => (.resolved (.ok sig), ⟨k, s.handles ++ [s.compiler.table.source? name]⟩)
    | (.error e, k) => (.resolved (.error e), { s with compiler := k })
  | .field owner name => s.look (·.field? owner name) .field
  | .method owner name args => s.look (·.method? owner name args) .method
  | .check name => s.look (·.checkHierarchy name) .checked

/-- What steps are answered, one after another. -/
def trace (s : Session) : List Step → List (Step × Answer)
  | [] => []
  | x :: rest => (x, (s.step x).1) :: (s.step x).2.trace rest

def after (s : Session) (steps : List Step) : Session := steps.foldl (fun s x => (s.step x).2) s

/-- A compiler that knows no sources yet, and nobody has got hold of a class. -/
def start (provider : Provider) (options : Options) : Session := ⟨.ofProvider provider options, []⟩

/-- The classes that stand in source or that the user has got hold of. -/
def Knows (s : Session) (r : Registration) : Prop := r ∈ s.compiler.table.sources ∨ some r ∈ s.handles

/-- What a step that compiles units does to the sources: nothing if it fails, and otherwise it adds the classes which
    the units declare, each of them a new one. -/
def Accounts (s : Session) (x : Step) (units : List CompilationUnit) : Prop :=
  if (s.step x).1.failed then (s.step x).2.compiler.table.sources = s.compiler.table.sources
  else ∃ sigs n, List.Forall₂ s.compiler.options.Declares units sigs ∧
    (s.step x).2.compiler.table.sources = s.compiler.table.sources ++ numbered n sigs ∧ ∀ r, s.Knows r → r.serial < n

end Session

/-- A unit declares one class only. -/
theorem Options.declares_unique {o : Options} {units : List CompilationUnit} {sigs sigs' : List ClassSig}
    (h : List.Forall₂ o.Declares units sigs) (h' : List.Forall₂ o.Declares units sigs') : sigs = sigs' := by
  induction h generalizing sigs' with
  | nil =>
    cases h'
    rfl
  | cons hd _ ih =>
    cases h' with
    | cons hd' htail =>
      obtain ⟨imports, hd⟩ := hd
      obtain ⟨imports', hd'⟩ := hd'
      rw [hd] at hd'
      cases hd'
      rw [ih htail]

/-! ### Renaming -/

/-- The registration under another serial number. -/
def Registration.rename (φ : Nat → Nat) (r : Registration) : Registration := { r with serial := φ r.serial }

namespace Session
variable {φ : Nat → Nat} {s s' : Session} {k k' : Compiler} {sigs : List ClassSig} {r : Registration}

/-- The second session is the first one with its serial numbers renamed. What the compilers remember and which numbers
    they give out next may differ. -/
structure Matches (φ : Nat → Nat) (s s' : Session) : Prop where
  options : s'.compiler.options = s.compiler.options
  provider : s'.compiler.table.provider = s.compiler.table.provider
  maxDepth : s'.compiler.table.maxDepth = s.compiler.table.maxDepth
  honest : s.compiler.table.Honest
  honest' : s'.compiler.table.Honest
  sources : s'.compiler.table.sources = s.compiler.table.sources.map (·.rename φ)
  handles : s'.handles = s.handles.map (·.map (·.rename φ))
  injective : ∀ r r', s.Knows r → s.Knows r' → φ r.serial = φ r'.serial → r.serial = r'.serial
  fresh : ∀ r, s.Knows r → r.serial < s.compiler.table.next ∧ φ r.serial < s'.compiler.table.next

namespace Matches

theorem alike (h : Matches φ s s') : s.compiler.Alike s'.compiler where
  options := h.options
  provider := h.provider
  maxDepth := h.maxDepth
  honest := h.honest
  honest' := h.honest'
  sources := by
    rw [h.sources, List.map_map]
    rfl

theorem source?_eq (h : Matches φ s s') (name : String) :
    s'.compiler.table.source? name = (s.compiler.table.source? name).map (·.rename φ) := by
  rw [ClassTable.source?, h.sources, List.find?_map]
  rfl

theorem holds_eq (h : Matches φ s s') (hr : s.Knows r) :
    s'.compiler.table.holds (r.rename φ) = s.compiler.table.holds r := by
  unfold ClassTable.holds
  rw [show (r.rename φ).sig = r.sig from rfl, h.source?_eq]
  cases hsource : s.compiler.table.source? r.sig.name with
  | none => rfl
  | some current =>
    have hcurrent : s.Knows current := .inl (ClassTable.source?_eq_some hsource).1
    change (φ current.serial == φ r.serial) = (current.serial == r.serial)
    rw [Bool.eq_iff_iff, beq_iff_eq, beq_iff_eq]
    exact ⟨h.injective current r hcurrent hr, congrArg φ⟩

/-- A session that has been restored cannot be told from what it was. -/
theorem restores (h : Matches φ s s') (hk : s.compiler.Restores k) : Matches φ { s with compiler := k } s' := by
  have hknows : ∀ r, Knows { s with compiler := k } r → s.Knows r := by
    rintro r (hr | hr)
    · exact .inl (hk.table.sources ▸ hr)
    · exact .inr hr
  refine ⟨?_, ?_, ?_, hk.table.honest h.honest, h.honest', ?_, h.handles, fun r r' hr hr' => ?_, fun r hr => ?_⟩
  · rw [h.options, hk.options]
  · rw [h.provider, hk.table.provider]
  · rw [h.maxDepth, hk.table.maxDepth]
  · rw [h.sources, hk.table.sources]
  · exact h.injective r r' (hknows r hr) (hknows r' hr')
  · obtain ⟨hlt, hlt'⟩ := h.fresh r (hknows r hr)
    exact ⟨Nat.lt_of_lt_of_le hlt hk.table.next, hlt'⟩

/-- Serial numbers up to `n` are renamed as before, and those from there on are counted from `n'`. -/
def shift (φ : Nat → Nat) (n n' : Nat) (serial : Nat) : Nat := if serial < n then φ serial else n' + (serial - n)

theorem rename_shift {n n' : Nat} (hr : r.serial < n) : r.rename (shift φ n n') = r.rename φ := by
  rw [Registration.rename, shift, if_pos hr]
  rfl

theorem map_rename_numbered (φ : Nat → Nat) (n n' : Nat) (sigs : List ClassSig) :
    (numbered n sigs).map (·.rename (shift φ n n')) = numbered n' sigs := by
  suffices h : ∀ m, (numbered (n + m) sigs).map (·.rename (shift φ n n')) = numbered (n' + m) sigs from h 0
  induction sigs with
  | nil => exact fun m => rfl
  | cons sig sigs ih =>
    intro m
    have hrest := ih (m + 1)
    rw [← Nat.add_assoc, ← Nat.add_assoc] at hrest
    have hserial : shift φ n n' (n + m) = n' + m := by rw [shift, if_neg (by omega), Nat.add_sub_cancel_left]
    rw [numbered, numbered, List.map_cons, hrest, Registration.rename, hserial]

/-- Both compilers have registered the same classes. -/
theorem extend (h : Matches φ s s') (hk : s.compiler.Extends sigs k) (hk' : s'.compiler.Extends sigs k') :
    ∃ ψ, Matches ψ { s with compiler := k } { s' with compiler := k' } := by
  let n := s.compiler.table.next
  let n' := s'.compiler.table.next
  have hold (r : Registration) (hr : s.Knows r) : r.serial < n ∧ shift φ n n' r.serial < n' := by
    obtain ⟨hlt, hlt'⟩ := h.fresh r hr
    exact ⟨hlt, by rwa [shift, if_pos hlt]⟩
  have hnew (r : Registration) (hr : r ∈ numbered n sigs) :
      n ≤ r.serial ∧ r.serial < n + sigs.length ∧ shift φ n n' r.serial = n' + (r.serial - n) := by
    obtain ⟨hle, hlt⟩ := serial_of_mem_numbered hr
    exact ⟨hle, hlt, if_neg (Nat.not_lt.mpr hle)⟩
  have hknows (r : Registration) (hr : Knows { s with compiler := k } r) : s.Knows r ∨ r ∈ numbered n sigs := by
    rcases hr with hr | hr
    · rw [hk.table.sources] at hr
      rcases List.mem_append.mp hr with hr | hr
      · exact .inl (.inl hr)
      · exact .inr hr
    · exact .inl (.inr hr)
  refine ⟨shift φ n n', ?_, ?_, ?_, hk.table.honest h.honest, hk'.table.honest h.honest', ?_, ?_, ?_, ?_⟩
  · rw [hk'.options, h.options, hk.options]
  · rw [hk'.table.provider, h.provider, hk.table.provider]
  · rw [hk'.table.maxDepth, h.maxDepth, hk.table.maxDepth]
  · rw [hk'.table.sources, h.sources, hk.table.sources, List.map_append, map_rename_numbered]
    congr 1
    exact List.map_congr_left fun r hr => (rename_shift (hold r (.inl hr)).1).symm
  · rw [h.handles]
    refine List.map_congr_left fun x hx => ?_
    cases x with
    | none => rfl
    | some r => exact congrArg some (rename_shift (hold r (.inr hx)).1).symm
  · intro r r' hr hr' heq
    rcases hknows r hr with hr | hr <;> rcases hknows r' hr' with hr' | hr'
    · rw [shift, shift, if_pos (hold r hr).1, if_pos (hold r' hr').1] at heq
      exact h.injective r r' hr hr' heq
    · have := (hold r hr).2
      have := (hnew r' hr').2.2
      omega
    · have := (hold r' hr').2
      have := (hnew r hr).2.2
      omega
    · have := hnew r hr
      have := hnew r' hr'
      omega
  · intro r hr
    rw [hk.table.next, hk'.table.next]
    rcases hknows r hr with hr | hr
    · have := hold r hr
      omega
    · have := hnew r hr
      omega

/-- The user gets hold of a class in both sessions. -/
theorem hold (h : Matches φ s s') {x : Option Registration} (hx : ∀ r, x = some r → s.Knows r) :
    Matches φ { s with handles := s.handles ++ [x] } { s' with handles := s'.handles ++ [x.map (·.rename φ)] } := by
  have hknows : ∀ r, Knows { s with handles := s.handles ++ [x] } r → s.Knows r := by
    rintro r (hr | hr)
    · exact .inl hr
    · rcases List.mem_append.mp hr with hr | hr
      · exact .inr hr
      · exact hx r (List.mem_singleton.mp hr).symm
  refine ⟨h.options, h.provider, h.maxDepth, h.honest, h.honest', h.sources, ?_, fun r r' hr hr' => ?_, fun r hr => ?_⟩
  · rw [h.handles, List.map_append]
    rfl
  · exact h.injective r r' (hknows r hr) (hknows r' hr')
  · exact h.fresh r (hknows r hr)

theorem unregister (h : Matches φ s s') (hr : s.Knows r) :
    Matches φ { s with compiler := s.compiler.unregister r } { s' with compiler := s'.compiler.unregister (r.rename φ) } := by
  have hholds := h.holds_eq hr
  by_cases hremoved : s.compiler.table.holds r = true
  · have hsources : (s.compiler.table.unregister r).sources =
        s.compiler.table.sources.filter (·.sig.name != r.sig.name) := by rw [ClassTable.unregister, if_pos hremoved]
    have hsources' : (s'.compiler.table.unregister (r.rename φ)).sources =
        s'.compiler.table.sources.filter (·.sig.name != r.sig.name) := by
      rw [ClassTable.unregister, if_pos (hholds.trans hremoved)]
      rfl
    obtain ⟨hprovider, hdepth, hknown, hnext⟩ := s.compiler.table.unregister_provider r
    obtain ⟨hprovider', hdepth', hknown', hnext'⟩ := s'.compiler.table.unregister_provider (r.rename φ)
    have hknows : ∀ x, Knows { s with compiler := s.compiler.unregister r } x → s.Knows x := by
      rintro x (hx | hx)
      · exact .inl (List.mem_of_mem_filter (hsources ▸ hx))
      · exact .inr hx
    refine ⟨h.options, ?_, ?_, ?_, ?_, ?_, h.handles, fun x x' hx hx' => ?_, fun x hx => ?_⟩
    · exact hprovider'.trans (h.provider.trans hprovider.symm)
    · exact hdepth'.trans (h.maxDepth.trans hdepth.symm)
    · intro name answer hlookup
      change (s.compiler.table.unregister r).known.lookup name = _ at hlookup
      rw [hknown] at hlookup
      exact (congrFun hprovider name).trans (h.honest name answer hlookup)
    · intro name answer hlookup
      change (s'.compiler.table.unregister (r.rename φ)).known.lookup name = _ at hlookup
      rw [hknown'] at hlookup
      exact (congrFun hprovider' name).trans (h.honest' name answer hlookup)
    · change (s'.compiler.table.unregister (r.rename φ)).sources = (s.compiler.table.unregister r).sources.map _
      rw [hsources, hsources', h.sources, List.filter_map]
      rfl
    · exact h.injective x x' (hknows x hx) (hknows x' hx')
    · change x.serial < (s.compiler.table.unregister r).next ∧ φ x.serial < (s'.compiler.table.unregister _).next
      rw [hnext, hnext']
      exact h.fresh x (hknows x hx)
  · have hsame : s.compiler.unregister r = s.compiler := by
      rw [Compiler.unregister, ClassTable.unregister, if_neg hremoved]
    have hsame' : s'.compiler.unregister (r.rename φ) = s'.compiler := by
      rw [Compiler.unregister, ClassTable.unregister, if_neg (by rw [hholds]; exact hremoved)]
    rw [hsame, hsame']
    exact h

/-! ### Steps -/

theorem look (h : Matches φ s s') {α : Type} (x : ClassView → Lookup α) (answer : Except CompileError α → Answer) :
    (s'.look x answer).1 = (s.look x answer).1 ∧ ∃ ψ, Matches ψ (s.look x answer).2 (s'.look x answer).2 :=
  ⟨congrArg answer (h.alike.lookup_eq x),
    h.extend (s.compiler.extends_lookup x) (s'.compiler.extends_lookup x)⟩

/-- A failed compilation in the first session goes unnoticed. -/
theorem skip (h : Matches φ s s') {x : Step} (hx : (s.step x).1.failed = true) : Matches φ (s.step x).2 s' := by
  cases x with
  | compile u =>
    rcases s.compiler.compile_cases u with ⟨e, k, hk, hrestores⟩ | ⟨cls, sig, k, hk, -⟩
    · simp only [step, hk]
      exact h.restores hrestores
    · simp [step, hk, Answer.failed] at hx
  | compileAll us =>
    rcases s.compiler.compileAll_cases us with ⟨e, k, hk, hrestores⟩ | ⟨classes, sigs, k, hk, -⟩
    · simp only [step, hk]
      exact h.restores hrestores
    · simp [step, hk, Answer.failed] at hx
  | register sig =>
    simp only [step] at hx
    split at hx <;> cases hx
  | unregister handle =>
    simp only [step] at hx
    split at hx <;> cases hx
  | resolve name =>
    simp only [step] at hx
    split at hx <;> cases hx
  | field owner name => cases hx
  | method owner name args => cases hx
  | check name => cases hx

/-- Any step is answered alike in both sessions, and they go on alike. -/
theorem step (h : Matches φ s s') (x : Step) :
    (s'.step x).1 = (s.step x).1 ∧ ((s.step x).1.failed = false → ∃ ψ, Matches ψ (s.step x).2 (s'.step x).2) := by
  cases x with
  | compile u =>
    have hsame := h.alike.compile_eq u
    refine ⟨congrArg Answer.compiled hsame, fun hx => ?_⟩
    rcases s.compiler.compile_cases u with ⟨e, k, hk, -⟩ | ⟨cls, sig, k, hk, hdeclares, hextends⟩
    · simp [Session.step, hk, Answer.failed] at hx
    · rcases s'.compiler.compile_cases u with ⟨e, k', hk', -⟩ | ⟨cls', sig', k', hk', hdeclares', hextends'⟩
      · simp [hk, hk'] at hsame
      · obtain ⟨imports, hdeclare⟩ := hdeclares
        obtain ⟨imports', hdeclare'⟩ := hdeclares'
        rw [h.options, hdeclare] at hdeclare'
        cases hdeclare'
        simp only [Session.step, hk, hk']
        exact h.extend hextends hextends'
  | compileAll us =>
    have hsame := h.alike.compileAll_eq us
    refine ⟨congrArg Answer.batch hsame, fun hx => ?_⟩
    rcases s.compiler.compileAll_cases us with ⟨e, k, hk, -⟩ | ⟨classes, sigs, k, hk, hdeclares, hextends⟩
    · simp [Session.step, hk, Answer.failed] at hx
    · rcases s'.compiler.compileAll_cases us with ⟨e, k', hk', -⟩ | ⟨classes', sigs', k', hk', hdeclares', hextends'⟩
      · simp [hk, hk'] at hsame
      · rw [h.options] at hdeclares'
        obtain rfl := Options.declares_unique hdeclares hdeclares'
        simp only [Session.step, hk, hk']
        exact h.extend hextends hextends'
  | register sig =>
    have hsource := h.alike.isSource_eq sig.name
    rcases s.compiler.register_cases sig with ⟨ht, hk⟩ | ⟨k, ht, hk, hextends⟩ <;>
      rcases s'.compiler.register_cases sig with ⟨ht', hk'⟩ | ⟨k', ht', hk', hextends'⟩
    · simp only [Session.step, hk, hk']
      exact ⟨trivial, fun _ => ⟨φ, h⟩⟩
    · rw [ht, ht'] at hsource
      cases hsource
    · rw [ht, ht'] at hsource
      cases hsource
    · obtain ⟨ψ, hψ⟩ := h.extend hextends hextends'
      simp only [Session.step, hk, hk']
      refine ⟨trivial, fun _ => ⟨ψ, ?_⟩⟩
      have hlast : (⟨s.compiler.table.next, sig⟩ : Registration) ∈ k.table.sources := by
        rw [hextends.table.sources]
        exact List.mem_append_right _ List.mem_cons_self
      have hlast' : Registration.rename ψ ⟨s.compiler.table.next, sig⟩ = ⟨s'.compiler.table.next, sig⟩ := by
        have hsources := hψ.sources
        rw [hextends.table.sources, hextends'.table.sources, List.map_append] at hsources
        have hboth := List.append_inj_right' hsources rfl
        exact (List.cons.inj hboth).1.symm
      have hheld := hψ.hold (x := some ⟨s.compiler.table.next, sig⟩) fun r hr => .inl (Option.some.inj hr ▸ hlast)
      rwa [Option.map_some, hlast'] at hheld
  | unregister handle =>
    have hhandle : s'.handles[handle]?.join = s.handles[handle]?.join.map (·.rename φ) := by
      rw [h.handles, List.getElem?_map]
      cases s.handles[handle]? with
      | none => rfl
      | some x => rfl
    simp only [Session.step, hhandle]
    cases hr : s.handles[handle]?.join with
    | none => exact ⟨rfl, fun _ => ⟨φ, h⟩⟩
    | some r =>
      have hknows : s.Knows r := .inr (List.mem_of_getElem? (Option.join_eq_some_iff.mp hr))
      exact ⟨congrArg Answer.unregistered (h.holds_eq hknows), fun _ => ⟨φ, h.unregister hknows⟩⟩
  | resolve name =>
    have hsame := h.alike.lookup_eq (·.resolve name)
    obtain ⟨ψ, hψ⟩ := h.extend (s.compiler.extends_lookup (·.resolve name)) (s'.compiler.extends_lookup (·.resolve name))
    have hsource : (s.compiler.lookup (·.resolve name)).2.table.source? name = s.compiler.table.source? name := by
      rw [ClassTable.source?, (s.compiler.extends_lookup (·.resolve name)).table.restores.sources]
      rfl
    have hsource' : (s'.compiler.lookup (·.resolve name)).2.table.source? name = s'.compiler.table.source? name := by
      rw [ClassTable.source?, (s'.compiler.extends_lookup (·.resolve name)).table.restores.sources]
      rfl
    have hheld := hψ.hold (x := s.compiler.table.source? name) fun r hr =>
      .inl (ClassTable.source?_eq_some (hsource.trans hr)).1
    rw [← hsource, ← hψ.source?_eq name] at hheld
    simp only [Session.step]
    generalize s.compiler.lookup (·.resolve name) = p at hsame hψ hsource hheld
    generalize s'.compiler.lookup (·.resolve name) = p' at hsame hψ hsource' hheld
    obtain ⟨result, k⟩ := p
    obtain ⟨result', k'⟩ := p'
    obtain rfl : result' = result := hsame
    cases result' with
    | error e => exact ⟨rfl, fun _ => ⟨ψ, hψ⟩⟩
    | ok sig =>
      refine ⟨rfl, fun _ => ⟨ψ, ?_⟩⟩
      rw [← hsource, ← hsource']
      exact hheld
  | field owner name =>
    obtain ⟨hanswer, hnext⟩ := h.look (·.field? owner name) .field
    exact ⟨hanswer, fun _ => hnext⟩
  | method owner name args =>
    obtain ⟨hanswer, hnext⟩ := h.look (·.method? owner name args) .method
    exact ⟨hanswer, fun _ => hnext⟩
  | check name =>
    obtain ⟨hanswer, hnext⟩ := h.look (·.checkHierarchy name) .checked
    exact ⟨hanswer, fun _ => hnext⟩

theorem trace (h : Matches φ s s') (steps : List Step) :
    s'.trace (((s.trace steps).filter fun t => !t.2.failed).map (·.1)) =
      (s.trace steps).filter fun t => !t.2.failed := by
  induction steps generalizing φ s s' with
  | nil => rfl
  | cons x steps ih =>
    cases hx : (s.step x).1.failed with
    | true =>
      have hrest := ih (h.skip hx)
      rwa [Session.trace, List.filter_cons_of_neg (by simp [hx])]
    | false =>
      obtain ⟨hanswer, hnext⟩ := h.step x
      obtain ⟨ψ, hψ⟩ := hnext hx
      rw [Session.trace, List.filter_cons_of_pos (by simp [hx]), List.map_cons, Session.trace, ih hψ, hanswer]

/-- However a session goes on, there is one that it can be compared with. -/
theorem exists_after (h : Matches φ s s') (steps : List Step) : ∃ ψ s₁, Matches ψ (s.after steps) s₁ := by
  induction steps generalizing φ s s' with
  | nil => exact ⟨φ, s', h⟩
  | cons x steps ih =>
    cases hx : (s.step x).1.failed with
    | true => exact ih (h.skip hx)
    | false =>
      obtain ⟨ψ, hψ⟩ := (h.step x).2 hx
      exact ih hψ

theorem accounts (h : Matches φ s s') {x : Step} {units : List CompilationUnit} (hx : x.units? = some units) :
    s.Accounts x units := by
  have hfresh (r : Registration) (hr : s.Knows r) : r.serial < s.compiler.table.next := (h.fresh r hr).1
  unfold Accounts
  cases x with
  | compile u =>
    cases hx
    rcases s.compiler.compile_cases u with ⟨e, k, hk, hrestores⟩ | ⟨cls, sig, k, hk, hdeclares, hextends⟩
    · simp only [Session.step, hk]
      exact hrestores.table.sources
    · simp only [Session.step, hk]
      exact ⟨[sig], _, .cons hdeclares .nil, hextends.table.sources, hfresh⟩
  | compileAll us =>
    obtain rfl : us = units := Option.some.inj hx
    rcases s.compiler.compileAll_cases us with ⟨e, k, hk, hrestores⟩ | ⟨classes, sigs, k, hk, hdeclares, hextends⟩
    · simp only [Session.step, hk]
      exact hrestores.table.sources
    · simp only [Session.step, hk]
      exact ⟨sigs, _, hdeclares, hextends.table.sources, hfresh⟩
  | register sig => cases hx
  | unregister handle => cases hx
  | resolve name => cases hx
  | field owner name => cases hx
  | method owner name args => cases hx
  | check name => cases hx

end Matches

theorem matches_start (provider : Provider) (options : Options) :
    Matches id (start provider options) (start provider options) :=
  ⟨rfl, rfl, rfl, nofun, nofun, rfl, rfl, fun _ _ _ _ => id, fun r hr => by rcases hr with hr | hr <;> cases hr⟩

end Session

/-- Whatever has been done with a compiler before, a compilation that fails leaves all sources as they were, and one that
    succeeds adds the classes of its units. If the compilations that fail are left out of a sequence of steps, the
    others are answered as before. -/
theorem failed_compilation_leaves_no_trace (provider : Provider) (options : Options) (steps : List Session.Step) :
    (∀ x units, x.units? = some units → ((Session.start provider options).after steps).Accounts x units) ∧
      (Session.start provider options).trace
          ((((Session.start provider options).trace steps).filter fun t => !t.2.failed).map (·.1)) =
        ((Session.start provider options).trace steps).filter fun t => !t.2.failed := by
  have hstart := Session.matches_start provider options
  refine ⟨fun x units hx => ?_, hstart.trace steps⟩
  obtain ⟨φ, s', hmatches⟩ := hstart.exists_after steps
  exact hmatches.accounts hx

end Classwright
