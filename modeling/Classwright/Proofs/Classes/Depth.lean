import Classwright.Proofs.Classes.Cycles

/-! # How deep the check of a hierarchy goes

The check of a hierarchy goes on from a class only when it comes to it for the first time. So a class is as deep as the
way is long that goes from each class to the first of its supertypes from which one gets there. Other ways to the class
may be longer, and what is above it is then farther from the start than the check has seen. Where all ways to the same
class are equally long, the check finds every way that is too long. -/

namespace Classwright

namespace ClassView
variable {v w : ClassView} {start : String}

/-- A way up through classes that stand in source leads from the first class to the second. -/
def Reaches (v : ClassView) (name other : String) : Prop := ∃ ancestors, v.Way true name ancestors other

/-- The way to `target` that goes from each class to the first of its supertypes from which `target` can be reached, with
    the number of its steps. -/
inductive FirstWay (v : ClassView) (target : String) : Nat → String → Prop
  | here : FirstWay v target 0 target
  | up {name parent : String} {cls : ClassSig} {before after : List String} {steps : Nat}
      (hsource : v.isSource name = true) (hcls : v.find name = .ok cls)
      (hparents : cls.parents = before ++ parent :: after) (hbefore : ∀ other ∈ before, ¬v.Reaches other target)
      (h : FirstWay v target steps parent) : FirstWay v target (steps + 1) name

/-- Where the check comes to a class for the first time, it has gone as far as it may, and the class has a supertype. -/
def TooDeep (v : ClassView) (name : String) : Prop :=
  ∃ other steps parent, v.FirstWay other steps name ∧ v.Inherits true other parent ∧ v.maxDepth < steps + 1

/-- All ways up from the class that lead to the same class are equally long. -/
def Even (v : ClassView) (name : String) : Prop :=
  ∀ ancestors ancestors' other, v.Way true name ancestors other → v.Way true name ancestors' other →
    ancestors.length = ancestors'.length

/-! ### Ways -/

theorem Reaches.refl (v : ClassView) (name : String) : v.Reaches name name := ⟨[], .start⟩

theorem Reaches.trans {name other above : String} (h : v.Reaches name other) (h' : v.Reaches other above) :
    v.Reaches name above := by
  obtain ⟨_, h⟩ := h
  obtain ⟨_, h'⟩ := h'
  exact ⟨_, h.trans h'⟩

theorem Inherits.reaches {name parent : String} (h : v.Inherits true name parent) : v.Reaches name parent :=
  ⟨_, .up .start h⟩

/-- A way of a step or more begins with a supertype. -/
theorem Way.first {ancestors : List String} {name : String} (h : v.Way true start ancestors name) :
    ancestors = [] ∧ name = start ∨ ∃ parent ancestors', v.Inherits true start parent ∧
      v.Way true parent ancestors' name ∧ ancestors.length = ancestors'.length + 1 := by
  induction h with
  | start => exact .inl ⟨rfl, rfl⟩
  | up _ hp ih =>
    rcases ih with ⟨rfl, rfl⟩ | ⟨parent, ancestors', hfirst, hrest, hlength⟩
    · exact .inr ⟨_, [], hp, .start, rfl⟩
    · exact .inr ⟨parent, _, hfirst, hrest.up hp, by simp [hlength]⟩

theorem Reaches.eq_or_above {name : String} (h : v.Reaches start name) :
    name = start ∨ ∃ parent, v.Inherits true start parent ∧ v.Reaches parent name := by
  obtain ⟨ancestors, hway⟩ := h
  rcases hway.first with ⟨-, heq⟩ | ⟨parent, _, hp, hrest, -⟩
  · exact .inl heq
  · exact .inr ⟨parent, hp, _, hrest⟩

theorem reaches_iff_of_parents {name other : String} {cls : ClassSig} (hsource : v.isSource name = true)
    (hcls : v.find name = .ok cls) :
    v.Reaches name other ↔ other = name ∨ ∃ parent ∈ cls.parents, v.Reaches parent other := by
  constructor
  · intro h
    rcases h.eq_or_above with rfl | ⟨parent, ⟨_, cls', hcls', hparent⟩, hreaches⟩
    · exact .inl rfl
    · cases hcls.symm.trans hcls'
      exact .inr ⟨parent, hparent, hreaches⟩
  · rintro (rfl | ⟨parent, hparent, hreaches⟩)
    · exact .refl v other
    · exact Reaches.trans (Inherits.reaches ⟨fun _ => hsource, cls, hcls, hparent⟩) hreaches

/-- From a class that does not stand in source no way goes on. -/
theorem reaches_iff_of_not_source {name other : String} (hsource : v.isSource name = false) :
    v.Reaches name other ↔ other = name := by
  constructor
  · intro h
    rcases h.eq_or_above with rfl | ⟨parent, hp, -⟩
    · rfl
    · simp [hp.1 rfl] at hsource
  · rintro rfl
    exact .refl v other

/-- Where no cycle is above, nothing that was passed can be reached again. -/
theorem Way.not_reaches {ancestors : List String} {name other : String} (h : v.Way true start ancestors name)
    (hacyclic : ¬v.Cyclic start) (hother : other ∈ ancestors) : ¬v.Reaches name other := by
  rintro ⟨above, habove⟩
  exact hacyclic ⟨above ++ ancestors, other, h.trans habove, List.mem_append_right above hother⟩

theorem Way.of_inherits (hinherits : ∀ child parent, v.Inherits true child parent → w.Inherits true child parent)
    {ancestors : List String} {name : String} (h : v.Way true start ancestors name) : w.Way true start ancestors name := by
  induction h with
  | start => exact .start
  | up _ hp ih => exact ih.up (hinherits _ _ hp)

theorem FirstWay.way {target name : String} {steps : Nat} (h : v.FirstWay target steps name) :
    ∃ ancestors, v.Way true name ancestors target ∧ ancestors.length = steps := by
  induction h with
  | here => exact ⟨[], .start, rfl⟩
  | @up name parent cls before after steps hsource hcls hparents _ _ ih =>
    obtain ⟨ancestors, hway, rfl⟩ := ih
    have hp : v.Inherits true name parent := ⟨fun _ => hsource, cls, hcls, by simp [hparents]⟩
    exact ⟨ancestors ++ [name], Way.trans (.up .start hp) hway, by simp⟩

theorem FirstWay.reaches {target name : String} {steps : Nat} (h : v.FirstWay target steps name) :
    v.Reaches name target := by
  obtain ⟨ancestors, hway, -⟩ := h.way
  exact ⟨ancestors, hway⟩

/-- A first way goes on from the first supertype that leads to its end. -/
theorem FirstWay.of_above {target name : String} (hne : target ≠ name) (hreaches : v.Reaches name target)
    (habove : ∀ parent, v.Inherits true name parent → v.Reaches parent target → ∃ steps, v.FirstWay target steps parent) :
    ∃ steps, v.FirstWay target steps name := by
  obtain ⟨parent, ⟨hsource, cls, hcls, hparent⟩, hreaches⟩ := hreaches.eq_or_above.resolve_left hne
  classical
  -- the first of the supertypes with a way to the target
  obtain ⟨before, first, after, hparents, hfirst, hbefore⟩ :
      ∃ before first after, cls.parents = before ++ first :: after ∧ v.Reaches first target ∧
        ∀ other ∈ before, ¬v.Reaches other target := by
    obtain ⟨first, hfind⟩ := Option.isSome_iff_exists.mp
      (List.find?_isSome.mpr ⟨parent, hparent, decide_eq_true hreaches⟩ :
        (cls.parents.find? fun parent => decide (v.Reaches parent target)).isSome = true)
    obtain ⟨hfirst, before, after, hparents, hbefore⟩ := List.find?_eq_some_iff_append.mp hfind
    exact ⟨before, first, after, hparents, of_decide_eq_true hfirst, fun other hother => by simpa using hbefore other hother⟩
  obtain ⟨steps, h⟩ := habove first ⟨hsource, cls, hcls, by simp [hparents]⟩ hfirst
  exact ⟨steps + 1, .up (hsource rfl) hcls hparents hbefore h⟩

/-- Where all ways up have an end, there is a first one to whatever can be reached. -/
theorem Grounded.exists_firstWay {name target : String} (h : v.Grounded name) (hreaches : v.Reaches name target) :
    ∃ steps, v.FirstWay target steps name := by
  induction h with
  | intro name _ ih =>
    by_cases heq : target = name
    · exact ⟨0, heq ▸ .here⟩
    · exact FirstWay.of_above heq hreaches fun parent hp hparent => ih parent hp hparent

/-- Where all ways to the target are equally long, one of them is the first. -/
theorem exists_firstWay_of_length {target name : String} {steps : Nat} (hreaches : v.Reaches name target)
    (hlength : ∀ ancestors, v.Way true name ancestors target → ancestors.length = steps) :
    v.FirstWay target steps name := by
  have hfirst : ∃ steps, v.FirstWay target steps name := by
    induction steps generalizing name with
    | zero =>
      obtain ⟨ancestors, hway⟩ := hreaches
      rcases hway.first with ⟨-, rfl⟩ | ⟨_, _, -, -, hlong⟩
      · exact ⟨0, .here⟩
      · rw [hlength ancestors hway] at hlong
        omega
    | succ steps ih =>
      refine FirstWay.of_above ?_ hreaches fun parent hp hparent => ih hparent fun ancestors hway => ?_
      · rintro rfl
        cases hlength [] .start
      · have hlong := hlength _ (Way.trans (.up .start hp) hway)
        simpa using hlong
  obtain ⟨steps', h⟩ := hfirst
  obtain ⟨ancestors, hway, rfl⟩ := h.way
  rwa [← hlength ancestors hway]

/-! ### A visit -/

/-- With `more` classes left for the way, a visit fails at once, or goes on from a class that had not been `seen` when
    nothing is left. -/
def Exceeds (v : ClassView) (more : Nat) (seen : String → Prop) (name : String) : Prop :=
  more = 0 ∨ ∃ other steps parent,
    ¬seen other ∧ v.FirstWay other steps name ∧ v.Inherits true other parent ∧ more ≤ steps + 1

/-- The same for a visit to one of some names, after those in front of it. -/
def ExceedsAmong (v : ClassView) (more : Nat) (seen : String → Prop) (names : List String) : Prop :=
  ∃ before name after, names = before ++ name :: after ∧
    v.Exceeds more (fun other => seen other ∨ ∃ name' ∈ before, v.Reaches name' other) name

theorem Exceeds.of_seen {more : Nat} {seen seen' : String → Prop} {name : String} (h : v.Exceeds more seen name)
    (hseen : ∀ other, seen' other → seen other) : v.Exceeds more seen' name := by
  rcases h with hzero | ⟨other, steps, parent, hnew, hway, hp, hlong⟩
  · exact .inl hzero
  · exact .inr ⟨other, steps, parent, fun h => hnew (hseen other h), hway, hp, hlong⟩

theorem exceedsAmong_cons {more : Nat} {seen : String → Prop} {name : String} {rest : List String} :
    v.ExceedsAmong more seen (name :: rest) ↔ v.Exceeds more seen name ∨
      v.ExceedsAmong more (fun other => seen other ∨ v.Reaches name other) rest := by
  constructor
  · rintro ⟨before, last, after, hnames, h⟩
    cases before with
    | nil =>
      cases hnames
      exact .inl (h.of_seen fun _ => .inl)
    | cons first before =>
      cases hnames
      refine .inr ⟨before, last, after, rfl, h.of_seen fun other hother => ?_⟩
      rcases hother with (hseen | hfirst) | ⟨name', hmem, hreaches⟩
      · exact .inl hseen
      · exact .inr ⟨name, List.mem_cons_self, hfirst⟩
      · exact .inr ⟨name', List.mem_cons_of_mem name hmem, hreaches⟩
  · rintro (h | ⟨before, last, after, rfl, h⟩)
    · exact ⟨[], name, rest, rfl, h.of_seen fun _ hother => by simpa using hother⟩
    · refine ⟨name :: before, last, after, rfl, h.of_seen fun other hother => ?_⟩
      rcases hother with hseen | ⟨name', hmem, hreaches⟩
      · exact .inl (.inl hseen)
      · rcases List.mem_cons.mp hmem with rfl | hmem
        · exact .inl (.inr hreaches)
        · exact .inr ⟨name', hmem, hreaches⟩

/-- What the supertypes of a class that has not been seen have to say about it. -/
theorem exceeds_succ_iff {more : Nat} {seen : String → Prop} {name : String} {cls : ClassSig}
    (hsource : v.isSource name = true) (hcls : v.find name = .ok cls) (hacyclic : ¬v.Cyclic name) (hnew : ¬seen name) :
    v.Exceeds (more + 1) seen name ↔ v.ExceedsAmong more (fun other => other = name ∨ seen other) cls.parents := by
  constructor
  · rintro (hzero | ⟨other, steps, parent, hother, hway, hp, hlong⟩)
    · cases hzero
    · cases hway with
      | here =>
        obtain ⟨-, cls', hcls', hparent⟩ := hp
        cases hcls.symm.trans hcls'
        obtain ⟨before, after, hparents⟩ := List.append_of_mem hparent
        exact ⟨before, parent, after, hparents, .inl (by omega)⟩
      | @up _ first cls' before after steps _ hcls' hparents hbefore hrest =>
        cases hcls.symm.trans hcls'
        refine ⟨before, first, after, hparents, .inr ⟨other, steps, parent, ?_, hrest, hp, by omega⟩⟩
        have hfirst : v.Inherits true name first := ⟨fun _ => hsource, cls, hcls, by simp [hparents]⟩
        rintro ((rfl | hseen) | ⟨name', hmem, hreaches⟩)
        · exact (Way.start.up hfirst).not_reaches hacyclic List.mem_cons_self hrest.reaches
        · exact hother hseen
        · exact hbefore name' hmem hreaches
  · rintro ⟨before, first, after, hparents, hzero | ⟨other, steps, parent, hother, hrest, hp, hlong⟩⟩
    · exact .inr ⟨name, 0, first, hnew, .here, ⟨fun _ => hsource, cls, hcls, by simp [hparents]⟩, by omega⟩
    · refine .inr ⟨other, steps + 1, parent, fun hseen => hother (.inl (.inr hseen)), ?_, hp, by omega⟩
      exact .up hsource hcls hparents (fun name' hmem hreaches => hother (.inr ⟨name', hmem, hreaches⟩)) hrest

/-- A visit fails if the way gets too long, and otherwise ends without a hit, when it has seen what `seen` says. -/
def Surveys (v : ClassView) (start : String) (fails : Prop) (seen : String → Prop)
    (r : Except CompileError (Option Unit × List String)) : Prop :=
  fails ∧ r = .error (.malformedHierarchy start (.tooDeep v.maxDepth)) ∨
    ¬fails ∧ ∃ visited, r = .ok (none, visited) ∧ ∀ other, other ∈ visited ↔ seen other

/-- What was visited is on the way, or all that can be reached from it has been visited as well. -/
def Closed (v : ClassView) (ancestors visited : List String) : Prop :=
  ∀ name ∈ visited, name ∈ ancestors ∨ ∀ other, v.Reaches name other → other ∈ visited

theorem Closed.cons {ancestors visited : List String} (h : v.Closed ancestors visited) (name : String) :
    v.Closed (name :: ancestors) (name :: visited) := by
  intro other hother
  rcases List.mem_cons.mp hother with rfl | hother
  · exact .inl List.mem_cons_self
  · exact (h other hother).imp (List.mem_cons_of_mem name)
      fun hall above habove => List.mem_cons_of_mem name (hall above habove)

theorem visitEach_surveys {visit : List String → String → Lookup (Option Unit × List String)} {more : Nat}
    {ancestors names : List String}
    (hvisit : ∀ name ∈ names, ∀ visited, v.Closed ancestors visited → v.Surveys start
      (v.Exceeds more (· ∈ visited) name) (fun other => other ∈ visited ∨ v.Reaches name other) (visit visited name).result)
    {visited : List String} (hclosed : v.Closed ancestors visited) :
    v.Surveys start (v.ExceedsAmong more (· ∈ visited) names)
      (fun other => other ∈ visited ∨ ∃ name ∈ names, v.Reaches name other) (visitEach visit visited names).result := by
  induction names generalizing visited with
  | nil =>
    refine .inr ⟨?_, visited, rfl, by simp⟩
    rintro ⟨before, name, after, hnil, -⟩
    simp at hnil
  | cons name rest ih =>
    obtain ⟨hname, hrest⟩ := List.forall_mem_cons.mp hvisit
    rw [visitEach, Lookup.result_bind]
    rcases hname visited hclosed with ⟨hexceeds, herror⟩ | ⟨hexceeds, visited₁, hok, hvisited₁⟩
    · rw [herror]
      exact .inl ⟨exceedsAmong_cons.mpr (.inl hexceeds), rfl⟩
    · rw [hok, ok_bind]
      have hclosed₁ : v.Closed ancestors visited₁ := by
        intro other hother
        rcases (hvisited₁ other).mp hother with hother | hother
        · exact (hclosed other hother).imp_right fun hall above habove => (hvisited₁ above).mpr (.inl (hall above habove))
        · exact .inr fun above habove => (hvisited₁ above).mpr (.inr (hother.trans habove))
      have hiff : v.ExceedsAmong more (· ∈ visited) (name :: rest) ↔ v.ExceedsAmong more (· ∈ visited₁) rest := by
        rw [exceedsAmong_cons, or_iff_right hexceeds]
        simp only [hvisited₁]
      rcases ih hrest hclosed₁ with ⟨hfails, herror⟩ | ⟨hfails, visited₂, hok, hvisited₂⟩
      · exact .inl ⟨hiff.mpr hfails, herror⟩
      · refine .inr ⟨fun h => hfails (hiff.mp h), visited₂, hok, fun other => ?_⟩
        refine (hvisited₂ other).trans ?_
        simp [hvisited₁, or_assoc]

/-- The visit of a class goes wrong just if the way to one that has not been seen gets too long. Those that have been seen
    do not get into the way: all that is above them has been seen, too. -/
theorem visit_surveys (hsources : ∀ name, v.isSource name = true → ∃ cls, v.find name = .ok cls)
    (hacyclic : ¬v.Cyclic start) {more : Nat} {ancestors visited : List String} {name : String}
    (hway : v.Way true start ancestors name) (hclosed : v.Closed ancestors visited) :
    v.Surveys start (v.Exceeds more (· ∈ visited) name) (fun other => other ∈ visited ∨ v.Reaches name other)
      (v.visit start true (fun _ => none) more ancestors visited name).result := by
  induction more generalizing ancestors visited name with
  | zero => exact .inl ⟨.inl rfl, rfl⟩
  | succ more ih =>
    have hnew : name ∉ ancestors := fun hmem => hacyclic ⟨ancestors, name, hway, hmem⟩
    rw [visit, if_neg (by simpa using hnew)]
    split
    · rename_i hmem
      have hall := (hclosed name (by simpa using hmem)).resolve_left hnew
      refine .inr ⟨?_, visited, rfl, fun other => ⟨.inl, fun h => h.elim id (hall other)⟩⟩
      rintro (hzero | ⟨other, _, _, hother, hfirst, -⟩)
      · cases hzero
      · exact hother (hall other hfirst.reaches)
    · rename_i hmem
      have hmem : name ∉ visited := by simpa using hmem
      split
      · rename_i hhost
        have hsource : v.isSource name = false := by simpa using hhost
        refine .inr ⟨?_, name :: visited, rfl, fun other => ?_⟩
        · rintro (hzero | ⟨other, _, parent, _, hfirst, hp, -⟩)
          · cases hzero
          · obtain rfl := (reaches_iff_of_not_source hsource).mp hfirst.reaches
            simp [hp.1 rfl] at hsource
        · simp only [List.mem_cons, reaches_iff_of_not_source hsource, or_comm]
      · rename_i hsource
        have hsource : v.isSource name = true := by simpa using hsource
        obtain ⟨cls, hcls⟩ := hsources name hsource
        have hresolve : (v.resolve name).result = .ok cls := hcls
        rw [Lookup.result_bind, hresolve, ok_bind]
        have hacyclic' : ¬v.Cyclic name := by
          rintro ⟨round, other, hround, hother⟩
          exact hacyclic ⟨round ++ ancestors, other, hway.trans hround, List.mem_append_left ancestors hother⟩
        have heach := visitEach_surveys (fun parent hparent _ hclosed =>
          ih (hway.up ⟨fun _ => hsource, cls, hcls, hparent⟩) hclosed) (hclosed.cons name)
        simp only [List.mem_cons] at heach
        rw [← exceeds_succ_iff hsource hcls hacyclic' hmem] at heach
        rcases heach with hfails | ⟨hpasses, visited', hok, hvisited'⟩
        · exact .inl hfails
        · refine .inr ⟨hpasses, visited', hok, fun other => (hvisited' other).trans ?_⟩
          simp only [reaches_iff_of_parents hsource hcls]
          exact or_assoc.trans or_left_comm

/-! ### The check -/

theorem checkHierarchy_eq (hsources : ∀ name, v.isSource name = true → ∃ cls, v.find name = .ok cls) {name : String}
    (hacyclic : ¬v.Cyclic name) :
    v.TooDeep name ∧ (v.checkHierarchy name).result = .error (.malformedHierarchy name (.tooDeep v.maxDepth)) ∨
      ¬v.TooDeep name ∧ (v.checkHierarchy name).result = .ok () := by
  have hiff : v.Exceeds (v.maxDepth + 1) (· ∈ ([] : List String)) name ↔ v.TooDeep name := by
    constructor
    · rintro (hzero | ⟨other, steps, parent, -, hway, hp, hlong⟩)
      · cases hzero
      · exact ⟨other, steps, parent, hway, hp, hlong⟩
    · rintro ⟨other, steps, parent, hway, hp, hlong⟩
      exact .inr ⟨other, steps, parent, List.not_mem_nil, hway, hp, hlong⟩
  have hcheck : (v.checkHierarchy name).result =
      (v.visit name true (fun _ => (none : Option Unit)) (v.maxDepth + 1) [] [] name).result.map fun _ => () := by
    unfold checkHierarchy walk
    rw [Lookup.result_bind, Lookup.result_bind]
    cases (v.visit name true (fun _ => (none : Option Unit)) (v.maxDepth + 1) [] [] name).result <;> rfl
  rw [hcheck, ← hiff]
  have hclosed : v.Closed [] [] := fun _ h => by cases h
  have hvisit : v.Surveys name (v.Exceeds (v.maxDepth + 1) (· ∈ []) name) _ _ :=
    visit_surveys hsources hacyclic .start hclosed
  rcases hvisit with ⟨hfails, herror⟩ | ⟨hfails, visited, hok, -⟩
  · exact .inl ⟨hfails, by rw [herror]; rfl⟩
  · exact .inr ⟨hfails, by rw [hok]; rfl⟩

/-- Where ways to the same class are equally long, a way that is too long is found. -/
theorem Even.tooDeep_iff {name : String} (heven : v.Even name) :
    v.TooDeep name ↔ ∃ ancestors other, v.Way true name ancestors other ∧ v.maxDepth < ancestors.length := by
  constructor
  · rintro ⟨other, steps, parent, hfirst, hp, hlong⟩
    obtain ⟨ancestors, hway, rfl⟩ := hfirst.way
    exact ⟨other :: ancestors, parent, hway.up hp, hlong⟩
  · rintro ⟨ancestors, parent, hway, hlong⟩
    cases hway with
    | start => cases hlong
    | @up ancestors other _ hway hp =>
      have hfirst := exists_firstWay_of_length ⟨ancestors, hway⟩ fun _ hway' => heven _ _ _ hway' hway
      exact ⟨other, ancestors.length, parent, hfirst, hp, hlong⟩

/-- After a check that has passed, there is a way to each class above that is not too long. -/
theorem exists_short_way {name other : String} (hgrounded : v.Grounded name) (hnot : ¬v.TooDeep name)
    (hreaches : v.Reaches name other) : ∃ ancestors, v.Way true name ancestors other ∧ ancestors.length ≤ v.maxDepth := by
  obtain ⟨_, hway⟩ := hreaches
  cases hway with
  | start => exact ⟨[], .start, Nat.zero_le _⟩
  | @up ancestors child _ hway hp =>
    obtain ⟨steps, hfirst⟩ := hgrounded.exists_firstWay ⟨ancestors, hway⟩
    obtain ⟨ancestors', hway', rfl⟩ := hfirst.way
    refine ⟨child :: ancestors', hway'.up hp, Nat.not_lt.mp fun hlong => hnot ?_⟩
    exact ⟨child, ancestors'.length, other, hfirst, hp, hlong⟩

/-- Where ways to the same class are equally long, it does not matter in which order supertypes are declared. -/
theorem Even.checkHierarchy_congr (hv : ∀ name, v.isSource name = true → ∃ cls, v.find name = .ok cls)
    (hw : ∀ name, w.isSource name = true → ∃ cls, w.find name = .ok cls) {name : String} (hacyclic : ¬v.Cyclic name)
    (heven : v.Even name) (hinherits : ∀ child parent, w.Inherits true child parent ↔ v.Inherits true child parent)
    (hdepth : w.maxDepth = v.maxDepth) : (w.checkHierarchy name).result = (v.checkHierarchy name).result := by
  have hways (ancestors : List String) (other : String) :
      w.Way true name ancestors other ↔ v.Way true name ancestors other :=
    ⟨.of_inherits fun child parent => (hinherits child parent).mp,
      .of_inherits fun child parent => (hinherits child parent).mpr⟩
  have hacyclic' : ¬w.Cyclic name := by
    rintro ⟨ancestors, other, hway, hmem⟩
    exact hacyclic ⟨ancestors, other, (hways _ _).mp hway, hmem⟩
  have heven' : w.Even name := fun _ _ _ h h' => heven _ _ _ ((hways _ _).mp h) ((hways _ _).mp h')
  have hdeep : w.TooDeep name ↔ v.TooDeep name := by
    rw [heven.tooDeep_iff, heven'.tooDeep_iff, hdepth]
    simp only [hways]
  rcases checkHierarchy_eq hv hacyclic with ⟨hfails, herror⟩ | ⟨hpasses, hok⟩
  · rcases checkHierarchy_eq hw hacyclic' with ⟨-, herror'⟩ | ⟨hpasses', -⟩
    · rw [herror, herror', hdepth]
    · exact absurd (hdeep.mpr hfails) hpasses'
  · rcases checkHierarchy_eq hw hacyclic' with ⟨hfails', -⟩ | ⟨-, hok'⟩
    · exact absurd (hdeep.mp hfails') hpasses
    · rw [hok, hok']

/-! ### Ranks -/

theorem Way.length_add_rank {rank : String → Nat} {ancestors : List String} {name : String}
    (hrank : ∀ child parent, v.Inherits true child parent → rank child = rank parent + 1)
    (h : v.Way true start ancestors name) : ancestors.length + rank name = rank start := by
  induction h with
  | start => exact Nat.zero_add _
  | up _ hp ih =>
    have hfalls := hrank _ _ hp
    rw [List.length_cons]
    omega

theorem not_cyclic_of_rank {rank : String → Nat}
    (hrank : ∀ child parent, v.Inherits true child parent → rank parent < rank child) (name : String) : ¬v.Cyclic name := by
  rintro ⟨ancestors, other, hway, hmem⟩
  refine hway.not_mem_of_bounded (n := rank name) (fun ancestors other h => ?_) hmem
  exact Nat.le_trans (Nat.le_add_right _ _) (h.length_le hrank)

theorem even_of_rank {rank : String → Nat}
    (hrank : ∀ child parent, v.Inherits true child parent → rank child = rank parent + 1) (name : String) : v.Even name := by
  intro ancestors ancestors' other h h'
  have hlength := h.length_add_rank hrank
  have hlength' := h'.length_add_rank hrank
  omega

end ClassView

/-! ### Tables -/

theorem ClassTable.exists_source {t : ClassTable} {name parent : String} (h : t.view.Inherits true name parent) :
    ∃ r ∈ t.sources, r.sig.name = name ∧ parent ∈ r.sig.parents := by
  obtain ⟨hsource, cls, hcls, hparent⟩ := h
  obtain ⟨r, hr⟩ := Option.isSome_iff_exists.mp (hsource rfl)
  change t.find name = .ok cls at hcls
  rw [ClassTable.find, hr] at hcls
  cases hcls
  exact ⟨r, List.mem_of_find?_eq_some hr, by simpa using List.find?_some hr, hparent⟩

/-- Where there is no cycle above a class, the check of its hierarchy fails just if it comes to a class with a supertype
    for the first time when it has gone as far as it may, and passes otherwise. If all ways to the same class are equally
    long, these are the hierarchies with a way that is too long, in whatever order supertypes are declared. In all other
    hierarchies that pass, there is a way to each class that is not too long. -/
theorem depth_bound_on_first_ways (t : ClassTable) {name : String} (hacyclic : ¬t.view.Cyclic name) :
    ((t.view.checkHierarchy name).result = .error (.malformedHierarchy name (.tooDeep t.maxDepth)) ↔
        t.view.TooDeep name) ∧
      ((t.view.checkHierarchy name).result = .ok () ↔ ¬t.view.TooDeep name) ∧
      (t.view.Even name →
        ((∃ fault, (t.view.checkHierarchy name).result = .error (.malformedHierarchy name fault)) ↔
          ∃ ancestors other, t.view.Way true name ancestors other ∧ t.maxDepth < ancestors.length) ∧
        ∀ t' : ClassTable, (∀ child parent, t'.view.Inherits true child parent ↔ t.view.Inherits true child parent) →
          t'.maxDepth = t.maxDepth → (t'.view.checkHierarchy name).result = (t.view.checkHierarchy name).result) ∧
      ((t.view.checkHierarchy name).result = .ok () → ∀ other, t.view.Reaches name other →
        ∃ ancestors, t.view.Way true name ancestors other ∧ ancestors.length ≤ t.maxDepth) := by
  have hcongr (heven : t.view.Even name) (t' : ClassTable)
      (hinherits : ∀ child parent, t'.view.Inherits true child parent ↔ t.view.Inherits true child parent)
      (hdepth : t'.maxDepth = t.maxDepth) : (t'.view.checkHierarchy name).result = (t.view.checkHierarchy name).result :=
    heven.checkHierarchy_congr t.find_of_isSource t'.find_of_isSource hacyclic hinherits hdepth
  rcases ClassView.checkHierarchy_eq t.find_of_isSource hacyclic with ⟨hfails, herror⟩ | ⟨hpasses, hok⟩
  · refine ⟨⟨fun _ => hfails, fun _ => herror⟩, ?_, fun heven => ⟨?_, hcongr heven⟩, ?_⟩
    · simp [herror, hfails]
    · exact ⟨fun _ => heven.tooDeep_iff.mp hfails, fun _ => ⟨_, herror⟩⟩
    · simp [herror]
  · refine ⟨?_, ⟨fun _ => hpasses, fun _ => hok⟩, fun heven => ⟨?_, hcongr heven⟩, fun _ other hother => ?_⟩
    · simp [hok, hpasses]
    · have hnone := mt heven.tooDeep_iff.mpr hpasses
      simp only [hok, reduceCtorEq, exists_false, false_iff]
      exact hnone
    · exact ClassView.exists_short_way (ClassView.grounded_of_checkHierarchy hok) hpasses hother

/-- An interface with two others directly above it, one of which is above the other as well. -/
def solids (first second : String) : ClassTable :=
  let solid (name : String) (interfaces : List String) : ClassSig := { name, isInterface := true, interfaces }
  { provider := .ofSignatures []
    maxDepth := 2
    sources :=
      [⟨0, solid "demo/Cube" [first, second]⟩, ⟨1, solid "demo/Prism" ["demo/Solid"]⟩,
        ⟨2, solid "demo/Solid" ["demo/Body"]⟩, ⟨3, solid "demo/Body" []⟩] }

def solidRank (name : String) : Nat :=
  if name = "demo/Cube" then 3 else if name = "demo/Prism" then 2 else if name = "demo/Solid" then 1 else 0

theorem not_cyclic_solids {first second : String} (hfirst : solidRank first < 3) (hsecond : solidRank second < 3)
    (name : String) : ¬(solids first second).view.Cyclic name := by
  suffices hrank : ∀ child parent, (solids first second).view.Inherits true child parent →
      solidRank parent < solidRank child from ClassView.not_cyclic_of_rank hrank name
  intro child parent h
  obtain ⟨r, hr, rfl, hparent⟩ := ClassTable.exists_source h
  have hcube : solidRank "demo/Cube" = 3 := by decide
  simp only [solids, List.mem_cons, List.not_mem_nil, or_false] at hr
  rcases hr with rfl | rfl | rfl | rfl
  · rcases List.mem_pair.mp hparent with rfl | rfl
    · rwa [hcube]
    · rwa [hcube]
  · obtain rfl := List.mem_singleton.mp hparent
    decide
  · obtain rfl := List.mem_singleton.mp hparent
    decide
  · cases hparent

/-- The same way is too long for the check when it is the first to a class, and is not seen when another comes first. -/
theorem solids_pass_by_order :
    (∀ name, ¬(solids "demo/Solid" "demo/Prism").view.Cyclic name) ∧
      (∃ ancestors, (solids "demo/Solid" "demo/Prism").view.Way true "demo/Cube" ancestors "demo/Body" ∧
        (solids "demo/Solid" "demo/Prism").maxDepth < ancestors.length) ∧
      ((solids "demo/Solid" "demo/Prism").view.checkHierarchy "demo/Cube").result = .ok () ∧
      ((solids "demo/Prism" "demo/Solid").view.checkHierarchy "demo/Cube").result =
        .error (.malformedHierarchy "demo/Cube" (.tooDeep 2)) := by
  refine ⟨not_cyclic_solids (by decide) (by decide), ⟨["demo/Solid", "demo/Prism", "demo/Cube"], ?_, by decide⟩, rfl, rfl⟩
  exact .up (.up (.up .start ⟨fun _ => rfl, _, rfl, by decide⟩) ⟨fun _ => rfl, _, rfl, by decide⟩)
    ⟨fun _ => rfl, _, rfl, by decide⟩

/-- The figures, of which a walk may see only those that are next to each other. -/
def nearFigures : ClassTable := { figures with maxDepth := 1 }

theorem nearFigures_rank (child parent : String) (h : nearFigures.view.Inherits true child parent) :
    figureRank child = figureRank parent + 1 := by
  obtain ⟨r, hr, rfl, hparent⟩ := ClassTable.exists_source h
  have hall : ∀ r ∈ nearFigures.sources, ∀ parent ∈ r.sig.parents, figureRank r.sig.name = figureRank parent + 1 := by
    decide
  exact hall r hr parent hparent

theorem depth_bound_on_first_ways_figures :
    (¬nearFigures.view.Cyclic "demo/Square" ∧ nearFigures.view.Even "demo/Square" ∧
        ∃ fault, (nearFigures.view.checkHierarchy "demo/Square").result = .error (.malformedHierarchy "demo/Square" fault)) ∧
      (¬(solids "demo/Solid" "demo/Prism").view.Cyclic "demo/Cube" ∧
        ∃ ancestors, (solids "demo/Solid" "demo/Prism").view.Way true "demo/Cube" ancestors "demo/Body" ∧
          ancestors.length ≤ 2) := by
  have hfalls (child parent : String) (h : nearFigures.view.Inherits true child parent) :
      figureRank parent < figureRank child := by rw [nearFigures_rank child parent h]; omega
  have hnone : ¬nearFigures.view.Cyclic "demo/Square" := ClassView.not_cyclic_of_rank hfalls _
  have heven : nearFigures.view.Even "demo/Square" := ClassView.even_of_rank nearFigures_rank _
  have hsolids : ¬(solids "demo/Solid" "demo/Prism").view.Cyclic "demo/Cube" :=
    not_cyclic_solids (by decide) (by decide) _
  refine ⟨⟨hnone, heven, ?_⟩, hsolids, ?_⟩
  · refine ((depth_bound_on_first_ways nearFigures hnone).2.2.1 heven).1.mpr
      ⟨["demo/Rectangle", "demo/Square"], "demo/Figure", ?_, by decide⟩
    exact .up (.up .start ⟨fun _ => rfl, _, rfl, by decide⟩) ⟨fun _ => rfl, _, rfl, by decide⟩
  · refine (depth_bound_on_first_ways (solids "demo/Solid" "demo/Prism") hsolids).2.2.2 rfl _ ?_
    exact ⟨["demo/Solid", "demo/Cube"],
      .up (.up .start ⟨fun _ => rfl, _, rfl, by decide⟩) ⟨fun _ => rfl, _, rfl, by decide⟩⟩

end Classwright
