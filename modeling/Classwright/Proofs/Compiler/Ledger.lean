import Classwright.Proofs.Compiler.Session

/-! # A class table as a ledger

A class table has sources that come and go, and remembers of its provider whatever it has been told, also that a class
is not there. None of this memory shows: what the table answers can be read off a ledger of the registrations that were
made and of those that were handed in to be taken back. The class of a name is the latest registration of it that has
not been taken back, and where there is none it is what the provider says. -/

namespace Classwright

/-- What the provider's answer means for someone who needs the class. -/
def Provider.load (p : Provider) (name : String) : Except CompileError ClassSig :=
  match p name with
  | .ok (some c) => .ok c
  | .ok Option.none => .error (.unknownClass name {})
  | .error e => .error e

/-- The registrations that were made so far, and what has become of them. -/
structure Ledger where
  /-- The latest first. -/
  made : List Registration := []
  /-- Those that were handed in, once or more often. -/
  withdrawn : List Registration := []
  /-- The classes that the user has got hold of, in order. -/
  handles : List (Option Registration) := []

/-- A call of a class table. -/
inductive TableCall where
  | register (sig : ClassSig)
  /-- Takes back a class that the user has got hold of, given by its place among those. -/
  | unregister (handle : Nat)
  | resolve (name : String)

def TableCall.toStep : TableCall → Session.Step
  | .register sig => .register sig
  | .unregister handle => .unregister handle
  | .resolve name => .resolve name

namespace Ledger

/-- The latest registration of a name that has not been taken back. -/
def live? (l : Ledger) (name : String) : Option Registration :=
  l.made.find? fun r => r.sig.name == name && !l.withdrawn.contains r

/-- The class of a name. -/
def resolve (l : Ledger) (provider : Provider) (name : String) : Except CompileError ClassSig :=
  match l.live? name with
  | some r => .ok r.sig
  | none => provider.load name

def hold (l : Ledger) (x : Option Registration) : Ledger := { l with handles := l.handles ++ [x] }

/-- What a call is answered, and what is put down about it. Registrations are numbered as they are made. -/
def step (provider : Provider) (l : Ledger) : TableCall → Session.Answer × Ledger
  | .register sig =>
    match l.live? sig.name with
    | some _ => (.registered (.error (.duplicateClass sig.name)), l)
    | none =>
      let r : Registration := ⟨l.made.length, sig⟩
      (.registered (.ok ()), hold { l with made := r :: l.made } (some r))
  | .unregister handle =>
    match l.handles[handle]?.join with
    | some r => (.unregistered (l.live? r.sig.name == some r), { l with withdrawn := r :: l.withdrawn })
    | none => (.unregistered false, l)
  | .resolve name =>
    match l.resolve provider name with
    | .ok sig => (.resolved (.ok sig), l.hold (l.live? name))
    | .error e => (.resolved (.error e), l)

def answers (provider : Provider) (l : Ledger) : List TableCall → List Session.Answer
  | [] => []
  | x :: rest => (l.step provider x).1 :: (l.step provider x).2.answers provider rest

def after (provider : Provider) (l : Ledger) (calls : List TableCall) : Ledger :=
  calls.foldl (fun l x => (l.step provider x).2) l

variable {l : Ledger} {r : Registration} {name : String}

theorem live?_eq_some (h : l.live? name = some r) : r ∈ l.made ∧ r.sig.name = name ∧ r ∉ l.withdrawn :=
  ⟨List.mem_of_find?_eq_some h, by simpa using List.find?_some h⟩

/-- A new registration is the one of its name. -/
theorem live?_made {sig : ClassSig} {n : Nat} (hnew : ⟨n, sig⟩ ∉ l.withdrawn) (x : Option Registration) (name : String) :
    (hold { l with made := ⟨n, sig⟩ :: l.made } x).live? name =
      if sig.name = name then some ⟨n, sig⟩ else l.live? name := by
  unfold live?
  dsimp only [hold]
  by_cases hname : sig.name = name
  · rw [if_pos hname, List.find?_cons_of_pos (by simpa using ⟨hname, hnew⟩)]
  · rw [if_neg hname, List.find?_cons_of_neg (by simp [hname])]

/-- Handing a registration in changes nothing for other names, and nothing at all if it was handed in before. -/
theorem live?_withdrawn (h : r.sig.name = name → r ∈ l.withdrawn) :
    Ledger.live? { l with withdrawn := r :: l.withdrawn } name = l.live? name := by
  unfold live?
  congr 1
  funext r'
  by_cases heq : r' = r
  · subst heq
    by_cases hname : r'.sig.name = name
    · simp [h hname]
    · simp [beq_eq_false_iff_ne.mpr hname]
  · simp [heq]

end Ledger

/-! ### Tables and their ledgers -/

namespace ClassTable
variable {t : ClassTable}

theorem source?_unregister {r : Registration} (h : t.holds r = true) (name : String) :
    (t.unregister r).source? name = if r.sig.name = name then none else t.source? name := by
  rw [unregister, if_pos h]
  change (t.sources.filter _).find? _ = _
  rw [List.find?_filter]
  by_cases hname : r.sig.name = name
  · subst hname
    simp
  · rw [if_neg hname, source?]
    congr 1
    funext r'
    by_cases hr' : r'.sig.name = name
    · simp [hr', Ne.symm hname]
    · simp [hr']

end ClassTable

namespace Ledger
variable {provider : Provider} {l : Ledger} {s : Session} {r : Registration}

/-- The ledger tells all that the session's class table can answer. -/
structure Describes (provider : Provider) (l : Ledger) (s : Session) : Prop where
  provider : s.compiler.table.provider = provider
  honest : s.compiler.table.Honest
  sources : ∀ name, s.compiler.table.source? name = l.live? name
  handles : s.handles = l.handles
  next : s.compiler.table.next = l.made.length
  bounded : ∀ r ∈ l.made, r.serial < l.made.length
  serials : ∀ r ∈ l.made, ∀ r' ∈ l.made, r.serial = r'.serial → r = r'
  held : ∀ r, some r ∈ l.handles → r ∈ l.made
  withdrawn : ∀ r ∈ l.withdrawn, r ∈ l.made
  /-- No two registrations of one name are there at once. -/
  unique : ∀ r ∈ l.made, r ∉ l.withdrawn → l.live? r.sig.name = some r

namespace Describes

theorem start (provider : Provider) (options : Options) : Describes provider {} (.start provider options) :=
  ⟨rfl, nofun, fun _ => rfl, rfl, rfl, nofun, nofun, nofun, nofun, nofun⟩

/-- Of the registrations that the user has got hold of, the table has those that are live. -/
theorem holds_eq (h : Describes provider l s) (hr : r ∈ l.made) :
    s.compiler.table.holds r = (l.live? r.sig.name == some r) := by
  unfold ClassTable.holds
  rw [h.sources]
  cases hlive : l.live? r.sig.name with
  | none => rfl
  | some current =>
    obtain ⟨hmade, -, -⟩ := live?_eq_some hlive
    rw [Bool.eq_iff_iff, beq_iff_eq, beq_iff_eq, Option.some.injEq]
    exact ⟨h.serials current hmade r hr, congrArg Registration.serial⟩

theorem hold (h : Describes provider l s) {x : Option Registration} (hx : ∀ r, x = some r → r ∈ l.made) :
    Describes provider (l.hold x) { s with handles := s.handles ++ [x] } where
  provider := h.provider
  honest := h.honest
  sources := h.sources
  handles := congrArg (· ++ [x]) h.handles
  next := h.next
  bounded := h.bounded
  serials := h.serials
  held r hr := by
    rcases List.mem_append.mp hr with hr | hr
    · exact h.held r hr
    · exact hx r (List.mem_singleton.mp hr).symm
  withdrawn := h.withdrawn
  unique := h.unique

/-- Lookups do not touch what the ledger tells. -/
theorem lookup (h : Describes provider l s) {α : Type} (x : ClassView → Lookup α) :
    Describes provider l { s with compiler := (s.compiler.lookup x).2 } := by
  have hextends := (s.compiler.extends_lookup x).table
  have hrestores := hextends.restores
  exact { h with
    provider := hrestores.provider.trans h.provider
    honest := hrestores.honest h.honest
    sources := fun name => by
      rw [← h.sources name, ClassTable.source?, ClassTable.source?, hrestores.sources]
    next := hextends.next.trans h.next }

theorem resolve_eq (h : Describes provider l s) (name : String) :
    (s.compiler.lookup (·.resolve name)).1 = l.resolve provider name := by
  change s.compiler.table.find name = _
  have hsource := h.sources name
  have hanswer : s.compiler.table.answer name = provider name := by rw [h.honest.answer_eq, h.provider]
  unfold ClassTable.find Ledger.resolve Provider.load
  generalize s.compiler.table.source? name = found at hsource
  generalize s.compiler.table.answer name = answer at hanswer
  subst hsource hanswer
  rfl

theorem register (h : Describes provider l s) {sig : ClassSig} {k : Compiler} (hfree : l.live? sig.name = none)
    (hk : s.compiler.Extends [sig] k) :
    Describes provider (Ledger.hold { l with made := ⟨l.made.length, sig⟩ :: l.made } (some ⟨l.made.length, sig⟩))
      ⟨k, s.handles ++ [some ⟨l.made.length, sig⟩]⟩ := by
  have hnew : (⟨l.made.length, sig⟩ : Registration) ∉ l.made := fun hr => Nat.lt_irrefl _ (h.bounded _ hr)
  have hlive := live?_made (fun hr => hnew (h.withdrawn _ hr)) (some ⟨l.made.length, sig⟩)
  constructor
  case provider => exact hk.table.provider.trans h.provider
  case honest => exact hk.table.honest h.honest
  case sources =>
    intro name
    rw [hlive, ClassTable.source?, hk.table.sources, h.next, List.find?_append]
    change (s.compiler.table.source? name).or (List.find? _ [⟨l.made.length, sig⟩]) = _
    rw [h.sources]
    by_cases hname : sig.name = name
    · rw [if_pos hname, ← hname, hfree, Option.none_or, List.find?_cons_of_pos (by simp)]
    · rw [if_neg hname, List.find?_cons_of_neg (by simp [hname]), List.find?_nil, Option.or_none]
  case handles => exact congrArg (· ++ _) h.handles
  case next => rw [hk.table.next, h.next]; rfl
  case bounded =>
    intro r hr
    rcases List.mem_cons.mp hr with rfl | hr
    · exact Nat.lt_succ_self _
    · exact Nat.lt_succ_of_lt (h.bounded r hr)
  case serials =>
    intro r hr r' hr' hserial
    rcases List.mem_cons.mp hr with rfl | hr <;> rcases List.mem_cons.mp hr' with rfl | hr'
    · rfl
    · exact absurd (hserial ▸ h.bounded r' hr') (Nat.lt_irrefl _)
    · exact absurd (hserial ▸ h.bounded r hr) (Nat.lt_irrefl _)
    · exact h.serials r hr r' hr' hserial
  case held =>
    intro r hr
    rcases List.mem_append.mp hr with hr | hr
    · exact List.mem_cons_of_mem _ (h.held r hr)
    · exact List.mem_cons.mpr (.inl (Option.some.inj (List.mem_singleton.mp hr)))
  case withdrawn => exact fun r hr => List.mem_cons_of_mem _ (h.withdrawn r hr)
  case unique =>
    intro r hr hr'
    rw [hlive]
    rcases List.mem_cons.mp hr with rfl | hr
    · exact if_pos rfl
    · have hold := h.unique r hr hr'
      rw [if_neg (fun hname => by rw [← hname, hfree] at hold; cases hold), hold]

theorem unregister (h : Describes provider l s) (hr : r ∈ l.made) :
    Describes provider { l with withdrawn := r :: l.withdrawn } { s with compiler := s.compiler.unregister r } := by
  obtain ⟨hprovider, -, hknown, hnext⟩ := s.compiler.table.unregister_provider r
  have hsources (name : String) : (s.compiler.table.unregister r).source? name =
      Ledger.live? { l with withdrawn := r :: l.withdrawn } name := by
    have hholds := h.holds_eq hr
    by_cases hlive : l.live? r.sig.name = some r
    · rw [hlive, beq_self_eq_true] at hholds
      rw [ClassTable.source?_unregister hholds]
      by_cases hname : r.sig.name = name
      · subst hname
        rw [if_pos rfl, eq_comm, Option.eq_none_iff_forall_not_mem]
        intro r' hr'
        -- Another registration of the name would have been live beside this one.
        obtain ⟨hmade, hname, hkept⟩ := live?_eq_some hr'
        obtain ⟨hne, hkept⟩ := not_or.mp (mt List.mem_cons.mpr hkept)
        have hother := h.unique r' hmade hkept
        rw [hname, hlive] at hother
        exact hne (Option.some.inj hother).symm
      · rw [if_neg hname, live?_withdrawn (absurd · hname), h.sources]
    · have hgone : r ∈ l.withdrawn := by
        by_contra hkept
        exact hlive (h.unique r hr hkept)
      rw [beq_eq_false_iff_ne.mpr hlive] at hholds
      rw [live?_withdrawn fun _ => hgone, ClassTable.unregister, hholds, ← h.sources]
      rfl
  constructor
  case provider => exact hprovider.trans h.provider
  case honest =>
    intro name answer hlookup
    change (s.compiler.table.unregister r).known.lookup name = _ at hlookup
    rw [hknown] at hlookup
    exact (congrFun hprovider name).trans (h.honest name answer hlookup)
  case sources => exact hsources
  case handles => exact h.handles
  case next => exact hnext.trans h.next
  case bounded => exact h.bounded
  case serials => exact h.serials
  case held => exact h.held
  case withdrawn => exact fun r' hr' => (List.mem_cons.mp hr').elim (fun heq => heq ▸ hr) (h.withdrawn r')
  case unique =>
    intro r' hmade hkept
    obtain ⟨hne, hkept⟩ := not_or.mp (mt List.mem_cons.mpr hkept)
    have hother := h.unique r' hmade hkept
    rw [live?_withdrawn fun hname => ?_, hother]
    by_contra hgone
    have hlive := h.unique r hr hgone
    rw [hname, hother] at hlive
    exact hne (Option.some.inj hlive)

/-! ### Calls -/

/-- A call is answered as the ledger says, and the ledger goes on to describe the table. -/
theorem step (h : Describes provider l s) (x : TableCall) :
    (s.step x.toStep).1 = (l.step provider x).1 ∧ Describes provider (l.step provider x).2 (s.step x.toStep).2 := by
  cases x with
  | register sig =>
    simp only [TableCall.toStep, Session.step, Ledger.step]
    rcases s.compiler.register_cases sig with ⟨hsource, hk⟩ | ⟨k, hsource, hk, hextends⟩
    · obtain ⟨r, hr⟩ := Option.isSome_iff_exists.mp hsource
      rw [h.sources] at hr
      rw [hk, hr]
      exact ⟨rfl, h⟩
    · have hfree : l.live? sig.name = none := by
        rw [← h.sources]
        exact Option.isNone_iff_eq_none.mp (Option.isSome_eq_false_iff.mp hsource)
      rw [hk, hfree, h.next]
      exact ⟨rfl, h.register hfree hextends⟩
  | unregister handle =>
    have hhandle : s.handles[handle]?.join = l.handles[handle]?.join := by rw [h.handles]
    simp only [TableCall.toStep, Session.step, Ledger.step, hhandle]
    cases hr : l.handles[handle]?.join with
    | none => exact ⟨rfl, h⟩
    | some r =>
      have hmade := h.held r (List.mem_of_getElem? (Option.join_eq_some_iff.mp hr))
      exact ⟨congrArg Session.Answer.unregistered (h.holds_eq hmade), h.unregister hmade⟩
  | resolve name =>
    have hanswer := h.resolve_eq name
    have hnext := h.lookup (·.resolve name)
    simp only [TableCall.toStep, Session.step, Ledger.step]
    rw [h.sources]
    generalize s.compiler.lookup (·.resolve name) = p at hanswer hnext
    obtain ⟨result, k⟩ := p
    obtain rfl : result = l.resolve provider name := hanswer
    cases l.resolve provider name with
    | error e => exact ⟨rfl, hnext⟩
    | ok sig => exact ⟨rfl, hnext.hold fun r hr => (live?_eq_some hr).1⟩

theorem run (h : Describes provider l s) (calls : List TableCall) :
    (s.trace (calls.map (·.toStep))).map (·.2) = l.answers provider calls ∧
      Describes provider (l.after provider calls) (s.after (calls.map (·.toStep))) := by
  induction calls generalizing l s with
  | nil => exact ⟨rfl, h⟩
  | cons x calls ih =>
    obtain ⟨hanswer, hnext⟩ := h.step x
    obtain ⟨hanswers, hlast⟩ := ih hnext
    exact ⟨congrArg₂ List.cons hanswer hanswers, hlast⟩

end Describes

end Ledger

/-- Whatever calls are made of a class table, they are answered as the ledger says, and at any time the table has the live
    registrations and no others. A class whose name is taken cannot be registered, and what is not the live registration
    of its name cannot be taken back; neither of the two changes anything. -/
theorem table_follows_ledger (provider : Provider) (options : Options) (calls : List TableCall) :
    let s := (Session.start provider options).after (calls.map (·.toStep))
    let l := Ledger.after provider {} calls
    ((Session.start provider options).trace (calls.map (·.toStep))).map (·.2) = Ledger.answers provider {} calls ∧
      s.handles = l.handles ∧ (∀ name, s.compiler.table.source? name = l.live? name) ∧
      (∀ sig r, l.live? sig.name = some r →
        s.step (.register sig) = (.registered (.error (.duplicateClass sig.name)), s)) ∧
      ∀ handle, (∀ r, l.handles[handle]?.join = some r → l.live? r.sig.name ≠ some r) →
        s.step (.unregister handle) = (.unregistered false, s) := by
  intro s l
  obtain ⟨hanswers, h⟩ := (Ledger.Describes.start provider options).run calls
  refine ⟨hanswers, h.handles, h.sources, fun sig r hr => ?_, fun handle hstale => ?_⟩
  · have hsource : s.compiler.table.isSource sig.name = true := by
      rw [ClassTable.isSource, h.sources, hr]
      rfl
    rcases s.compiler.register_cases sig with ⟨-, hk⟩ | ⟨k, hfree, -⟩
    · rw [Session.step, hk]
    · rw [hsource] at hfree
      cases hfree
  · have hhandle : s.handles[handle]?.join = l.handles[handle]?.join := by rw [h.handles]
    rw [Session.step, hhandle]
    cases hr : l.handles[handle]?.join with
    | none => rfl
    | some r =>
      have hmade := h.held r (List.mem_of_getElem? (Option.join_eq_some_iff.mp hr))
      have hholds : s.compiler.table.holds r = false :=
        (h.holds_eq hmade).trans (beq_eq_false_iff_ne.mpr (hstale r hr))
      simp only [hholds, Compiler.unregister, ClassTable.unregister]
      rfl

/-- A class that was taken back and registered again is not touched by its first registration. -/
example : Ledger.answers (fun _ => .ok none) {}
    [.register { name := "demo/A" }, .unregister 0, .register { name := "demo/A" }, .unregister 0, .resolve "demo/A"] =
    [.registered (.ok ()), .unregistered true, .registered (.ok ()), .unregistered false,
     .resolved (.ok { name := "demo/A" })] := rfl

end Classwright
