import Classwright.Proofs.Compiler.Ledger
import Mathlib.Data.List.Dedup

/-! # How often a provider is asked

A table asks its provider about a name that does not stand in source, and remembers the answer, be it a class or that
there is none. What it does not remember is that the provider has failed. So there is one question for every name that
was ever needed and that the provider has an answer for, however the requests are ordered and whichever sources come and
go between them; but a name that the provider fails for is asked about whenever it is needed. -/

namespace Classwright

/-- What a user of a table can ask it for. -/
inductive TableRequest where
  | resolve (name : String)
  | isInterface (name : String)
  | field (owner name : String)
  | method (owner name : String) (args : List Ty)
  | check (name : String)
  | register (sig : ClassSig)
  | unregister (r : Registration)

/-- The names that a request is about, with all that it comes to on its way up a hierarchy. -/
def TableRequest.asked (v : ClassView) : TableRequest → List String
  | .resolve name => (v.resolve name).asked
  | .isInterface name => (v.isInterface name).asked
  | .field owner name => (v.field? owner name).asked
  | .method owner name args => (v.method? owner name args).asked
  | .check name => (v.checkHierarchy name).asked
  | .register _ | .unregister _ => []

namespace ClassTable

/-- The table after a request. -/
def serve (t : ClassTable) : TableRequest → ClassTable
  | .resolve name => (t.run (t.view.resolve name)).2
  | .isInterface name => (t.run (t.view.isInterface name)).2
  | .field owner name => (t.run (t.view.field? owner name)).2
  | .method owner name args => (t.run (t.view.method? owner name args)).2
  | .check name => (t.run (t.view.checkHierarchy name)).2
  | .register sig =>
    match t.register sig with
    | .ok (_, t') => t'
    | .error _ => t
  | .unregister r => t.unregister r

def after (t : ClassTable) (requests : List TableRequest) : ClassTable := requests.foldl serve t

/-- Whether the provider has answered for a name. -/
def remembers (t : ClassTable) (name : String) : Bool := (t.known.lookup name).isSome

/-- Whether the table has to ask its provider about a name. -/
def consults (t : ClassTable) (name : String) : Bool := !(t.isSource name || t.remembers name)

/-- The names that the provider is asked about while names are looked up, in order. -/
def consulted (t : ClassTable) : List String → List String
  | [] => []
  | name :: rest => (if t.consults name then [name] else []) ++ (t.settle name).consulted rest

/-- The names that the provider is asked about while requests are served, in order. -/
def consultedFor (t : ClassTable) : List TableRequest → List String
  | [] => []
  | x :: rest => t.consulted (x.asked t.view) ++ (t.serve x).consultedFor rest

/-- The names that were looked up while they did not stand in source, in order. -/
def needed (t : ClassTable) : List TableRequest → List String
  | [] => []
  | x :: rest => (x.asked t.view).filter (!t.isSource ·) ++ (t.serve x).needed rest

variable {t t₁ t' : ClassTable} {asked asked' need need' : List String}

theorem find_of_consults {name : String} (h : t.consults name = true) : t.find name = Provider.load t.provider name := by
  obtain ⟨hsource, hknown⟩ : t.source? name = none ∧ t.known.lookup name = none := by
    simpa [consults, isSource, remembers] using h
  simp only [find, answer, hsource, hknown]
  rfl

theorem find_of_not_consults {name : String} (h : t.consults name = false) (p : Provider) :
    ({ t with provider := p } : ClassTable).find name = t.find name := by
  have hother : ({ t with provider := p } : ClassTable).source? name = t.source? name := rfl
  unfold find
  rw [hother]
  cases hsource : t.source? name with
  | some r => rfl
  | none =>
    cases hknown : t.known.lookup name with
    | some known => simp only [answer, hknown]
    | none => simp [consults, isSource, remembers, hsource, hknown] at h

/-- A table has to ask its provider about the names for which what it says depends on it. -/
theorem consults_iff (t : ClassTable) (name : String) :
    t.consults name = true ↔ ∃ p : Provider, ({ t with provider := p } : ClassTable).find name ≠ t.find name := by
  constructor
  · intro h
    by_contra hsame
    push Not at hsame
    have hfind (p : Provider) : Provider.load p name = t.find name := by
      rw [← hsame p]
      exact (find_of_consults (t := { t with provider := p }) h).symm
    have hnone := (hfind fun _ => .ok none).trans (hfind fun _ => .ok (some { name })).symm
    cases hnone
  · rintro ⟨p, hp⟩
    by_contra h
    exact hp (find_of_not_consults (Bool.eq_false_iff.mpr h) p)

/-! ### What one question changes -/

theorem loads_settle (t : ClassTable) (name : String) :
    (t.settle name).loads = t.loads + if t.consults name then 1 else 0 := by
  unfold settle consults
  change (if t.isSource name || t.remembers name then t else _).loads = _
  cases t.isSource name || t.remembers name with
  | true => rfl
  | false => cases hanswer : t.provider name <;> simp [hanswer]

theorem remembers_settle (t : ClassTable) (name other : String) :
    (t.settle name).remembers other =
      (t.remembers other || (other == name && t.consults name && (t.provider name).toBool)) := by
  unfold settle consults
  change (if t.isSource name || t.remembers name then t else _).remembers other = _
  cases t.isSource name || t.remembers name with
  | true => simp
  | false =>
    cases hanswer : t.provider name with
    | ok answer =>
      simp only [Bool.false_eq_true, if_false, hanswer, remembers, List.lookup_append, List.lookup_cons, List.lookup_nil]
      cases hname : other == name <;> simp [Except.toBool]
    | error e => simp [hanswer, remembers, Except.toBool]

/-- From one table to another the provider has been asked about `asked`, while `need` are the names that were needed of
    it. Those that it has an answer for are known from then on. -/
structure Queried (t : ClassTable) (asked need : List String) (t' : ClassTable) : Prop where
  provider : t'.provider = t.provider
  loads : t'.loads = t.loads + asked.length
  known : ∀ name, t'.remembers name =
    (t.remembers name || ((t.provider name).toBool && need.contains name))
  answered : ∀ name, (t.provider name).toBool = true →
    asked.count name = if t.remembers name then 0 else min 1 (need.count name)
  failed : ∀ name, (t.provider name).toBool = false → t.remembers name = false →
    asked.count name = need.count name

namespace Queried

/-- Sources may come and go meanwhile. -/
theorem nothing (hprovider : t'.provider = t.provider) (hloads : t'.loads = t.loads) (hknown : t'.known = t.known) :
    t.Queried [] [] t' :=
  ⟨hprovider, hloads, fun name => by simp [remembers, hknown], fun name _ => by simp, fun _ _ _ => rfl⟩

theorem trans (h : t.Queried asked need t₁) (h' : t₁.Queried asked' need' t') :
    t.Queried (asked ++ asked') (need ++ need') t' where
  provider := h'.provider.trans h.provider
  loads := by rw [h'.loads, h.loads, List.length_append, Nat.add_assoc]
  known name := by
    rw [h'.known, h.known, h.provider, List.contains_append, Bool.or_assoc, ← Bool.and_or_distrib_left]
  answered name hok := by
    have hfirst := h.answered name hok
    have hlater := h'.answered name (by rw [h.provider]; exact hok)
    rw [h.known, hok, Bool.true_and] at hlater
    rw [List.count_append, List.count_append]
    cases hknown : t.remembers name with
    | true =>
      rw [hknown] at hfirst hlater
      exact Nat.add_eq_zero_iff.mpr ⟨hfirst, hlater⟩
    | false =>
      cases hneed : need.contains name with
      | true =>
        have hpos : 0 < need.count name := List.count_pos_iff.mpr (List.contains_iff_mem.mp hneed)
        rw [hknown] at hfirst
        rw [hknown, hneed] at hlater
        simp only [Bool.or_true, if_true, Bool.false_eq_true, if_false] at hfirst hlater ⊢
        omega
      | false =>
        have hzero : need.count name = 0 := List.count_eq_zero.mpr (by simpa using hneed)
        rw [hknown] at hfirst
        rw [hknown, hneed] at hlater
        simp only [Bool.or_false, Bool.false_eq_true, if_false] at hfirst hlater ⊢
        omega
  failed name hfail hknown := by
    have hknown₁ : t₁.remembers name = false := by rw [h.known, hknown, hfail]; rfl
    rw [List.count_append, List.count_append, h.failed name hfail hknown,
      h'.failed name (by rw [h.provider]; exact hfail) hknown₁]

theorem settle (t : ClassTable) (name : String) :
    t.Queried (if t.consults name then [name] else []) (if t.isSource name then [] else [name]) (t.settle name) := by
  refine ⟨(Extends.settle t name).provider, ?_, fun other => ?_, fun other hok => ?_, fun other hfail hother => ?_⟩
  · rw [loads_settle]
    split <;> rfl
  · rw [remembers_settle]
    by_cases heq : other = name
    · subst heq
      cases hsource : t.isSource other <;> cases hknown : t.remembers other <;> simp [consults, hsource, hknown]
    · cases hsource : t.isSource name <;> simp [heq]
  · by_cases heq : other = name
    · subst heq
      cases hsource : t.isSource other <;> cases hknown : t.remembers other <;> simp [consults, hsource, hknown]
    · have hne : (name == other) = false := beq_false_of_ne (Ne.symm heq)
      cases hsource : t.isSource name <;> cases hask : t.consults name <;> simp [List.count_singleton, hne]
  · by_cases heq : other = name
    · subst heq
      cases hsource : t.isSource other <;> simp [consults, hsource, hother]
    · have hne : (name == other) = false := beq_false_of_ne (Ne.symm heq)
      cases hsource : t.isSource name <;> cases hask : t.consults name <;> simp [List.count_singleton, hne]

theorem settleAll (t : ClassTable) (names : List String) :
    t.Queried (t.consulted names) (names.filter (!t.isSource ·)) (names.foldl ClassTable.settle t) := by
  induction names generalizing t with
  | nil => exact .nothing rfl rfl rfl
  | cons name names ih =>
    have hsource : (fun x => !(t.settle name).isSource x) = fun x => !t.isSource x := by
      rw [show (t.settle name).isSource = t.isSource from congrArg ClassView.isSource (Extends.settle t name).view_eq]
    have h := (settle t name).trans (ih (t.settle name))
    rw [hsource] at h
    rw [List.filter_cons]
    cases hname : t.isSource name with
    | true =>
      rw [hname] at h
      exact h
    | false =>
      rw [hname] at h
      exact h

theorem serve (t : ClassTable) (x : TableRequest) :
    t.Queried (t.consulted (x.asked t.view)) ((x.asked t.view).filter (!t.isSource ·)) (t.serve x) := by
  cases x with
  | resolve name => exact settleAll t _
  | isInterface name => exact settleAll t _
  | field owner name => exact settleAll t _
  | method owner name args => exact settleAll t _
  | check name => exact settleAll t _
  | register sig =>
    rw [ClassTable.serve]
    split
    · rename_i r t' hregister
      unfold ClassTable.register at hregister
      split at hregister
      · cases hregister
      · cases hregister
        exact .nothing rfl rfl rfl
    · exact .nothing rfl rfl rfl
  | unregister r =>
    change t.Queried [] [] (t.unregister r)
    unfold ClassTable.unregister
    split <;> exact .nothing rfl rfl rfl

theorem after (t : ClassTable) (requests : List TableRequest) :
    t.Queried (t.consultedFor requests) (t.needed requests) (t.after requests) := by
  induction requests generalizing t with
  | nil => exact .nothing rfl rfl rfl
  | cons x rest ih => exact (serve t x).trans (ih _)

end Queried

/-- A table asks its provider when what it says depends on it. Whatever a new table is asked for, the counter says how
    often that was. A name that the provider has an answer for is asked about once if it was ever needed, and one that it
    fails for as often as it was needed. So no name is asked about twice, and the counter is the number of names, exactly
    if no name was needed twice that the provider fails for. -/
theorem provider_asked_once_unless_failing (provider : Provider) (maxDepth : Nat) (requests : List TableRequest) :
    let t : ClassTable := { provider, maxDepth }
    let asked := t.consultedFor requests
    (∀ (table : ClassTable) name, table.consults name = true ↔
        ∃ p : Provider, ({ table with provider := p } : ClassTable).find name ≠ table.find name) ∧
      (t.after requests).loads = asked.length ∧
      (∀ name, (provider name).toBool = true → asked.count name = min 1 ((t.needed requests).count name)) ∧
      (∀ name, (provider name).toBool = false → asked.count name = (t.needed requests).count name) ∧
      (asked.Nodup ↔ ∀ name, (provider name).toBool = false → (t.needed requests).count name ≤ 1) ∧
      ((t.after requests).loads = asked.dedup.length ↔ asked.Nodup) := by
  intro t asked
  have h := Queried.after t requests
  have hloads : (t.after requests).loads = asked.length := h.loads.trans (Nat.zero_add _)
  have hanswered (name : String) (hok : (provider name).toBool = true) :
      asked.count name = min 1 ((t.needed requests).count name) := h.answered name hok
  have hfailed (name : String) (hfail : (provider name).toBool = false) :
      asked.count name = (t.needed requests).count name := h.failed name hfail rfl
  refine ⟨consults_iff, hloads, hanswered, hfailed, ⟨fun hnodup name hfail => ?_, fun hfew => ?_⟩, ?_⟩
  · rw [← hfailed name hfail]
    exact List.nodup_iff_count_le_one.mp hnodup name
  · refine List.nodup_iff_count_le_one.mpr fun name => ?_
    cases hok : (provider name).toBool with
    | true => exact (hanswered name hok).symm ▸ Nat.min_le_left _ _
    | false => exact (hfailed name hok).symm ▸ hfew name hok
  · rw [hloads, ← List.dedup_eq_self]
    exact ⟨fun hlength => (List.dedup_sublist asked).eq_of_length hlength.symm, fun hdedup => by rw [hdedup]⟩

/-- A class file that cannot be read is read again. -/
theorem failing_provider_asked_twice :
    let t : ClassTable := { provider := Provider.archive [("demo/Broken.class", [0])] }
    let requests : List TableRequest := [.resolve "demo/Broken", .resolve "demo/Broken"]
    t.consultedFor requests = ["demo/Broken", "demo/Broken"] ∧ (t.after requests).loads = 2 := by
  decide +kernel

end ClassTable

end Classwright
