import Classwright.Proofs.Lowering.Scope

/-! # Allocation of slots

Locals are asked for one after another, and some requests are refused. Whatever comes, the locals of a scope lie side by
side from slot 0 up to the next slot, each is found under its own name, and a refused request changes nothing. -/

namespace Classwright

/-- The slot belongs to the local. -/
def Local.Takes (v : Local) (slot : Nat) : Prop := v.slot.toNat ≤ slot ∧ slot < v.slot.toNat + v.type.width

/-- The locals lie side by side, from the first slot up to the second. -/
inductive Tiles : Nat → List Local → Nat → Prop
  | nil (n : Nat) : Tiles n [] n
  | cons {n m : Nat} {v : Local} {vs : List Local} (hslot : v.slot.toNat = n) (h : Tiles (n + v.type.width) vs m) :
    Tiles n (v :: vs) m

namespace Tiles
variable {n m : Nat} {vs : List Local} {v : Local}

theorem snoc (h : Tiles n vs m) (hv : v.slot.toNat = m) : Tiles n (vs ++ [v]) (m + v.type.width) := by
  induction h with
  | nil n => exact .cons hv (.nil _)
  | cons hslot _ ih => exact .cons hslot (ih hv)

theorem start_le (h : Tiles n vs m) : ∀ v ∈ vs, n ≤ v.slot.toNat := by
  induction h with
  | nil n => nofun
  | cons hslot _ ih =>
    refine List.forall_mem_cons.mpr ⟨Nat.le_of_eq hslot.symm, fun w hw => ?_⟩
    exact Nat.le_trans (Nat.le_add_right _ _) (ih w hw)

theorem apart (h : Tiles n vs m) : vs.Pairwise fun v w => ∀ slot, v.Takes slot → ¬w.Takes slot := by
  induction h with
  | nil n => exact .nil
  | cons hslot h ih =>
    refine .cons (fun w hw slot hv hw' => ?_) ih
    have hstart := h.start_le w hw
    have hend := hv.2
    have hbegin := hw'.1
    omega

end Tiles

namespace Scope
variable {s s' : Scope}

/-- The scope after requests in order, refused ones among them. -/
def after (s : Scope) : List Request → Scope
  | [] => s
  | r :: rest => (s.answer r).2.after rest

theorem answer_of_add {name : String} {t : Ty} {span : Span} {v : Local} (h : s.add name t span = .ok (v, s')) :
    s.answer ⟨name, t, span⟩ = (.ok v, s') := by
  unfold add at h
  rw [answer]
  cases hfault : s.fault? name t span with
  | some e =>
    rw [hfault] at h
    cases h
  | none =>
    rw [hfault] at h
    cases h
    rfl

/-! ### What a request does -/

/-- A request is refused, and the scope stays as it is, if the name is taken or the slots run out. Otherwise it is given
    the next slots. -/
inductive Answered (s : Scope) (r : Request) : Except CompileError Local × Scope → Prop
  | taken (h : ∃ v ∈ s.locals.toList, v.name = r.name) : Answered s r (.error (.duplicateLocal r.name r.span), s)
  | full (h : ∀ v ∈ s.locals.toList, v.name ≠ r.name) (hfull : maxSlot < s.next + r.type.width) :
    Answered s r (.error (.unsupported .tooManyLocals r.span), s)
  | declared {v : Local} {s' : Scope} (h : ∀ v ∈ s.locals.toList, v.name ≠ r.name)
    (hroom : s.next + r.type.width ≤ maxSlot) (hname : v.name = r.name) (htype : v.type = r.type)
    (hslot : v.slot.toNat = s.next) (hlocals : s'.locals.toList = s.locals.toList ++ [v])
    (hnext : s'.next = s.next + r.type.width) : Answered s r (.ok v, s')

/-- The locals lie side by side in the order in which they were declared, have names of their own and are found under
    them. -/
structure Allocated (s : Scope) : Prop where
  distinct : (s.locals.toList.map (·.name)).Nodup
  found : ∀ x v, s.get? x = some v ↔ v ∈ s.locals.toList ∧ v.name = x
  tiles : Tiles 0 s.locals.toList s.next
  next_le : s.next ≤ maxSlot

theorem allocated_empty (method : MethodSig) : Allocated { method } :=
  ⟨.nil, fun x v => by simp [get?], .nil 0, Nat.zero_le _⟩

namespace Allocated

theorem get?_eq_none_iff (h : s.Allocated) {x : String} : s.get? x = none ↔ ∀ v ∈ s.locals.toList, v.name ≠ x := by
  rw [Option.eq_none_iff_forall_ne_some]
  simp only [ne_eq, h.found, not_and]

theorem push (h : s.Allocated) {name : String} {t : Ty} (hfree : s.get? name = none)
    (hroom : s.next + t.width ≤ maxSlot) : (s.push (s.candidate name t)).Allocated := by
  have hnew := h.get?_eq_none_iff.mp hfree
  refine ⟨?_, fun x v => ?_, ?_, hroom⟩
  · rw [toList_push, List.map_append, List.nodup_append]
    refine ⟨h.distinct, List.pairwise_singleton _ _, fun x hx y hy => ?_⟩
    obtain ⟨v, hv, rfl⟩ := List.mem_map.mp hx
    rw [List.mem_singleton.mp hy]
    exact hnew v hv
  · rw [toList_push, List.mem_append, List.mem_singleton, get?_push]
    split
    · rename_i hx
      constructor
      · rintro ⟨⟩
        exact ⟨.inr rfl, hx.symm⟩
      · rintro ⟨hv | rfl, hname⟩
        · exact absurd (hname.trans hx) (hnew v hv)
        · rfl
    · rename_i hx
      rw [h.found]
      refine and_congr_left fun hname => ⟨.inl, fun hv => hv.resolve_right ?_⟩
      rintro rfl
      exact hx hname.symm
  · rw [toList_push]
    exact h.tiles.snoc (slot_candidate_of_le h.next_le name t)

theorem answered (h : s.Allocated) (r : Request) : s.Answered r (s.answer r) := by
  rw [Scope.answer, fault?]
  cases hget : s.get? r.name with
  | some v => exact .taken ⟨v, (h.found _ v).mp hget⟩
  | none =>
    have hnew := h.get?_eq_none_iff.mp hget
    by_cases hfull : maxSlot < s.next + r.type.width
    · simp only [Option.isSome_none, Bool.false_eq_true, if_false, if_pos hfull]
      exact .full hnew hfull
    · simp only [Option.isSome_none, Bool.false_eq_true, if_false, if_neg hfull]
      exact .declared hnew (Nat.not_lt.mp hfull) rfl rfl (slot_candidate_of_le h.next_le _ _) (toList_push _ _) rfl

/-- One request keeps the order of the locals. -/
theorem answer (h : s.Allocated) (r : Request) : (s.answer r).2.Allocated := by
  rw [Scope.answer]
  cases hfault : s.fault? r.name r.type r.span with
  | some e => exact h
  | none =>
    have hadd : s.add r.name r.type r.span = .ok (s.candidate r.name r.type, s.push (s.candidate r.name r.type)) := by
      rw [add, hfault]
    obtain ⟨hfree, hroom, -, -⟩ := add_eq_ok hadd
    exact h.push hfree hroom

theorem after (h : s.Allocated) (rs : List Request) : (s.after rs).Allocated := by
  induction rs generalizing s with
  | nil => exact h
  | cons r rs ih => exact ih (h.answer r)

end Allocated

/-! ### Methods -/

/-- The locals that a scope starts with are requests like any other, none of them refused. -/
theorem addAll_eq_after {span : Span} {params : List ParamSig} (h : s.addAll span params = .ok s') :
    s' = s.after (params.map fun p => ⟨p.name, p.type, span⟩) := by
  induction params generalizing s with
  | nil =>
    cases h
    rfl
  | cons p rest ih =>
    obtain ⟨s₁, hadd, h⟩ := addAll_cons h
    rw [List.map_cons, after, answer_of_add hadd, ← ih h]

theorem allocated_ofMethod {owner : ClassSig} {method : MethodSig} {span : Span}
    (h : ofMethod owner method span = .ok s) : s.Allocated := by
  rw [addAll_eq_after h]
  exact (allocated_empty method).after _

theorem locals_answer (s : Scope) (r : Request) : s.locals.toList <+: (s.answer r).2.locals.toList := by
  rw [answer]
  cases s.fault? r.name r.type r.span with
  | some e => exact List.prefix_rfl
  | none =>
    rw [toList_push]
    exact List.prefix_append _ _

theorem locals_after (s : Scope) (rs : List Request) : s.locals.toList <+: (s.after rs).locals.toList := by
  induction rs generalizing s with
  | nil => exact List.prefix_rfl
  | cons r rs ih => exact (s.locals_answer r).trans (ih _)

theorem receiver_ofMethod {owner : ClassSig} {method : MethodSig} {span : Span}
    (h : ofMethod owner method span = .ok s) (hm : method.isStatic = false) :
    [⟨Name.this, owner.type, 0⟩] <+: s.locals.toList := by
  unfold ofMethod at h
  rw [hm] at h
  obtain ⟨s₁, hadd, h⟩ := addAll_cons h
  obtain ⟨-, -, -, rfl⟩ := add_eq_ok hadd
  have hfirst : (Scope.push { method } (candidate { method } Name.this owner.type)).locals.toList =
      [⟨Name.this, owner.type, 0⟩] := rfl
  rw [addAll_eq_after h, ← hfirst]
  exact locals_after _ _

/-- From the start of a method on, whatever is asked for: the locals have names of their own and are found under them;
    they lie side by side from slot 0, where the receiver is, up to the next slot, which stays within 16 bits; and a
    request is refused exactly if its name is taken or the slots would run out, and then changes nothing. -/
theorem slots_allocated_in_order {owner : ClassSig} {method : MethodSig} {span : Span}
    (h : ofMethod owner method span = .ok s) (rs : List Request) :
    (s.after rs).Allocated ∧
      (s.after rs).locals.toList.Pairwise (fun v w => ∀ slot, v.Takes slot → ¬w.Takes slot) ∧
      (method.isStatic = false → (s.after rs).locals.toList.head? = some ⟨Name.this, owner.type, 0⟩) ∧
      ∀ r, (s.after rs).Answered r ((s.after rs).answer r) := by
  have hall := (allocated_ofMethod h).after rs
  refine ⟨hall, hall.tiles.apart, fun hm => ?_, hall.answered⟩
  obtain ⟨rest, hrest⟩ := (receiver_ofMethod h hm).trans (s.locals_after rs)
  rw [← hrest]
  rfl

def gaugeMethod : MethodSig := ⟨"run", false, false, false, .void, [⟨"wide", .long⟩, ⟨"narrow", .int⟩]⟩

/-- The second request is refused. -/
def gaugeRequests : List Request := [⟨"d", .double, {}⟩, ⟨"wide", .int, {}⟩, ⟨"s", .string, {}⟩]

theorem slots_allocated_in_order_gauge :
    ∃ s, ofMethod { name := "demo/Gauge" } gaugeMethod {} = .ok s ∧
      (s.after gaugeRequests).locals.toList.map (fun v => (v.name, v.slot)) =
        [("this", 0), ("wide", 1), ("narrow", 3), ("d", 4), ("s", 6)] ∧
      (s.after gaugeRequests).Allocated ∧
      (s.after gaugeRequests).locals.toList.Pairwise (fun v w => ∀ slot, v.Takes slot → ¬w.Takes slot) ∧
      (s.after gaugeRequests).locals.toList.head? = some ⟨"this", .object "demo/Gauge", 0⟩ ∧
      ∀ r, (s.after gaugeRequests).Answered r ((s.after gaugeRequests).answer r) := by
  have hlist : (ofMethod { name := "demo/Gauge" } gaugeMethod {}).toOption.map
      (fun s => (s.after gaugeRequests).locals.toList.map fun v => (v.name, v.slot)) =
        some [("this", 0), ("wide", 1), ("narrow", 3), ("d", 4), ("s", 6)] := by decide +kernel
  obtain ⟨s, hs, hlocals⟩ := Option.map_eq_some_iff.mp hlist
  have hs := toOption_eq_some.mp hs
  obtain ⟨hall, hapart, hthis, hanswers⟩ := slots_allocated_in_order hs gaugeRequests
  exact ⟨s, hs, hlocals, hall, hapart, hthis rfl, hanswers⟩

end Scope

end Classwright
