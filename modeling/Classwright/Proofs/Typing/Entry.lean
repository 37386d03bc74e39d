import Classwright.Proofs.Lowering.Method
import Classwright.Proofs.Typing.Classes
import Classwright.Proofs.Typing.Shape

/-! # The frame that a method starts with

The receiver and the parameters are declared in the order in which the frame has them. So each of them finds its value,
and no other local does. -/

namespace Classwright

theorem Ty.slots_of_value {t : Ty} (h : t.isVoid = false) :
    ∃ v rest, t.vtype? = some v ∧ t.slots = v :: rest ∧ t.slots.length = t.width := by
  obtain ⟨v, -, hv, -, -, hwidth, -⟩ := exists_vtype? h
  rw [slots, hv, ← hwidth]
  rcases v.width_eq_one_or_two with h | h
  · exact ⟨v, [], rfl, by simp [h], by simp [h]⟩
  · exact ⟨v, [.top], rfl, by simp [h], by simp [h]⟩

namespace Scope
variable {s s' S : Scope} {b : Bool} {locals : List VType}

/-- The locals of the scope have values, which fill the slots up to the next. -/
structure Fills (b : Bool) (s : Scope) (locals : List VType) : Prop where
  laid : s.Laid
  values : s.Values
  length : locals.length = s.next
  held : ∀ x v, s.get? x = some v → (v.entry b).Holds (locals.getD v.slot.toNat .top)

namespace Fills

theorem empty (b : Bool) (method : MethodSig) : Fills b { method } [] :=
  ⟨laid_empty method, fun x v h => by simp [get?] at h, rfl, fun x v h => by simp [get?] at h⟩

theorem add (h : Fills b s locals) {name : String} {t : Ty} {span : Span} {v : Local} (ht : t.isVoid = false)
    (ha : s.add name t span = .ok (v, s')) {u : VType} {rest : List VType} (hw : (u :: rest).length = t.width)
    (hu : (v.entry b).Holds u) : Fills b s' (locals ++ u :: rest) := by
  have hgrows := Grows.refl.add ht ha
  obtain ⟨-, -, rfl, rfl⟩ := add_eq_ok ha
  refine ⟨h.laid.add ha, h.values.grows hgrows, ?_, fun x w hx => ?_⟩
  · rw [List.length_append, hw, h.length]
    rfl
  · rcases get?_push_candidate hx with ⟨-, rfl⟩ | ⟨-, hx⟩
    · rw [h.laid.slot_candidate, ← h.length]
      simpa using hu
    · have hlt : w.slot.toNat < locals.length := by
        have hbelow := h.laid.below x w hx
        have hpos := Ty.width_pos (h.values x w hx)
        rw [h.length]
        omega
      have hheld := h.held x w hx
      rw [List.getD_eq_getElem?_getD] at hheld ⊢
      rwa [List.getElem?_append_left hlt]

theorem addAll (h : Fills b s locals) {span : Span} {params : List ParamSig}
    (hp : ∀ p ∈ params, p.type.isVoid = false) (hb : b = false → 0 < s.next)
    (ha : s.addAll span params = .ok s') : Fills b s' (locals ++ (params.map (·.type)).flatMap Ty.slots) := by
  induction params generalizing s locals with
  | nil =>
    cases ha
    rwa [List.map_nil, List.flatMap_nil, List.append_nil]
  | cons p rest ih =>
    obtain ⟨hp, hrest⟩ := List.forall_mem_cons.mp hp
    obtain ⟨s₁, hadd, ha⟩ := addAll_cons ha
    obtain ⟨u, more, hu, hslots, hw⟩ := Ty.slots_of_value hp
    have hentry : (s.candidate p.name p.type).entry b = .of u := by
      rw [← Ty.entry_eq hu]
      cases b with
      | true => exact Local.entry_true _
      | false => exact Local.entry_of_ne (by rw [h.laid.slot_candidate]; have := hb rfl; omega) _
    have hfills := h.add hp hadd (hslots ▸ hw) (by rw [hentry]; exact Entry.holds_of u)
    have hnext := (Grows.refl.add hp hadd).next_le
    have hall := ih hfills hrest (fun hfalse => Nat.lt_of_lt_of_le (hb hfalse) hnext) ha
    rwa [← hslots, List.append_assoc] at hall

/-- Locals that are declared later have no values yet. -/
theorem fits (h : Fills b s locals) (hg : s.Grows S) (hb : b = false → ∃ x v, s.get? x = some v ∧ v.slot = 0) :
    Shape.Fits S ⟨b, []⟩ { locals } := by
  refine ⟨.nil, fun x v hv => ?_, ?_⟩
  · rcases hg.get?_inv h.laid hv with hv | ⟨-, hle⟩
    · exact .inr (h.held x v hv)
    · refine .inl ?_
      rw [Frame.getLocal, List.getD_eq_getElem?_getD, List.getElem?_eq_none (h.length ▸ hle)]
      rfl
  · rintro rfl
    obtain ⟨x, v, hv, hslot⟩ := hb rfl
    have hheld := h.held x v hv
    have hzero : v.slot.toNat = 0 := by rw [hslot]; rfl
    rw [Local.entry_receiver hzero, hzero] at hheld
    exact hheld

end Fills

end Scope

section Method
variable {c : Context} {method : MethodSig} {site : Span} {s : Scope}

/-- What the scope of a method starts with. -/
structure Scope.Opens (c : Context) (method : MethodSig) (s : Scope) : Prop where
  method_eq : s.method = method
  receiver : method.isStatic = false → ∃ x v, s.get? x = some v ∧ v.slot = 0 ∧ v.type.isReference = true
  fills : ∃ locals, Scope.Fills (!method.isConstructor) s locals ∧ (c.head method).entryFrame = .ok { locals }

theorem Scope.opens (hconstructor : method.isConstructor = true → method.isStatic = false)
    (hparams : ∀ t ∈ method.paramTypes, t.isVoid = false ∧ t.WellNamed)
    (h : Scope.ofMethod c.own method site = .ok s) : s.Opens c method := by
  have hvalues : ∀ p ∈ method.params, p.type.isVoid = false := fun p hp =>
    (hparams p.type (List.mem_map_of_mem hp)).1
  have hentry : (c.head method).entryFrame = .ok ⟨(if method.isStatic then [] else if method.isConstructor then
      [.uninitializedThis] else [.object c.own.name]) ++ method.paramTypes.flatMap Ty.slots, []⟩ :=
    MethodHead.entryFrame_eq (r := method.returns) rfl (fun t ht => (hparams t ht).2) fun t ht => (hparams t ht).1
  unfold Scope.ofMethod at h
  cases hstatic : method.isStatic with
  | true =>
    rw [hstatic] at h
    have hctor : method.isConstructor = false := by
      cases hc : method.isConstructor with
      | false => rfl
      | true =>
        rw [hconstructor hc] at hstatic
        cases hstatic
    have hfills := (Fills.empty (!method.isConstructor) method).addAll hvalues (by simp [hctor]) h
    refine ⟨(Grows.of_addAll hvalues h).method, by simp [hstatic], _, hfills, ?_⟩
    rw [hentry, if_pos hstatic]
    rfl
  | false =>
    rw [hstatic] at h
    obtain ⟨s₁, hadd, h⟩ := addAll_cons h
    rw [hstatic] at hentry
    obtain ⟨u, hu, hframe⟩ : ∃ u,
        (Local.entry (!method.isConstructor) (candidate { method } Name.this c.own.type)).Holds u ∧
        (c.head method).entryFrame = .ok { locals := [u] ++ method.paramTypes.flatMap Ty.slots } := by
      cases hc : method.isConstructor with
      | true =>
        rw [hc] at hentry
        exact ⟨_, rfl, hentry⟩
      | false =>
        rw [hc] at hentry
        exact ⟨_, ⟨_, rfl⟩, hentry⟩
    have hwidth : [u].length = c.own.type.width := rfl
    have hfirst := (Fills.empty (!method.isConstructor) method).add rfl hadd hwidth hu
    have hfills := hfirst.addAll hvalues (fun _ => hfirst.length ▸ Nat.one_pos) h
    have hgrows := Grows.of_addAll hvalues h
    obtain ⟨-, -, -, rfl⟩ := add_eq_ok hadd
    have hthis := hgrows.get? ((get?_push _ _ _).trans (if_pos rfl))
    exact ⟨hgrows.method, fun _ => ⟨Name.this, _, hthis, rfl, rfl⟩, _, hfills, hframe⟩

end Method

end Classwright
