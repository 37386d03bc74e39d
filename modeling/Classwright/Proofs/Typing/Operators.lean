import Classwright.Proofs.Typing.Steps

/-! # Typing operators

Operators and conversions find operands on the stack of the types that they were chosen for, and leave a value of the
type that they say. -/

namespace Classwright

open Source (BinaryOp UnaryOp)

/-! ### Choosing operators -/

/-- A value of the type is no object. -/
structure Ty.IsNumber (t : Ty) : Prop where
  isVoid : t.isVoid = false
  isReference : t.isReference = false

theorem Ty.IsNumber.of_isNumeric {p : Prim} (h : p.isNumeric = true) : (Ty.prim p).IsNumber := by
  cases p <;> cases h <;> exact ⟨rfl, rfl⟩

namespace OperatorCode
variable {op : BinaryOp} {left right : Ty}

theorem isNumber_of {code : OperatorCode} (h : of? op left right = some code) :
    left.IsNumber ∧ right.IsNumber := by
  obtain ⟨p, rfl, hnum, ⟨rfl, -⟩ | ⟨rfl, -⟩⟩ := of?_eq_some h
  · exact ⟨.of_isNumeric hnum, rfl, rfl⟩
  · exact ⟨.of_isNumeric hnum, .of_isNumeric hnum⟩

/-- The operands of an instruction have the types that it was chosen for. -/
theorem effect_of_direct {o : Opcode} (h : of? op left right = some (.direct o)) :
    ∃ u v, left.vtype? = some u ∧ right.vtype? = some v ∧ o.effect? = some ([v, u], [u]) := by
  obtain ⟨p, rfl, -, ⟨rfl, o', ho, heq⟩ | ⟨rfl, ⟨o', ho, heq⟩ | ⟨onInts, onSign, -, heq⟩⟩⟩ := of?_eq_some h
  · cases heq
    cases op <;> cases p <;> cases ho <;> exact ⟨_, _, rfl, rfl, rfl⟩
  · cases heq
    cases op <;> cases p <;> cases ho <;> exact ⟨_, _, rfl, rfl, rfl⟩
  · split at heq <;> cases heq

/-- A comparison jumps on two integers, or on the one that an instruction has made of its operands. -/
theorem effect_of_comparison {compare : Option Opcode} {jump : Opcode}
    (h : of? op left right = some (.comparison compare jump)) :
    (∀ f : Frame, f.applyJump jump = f.popAll jump.jumpIntegers) ∧ right = left ∧
      (compare = none ∧ left = .int ∧ jump.jumpIntegers = [.integer, .integer] ∨
        ∃ o u, compare = some o ∧ left.vtype? = some u ∧ o.effect? = some ([u, u], [.integer]) ∧
          jump.jumpIntegers = [.integer]) := by
  obtain ⟨p, rfl, hnum, ⟨-, o', -, heq⟩ | ⟨rfl, ⟨o', -, heq⟩ | ⟨onInts, onSign, hjumps, heq⟩⟩⟩ := of?_eq_some h
  · cases heq
  · cases heq
  · split at heq
    · rename_i hint
      subst hint
      cases heq
      cases op <;> cases hjumps <;> exact ⟨fun _ => rfl, rfl, .inl ⟨rfl, rfl, rfl⟩⟩
    · rename_i hint
      cases heq
      refine ⟨by cases op <;> cases hjumps <;> exact fun _ => rfl, rfl, .inr ?_⟩
      have hsign : jump.jumpIntegers = [.integer] := by cases op <;> cases hjumps <;> rfl
      cases p with
      | long => exact ⟨_, _, rfl, rfl, rfl, hsign⟩
      | float => exact ⟨_, _, rfl, rfl, by split <;> rfl, hsign⟩
      | double => exact ⟨_, _, rfl, rfl, by split <;> rfl, hsign⟩
      | int => exact absurd rfl hint
      | _ => cases hnum

end OperatorCode

/-! ### Truth values -/

namespace Subject
variable {B : Subject} {e e' : Emitter} {b : Bool} {σ : List Entry}

theorem Emits.fresh {out : Ports} {s s' : Shape} (h : B.Emits out e.fresh.2 e' s s') : B.Emits out e e' s s' :=
  h.relabel_left rfl (Nat.le_succ _)

/-- Where jumps to `taken` have been made, one of two truth values is pushed. -/
theorem Emits.truths (hB : B.Marked) {e₁ : Emitter} {s : Shape} {taken : Label}
    (h : B.Emits (Ports.none.add taken ⟨b, σ⟩) e e₁ s ⟨b, σ⟩) (value value' : Bool) (done : Label) :
    B.Emits .none e (e₁.emitAll [.truth value, .jump .goto done, .mark taken, .truth value', .mark done]) s
      ⟨b, .exact .integer :: σ⟩ := by
  have hfirst : B.Emits ((Ports.none.add done ⟨b, .exact .integer :: σ⟩).add taken ⟨b, σ⟩) e
      ((e₁.emit (.truth value)).emit (.jump .goto done)) s ⟨b, σ⟩ := by
    refine ((h.mono fun l t => ?_).trans (.emit (Steps.truth value) nofun)).trans
      (.jump (Steps.branch fun _ => rfl) (.inr (Ports.self_add _ _ _)) (.inl rfl))
    rintro (hl | hl)
    · exact .inl hl
    · cases hl
  exact .place hB ((Emits.place hB hfirst).trans (.emit (Steps.truth value') nofun))

theorem Emits.branchValue (hB : B.Marked) {jump : Opcode}
    (hj : ∀ f : Frame, f.applyJump jump = f.popAll jump.jumpIntegers) (taken : Bool) :
    B.Emits .none e (e.branchValue jump taken) ⟨b, jump.jumpIntegers.map .of ++ σ⟩ ⟨b, .exact .integer :: σ⟩ := by
  refine .fresh (.fresh ?_)
  have hjump : B.Emits (Ports.none.add e.fresh.1 ⟨b, σ⟩) e.fresh.2.fresh.2
      (e.fresh.2.fresh.2.emit (.jump jump e.fresh.1)) ⟨b, jump.jumpIntegers.map .of ++ σ⟩ ⟨b, σ⟩ :=
    .jump (Steps.branch hj) (Ports.self_add _ _ _) (.inr rfl)
  exact hjump.truths hB (!taken) taken e.fresh.2.fresh.1

/-! ### Operators -/

theorem Emits.operator (hB : B.Marked) {op : BinaryOp} {left right t : Ty} {site : Span}
    (h : Runs (lowerOperator op left right site) e t e') : left.IsNumber ∧ right.IsNumber ∧ t.isVoid = false ∧
      B.Emits .none e e' ⟨b, right.entry :: left.entry :: σ⟩ ⟨b, t.entry :: σ⟩ := by
  unfold lowerOperator at h
  split at h
  · cases Runs.throw_iff h
  · rename_i o hof
    obtain ⟨rfl, rfl⟩ : e.emit (.op o) = e' ∧ left = t := by simpa using h
    obtain ⟨hleft, hright⟩ := OperatorCode.isNumber_of hof
    refine ⟨hleft, hright, hleft.isVoid, ?_⟩
    obtain ⟨u, v, hu, hv, heffect⟩ := OperatorCode.effect_of_direct hof
    rw [Ty.entry_eq hu, Ty.entry_eq hv]
    exact .emit (Steps.effect heffect) nofun
  · rename_i compare jump hof
    obtain ⟨rfl, rfl⟩ : (e.emitAll (compare.toList.map .op)).branchValue jump true = e' ∧ .int = t := by simpa using h
    obtain ⟨hleft, hright⟩ := OperatorCode.isNumber_of hof
    refine ⟨hleft, hright, rfl, ?_⟩
    obtain ⟨hj, rfl, ⟨rfl, rfl, hints⟩ | ⟨o, u, rfl, hu, heffect, hints⟩⟩ := OperatorCode.effect_of_comparison hof
    · have hbranch := Emits.branchValue (e := e) (b := b) (σ := σ) hB hj true
      rw [hints] at hbranch
      exact hbranch
    · have hbranch := Emits.branchValue (e := e.emit (.op o)) (b := b) (σ := σ) hB hj true
      rw [hints] at hbranch
      rw [Ty.entry_eq hu]
      exact .trans (.emit (Steps.effect heffect) nofun) hbranch

theorem convertCode?_prim {p q : Prim} {is : List Instr} (h : (Ty.prim p).convertCode? (.prim q) = some is) :
    is = [] ∧ (Ty.prim p).entry = (Ty.prim q).entry ∨ ∃ o u v, is = [.op o] ∧ (Ty.prim p).vtype? = some u ∧
      (Ty.prim q).vtype? = some v ∧ o.effect? = some ([u], [v]) := by
  cases p <;> cases q <;> cases h <;>
    first
    | exact .inl ⟨rfl, rfl⟩
    | exact .inr ⟨_, _, _, rfl, rfl, rfl, rfl⟩

/-- A conversion is between numbers, or from a reference to a reference. -/
theorem convertCode?_eq_some {t t' : Ty} {is : List Instr} (h : t.convertCode? t' = some is) :
    (∃ p q, t = .prim p ∧ t' = .prim q) ∨
      t.isReference = true ∧ t'.isReference = true ∧ ∃ name, is = [.type .checkcast name] := by
  unfold Ty.convertCode? at h
  split at h
  · cases h
    exact .inr ⟨rfl, rfl, _, rfl⟩
  · cases h
    exact .inr ⟨rfl, rfl, _, rfl⟩
  · exact .inl ⟨_, _, rfl, rfl⟩
  · cases h

theorem Emits.convert {t t' : Ty} {is : List Instr} (h : t.convertCode? t' = some is) {v : Entry} (hv : t.Has b v)
    (hb : b = false → B.explicit = true) :
    B.Emits .none e (e.emitAll is) ⟨b, v :: σ⟩ ⟨b, t'.entry :: σ⟩ := by
  rcases convertCode?_eq_some h with ⟨p, q, rfl, rfl⟩ | ⟨href, href', name, rfl⟩
  · obtain rfl := hv.eq_entry_of_number rfl
    rcases convertCode?_prim h with ⟨rfl, heq⟩ | ⟨o, u, w, rfl, hu, hw, heffect⟩
    · rw [heq]
      exact .nil
    · rw [Ty.entry_eq hu, Ty.entry_eq hw]
      exact .emit (Steps.effect heffect) nofun
  · rw [Ty.entry_of_isReference href']
    exact .emit (Steps.checkcast name (hv.isReference href) (.of_has hv hb)) nofun

theorem isVoid_of_convertCode? {t t' : Ty} {is : List Instr} (h : t.convertCode? t' = some is) :
    t.isVoid = false ∧ t'.isVoid = false := by
  rcases convertCode?_eq_some h with ⟨p, q, rfl, rfl⟩ | ⟨href, href', -⟩
  · cases p <;> cases q <;> cases h <;> exact ⟨rfl, rfl⟩
  · exact ⟨Ty.isVoid_of_isReference href, Ty.isVoid_of_isReference href'⟩

theorem Emits.unary (hB : B.Marked) (hb : b = false → B.explicit = true) {c : Context} {t t' : Ty}
    {op : UnaryOp} {site : Span} (h : Runs (lowerUnary c t op site) e t' e') : t.isVoid = false ∧ t'.isVoid = false ∧
      ∀ v σ, t.Has b v → ∃ v', t'.Has b v' ∧ B.Emits .none e e' ⟨b, v :: σ⟩ ⟨b, v' :: σ⟩ := by
  cases op with
  | neg =>
    simp only [lowerUnary] at h
    split at h
    · rename_i o ho
      obtain ⟨rfl, rfl⟩ : e.emit (.op o) = e' ∧ t = t' := by simpa using h
      obtain ⟨p, hp, ho⟩ := Option.bind_eq_some_iff.mp ho
      obtain ⟨rfl, -⟩ := OperatorCode.numeric?_eq_some hp
      have heffect : (Ty.prim p).isVoid = false ∧ ∃ u, (Ty.prim p).vtype? = some u ∧ o.effect? = some ([u], [u]) := by
        cases p <;> cases ho <;> exact ⟨rfl, _, rfl, rfl⟩
      obtain ⟨hvoid, u, hu, heffect⟩ := heffect
      refine ⟨hvoid, hvoid, fun v σ hv => ⟨v, hv, ?_⟩⟩
      obtain rfl := hv.eq_entry_of_number rfl
      rw [Ty.entry_eq hu]
      exact .emit (Steps.effect heffect) nofun
    · cases Runs.throw_iff h
  | not =>
    obtain ⟨rfl, rfl, rfl⟩ : t = .int ∧ e.branchValue .ifeq true = e' ∧ .int = t' := by simpa [lowerUnary] using h
    refine ⟨rfl, rfl, fun v σ hv => ⟨_, .inl rfl, ?_⟩⟩
    obtain rfl := hv.eq_entry_of_number rfl
    exact .branchValue hB (fun _ => rfl) true
  | convert target =>
    obtain ⟨ty, e₁, hty, h⟩ := Runs.bind_iff.mp (show Runs (_ >>= _) e t' e' from h)
    obtain ⟨-, rfl⟩ := Runs.lift_iff.mp hty
    split at h
    · rename_i is his
      obtain ⟨rfl, rfl⟩ : e.emitAll is = e' ∧ ty = t' := by simpa using h
      obtain ⟨hvoid, hvoid'⟩ := isVoid_of_convertCode? his
      exact ⟨hvoid, hvoid', fun v σ hv => ⟨_, .inl rfl, .convert his hv hb⟩⟩
    · cases Runs.throw_iff h

end Subject

end Classwright
