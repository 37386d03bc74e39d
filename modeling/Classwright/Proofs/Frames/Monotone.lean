import Classwright.Proofs.Frames.Related

/-! # Instructions keep the order of frames

An instruction that fits a frame fits every frame below it, and what it makes of the lower frame lies below what it
makes of the higher one. The only exception is the return of a constructor, which asks for a type that lies below the
unusable one, so the methods here are no constructors. -/

namespace Classwright

namespace VType

theorem belowLocal_iff {a b : VType} : BelowLocal a b ↔ Below a b ∨ b = .top := by
  constructor
  · intro h
    cases h with
    | value h => exact .inl h
    | top => exact .inr rfl
  · rintro (h | rfl)
    · exact .value h
    · exact .top a

end VType

namespace Frame
variable {f g : Frame} {m : MethodHead}

theorem below_iff_related : f.Below g ↔ f.Related VType.Below g :=
  ⟨fun h => ⟨fun slot => VType.belowLocal_iff.mp (h.locals slot), h.stack⟩,
    fun h => ⟨fun slot => VType.belowLocal_iff.mpr (h.locals slot), h.stack⟩⟩

/-- A constructor call that fits a receiver has the same receiver in every frame below, and as many copies of it. -/
theorem alike_below (m : MethodHead) (code : Array Instr) : Alike m code code VType.Below where
  self t _ := .refl t
  kind _ _ hab := hab.hasKind_eq
  init hab hinit := by
    have hb := isUninitialized_of_initializedType hinit
    obtain rfl := (hab.eq_iff hb).mpr rfl
    exact ⟨hinit, fun hcd => hcd.eq_iff hb⟩

namespace Below

theorem popArgs (h : f.Below g) (ds : List (List Char)) : Follows Below (f.popArgs ds) (g.popArgs ds) := by
  intro g' hg'
  obtain ⟨f', hf', h'⟩ := (below_iff_related.mp h).popArgs (fun _ _ hab => hab.hasKind_eq) ds g' hg'
  exact ⟨f', hf', below_iff_related.mpr h'⟩

/-- An instruction that fits a frame fits those below it, and its results lie below each other. -/
theorem apply (h : f.Below g) (hm : m.isConstructor = false) (code : Array Instr) (index : Nat) (instr : Instr) :
    Follows Below (f.apply m code index instr) (g.apply m code index instr) := by
  intro g' hg'
  obtain ⟨f', hf', h'⟩ := (below_iff_related.mp h).apply (alike_below m code) (fun _ _ => .refl _) (fun _ => hm) g' hg'
  exact ⟨f', hf', below_iff_related.mpr h'⟩

end Below

end Frame

end Classwright
