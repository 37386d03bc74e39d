import Classwright.Proofs.ClassFile.Layout
import Classwright.Proofs.Typing.Soundness

/-! # Objects are initialized before they are used

Code that has been lowered uses no object before its constructor has run, with one exception. What a constructor passes
to the one that its body begins with is computed while its own receiver is uninitialized, and the verifier lets it read
fields of the receiver, call methods of it and pass it on. -/

namespace Classwright

open Source (Stmt)

/-- What the instruction uses is the receiver if it is uninitialized, in a body that begins with a constructor call. -/
theorem Subject.Uses.uninitialized {B : Subject} {instr : Instr} {s : Shape} {f : Frame} (h : B.Uses instr s)
    (hf : B.Fits s f) {v : VType} (hv : v ∈ f.stack.take instr.uses) (hu : v.isUninitialized = true) :
    v = .uninitializedThis ∧ f.getLocal 0 = .uninitializedThis ∧ B.explicit = true := by
  obtain ⟨e, he, hold⟩ := exists_of_forall₂ (List.forall₂_take instr.uses hf.stack) hv
  obtain ⟨rfl, hearly, hexplicit⟩ := h e he (hold.isUninitialized_eq ▸ hu)
  exact ⟨hold, hf.receiver hearly, hexplicit⟩

/-- In a method that has been lowered among well-formed classes and then assembled, an instruction uses an object that
    is not initialized in one case only: the object is the receiver of a constructor, the body of the constructor begins
    with the call of another one, and that call has not been made. -/
theorem uninitialized_use_in_constructor_call {c : Context} {method : MethodSig} {body : List Stmt} {site : Span}
    {out : MethodBody} {stackMaps : Bool} {b b' : PoolBuilder} {a : Assembled} (hc : c.classes.WellFormed)
    (hm : method.WellFormed) (hlower : (lowerMethod c method body site).result = .ok out)
    (hassemble : (out.code.assemble (c.head method) stackMaps).on b = (.ok a, b')) :
    ∃ p f d, out.code.placement = .ok p ∧ (c.head method).entryFrame = .ok f ∧
      Dataflow.analyze (c.head method) out.code.instrs p f = .ok d ∧
      ∀ i instr g v, out.code.instrs[i]? = some instr → d.frameAt i = some g → v ∈ g.stack.take instr.uses →
        v.isUninitialized = true → v = .uninitializedThis ∧ g.getLocal 0 = .uninitializedThis ∧
          method.isConstructor = true ∧ beginsWithConstructor body = true := by
  obtain ⟨p, f, d, -, -, -, -, hp, hentry, hd, -⟩ := Code.assemble_eq_ok hassemble
  refine ⟨p, f, d, hp, hentry, hd, fun i instr g v hi hg hv hu => ?_⟩
  obtain ⟨s₀, s, e₀, e, h⟩ := exists_lowered hlower
  obtain ⟨f', shapes, hentry', hfirst, hassigned⟩ := h.exists_assigned hc hm hp
  cases hentry.symm.trans hentry'
  have hall : Meets _ _ (Dataflow.analyze (c.head method) out.code.instrs p f) :=
    Dataflow.analyze_meets hassigned.carried hfirst
  rw [hd] at hall
  obtain ⟨hthis, hslot, hexplicit⟩ := (hassigned.uses hi).uninitialized (hall i g hg) hv hu
  obtain ⟨hctor, hbegins⟩ := Bool.and_eq_true_iff.mp (show (_ && _) = true from hexplicit)
  exact ⟨hthis, hslot, hctor, hbegins⟩

/-! ### A field that is read too early -/

/-- The body of a constructor that passes a field of its receiver to the constructor which it begins with. -/
def earlyBody : List Stmt :=
  let chain (links : List Source.Link) : Source.Expr := (Source.MathExpr.mk ⟨[], .chain links {}, {}⟩ [] {}).toAnd.toExpr
  [.expr (chain [.call ⟨⟨Name.constructorKeyword, {}⟩, [chain [.name ⟨"count", {}⟩]], {}⟩])]

def earlyHead : MethodHead := counterContext.head (.constructor [])

def earlyCode : Code :=
  ⟨#[.this, .this, .field .getfield ⟨"demo/Counter", "count", "I", false⟩,
    .invoke .invokespecial ⟨"demo/Counter", Name.init, "(I)V", false⟩, .op .returnVoid], 0⟩

theorem exists_code {c : Context} {method : MethodSig} {body : List Stmt} {site : Span} {code : Code}
    (h : ((lowerMethod c method body site).result.toOption.map fun out => (out.code.instrs, out.code.labels)) =
      some (code.instrs, code.labels)) :
    ∃ out, (lowerMethod c method body site).result = .ok out ∧ out.code = code := by
  obtain ⟨out, hout, heq⟩ := Option.map_eq_some_iff.mp h
  rw [Prod.mk.injEq, ← Code.mk.injEq] at heq
  exact ⟨out, toOption_eq_some.mp hout, heq⟩

theorem earlyBody_accepted : ∃ out a b, (lowerMethod counterContext (.constructor []) earlyBody {}).result = .ok out ∧
    out.code = earlyCode ∧ (earlyCode.assemble earlyHead true).on (.after []) = (.ok a, b) := by
  obtain ⟨out, hout, hcode⟩ : ∃ out, (lowerMethod counterContext (.constructor []) earlyBody {}).result = .ok out ∧
      out.code = earlyCode := exists_code (by decide +kernel)
  obtain ⟨a, b, hassemble⟩ : ∃ a b, (earlyCode.assemble earlyHead true).on (.after []) = (.ok a, b) :=
    exists_ok_of_toBool (by decide +kernel)
  exact ⟨out, a, b, hout, hcode, hassemble⟩

theorem uninitialized_use_in_constructor_call_early : ∃ out a b p f d, counterContext.classes.WellFormed ∧
    (MethodSig.constructor []).WellFormed ∧
    (lowerMethod counterContext (.constructor []) earlyBody {}).result = .ok out ∧
    (out.code.assemble earlyHead true).on (.after []) = (.ok a, b) ∧
    Dataflow.analyze earlyHead out.code.instrs p f = .ok d ∧
    ∀ i instr g v, out.code.instrs[i]? = some instr → d.frameAt i = some g → v ∈ g.stack.take instr.uses →
      v.isUninitialized = true → v = .uninitializedThis ∧ g.getLocal 0 = .uninitializedThis ∧
        (MethodSig.constructor []).isConstructor = true ∧ beginsWithConstructor earlyBody = true := by
  obtain ⟨out, a, b, hout, hcode, hassemble⟩ := earlyBody_accepted
  rw [← hcode] at hassemble
  have hm : (MethodSig.constructor []).WellFormed := by decide
  obtain ⟨p, f, d, -, -, hd, huses⟩ := uninitialized_use_in_constructor_call wellFormed_counter hm hout hassemble
  exact ⟨out, a, b, p, f, d, wellFormed_counter, hm, hout, hassemble, hd, huses⟩

/-- The code is accepted, although the instruction that reads the field finds the uninitialized receiver. -/
theorem earlyBody_uses_receiver : ∃ out a b p d g,
    (lowerMethod counterContext (.constructor []) earlyBody {}).result = .ok out ∧
    (out.code.assemble earlyHead true).on (.after []) = (.ok a, b) ∧ out.code.placement = .ok p ∧
    earlyHead.entryFrame = .ok { locals := [.uninitializedThis] } ∧
    Dataflow.analyze earlyHead out.code.instrs p { locals := [.uninitializedThis] } = .ok d ∧
    out.code.instrs[2]? = some (.field .getfield ⟨"demo/Counter", "count", "I", false⟩) ∧ d.frameAt 2 = some g ∧
    .uninitializedThis ∈ g.stack.take (Instr.field .getfield ⟨"demo/Counter", "count", "I", false⟩).uses := by
  obtain ⟨out, a, b, hout, hcode, hassemble⟩ := earlyBody_accepted
  have hframe : (earlyCode.placement.toOption.bind fun p => (Dataflow.analyze earlyHead earlyCode.instrs p
      { locals := [.uninitializedThis] }).toOption.bind (·.frameAt 2)) =
        some ⟨[.uninitializedThis], [.uninitializedThis, .uninitializedThis]⟩ := by
    decide +kernel
  obtain ⟨p, hp, hframe⟩ := Option.bind_eq_some_iff.mp hframe
  obtain ⟨d, hd, hg⟩ := Option.bind_eq_some_iff.mp hframe
  rw [toOption_eq_some] at hp hd
  rw [← hcode] at hassemble hp hd
  exact ⟨out, a, b, p, d, _, hout, hassemble, hp, by decide +kernel, hd, by rw [hcode]; rfl, hg, List.mem_cons_self⟩

end Classwright
