import Classwright.Proofs.Lowering.Grouping
import Classwright.Proofs.Lowering.Runs

/-! # Lowering by precedence

A sequence of terms has exactly one grouping in which each operator is the last of the loosest between the terms it
takes together. Lowering the sequence and lowering that tree from the leaves up are one computation: they emit the same
instructions with the same labels, give the same type, and stop at the same error. -/

namespace Classwright

open OpTree Pending

/-- The tree of a term and the operations after it: at its root is the rightmost operator of the lowest level, and what
    stands on either side of it is grouped in the same way. An operator stands at the term right of it. -/
inductive Grouped : Source.Term → List Source.Operation → OpTree Source.Term → Prop
  | single (term : Source.Term) : Grouped term [] (leaf term)
  | split {first : Source.Term} {before after : List Source.Operation} {y : Source.Operation}
    {l r : OpTree Source.Term} (loosest : ∀ x ∈ before, y.op.level ≤ x.op.level)
    (rightmost : ∀ x ∈ after, y.op.level < x.op.level) (left : Grouped first before l)
    (right : Grouped y.term after r) : Grouped first (before ++ y :: after) (node y.op y.term.span l r)

/-- Lowers a tree in post-order. -/
def lowerTree (c : Context) (s : Scope) : OpTree Source.Term → EmitM Ty
  | .leaf term => lowerTerm c s term
  | .node op site l r => do
    let a ← lowerTree c s l
    let b ← lowerTree c s r
    lowerOperator op a b site

theorem lowerTree_eq (c : Context) (s : Scope) (t : OpTree Source.Term) :
    lowerTree c s t = (t.map (lowerTerm c s)).evalM applyAt := by
  induction t with
  | leaf term => rfl
  | node op site l r ihl ihr => simp only [lowerTree, OpTree.map, evalM, ihl, ihr]

/-! ### The grouping -/

/-- Some operator of a sequence is the last of the loosest. -/
theorem exists_rightmost_loosest {ops : List Source.Operation} (h : ops ≠ []) :
    ∃ before y after, ops = before ++ y :: after ∧ (∀ x ∈ before, y.op.level ≤ x.op.level) ∧
      ∀ x ∈ after, y.op.level < x.op.level := by
  induction ops with
  | nil => exact absurd rfl h
  | cons z ops ih =>
    by_cases hops : ops = []
    · exact ⟨[], z, [], by rw [hops]; rfl, by simp, by simp⟩
    obtain ⟨before, y, after, rfl, hb, ha⟩ := ih hops
    -- the operator in front is at the root only if all others bind tighter
    by_cases hz : y.op.level ≤ z.op.level
    · refine ⟨z :: before, y, after, rfl, fun x hx => ?_, ha⟩
      rcases List.mem_cons.mp hx with rfl | hx
      · exact hz
      · exact hb x hx
    · have hy : z.op.level < y.op.level := Nat.not_le.mp hz
      refine ⟨[], z, before ++ y :: after, rfl, by simp, fun x hx => ?_⟩
      rcases List.mem_append.mp hx with hx | hx
      · exact Nat.lt_of_lt_of_le hy (hb x hx)
      · rcases List.mem_cons.mp hx with rfl | hx
        · exact hy
        · exact Nat.lt_trans hy (ha x hx)

namespace Grouped
variable {first : Source.Term} {ops : List Source.Operation} {t : OpTree Source.Term}

theorem total (first : Source.Term) (ops : List Source.Operation) : ∃ t, Grouped first ops t := by
  induction hn : ops.length using Nat.strongRecOn generalizing first ops with
  | _ n ih =>
    by_cases hops : ops = []
    · exact ⟨_, hops ▸ single first⟩
    obtain ⟨before, y, after, rfl, hb, ha⟩ := exists_rightmost_loosest hops
    have hlen : before.length + after.length + 1 = n := by simpa [Nat.add_assoc] using hn
    obtain ⟨l, hl⟩ := ih before.length (by omega) first before rfl
    obtain ⟨r, hr⟩ := ih after.length (by omega) y.term after rfl
    exact ⟨_, split hb ha hl hr⟩

/-- The tree that lowering follows is the only one. -/
theorem eq_group (h : Grouped first ops t) : t = group first (ops.map fun y => (y.op, y.term.span, y.term)) := by
  induction h with
  | single term => rfl
  | split hb ha _ _ ihl ihr =>
    rw [List.map_append, List.map_cons, group_split, ihl, ihr]
    · simpa using hb
    · simpa using ha

theorem iff_tree (x : Source.MathExpr) : Grouped x.first x.rest t ↔ t = x.tree := by
  refine ⟨eq_group, ?_⟩
  rintro rfl
  obtain ⟨t, h⟩ := total x.first x.rest
  obtain rfl : t = x.tree := h.eq_group
  exact h

end Grouped

/-! ### The first error -/

theorem lowerOperator_fails {op : Source.BinaryOp} {left right : Ty} {site : Span} {e : Emitter} {err : CompileError}
    (h : Fails (lowerOperator op left right site) e err) :
    OperatorCode.of? op left right = none ∧ err = .typeMismatch (.operands op left right) site := by
  unfold lowerOperator at h
  split at h
  case h_1 hop => exact ⟨hop, (Fails.throw_iff.mp h).symm⟩
  case h_2 =>
    rcases Fails.bind_iff.mp h with h | ⟨_, _, -, h⟩
    · exact absurd h Fails.modify_iff
    · exact absurd h Fails.pure_iff
  case h_3 =>
    rcases Fails.bind_iff.mp h with h | ⟨_, _, -, h⟩
    · exact absurd h Fails.modify_iff
    · rcases Fails.bind_iff.mp h with h | ⟨_, _, -, h⟩
      · exact absurd h Fails.modify_iff
      · exact absurd h Fails.pure_iff

/-- Where lowering a tree fails, a term fails or an operator does not apply, and that is reported at the term right of
    the operator. -/
theorem Grouped.lowerTree_fails {first : Source.Term} {ops : List Source.Operation} {t : OpTree Source.Term}
    {c : Context} {s : Scope} {err : CompileError} (h : Grouped first ops t) :
    ∀ {e : Emitter}, Fails (lowerTree c s t) e err →
      (∃ term ∈ first :: ops.map (·.term), ∃ e', Fails (lowerTerm c s term) e' err) ∨
      ∃ y ∈ ops, ∃ left right, OperatorCode.of? y.op left right = none ∧
        err = .typeMismatch (.operands y.op left right) y.term.span := by
  induction h with
  | single term => exact fun {e} hf => .inl ⟨term, List.mem_cons_self, e, hf⟩
  | @split first before after y l r _ _ _ _ ihl ihr =>
    intro e hf
    simp only [lowerTree, Fails.bind_iff] at hf
    have hterms : first :: (before ++ y :: after).map (·.term) =
        (first :: before.map (·.term)) ++ (y.term :: after.map (·.term)) := by
      rw [List.map_append, List.map_cons, List.cons_append]
    rcases hf with hf | ⟨a, e₁, -, hf | ⟨b, e₂, -, hf⟩⟩
    · rcases ihl hf with ⟨term, hterm, he⟩ | ⟨z, hz, he⟩
      · exact .inl ⟨term, hterms ▸ List.mem_append_left _ hterm, he⟩
      · exact .inr ⟨z, List.mem_append_left _ hz, he⟩
    · rcases ihr hf with ⟨term, hterm, he⟩ | ⟨z, hz, he⟩
      · exact .inl ⟨term, hterms ▸ List.mem_append_right _ hterm, he⟩
      · exact .inr ⟨z, List.mem_append_right _ (List.mem_cons_of_mem y hz), he⟩
    · exact .inr ⟨y, by simp, a, b, lowerOperator_fails hf⟩

/-- A sequence of terms has one grouping. To lower the sequence is to lower that tree in post-order, and where this
    fails the error is that of a term, or it says that an operator does not apply and stands at the term right of it. -/
theorem lowerMath_post_order (x : Source.MathExpr) :
    ∃ t, (∀ t', Grouped x.first x.rest t' ↔ t' = t) ∧ ∀ (c : Context) (s : Scope),
      lowerMath c s x = lowerTree c s t ∧ ∀ (e : Emitter) (err : CompileError), Fails (lowerMath c s x) e err →
        (∃ term ∈ x.first :: x.rest.map (·.term), ∃ e', Fails (lowerTerm c s term) e' err) ∨
        ∃ y ∈ x.rest, ∃ left right, OperatorCode.of? y.op left right = none ∧
          err = .typeMismatch (.operands y.op left right) y.term.span := by
  have hsame (c : Context) (s : Scope) : lowerMath c s x = lowerTree c s x.tree := by
    rw [lowerMath_eq, lowerTree_eq]
  refine ⟨x.tree, fun t' => Grouped.iff_tree x, fun c s => ⟨hsame c s, fun e err hf => ?_⟩⟩
  exact ((Grouped.iff_tree x).mpr rfl).lowerTree_fails (hsame c s ▸ hf)

end Classwright
