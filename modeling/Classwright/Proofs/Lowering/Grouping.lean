import Classwright.Lowering.Expr
import Mathlib.Tactic.Common

/-! # How operators group

A sequence of operands with operators between them stands for a tree: operators of a higher level bind tighter, and
those of one level group from the left. Lowering a sequence keeps operators waiting on a stack; it is the same as
lowering the tree, operands from left to right and each operator after its two sides. -/

namespace Classwright

open Source (BinaryOp)

/-- Operands with the operators between them grouped. An operator stands at the operand right of it. -/
inductive OpTree (α : Type) where
  | leaf (a : α)
  | node (op : BinaryOp) (site : Span) (left right : OpTree α)

namespace OpTree
variable {α β : Type}

def map (f : α → β) : OpTree α → OpTree β
  | leaf a => leaf (f a)
  | node op site l r => node op site (l.map f) (r.map f)

/-- Adds an operator and an operand on the right. The operator takes all to its left that binds at least as tightly. -/
def attach (op : BinaryOp) (site : Span) (a : α) : OpTree α → OpTree α
  | leaf b => node op site (leaf b) (leaf a)
  | node op' site' l r =>
    if op'.level < op.level then node op' site' l (attach op site a r) else node op site (node op' site' l r) (leaf a)

def attachAll (t : OpTree α) : List (BinaryOp × Span × α) → OpTree α
  | [] => t
  | (op, site, a) :: rest => attachAll (t.attach op site a) rest

/-- The tree of an operand and those after it. -/
def group (first : α) (rest : List (BinaryOp × Span × α)) : OpTree α := attachAll (leaf first) rest

/-- All operands, from left to right. -/
def leaves : OpTree α → List α
  | leaf a => [a]
  | node _ _ l r => l.leaves ++ r.leaves

/-- Works out operands from left to right, and each operator after its two sides. -/
def evalM {m : Type → Type} [Monad m] (apply : BinaryOp → Span → β → β → m β) : OpTree (m β) → m β
  | leaf x => x
  | node op site l r => do
    let a ← l.evalM apply
    let b ← r.evalM apply
    apply op site a b

theorem leaves_map (f : α → β) (t : OpTree α) : (t.map f).leaves = t.leaves.map f := by
  induction t with
  | leaf a => rfl
  | node op site l r ihl ihr => simp [map, leaves, ihl, ihr]

/-! ### Growing a tree -/

theorem map_attach (f : α → β) (op : BinaryOp) (site : Span) (a : α) (t : OpTree α) :
    (t.attach op site a).map f = (t.map f).attach op site (f a) := by
  induction t with
  | leaf b => rfl
  | node op' site' l r _ ih =>
    simp only [attach, map]
    split
    · rw [map, ih]
    · rfl

theorem map_group (f : α → β) (first : α) (rest : List (BinaryOp × Span × α)) :
    (group first rest).map f = group (f first) (rest.map fun (op, site, a) => (op, site, f a)) := by
  have grow : ∀ t : OpTree α, (t.attachAll rest).map f =
      (t.map f).attachAll (rest.map fun (op, site, a) => (op, site, f a)) := by
    induction rest with
    | nil => exact fun _ => rfl
    | cons x rest ih =>
      intro t
      simp only [attachAll, List.map_cons, ih, map_attach]
  exact grow (leaf first)

theorem leaves_attach (op : BinaryOp) (site : Span) (a : α) (t : OpTree α) :
    (t.attach op site a).leaves = t.leaves ++ [a] := by
  induction t with
  | leaf b => rfl
  | node op' site' l r _ ih =>
    simp only [attach]
    split
    · simp [leaves, ih]
    · rfl

theorem leaves_group (first : α) (rest : List (BinaryOp × Span × α)) :
    (group first rest).leaves = first :: rest.map (·.2.2) := by
  have grow : ∀ t : OpTree α, (t.attachAll rest).leaves = t.leaves ++ rest.map (·.2.2) := by
    induction rest with
    | nil => exact fun t => (List.append_nil _).symm
    | cons x rest ih =>
      intro t
      simp [attachAll, ih, leaves_attach]
  exact grow (leaf first)

theorem attachAll_append (t : OpTree α) (xs ys : List (BinaryOp × Span × α)) :
    t.attachAll (xs ++ ys) = (t.attachAll xs).attachAll ys := by
  induction xs generalizing t with
  | nil => rfl
  | cons x xs ih => exact ih _

/-- What is outermost in the tree is an operand, or an operator that binds at least as tightly as `level`. -/
def BindsFrom (level : Nat) : OpTree α → Prop
  | leaf _ => True
  | node op _ _ _ => level ≤ op.level

theorem attach_of_bindsFrom {op : BinaryOp} {t : OpTree α} (h : t.BindsFrom op.level) (site : Span) (a : α) :
    t.attach op site a = node op site t (leaf a) := by
  cases t with
  | leaf b => rfl
  | node op' site' l r => rw [attach, if_neg (Nat.not_lt.mpr h)]

theorem BindsFrom.attach {level : Nat} {op : BinaryOp} {t : OpTree α} (h : t.BindsFrom level) (hop : level ≤ op.level)
    (site : Span) (a : α) : (t.attach op site a).BindsFrom level := by
  cases t with
  | leaf b => exact hop
  | node op' site' l r =>
    rw [OpTree.attach]
    split
    · exact h
    · exact hop

theorem BindsFrom.attachAll {level : Nat} {xs : List (BinaryOp × Span × α)} (hx : ∀ x ∈ xs, level ≤ x.1.level) :
    ∀ {t : OpTree α}, t.BindsFrom level → (t.attachAll xs).BindsFrom level := by
  induction xs with
  | nil => exact fun h => h
  | cons x xs ih =>
    intro t h
    exact ih (fun y hy => hx y (List.mem_cons_of_mem x hy)) (h.attach (hx x List.mem_cons_self) _ _)

theorem attachAll_node {op : BinaryOp} {site : Span} {xs : List (BinaryOp × Span × α)}
    (hx : ∀ x ∈ xs, op.level < x.1.level) (l r : OpTree α) :
    (node op site l r).attachAll xs = node op site l (r.attachAll xs) := by
  induction xs generalizing r with
  | nil => rfl
  | cons x xs ih =>
    rw [attachAll, attach, if_pos (hx x List.mem_cons_self)]
    exact ih (fun y hy => hx y (List.mem_cons_of_mem x hy)) _

/-- The last of the operators that bind loosest is at the root. -/
theorem group_split (first : α) (before : List (BinaryOp × Span × α)) (op : BinaryOp) (site : Span) (a : α)
    (after : List (BinaryOp × Span × α)) (hb : ∀ x ∈ before, op.level ≤ x.1.level)
    (ha : ∀ x ∈ after, op.level < x.1.level) :
    group first (before ++ (op, site, a) :: after) = node op site (group first before) (group a after) := by
  have hleft : (group first before).BindsFrom op.level := BindsFrom.attachAll hb trivial
  calc group first (before ++ (op, site, a) :: after)
      = ((group first before).attach op site a).attachAll after := by rw [group, attachAll_append]; rfl
    _ = (node op site (group first before) (leaf a)).attachAll after := by rw [attach_of_bindsFrom hleft]
    _ = node op site (group first before) (group a after) := attachAll_node ha _ _

/-! ### Working out what comes first -/

section Opening
variable {m : Type → Type} [Monad m] {apply : BinaryOp → Span → β → β → m β}

/-- To work out `t` is first to do `x`, and then to work out what `f` makes of its result. -/
inductive Opens (apply : BinaryOp → Span → β → β → m β) : m β → OpTree (m β) → (β → OpTree (m β)) → Prop
  | leaf (x : m β) : Opens apply x (leaf x) fun v => leaf (pure v)
  | left (op : BinaryOp) (site : Span) (l r : OpTree (m β)) :
    Opens apply (l.evalM apply) (node op site l r) fun v => node op site (leaf (pure v)) r
  | under {x : m β} {l : OpTree (m β)} {f : β → OpTree (m β)} (h : Opens apply x l f) (op : BinaryOp) (site : Span)
    (r : OpTree (m β)) : Opens apply x (node op site l r) fun v => node op site (f v) r
  | right {x : m β} {r : OpTree (m β)} {f : β → OpTree (m β)} (h : Opens apply x r f) (op : BinaryOp) (site : Span)
    (v : β) : Opens apply x (node op site (OpTree.leaf (pure v)) r) fun w => node op site (OpTree.leaf (pure v)) (f w)

theorem Opens.attach {x : m β} {t : OpTree (m β)} {f : β → OpTree (m β)} (h : Opens apply x t f) (op : BinaryOp)
    (site : Span) (y : m β) : Opens apply x (t.attach op site y) fun v => (f v).attach op site y := by
  induction h with
  | leaf x => exact (Opens.leaf x).under op site (OpTree.leaf y)
  | left op' site' l r =>
    simp only [OpTree.attach]
    split
    · exact .left op' site' l _
    · exact (Opens.left op' site' l r).under op site (OpTree.leaf y)
  | under h op' site' r =>
    simp only [OpTree.attach]
    split
    · exact h.under op' site' _
    · exact (h.under op' site' r).under op site (OpTree.leaf y)
  | right h op' site' v ih =>
    simp only [OpTree.attach]
    split
    · exact ih.right op' site' v
    · exact (h.right op' site' v).under op site (OpTree.leaf y)

theorem Opens.evalM_eq [LawfulMonad m] {x : m β} {t : OpTree (m β)} {f : β → OpTree (m β)} (h : Opens apply x t f) :
    t.evalM apply = x >>= fun v => (f v).evalM apply := by
  induction h with
  | leaf x => simp [evalM]
  | left op site l r => simp [evalM]
  | under h op site r ih => simp [evalM, ih]
  | right h op site v ih => simp [evalM, ih]

/-- What is attached later does not change what is to be done first. -/
theorem Opens.evalM_attachAll [LawfulMonad m] {x : m β} {t : OpTree (m β)} {f : β → OpTree (m β)} (h : Opens apply x t f)
    (rest : List (BinaryOp × Span × m β)) :
    (t.attachAll rest).evalM apply = x >>= fun v => ((f v).attachAll rest).evalM apply := by
  induction rest generalizing t f with
  | nil => exact h.evalM_eq
  | cons y rest ih => exact ih (h.attach y.1 y.2.1 y.2.2)

/-! ### Waiting operators -/

/-- The tree of operators that wait for their right sides, the latest first, each with the value on its left. -/
def waiting (stack : List (BinaryOp × Span × β)) (t : OpTree (m β)) : OpTree (m β) :=
  match stack with
  | [] => t
  | (op, site, v) :: rest => waiting rest (node op site (leaf (pure v)) t)

theorem waiting_append (xs ys : List (BinaryOp × Span × β)) (t : OpTree (m β)) :
    waiting (xs ++ ys) t = waiting ys (waiting xs t) := by
  induction xs generalizing t with
  | nil => rfl
  | cons x xs ih => exact ih _

theorem Opens.waiting {x : m β} {t : OpTree (m β)} {f : β → OpTree (m β)} (h : Opens apply x t f)
    (stack : List (BinaryOp × Span × β)) : Opens apply x (waiting stack t) fun v => waiting stack (f v) := by
  induction stack generalizing t f with
  | nil => exact h
  | cons y rest ih => exact ih (h.right y.1 y.2.1 y.2.2)

theorem bindsFrom_waiting {level : Nat} {stack : List (BinaryOp × Span × β)} (hs : ∀ x ∈ stack, level ≤ x.1.level) :
    ∀ {t : OpTree (m β)}, t.BindsFrom level → (waiting stack t).BindsFrom level := by
  induction stack with
  | nil => exact fun h => h
  | cons x rest ih =>
    intro t _
    exact ih (fun y hy => hs y (List.mem_cons_of_mem x hy)) (hs x List.mem_cons_self)

theorem attach_waiting {op : BinaryOp} {stack : List (BinaryOp × Span × β)} (hs : ∀ x ∈ stack, x.1.level < op.level)
    (site : Span) (y : m β) (t : OpTree (m β)) :
    (waiting stack t).attach op site y = waiting stack (t.attach op site y) := by
  induction stack generalizing t with
  | nil => rfl
  | cons x rest ih =>
    rw [waiting, waiting, ih fun y hy => hs y (List.mem_cons_of_mem x hy), attach, if_pos (hs x List.mem_cons_self)]

theorem evalM_waiting [LawfulMonad m] (stack : List (BinaryOp × Span × β)) (t : OpTree (m β)) :
    (waiting stack t).evalM apply = t.evalM apply >>= fun v => (waiting stack (leaf (pure v))).evalM apply := by
  induction stack generalizing t with
  | nil => simp [waiting, evalM]
  | cons x rest ih =>
    obtain ⟨op, site, v⟩ := x
    simp only [waiting]
    rw [ih]
    simp [ih (node op site _ _), evalM]

end Opening

end OpTree

/-! ### Lowering -/

namespace Pending

open OpTree

/-- The value on top and the operators that wait, each with the type on its left. -/
def ofStack (t : Ty) (stack : List (BinaryOp × Span × Ty)) : Pending :=
  ⟨t :: stack.map (·.2.2), stack.map fun (op, site, _) => (op, site)⟩

/-- Carries out an operator that stands at `site`. -/
abbrev applyAt (op : BinaryOp) (site : Span) (left right : Ty) : EmitM Ty := lowerOperator op left right site

/-- To carry out waiting operators is to work out the innermost part of their tree. -/
theorem reduceFrom_eq (level : Nat) (t : Ty) (tight loose : List (BinaryOp × Span × Ty))
    (ht : ∀ x ∈ tight, level ≤ x.1.level) (hl : ∀ x ∈ loose.head?, x.1.level < level) :
    reduceFrom level (ofStack t (tight ++ loose)).operands (ofStack t (tight ++ loose)).operators =
      (waiting tight (leaf (pure t))).evalM applyAt >>= fun t => pure (ofStack t loose) := by
  induction tight generalizing t with
  | nil =>
    cases loose with
    | nil => simp [reduceFrom, waiting, evalM, ofStack]
    | cons x loose =>
      have hx : x.1.level < level := hl x rfl
      simp [reduceFrom, waiting, evalM, ofStack, hx]
  | cons x tight ih =>
    obtain ⟨op, site, l⟩ := x
    have hop : ¬op.level < level := Nat.not_lt.mpr (ht _ List.mem_cons_self)
    have hstep : reduceFrom level (ofStack t ((op, site, l) :: tight ++ loose)).operands
        (ofStack t ((op, site, l) :: tight ++ loose)).operators = applyAt op site l t >>= fun w =>
          reduceFrom level (ofStack w (tight ++ loose)).operands (ofStack w (tight ++ loose)).operators := by
      simp [reduceFrom, reduce, hop, applyAt, ofStack]
    rw [hstep, waiting, evalM_waiting]
    simp only [evalM, pure_bind, bind_assoc]
    exact congrArg _ (funext fun w => ih w fun y hy => ht y (List.mem_cons_of_mem _ hy))

/-- Waiting operators bind tighter the later they came. -/
def Ordered (stack : List (BinaryOp × Span × Ty)) : Prop := stack.Pairwise fun x y => y.1.level < x.1.level

theorem Ordered.split {stack : List (BinaryOp × Span × Ty)} (h : Ordered stack) (level : Nat) :
    ∃ tight loose, stack = tight ++ loose ∧ (∀ x ∈ tight, level ≤ x.1.level) ∧ ∀ x ∈ loose, x.1.level < level := by
  induction stack with
  | nil => exact ⟨[], [], rfl, by simp, by simp⟩
  | cons x rest ih =>
    obtain ⟨hx, hrest⟩ := List.pairwise_cons.mp h
    by_cases hlevel : x.1.level < level
    · refine ⟨[], x :: rest, rfl, by simp, fun y hy => ?_⟩
      rcases List.mem_cons.mp hy with rfl | hy
      · exact hlevel
      · exact Nat.lt_trans (hx y hy) hlevel
    · obtain ⟨tight, loose, rfl, ht, hl⟩ := ih hrest
      refine ⟨x :: tight, loose, rfl, fun y hy => ?_, hl⟩
      rcases List.mem_cons.mp hy with rfl | hy
      · exact Nat.not_lt.mp hlevel
      · exact ht y hy

end Pending

open OpTree Pending

/-- A sequence of operations lowers as the tree that they make of the operators that wait. -/
theorem lowerOperations_eq (c : Context) (s : Scope) (span : Span) (rest : List Source.Operation) (t : Ty)
    (stack : List (BinaryOp × Span × Ty)) (hs : Ordered stack) :
    (lowerOperations c s (ofStack t stack) rest >>= fun p => p.finish span) =
      ((waiting stack (leaf (pure t))).attachAll
        (rest.map fun x => (x.op, x.term.span, lowerTerm c s x.term))).evalM applyAt := by
  induction rest generalizing t stack with
  | nil =>
    have h := reduceFrom_eq 0 t stack [] (by simp) (by simp)
    rw [List.append_nil] at h
    simp only [lowerOperations, pure_bind, finish, h, attachAll, List.map_nil, bind_assoc]
    simp [ofStack]
  | cons x rest ih =>
    obtain ⟨op, term⟩ := x
    obtain ⟨tight, loose, rfl, ht, hl⟩ := hs.split op.level
    have hordered : ∀ w, Ordered ((op, term.span, w) :: loose) := fun w =>
      List.pairwise_cons.mpr ⟨hl, (List.pairwise_append.mp hs).2.1⟩
    have hway : (ofStack t (tight ++ loose)).makeWay op = _ :=
      reduceFrom_eq op.level t tight loose ht fun x hx => hl x (List.mem_of_mem_head? hx)
    -- the new operator takes what binds tighter, which is worked out before its right side
    have htree : (waiting (tight ++ loose) (leaf (pure t))).attach op term.span (lowerTerm c s term) =
        waiting loose (node op term.span (waiting tight (leaf (pure t))) (leaf (lowerTerm c s term))) := by
      rw [waiting_append, attach_waiting hl, attach_of_bindsFrom (bindsFrom_waiting ht (t := leaf (pure t)) trivial)]
    have hleft : Opens applyAt _ (node op term.span (waiting tight (leaf (pure t))) (leaf (lowerTerm c s term))) _ :=
      .left op term.span _ _
    have hterm : Opens applyAt _ (leaf (lowerTerm c s term)) _ := .leaf _
    simp only [lowerOperations, hway, bind_assoc, pure_bind, List.map_cons, attachAll, htree]
    rw [(hleft.waiting loose).evalM_attachAll]
    refine congrArg _ (funext fun v => ?_)
    rw [((hterm.right op term.span v).waiting loose).evalM_attachAll]
    exact congrArg _ (funext fun w => ih w _ (hordered v))

/-- The terms of a sequence, grouped. -/
def Source.MathExpr.tree (x : Source.MathExpr) : OpTree Source.Term :=
  group x.first (x.rest.map fun y => (y.op, y.term.span, y.term))

/-- Lowering a sequence is lowering its tree. -/
theorem lowerMath_eq (c : Context) (s : Scope) (x : Source.MathExpr) :
    lowerMath c s x = (x.tree.map (lowerTerm c s)).evalM applyAt := by
  obtain ⟨first, rest, span⟩ := x
  have hfirst : Opens applyAt _ (leaf (lowerTerm c s first)) _ := .leaf _
  rw [lowerMath, Source.MathExpr.tree, map_group, List.map_map, group, hfirst.evalM_attachAll]
  exact congrArg _ (funext fun t => lowerOperations_eq c s span rest t [] .nil)

end Classwright
