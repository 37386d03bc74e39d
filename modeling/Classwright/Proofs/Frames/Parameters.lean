import Classwright.Proofs.Frames.Locals
import Classwright.Proofs.Grammar
import Classwright.Proofs.Lowering.Allocation

/-! # Where parameters live

The scope of a method gives its parameters slots by the widths of their types. The frame that its code starts from is made
from its descriptor alone. Both agree on where each parameter is. -/

namespace Classwright

/-! ### Values in slots -/

/-- The slots hold a value of the type, and nothing else. -/
def Ty.HeldBy (t : Ty) (block : List VType) : Prop :=
  block.length = t.width ∧
    ∃ u kind, t.localKind? = some kind ∧ u.hasKind kind = true ∧ (block = [u] ∨ block = [u, .top])

theorem Ty.heldBy_slots {t : Ty} (h : t.isVoid = false) : t.HeldBy t.slots := by
  obtain ⟨u, kind, hu, hkind, hhas, hwidth, -⟩ := exists_vtype? h
  rw [slots, hu]
  rcases u.width_eq_one_or_two with hw | hw
  · exact ⟨by simp [← hwidth, hw], u, kind, hkind, hhas, .inl (by simp [hw])⟩
  · exact ⟨by simp [← hwidth, hw], u, kind, hkind, hhas, .inr (by simp [hw])⟩

/-- Locals that lie side by side are each found where its values begin, if these are put side by side as well. -/
theorem Tiles.drop_eq {n m : Nat} {vs : List Local} {blocks : List (List VType)} (h : Tiles n vs m)
    (hb : List.Forall₂ (fun v block => v.type.HeldBy block) vs blocks) (front : List VType) (hf : front.length = n) :
    (front ++ blocks.flatten).length = m ∧
      ∀ v ∈ vs, ∃ block rest, v.type.HeldBy block ∧ (front ++ blocks.flatten).drop v.slot.toNat = block ++ rest := by
  -- `front` is what the slots before the first local hold
  induction h generalizing blocks front with
  | nil n =>
    cases hb
    exact ⟨by simpa using hf, nofun⟩
  | @cons n m v vs hslot h ih =>
    cases hb with
    | @cons _ block _ blocks hheld hb =>
      obtain ⟨hlength, hrest⟩ := ih hb (front ++ block) (by rw [List.length_append, hf, hheld.1])
      rw [List.append_assoc, ← List.flatten_cons] at hlength hrest
      refine ⟨hlength, List.forall_mem_cons.mpr ⟨⟨block, blocks.flatten, hheld, ?_⟩, hrest⟩⟩
      rw [hslot, ← hf, List.drop_left, List.flatten_cons]

/-! ### The scope and the frame of a method -/

def Local.sig (v : Local) : ParamSig := ⟨v.name, v.type⟩

namespace Scope

theorem sigs_addAll {s s' : Scope} {span : Span} {params : List ParamSig} (h : s.addAll span params = .ok s') :
    s'.locals.toList.map Local.sig = s.locals.toList.map Local.sig ++ params := by
  induction params generalizing s with
  | nil =>
    cases h
    rw [List.append_nil]
  | cons p rest ih =>
    obtain ⟨s₁, hadd, h⟩ := addAll_cons h
    obtain ⟨-, -, -, rfl⟩ := add_eq_ok hadd
    rw [ih h, toList_push, List.map_append, List.append_assoc]
    rfl

theorem sigs_ofMethod {s : Scope} {owner : ClassSig} {method : MethodSig} {span : Span}
    (h : ofMethod owner method span = .ok s) :
    s.locals.toList.map Local.sig = (if method.isStatic then [] else [⟨Name.this, owner.type⟩]) ++ method.params :=
  sigs_addAll h

end Scope

/-- What a method starts with, value by value: the receiver, if there is one, and the parameters. -/
theorem MethodHead.exists_blocks {m : MethodHead} {method : MethodSig} (owner : ClassSig)
    (hd : m.descriptor = method.descriptor) (hs : m.isStatic = method.isStatic)
    (hp : ∀ t ∈ method.paramTypes, t.isVoid = false ∧ t.WellNamed) :
    ∃ blocks, m.entryFrame = .ok { locals := blocks.flatten } ∧
      List.Forall₂ (fun p block => p.type.HeldBy block)
        ((if method.isStatic then [] else [⟨Name.this, owner.type⟩]) ++ method.params) blocks := by
  have hparams : List.Forall₂ (fun p block => p.type.HeldBy block) method.params
      (method.params.map fun p => p.type.slots) :=
    List.forall₂_map_right_iff.mpr <| List.forall₂_same.mpr fun p hmem =>
      Ty.heldBy_slots (hp p.type (List.mem_map_of_mem hmem)).1
  have hentry := m.entryFrame_eq hd (fun t ht => (hp t ht).2) fun t ht => (hp t ht).1
  have hflat : method.paramTypes.flatMap Ty.slots = (method.params.map fun p => p.type.slots).flatten := by
    rw [MethodSig.paramTypes, List.flatMap_map, List.flatMap_def]
  rw [hs, hflat] at hentry
  cases hstatic : method.isStatic with
  | true =>
    rw [hstatic] at hentry
    exact ⟨_, hentry, hparams⟩
  | false =>
    rw [hstatic] at hentry
    -- the receiver is a reference, whether its constructor has run or not
    obtain ⟨u, hu, hentry⟩ : ∃ u : VType, u.isReference = true ∧ m.entryFrame =
        .ok { locals := [u] ++ (method.params.map fun p => p.type.slots).flatten } := by
      cases hc : m.isConstructor with
      | true =>
        rw [hc] at hentry
        exact ⟨.uninitializedThis, rfl, hentry⟩
      | false =>
        rw [hc] at hentry
        exact ⟨.object m.owner, rfl, hentry⟩
    exact ⟨_ :: _, hentry, .cons ⟨rfl, u, .ref, rfl, hu, .inl rfl⟩ hparams⟩

/-- A descriptor that can be read is split into the descriptors of the types that are read. And whatever the class and
    the method: if the method has a scope, the frame that its code starts from has as many locals as the scope has slots,
    and each local of the scope, which are the receiver and the parameters, has its value there at its own slot. -/
theorem parameters_found_at_their_slots :
    (∀ (d : String) (ps : List Ty) (r : Ty), Ty.ofMethodDescriptor? d = some (ps, r) →
      Descriptor.split? d = some (ps.map Ty.descriptorChars, r.descriptorChars)) ∧
    ∀ (owner : ClassSig) (method : MethodSig) (span : Span) (s : Scope) (m : MethodHead),
      (∀ t ∈ method.paramTypes, t.isVoid = false ∧ t.WellNamed) → Scope.ofMethod owner method span = .ok s →
      m.descriptor = method.descriptor → m.isStatic = method.isStatic →
      s.locals.toList.map Local.sig = (if method.isStatic then [] else [⟨Name.this, owner.type⟩]) ++ method.params ∧
      ∃ entry, m.entryFrame = .ok entry ∧ entry.locals.length = s.next ∧
        ∀ v ∈ s.locals.toList, ∃ u kind, entry.locals[v.slot.toNat]? = some u ∧ v.type.localKind? = some kind ∧
          u.hasKind kind = true ∧ (v.type.width = 2 → entry.locals[v.slot.toNat + 1]? = some .top) := by
  refine ⟨fun d ps r h => ?_, fun owner method span s m hp h hd hs => ⟨Scope.sigs_ofMethod h, ?_⟩⟩
  · obtain ⟨hps, -, rfl⟩ := Ty.ofMethodDescriptor?_eq_some_iff.mp h
    exact Ty.split?_methodDescriptor (fun t ht => (hps t ht).1.1) r
  · obtain ⟨blocks, hentry, hblocks⟩ := MethodHead.exists_blocks owner hd hs hp
    rw [← Scope.sigs_ofMethod h, List.forall₂_map_left_iff] at hblocks
    obtain ⟨hlength, hheld⟩ := (Scope.allocated_ofMethod h).tiles.drop_eq hblocks [] rfl
    rw [List.nil_append] at hlength hheld
    refine ⟨_, hentry, hlength, fun v hv => ?_⟩
    obtain ⟨block, rest, ⟨hwidth, u, kind, hkind, hu, hblock⟩, hdrop⟩ := hheld v hv
    have hat : ∀ i, blocks.flatten[v.slot.toNat + i]? = (block ++ rest)[i]? := fun i => by
      rw [← hdrop, List.getElem?_drop]
    refine ⟨u, kind, ?_, hkind, hu, fun htwo => ?_⟩
    · rcases hblock with rfl | rfl <;> exact hat 0
    · rcases hblock with rfl | rfl
      · rw [htwo] at hwidth
        cases hwidth
      · exact hat 1

/-- A method with parameters of one and of two words. -/
def mixMethod : MethodSig :=
  ⟨"mix", false, false, false, .void, [⟨"n", .long⟩, ⟨"names", Ty.string.arrayOf⟩, ⟨"x", .double⟩]⟩

theorem parameters_found_at_their_slots_mix :
    Descriptor.split? "(J[Ljava/lang/String;D)V" = some (mixMethod.paramTypes.map Ty.descriptorChars, ['V']) ∧
      ∃ s entry, Scope.ofMethod { name := "demo/Mixer" } mixMethod {} = .ok s ∧
        (MethodHead.mk "demo/Mixer" "mix" mixMethod.descriptor false).entryFrame = .ok entry ∧
        s.locals.toList.map Local.sig = ⟨"this", .object "demo/Mixer"⟩ :: mixMethod.params ∧
        entry.locals.length = s.next ∧
        ∀ v ∈ s.locals.toList, ∃ u kind, entry.locals[v.slot.toNat]? = some u ∧ v.type.localKind? = some kind ∧
          u.hasKind kind = true ∧ (v.type.width = 2 → entry.locals[v.slot.toNat + 1]? = some .top) := by
  obtain ⟨s, hs⟩ := Option.isSome_iff_exists.mp
    (show (Scope.ofMethod { name := "demo/Mixer" } mixMethod {}).toOption.isSome = true by decide +kernel)
  have hs := toOption_eq_some.mp hs
  obtain ⟨hsigs, entry, hentry, hlength, hheld⟩ := parameters_found_at_their_slots.2 _ _ _ s
    ⟨"demo/Mixer", "mix", mixMethod.descriptor, false⟩ (by decide) hs rfl rfl
  exact ⟨parameters_found_at_their_slots.1 _ _ .void (by decide), s, entry, hs, hentry, hsigs, hlength, hheld⟩

end Classwright
