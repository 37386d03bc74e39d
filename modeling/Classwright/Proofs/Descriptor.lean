import Classwright.Proofs.Results
import Classwright.Signature.Basic
import Classwright.Verify.Transfer

/-! # Reading descriptors back

The descriptor of a method lists its parameters in a way that can be told apart again, and the verifier takes each of
them for what it stands for. -/

namespace Classwright

namespace Ty

/-- A class has a name that can stand in a descriptor. -/
def WellNamed (t : Ty) : Prop := ∀ name, t.elem = .cls name → name.toList ≠ [] ∧ ';' ∉ name.toList

/-- What the verifier knows about values of a type. There are none of type `void`. -/
def vtype? (t : Ty) : Option VType :=
  match t with
  | ⟨_, true⟩ => some (.object t.descriptor)
  | ⟨.cls name, false⟩ => some (.object name)
  | ⟨.prim .void, false⟩ => none
  | ⟨.prim .long, false⟩ => some .long
  | ⟨.prim .float, false⟩ => some .float
  | ⟨.prim .double, false⟩ => some .double
  | ⟨.prim _, false⟩ => some .integer

/-- A type that has values says how they are stored, and how many words they take. -/
theorem exists_vtype? {t : Ty} (h : t.isVoid = false) :
    ∃ v kind, t.vtype? = some v ∧ t.localKind? = some kind ∧ v.hasKind kind = true ∧ v.width = t.width ∧
      kind.width = t.width := by
  obtain ⟨e, isArray⟩ := t
  cases isArray with
  | true =>
    cases e with
    | cls name => exact ⟨_, .ref, rfl, rfl, rfl, rfl, rfl⟩
    | prim p => cases p <;> exact ⟨_, .ref, rfl, rfl, rfl, rfl, rfl⟩
  | false =>
    cases e with
    | cls name => exact ⟨_, .ref, rfl, rfl, rfl, rfl, rfl⟩
    | prim p =>
      cases p with
      | void => cases h
      | _ => exact ⟨_, _, rfl, rfl, rfl, rfl, rfl⟩

theorem wellNamed_prim (p : Prim) (isArray : Bool) : WellNamed ⟨.prim p, isArray⟩ := nofun

theorem wellNamed_cls {name : String} {isArray : Bool} :
    WellNamed ⟨.cls name, isArray⟩ ↔ name.toList ≠ [] ∧ ';' ∉ name.toList :=
  ⟨fun h => h name rfl, fun h _ heq => by cases heq; exact h⟩

instance : DecidablePred WellNamed
  | ⟨.prim p, isArray⟩ => isTrue (wellNamed_prim p isArray)
  | ⟨.cls _, _⟩ => decidable_of_iff _ wellNamed_cls.symm

/-! ### Telling descriptors apart -/

theorem takeWhile_name {name : List Char} (h : ';' ∉ name) (rest : List Char) :
    (name ++ ';' :: rest).takeWhile (· != ';') = name ∧ (name ++ ';' :: rest).dropWhile (· != ';') = ';' :: rest := by
  have hall : ∀ c ∈ name, (c != ';') = true := fun c hc => by
    simp only [bne_iff_ne]
    rintro rfl
    exact h hc
  rw [List.takeWhile_append_of_pos hall, List.dropWhile_append_of_pos hall]
  simp

theorem next?_elem {e : Elem} (h : WellNamed ⟨e, false⟩) (dims rest : List Char) (hd : ∀ c ∈ dims, c = '[') :
    Descriptor.next? (dims ++ (e.descriptor ++ rest)) = some (dims ++ e.descriptor, rest) := by
  have hall : ∀ c ∈ dims, (c == '[') = true := fun c hc => by simpa using hd c hc
  unfold Descriptor.next?
  dsimp only
  rw [List.takeWhile_append_of_pos hall, List.dropWhile_append_of_pos hall]
  cases e with
  | prim p => cases p <;> simp [Elem.descriptor, Prim.code]
  | cls name =>
    obtain ⟨htake, hdrop⟩ := takeWhile_name (h name rfl).2 rest
    simp [Elem.descriptor, htake, hdrop]

theorem next?_descriptorChars {t : Ty} (h : t.WellNamed) (rest : List Char) :
    Descriptor.next? (t.descriptorChars ++ rest) = some (t.descriptorChars, rest) := by
  obtain ⟨e, isArray⟩ := t
  cases isArray with
  | false => exact next?_elem h [] rest (by simp)
  | true => exact next?_elem (e := e) h ['['] rest (by simp)

theorem descriptorChars_cons (t : Ty) : ∃ c cs, t.descriptorChars = c :: cs ∧ c ≠ ')' := by
  obtain ⟨e, isArray⟩ := t
  cases isArray with
  | true => exact ⟨'[', e.descriptor, rfl, by decide⟩
  | false =>
    cases e with
    | prim p => exact ⟨p.code, [], rfl, by cases p <;> decide⟩
    | cls name => exact ⟨'L', _, rfl, by decide⟩

theorem splitParams?_next {c : Char} (hc : c ≠ ')') {cs d rest : List Char}
    (h : Descriptor.next? (c :: cs) = some (d, rest)) (fuel : Nat) (acc : List (List Char)) :
    Descriptor.splitParams? (fuel + 1) acc (c :: cs) = Descriptor.splitParams? fuel (d :: acc) rest := by
  rw [Descriptor.splitParams?.eq_def]
  split
  · rename_i heq
    injection heq with heq
    exact absurd heq hc
  · contradiction
  · rename_i hf _
    cases hf
    rw [h]

theorem splitParams?_flatMap {ps : List Ty} (h : ∀ t ∈ ps, t.WellNamed) (rest : List Char) {fuel : Nat}
    (hf : ps.length ≤ fuel) (acc : List (List Char)) :
    Descriptor.splitParams? fuel acc (ps.flatMap descriptorChars ++ ')' :: rest) =
      some (acc.reverse ++ ps.map descriptorChars, rest) := by
  induction ps generalizing fuel acc with
  | nil => cases fuel <;> simp [Descriptor.splitParams?]
  | cons t ps ih =>
    obtain ⟨ht, hps⟩ := List.forall_mem_cons.mp h
    obtain ⟨c, cs, hc, hne⟩ := t.descriptorChars_cons
    cases fuel with
    | zero => simp at hf
    | succ fuel =>
      have hnext := next?_descriptorChars ht (ps.flatMap descriptorChars ++ ')' :: rest)
      rw [List.flatMap_cons, List.append_assoc]
      rw [hc] at hnext ⊢
      rw [List.cons_append] at hnext ⊢
      rw [splitParams?_next hne hnext, ih hps (by simpa using hf)]
      simp [hc]

theorem length_le_flatMap (ps : List Ty) (rest : List Char) :
    ps.length ≤ (ps.flatMap descriptorChars ++ rest).length := by
  induction ps with
  | nil => simp
  | cons t ps ih =>
    obtain ⟨c, cs, hc, -⟩ := t.descriptorChars_cons
    simp only [List.flatMap_cons, List.length_append, List.length_cons, hc] at ih ⊢
    omega

/-- A method descriptor is split into the descriptors of the parameters and that of the result. -/
theorem split?_methodDescriptor {ps : List Ty} (h : ∀ t ∈ ps, t.WellNamed) (r : Ty) :
    Descriptor.split? (methodDescriptor ps r) = some (ps.map descriptorChars, r.descriptorChars) := by
  rw [Descriptor.split?, methodDescriptor, String.toList_ofList]
  exact splitParams?_flatMap h _ (length_le_flatMap ps _) []

/-! ### Reading types back -/

/-- The type can be told from its descriptor. There are no arrays of `void`. -/
def Legible (t : Ty) : Prop := t.WellNamed ∧ t ≠ ⟨.prim .void, true⟩

theorem read?_elem {e : Elem} (h : WellNamed ⟨e, false⟩) (rest : List Char) :
    Elem.read? (e.descriptor ++ rest) = some (e, rest) := by
  cases e with
  | prim p => cases p <;> rfl
  | cls name =>
    obtain ⟨hne, hsemicolon⟩ := h name rfl
    obtain ⟨htake, hdrop⟩ := takeWhile_name hsemicolon rest
    have hchars : (Elem.cls name).descriptor ++ rest = 'L' :: (name.toList ++ ';' :: rest) := by
      simp [Elem.descriptor]
    rw [hchars, Elem.read?, if_pos rfl, htake, hdrop]
    dsimp only
    rw [if_neg (by simpa using hne), String.ofList_toList]

theorem read?_descriptorChars {t : Ty} (h : t.Legible) (rest : List Char) :
    read? (t.descriptorChars ++ rest) = some (t, rest) := by
  obtain ⟨e, isArray⟩ := t
  have hread := read?_elem (e := e) h.1 rest
  cases isArray with
  | true =>
    have hvoid : e ≠ .prim .void := fun heq => h.2 (by rw [heq])
    have hchars : (Ty.mk e true).descriptorChars ++ rest = '[' :: (e.descriptor ++ rest) := rfl
    rw [hchars, read?, hread]
    dsimp only
    rw [if_neg hvoid]
  | false =>
    have hfirst : ∀ tail, e.descriptor ++ rest ≠ '[' :: tail := by
      intro tail heq
      cases e with
      | prim p => cases p <;> cases heq
      | cls name => cases heq
    have hchars : (Ty.mk e false).descriptorChars ++ rest = e.descriptor ++ rest := rfl
    rw [hchars, read?.eq_def]
    split
    · exact absurd ‹_› (hfirst _)
    · rw [hread]
      rfl

theorem ofChars?_descriptorChars {t : Ty} (h : t.Legible) : ofChars? t.descriptorChars = some t := by
  have hread := read?_descriptorChars h []
  rw [List.append_nil] at hread
  rw [ofChars?, hread]

theorem ofDescriptor?_descriptor {t : Ty} (h : t.Legible) : ofDescriptor? t.descriptor = some t := by
  rw [ofDescriptor?, descriptor, String.toList_ofList, ofChars?_descriptorChars h]

theorem readParams?_flatMap {ps : List Ty} (h : ∀ t ∈ ps, t.Legible) (hv : ∀ t ∈ ps, t.isVoid = false) (rest : List Char)
    {fuel : Nat} (hf : ps.length ≤ fuel) (acc : List Ty) :
    readParams? fuel acc (ps.flatMap descriptorChars ++ ')' :: rest) = some (acc.reverse ++ ps, rest) := by
  induction ps generalizing fuel acc with
  | nil => cases fuel <;> simp [readParams?]
  | cons t ps ih =>
    obtain ⟨ht, hps⟩ := List.forall_mem_cons.mp h
    obtain ⟨htv, hpv⟩ := List.forall_mem_cons.mp hv
    cases fuel with
    | zero => simp at hf
    | succ fuel =>
      have hread := read?_descriptorChars ht (ps.flatMap descriptorChars ++ ')' :: rest)
      obtain ⟨c, cs, hc, hne⟩ := t.descriptorChars_cons
      rw [List.flatMap_cons, List.append_assoc]
      rw [hc, List.cons_append] at hread ⊢
      rw [readParams?.eq_def]
      split
      · rename_i heq
        injection heq with heq
        exact absurd heq hne
      · contradiction
      · rename_i hfuel _
        cases hfuel
        rw [hread]
        dsimp only
        rw [if_neg (by simp [htv]), ih hps hpv (by simpa using hf)]
        simp

theorem ofMethodDescriptor?_methodDescriptor {ps : List Ty} {r : Ty} (h : ∀ t ∈ ps, t.Legible)
    (hv : ∀ t ∈ ps, t.isVoid = false) (hr : r.Legible) :
    ofMethodDescriptor? (methodDescriptor ps r) = some (ps, r) := by
  have hparams := readParams?_flatMap h hv r.descriptorChars (length_le_flatMap ps (')' :: r.descriptorChars)) []
  simp only [ofMethodDescriptor?, methodDescriptor, String.toList_ofList, hparams, ofChars?_descriptorChars hr,
    Option.map_some, List.reverse_nil, List.nil_append]

/-! ### What the verifier takes them for -/

/-- The verifier takes a descriptor for the type that it stands for. -/
theorem ofDescriptor?_descriptorChars {t : Ty} (h : t.WellNamed) :
    VType.ofDescriptor? t.descriptorChars = some t.vtype? := by
  obtain ⟨e, isArray⟩ := t
  cases isArray with
  | true => rfl
  | false =>
    cases e with
    | prim p => cases p <;> rfl
    | cls name =>
      obtain ⟨hne, -⟩ := h name rfl
      obtain ⟨c, cs, hname⟩ := List.exists_cons_of_ne_nil hne
      have hchars : (Ty.mk (.cls name) false).descriptorChars = 'L' :: c :: (cs ++ [';']) := by
        simp [descriptorChars, Elem.descriptor, hname]
      have hback : String.ofList (c :: cs) = name := by rw [← hname, String.ofList_toList]
      have hlast : (cs ++ [';']).getLast? = some ';' := by simp
      have hdrop : (c :: (cs ++ [';'])).dropLast = c :: cs := by rw [← List.cons_append, List.dropLast_concat]
      rw [hchars]
      cases hl : cs ++ [';'] with
      | nil => simp at hl
      | cons d rest =>
        rw [hl] at hlast hdrop
        change (if (d :: rest).getLast? = some ';' then
          some (some (VType.object (String.ofList (c :: d :: rest).dropLast))) else none) = _
        rw [if_pos hlast, hdrop, hback]
        rfl

/-- The slots that a value of a type takes among the locals. -/
def slots (t : Ty) : List VType :=
  match t.vtype? with
  | none => []
  | some v => if v.width = 2 then [v, .top] else [v]

end Ty

namespace MethodHead

theorem slotsOf_eq (m : MethodHead) {ps : List Ty} (h : ∀ t ∈ ps, t.WellNamed) (hv : ∀ t ∈ ps, t.isVoid = false)
    (acc : List VType) :
    m.slotsOf acc (ps.map Ty.descriptorChars) = .ok (acc.reverse ++ ps.flatMap Ty.slots) := by
  induction ps generalizing acc with
  | nil => simp [slotsOf]
  | cons t ps ih =>
    obtain ⟨ht, hps⟩ := List.forall_mem_cons.mp h
    obtain ⟨htv, hpv⟩ := List.forall_mem_cons.mp hv
    have hslots : m.paramSlots t.descriptorChars = .ok t.slots := by
      obtain ⟨v, -, hsome, -⟩ := Ty.exists_vtype? htv
      rw [paramSlots, Ty.ofDescriptor?_descriptorChars ht, Ty.slots, hsome]
    rw [List.map_cons, slotsOf, hslots, ok_bind, ih hps hpv]
    simp

/-- The locals that a method starts with are its receiver and its parameters. -/
theorem entryFrame_eq {m : MethodHead} {ps : List Ty} {r : Ty} (hd : m.descriptor = Ty.methodDescriptor ps r)
    (h : ∀ t ∈ ps, t.WellNamed) (hv : ∀ t ∈ ps, t.isVoid = false) :
    m.entryFrame = .ok { locals := (if m.isStatic then [] else if m.isConstructor then [.uninitializedThis]
      else [.object m.owner]) ++ ps.flatMap Ty.slots } := by
  unfold entryFrame
  rw [hd, Ty.split?_methodDescriptor h]
  dsimp only
  rw [m.slotsOf_eq h hv, ok_bind]
  split
  · rfl
  · split <;> rfl

end MethodHead

end Classwright
