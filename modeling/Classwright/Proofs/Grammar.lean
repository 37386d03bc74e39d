import Classwright.Proofs.Descriptor

/-! # The grammar of descriptors

No descriptor is the beginning of another one, so descriptors can follow each other with nothing between them. What is
read as a type, or as the parameters and the result of a method, is exactly what would be written for it. -/

namespace Classwright

theorem Prim.code_of_ofCode? {c : Char} {p : Prim} (h : Prim.ofCode? c = some p) : p.code = c := by
  simpa using List.find?_some h

/-- A text with a semicolon is cut at the first one. -/
theorem eq_append_of_dropWhile {cs tail : List Char} {c : Char} (h : cs.dropWhile (· != ';') = c :: tail) :
    ';' ∉ cs.takeWhile (· != ';') ∧ cs = cs.takeWhile (· != ';') ++ ';' :: tail := by
  have hc : c = ';' := by
    have hstop := List.head_dropWhile_not (p := (· != ';')) (l := cs) (by simp [h])
    simpa [h] using hstop
  refine ⟨fun hmem => by simpa using List.all_eq_true.mp List.all_takeWhile _ hmem, ?_⟩
  calc cs = cs.takeWhile (· != ';') ++ cs.dropWhile (· != ';') := List.takeWhile_append_dropWhile.symm
    _ = cs.takeWhile (· != ';') ++ ';' :: tail := by rw [h, hc]

theorem Elem.read?_eq_some {cs rest : List Char} {e : Elem} (h : Elem.read? cs = some (e, rest)) :
    Ty.WellNamed ⟨e, false⟩ ∧ cs = e.descriptor ++ rest := by
  cases cs with
  | nil => cases h
  | cons c cs =>
    rw [Elem.read?] at h
    split at h
    · rename_i hc
      dsimp only at h
      split at h
      · cases h
      · rename_i tail hdrop
        obtain ⟨hfree, hcs⟩ := eq_append_of_dropWhile hdrop
        split at h
        · cases h
        · rename_i hname
          cases h
          refine ⟨Ty.wellNamed_cls.mpr ?_, ?_⟩
          · rw [String.toList_ofList]
            exact ⟨by simpa using hname, hfree⟩
          · rw [Elem.descriptor, String.toList_ofList, hc, List.cons_append, List.append_assoc, List.singleton_append, ← hcs]
    · obtain ⟨p, hp, heq⟩ := Option.map_eq_some_iff.mp h
      cases heq
      refine ⟨Ty.wellNamed_prim p false, ?_⟩
      rw [Elem.descriptor, Prim.code_of_ofCode? hp]
      rfl

namespace Ty
variable {cs rest : List Char} {t r : Ty} {ps : List Ty} {d : String}

/-- A type is read off the front of a text exactly if its descriptor stands there. -/
theorem read?_eq_some_iff : read? cs = some (t, rest) ↔ t.Legible ∧ cs = t.descriptorChars ++ rest := by
  constructor
  · intro h
    rw [read?.eq_def] at h
    split at h
    · split at h
      · rename_i e tail hread
        split at h
        · cases h
        · rename_i hvoid
          cases h
          obtain ⟨hnamed, hchars⟩ := Elem.read?_eq_some hread
          refine ⟨⟨hnamed, fun heq => hvoid (congrArg Ty.elem heq)⟩, ?_⟩
          rw [hchars]
          rfl
      · cases h
    · obtain ⟨⟨e, tail⟩, hread, heq⟩ := Option.map_eq_some_iff.mp h
      cases heq
      obtain ⟨hnamed, hchars⟩ := Elem.read?_eq_some hread
      exact ⟨⟨hnamed, fun heq => by cases heq⟩, hchars⟩
  · rintro ⟨hlegible, rfl⟩
    exact read?_descriptorChars hlegible rest

theorem ofChars?_eq_some_iff : ofChars? cs = some t ↔ t.Legible ∧ cs = t.descriptorChars := by
  constructor
  · intro h
    unfold ofChars? at h
    split at h
    · rename_i hread
      cases h
      simpa using read?_eq_some_iff.mp hread
    · cases h
  · rintro ⟨hlegible, rfl⟩
    exact ofChars?_descriptorChars hlegible

theorem ofDescriptor?_eq_some_iff : ofDescriptor? d = some t ↔ t.Legible ∧ t.descriptor = d := by
  rw [ofDescriptor?, ofChars?_eq_some_iff, descriptor, ← String.toList_inj, String.toList_ofList, eq_comm (a := d.toList)]

/-- No other type has the descriptor of a class. -/
theorem eq_object_of_descriptor {name : String} (h : t.descriptor = (object name).descriptor) : t = object name := by
  have hchars : t.descriptorChars = 'L' :: (name.toList ++ [';']) := by
    have hlists := congrArg String.toList h
    rwa [descriptor, descriptor, String.toList_ofList, String.toList_ofList] at hlists
  obtain ⟨e, isArray⟩ := t
  cases isArray with
  | true => cases hchars
  | false =>
    cases e with
    | prim p => cases p <;> cases hchars
    | cls other =>
      have hname : other.toList = name.toList := List.append_cancel_right (List.cons.inj hchars).2
      rw [String.toList_inj.mp hname]
      rfl

/-- Parameters are read one after the other, and none of them is of type `void`. -/
theorem readParams?_eq_some {fuel : Nat} {acc : List Ty} (h : readParams? fuel acc cs = some (ps, rest)) :
    ∃ qs, ps = acc.reverse ++ qs ∧ (∀ t ∈ qs, t.Legible ∧ t.isVoid = false) ∧
      cs = qs.flatMap descriptorChars ++ ')' :: rest := by
  fun_induction readParams? fuel acc cs with
  | case1 fuel acc tail =>
    cases h
    exact ⟨[], by simp⟩
  | case2 => cases h
  | case3 => cases h
  | case4 fuel acc cs _ t tail hread hvalue ih =>
    obtain ⟨qs, hps, hqs, htail⟩ := ih h
    obtain ⟨hlegible, hcs⟩ := read?_eq_some_iff.mp hread
    refine ⟨t :: qs, by simp [hps], List.forall_mem_cons.mpr ⟨⟨hlegible, by simpa using hvalue⟩, hqs⟩, ?_⟩
    rw [hcs, htail]
    simp
  | case5 => cases h

theorem ofMethodDescriptor?_eq_some_iff : ofMethodDescriptor? d = some (ps, r) ↔
    (∀ t ∈ ps, t.Legible ∧ t.isVoid = false) ∧ r.Legible ∧ methodDescriptor ps r = d := by
  constructor
  · intro h
    unfold ofMethodDescriptor? at h
    split at h
    · rename_i rest hd
      split at h
      · rename_i qs tail hread
        obtain ⟨result, hresult, heq⟩ := Option.map_eq_some_iff.mp h
        cases heq
        obtain ⟨hlegible, htail⟩ := ofChars?_eq_some_iff.mp hresult
        obtain ⟨_, rfl, hqs, hrest⟩ := readParams?_eq_some hread
        refine ⟨hqs, hlegible, ?_⟩
        rw [methodDescriptor, ← htail, ← hrest, ← hd, String.ofList_toList]
      · cases h
    · cases h
  · rintro ⟨hps, hr, rfl⟩
    exact ofMethodDescriptor?_methodDescriptor (fun t ht => (hps t ht).1) (fun t ht => (hps t ht).2) hr

/-- Types that can be told from their descriptors are read back from them, alone or as the parameters and the result of
    a method, and nothing else is read that is not written so. -/
theorem read_exactly_as_written :
    (∀ (d : String) (t : Ty), ofDescriptor? d = some t ↔ t.Legible ∧ t.descriptor = d) ∧
      ∀ (d : String) (ps : List Ty) (r : Ty), ofMethodDescriptor? d = some (ps, r) ↔
        (∀ t ∈ ps, t.Legible ∧ t.isVoid = false) ∧ r.Legible ∧ methodDescriptor ps r = d :=
  ⟨fun _ _ => ofDescriptor?_eq_some_iff, fun _ _ _ => ofMethodDescriptor?_eq_some_iff⟩

end Ty

end Classwright
