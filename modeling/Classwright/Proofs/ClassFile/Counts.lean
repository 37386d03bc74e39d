import Classwright.Proofs.ClassFile.Formats
import Classwright.Proofs.ClassFile.RoundTrip

/-! # Counts in class files

Lists stand in a class file behind the number of their items, in two bytes or, for the annotated parameters of a method,
in one. A class is written as its layout says, except that only the low bytes of these numbers are left: nothing checks
that they fit. Writing fails for no other reason than that the pool is full or a text is too long. -/

namespace Classwright.ClassFile

open PoolM Layout

/-! ### The layout of a class -/

/-- A value behind the character that tells its kind. -/
def tagged (kind : Char) (value : Layout) : Layout := both (raw (Bytes.u1 kind.toNat)) value

mutual

def Annotation.layout : Annotation → Layout
  | ⟨type, elements⟩ => both (text type) (both (count ⟨2, elements.length⟩) (elementsLayout elements))

def elementsLayout : List Element → Layout
  | [] => raw []
  | ⟨name, value⟩ :: rest => both (both (text name) value.layout) (elementsLayout rest)

def ElementValue.layout : ElementValue → Layout
  | .int v => tagged 'I' (constant (.integer v) trivial)
  | .long v => tagged 'J' (constant (.long v) trivial)
  | .float v => tagged 'F' (constant (.float v) trivial)
  | .double v => tagged 'D' (constant (.double v) trivial)
  | .scalar kind v => both (raw (Bytes.u1 kind.toNat)) (constant (.integer v) trivial)
  | .string s => tagged 's' (text s)
  | .cls d => tagged 'c' (text d)
  | .enum type name => tagged 'e' (both (text type) (text name))
  | .nested a => tagged '@' a.layout
  | .array values => tagged '[' (both (count ⟨2, values.length⟩) (valuesLayout values))

def valuesLayout : List ElementValue → Layout
  | [] => raw []
  | v :: rest => both v.layout (valuesLayout rest)

end

def annotationsLayout (as : List Annotation) : Layout := counted 2 (as.map Annotation.layout)

/-- There is an attribute with annotations if there are any. -/
def annotationsAttributes (as : List Annotation) : List AttributeLayout :=
  if as.isEmpty then [] else [⟨"RuntimeVisibleAnnotations", annotationsLayout as⟩]

/-- The parameters are counted in one byte. -/
def paramAnnotationsAttributes (params : List (List Annotation)) : List AttributeLayout :=
  if params.all (·.isEmpty) then []
  else [⟨"RuntimeVisibleParameterAnnotations", counted 1 (params.map annotationsLayout)⟩]

def LocalVariable.layout (size : Nat) (v : LocalVariable) : Layout :=
  both (raw (Bytes.u2 0 ++ Bytes.u2 size)) (both (text v.name) (both (text v.descriptor) (raw (Bytes.u2 v.slot.toNat))))

def localsAttributes (size : Nat) (vs : List LocalVariable) : List AttributeLayout :=
  if vs.isEmpty then [] else [⟨"LocalVariableTable", counted 2 (vs.map (·.layout size))⟩]

def codeLayout (code : Assembled) (vs : List LocalVariable) : Layout :=
  both (raw (Bytes.u2 code.maxStack.toNat ++ Bytes.u2 code.maxLocals.toNat ++ Bytes.u4 code.code.length ++ code.code ++
    Bytes.u2 0)) (attributes ((stackMapAttribute code).map (fun a => ⟨a.name, raw a.data⟩) ++
      localsAttributes code.code.length vs))

def codeAttributes (code : Option Assembled) (vs : List LocalVariable) : List AttributeLayout :=
  match code with
  | none => []
  | some code => [⟨"Code", codeLayout code vs⟩]

/-- Fields and methods begin in the same way. -/
def memberLayout (access : UInt16) (name descriptor : String) (as : List AttributeLayout) : Layout :=
  both (raw (Bytes.u2 access.toNat)) (both (text name) (both (text descriptor) (attributes as)))

def Field.layout (f : Field) : Layout := memberLayout f.access f.name f.descriptor (annotationsAttributes f.annotations)

def Method.layout (m : Method) : Layout :=
  memberLayout m.access m.name m.descriptor
    (codeAttributes m.code m.locals ++ annotationsAttributes m.annotations ++
      paramAnnotationsAttributes m.paramAnnotations)

def superLayout : Option String → Layout
  | some name => cls name
  | none => raw (Bytes.u2 0)

/-- What follows the constant pool. -/
def layout (c : ClassFile) : Layout :=
  both (raw (Bytes.u2 c.access.toNat)) <| both (cls c.name) <| both (superLayout c.superName) <|
    both (counted 2 (c.interfaces.map cls)) <| both (counted 2 (c.fields.map Field.layout)) <|
      both (counted 2 (c.methods.map Method.layout)) (attributes (annotationsAttributes c.annotations))

/-! ### Classes are written by their layout -/

theorem write_each {α : Type} {write : α → PoolM Bytes} {layout : α → Layout} (h : ∀ x, (layout x).write = write x)
    (xs : List α) : (each (xs.map layout)).write = sequence write xs := by
  induction xs with
  | nil => rfl
  | cons x xs ih =>
    change (both (layout x) (each (xs.map layout))).write = _
    rw [Layout.write, ih, h, sequence]

theorem write_counted {α : Type} {write : α → PoolM Bytes} {layout : α → Layout} (h : ∀ x, (layout x).write = write x)
    (width : Nat) (xs : List α) : (counted width (xs.map layout)).write = do
      let body ← sequence write xs
      return Bytes.word width xs.length ++ body := by
  rw [counted, Layout.write, write_each h, Layout.write, pure_bind, List.length_map]

theorem write_tagged (kind : Char) (value : Layout) : (tagged kind value).write = do
    let bytes ← value.write
    return Bytes.u1 kind.toNat ++ bytes := by
  rw [tagged, Layout.write, Layout.write, pure_bind]

mutual

theorem Annotation.write_layout : (a : Annotation) → a.layout.write = a.bytes
  | ⟨type, elements⟩ => by
    simp only [Layout.write, Annotation.layout, elements_write_layout elements, Annotation.bytes, bind_assoc, pure_bind,
      List.append_assoc]
    rfl

theorem elements_write_layout : (es : List Element) → (elementsLayout es).write = elementsBytes es
  | [] => rfl
  | ⟨name, value⟩ :: rest => by
    simp only [elementsLayout, Layout.write, value.write_layout, elements_write_layout rest, elementsBytes, bind_assoc,
      pure_bind]
    rfl

theorem ElementValue.write_layout : (v : ElementValue) → v.layout.write = v.bytes
  | .int v | .long v | .float v | .double v | .string v | .cls v => by
    simp only [ElementValue.layout, write_tagged, Layout.write, ElementValue.bytes, bind_assoc, pure_bind]
    rfl
  | .scalar kind v => by
    simp only [ElementValue.layout, Layout.write, ElementValue.bytes, bind_assoc, pure_bind]
    rfl
  | .enum type name => by
    simp only [ElementValue.layout, write_tagged, Layout.write, ElementValue.bytes, bind_assoc, pure_bind,
      List.append_assoc]
    rfl
  | .nested a => by
    rw [ElementValue.layout, write_tagged, a.write_layout, ElementValue.bytes]
    rfl
  | .array values => by
    simp only [ElementValue.layout, write_tagged, Layout.write, values_write_layout values, ElementValue.bytes,
      bind_assoc, pure_bind, List.append_assoc]
    rfl

theorem values_write_layout : (vs : List ElementValue) → (valuesLayout vs).write = valuesBytes vs
  | [] => rfl
  | v :: rest => by
    rw [valuesLayout, Layout.write, v.write_layout, values_write_layout rest, valuesBytes]

end

theorem write_annotationsLayout (as : List Annotation) : (annotationsLayout as).write = annotationsBytes as := by
  rw [annotationsLayout, write_counted Annotation.write_layout, annotationsBytes, annotationsBody_eq]
  rfl

theorem writeContents_annotations (as : List Annotation) :
    writeContents (annotationsAttributes as) = annotationsAttribute as := by
  unfold annotationsAttributes annotationsAttribute
  split
  · rfl
  · simp only [writeContents, write_annotationsLayout, pure_bind]

theorem writeContents_paramAnnotations (ass : List (List Annotation)) :
    writeContents (paramAnnotationsAttributes ass) = paramAnnotationsAttribute ass := by
  have hwrite : (counted 1 (ass.map annotationsLayout)).write = paramAnnotationsBytes ass := by
    rw [write_counted write_annotationsLayout, paramAnnotationsBytes, annotationListsBody_eq]
    rfl
  unfold paramAnnotationsAttributes paramAnnotationsAttribute
  split
  · rfl
  · simp only [writeContents, hwrite, pure_bind]

theorem write_locals (size : Nat) (vs : List LocalVariable) :
    (each (vs.map (·.layout size))).write = localsBody size vs := by
  induction vs with
  | nil => rfl
  | cons v vs ih =>
    change (both (v.layout size) (each (vs.map (·.layout size)))).write = _
    rw [Layout.write, ih, LocalVariable.layout, localsBody]
    simp only [Layout.write, bind_assoc, pure_bind, List.append_assoc]

theorem writeContents_locals (size : Nat) (vs : List LocalVariable) :
    writeContents (localsAttributes size vs) = localsAttribute size vs := by
  unfold localsAttributes localsAttribute
  split
  · rfl
  · simp only [writeContents, counted, Layout.write, write_locals, List.length_map, bind_assoc, pure_bind]
    rfl

theorem writeContents_append (as as' : List AttributeLayout) : writeContents (as ++ as') = do
    let contents ← writeContents as
    let contents' ← writeContents as'
    return contents ++ contents' := by
  induction as with
  | nil => simp [writeContents]
  | cons a as ih =>
    obtain ⟨name, contents⟩ := a
    simp only [List.cons_append, writeContents, ih, bind_assoc, pure_bind]

/-- What was laid out before is no work for the pool. -/
theorem writeContents_raw (as : List Attribute) : writeContents (as.map fun a => ⟨a.name, raw a.data⟩) = pure as := by
  induction as with
  | nil => rfl
  | cons a as ih => simp only [List.map_cons, writeContents, Layout.write, ih, pure_bind]

theorem write_codeLayout (code : Assembled) (vs : List LocalVariable) : (codeLayout code vs).write = codeBytes code vs := by
  simp only [codeLayout, Layout.write, writeContents_append, writeContents_raw, writeContents_locals, codeBytes, bind_assoc,
    pure_bind]

theorem writeContents_code (code : Option Assembled) (vs : List LocalVariable) :
    writeContents (codeAttributes code vs) = codeAttribute code vs := by
  cases code with
  | none => rfl
  | some code => simp only [codeAttributes, writeContents, write_codeLayout, codeAttribute, pure_bind]

theorem Field.write_layout (f : Field) : f.layout.write = f.bytes := by
  simp only [Field.layout, memberLayout, Layout.write, writeContents_annotations, Field.bytes, bind_assoc, pure_bind,
    List.append_assoc]

theorem Method.write_layout (m : Method) : m.layout.write = m.bytes := by
  simp only [Method.layout, memberLayout, Layout.write, writeContents_append, writeContents_code,
    writeContents_annotations, writeContents_paramAnnotations, Method.bytes, bind_assoc, pure_bind, List.append_assoc]

theorem write_layout (c : ClassFile) : c.layout.write = c.bodyBytes := by
  have hsuper : (superLayout c.superName).write = superBytes c.superName := by cases c.superName <;> rfl
  have hclass (name : String) : (Layout.cls name).write = classBytes name := by rw [Layout.write]
  rw [bodyBytes_eq]
  simp only [layout, Layout.write, hsuper, write_counted hclass, write_counted Field.write_layout,
    write_counted Method.write_layout, writeContents_annotations, membersBytes, bind_assoc, pure_bind, List.append_assoc]
  rfl

/-! ### What the counts say -/

/-- The bytes of a class in a file with a pool. -/
def fileBytes (c : ClassFile) (pool : ConstantPool) (body : Bytes) : Bytes :=
  Bytes.u4 magic ++ Bytes.u2 c.minor.toNat ++ Bytes.u2 c.major.toNat ++ pool.bytes ++ body

/-- A class that is written is laid out as it should be, except that of every count just the low bytes are there. So it is
    laid out as it should be if and only if no list is too long for its count. A list that is too long is no reason to
    fail: writing fails only if the pool has no room or if a text is too long, and the count of the pool always fits. -/
theorem counts_written {c : ClassFile} {b : PoolBuilder} {bodies : List Assembled} (hassembled : Assembles b bodies) :
    (∀ bytes b', c.write.on b = (.ok bytes, b') → Count.Fits ⟨2, b'.pool.count⟩ ∧
      ∃ body, bytes = c.fileBytes b'.pool body ∧ c.layout.Holds Count.cut b'.pool body ∧
        (c.layout.Holds Count.items b'.pool body ↔ ∀ n ∈ c.layout.counts, n.Fits)) ∧
      ∀ e b', c.write.on b = (.error e, b') → b'.Refuses e := by
  refine ⟨fun bytes b' h => ?_, fun e b' h => ?_⟩
  · have hvalid := valid_of_write hassembled.sound.1 h
    obtain ⟨body, hbody, hbytes⟩ := write_eq_ok h
    have hgives := c.bodyBytes_interns.gives hbody
    rw [← write_layout] at hgives
    have hholds := holds_of_gives hvalid.sound c.layout hgives
    exact ⟨Nat.lt_succ_of_le hvalid.writable.1, body, hbytes, hholds, holds_items_iff hholds⟩
  · have hwrite : c.write.OnlyRefused := by
      refine .bind ?_ fun body => .bind ?_ fun b => .pure _
      · rw [← write_layout]
        exact c.layout.write_onlyRefused
      · intro b e b' h
        cases h
    exact hwrite b e b' h

/-- All lists of the class are short, so their counts are right. -/
theorem counts_written_graded : ∃ a b b' bytes body, (grade.assemble gradeHead true).on {} = (.ok a, b) ∧
    Assembles b [a] ∧ (gradedClass a).write.on b = (.ok bytes, b') ∧ bytes = (gradedClass a).fileBytes b'.pool body ∧
    (gradedClass a).layout.Holds Count.items b'.pool body := by
  have hfits : ((grade.assemble gradeHead true).on {}).1.toOption.any
      (fun a => (gradedClass a).layout.counts.all (decide ·.Fits)) = true := by
    decide +kernel
  have hok := gradedClass_written
  split at hok
  · rename_i a b ha
    split at hok
    · rename_i bytes b' hbytes
      have hassembled : Assembles b [a] := .next .start grade gradeHead true ha
      obtain ⟨-, body, hbody, -, hiff⟩ := (counts_written (c := gradedClass a) hassembled).1 bytes b' hbytes
      refine ⟨a, b, b', bytes, body, ha, hassembled, hbytes, hbody, hiff.mpr fun n hn => ?_⟩
      rw [ha] at hfits
      exact of_decide_eq_true (List.all_eq_true.mp hfits n hn)
    · cases hok
  · cases hok

/-- An abstract method with annotations for 256 parameters. -/
def crowdedClass : ClassFile where
  major := 52
  access := 0x421
  name := "demo/Crowded"
  methods := [{ access := 0x401, name := "call", descriptor := "()V"
                paramAnnotations := [⟨"Ldemo/Mark;", []⟩] :: List.replicate 255 [] }]

/-- The method is written with no annotated parameters, and read back without them. -/
theorem crowded_params_uncounted : ∃ bytes b' p m, crowdedClass.write.on {} = (.ok bytes, b') ∧
    (⟨1, 256⟩ : Count) ∈ crowdedClass.layout.counts ∧ (∀ body, ¬crowdedClass.layout.Holds Count.items b'.pool body) ∧
    ParsedClass.parse bytes = .ok p ∧ p.methods = [m] ∧ p.paramAnnotations m = .ok [] := by
  have hcount : (⟨1, 256⟩ : Count) ∈ crowdedClass.layout.counts := by decide +kernel
  have hread : (crowdedClass.write.on {}).1.toOption.any (fun bytes => (ParsedClass.parse bytes).toOption.any fun p =>
      p.methods.length == 1 && p.methods.all fun m => (p.paramAnnotations m).toOption.any (·.isEmpty)) = true := by
    decide +kernel
  obtain ⟨bytes, b', hbytes, hread⟩ := exists_ok_of_any hread
  obtain ⟨p, hp, hread⟩ := (Option.any_eq_true _ _).mp hread
  rw [Bool.and_eq_true, beq_iff_eq] at hread
  obtain ⟨m, hm⟩ := List.length_eq_one_iff.mp hread.1
  rw [hm, List.all_cons, List.all_nil, Bool.and_true] at hread
  obtain ⟨params, hparams, hempty⟩ := (Option.any_eq_true _ _).mp hread.2
  rw [List.isEmpty_iff.mp hempty] at hparams
  refine ⟨bytes, b', p, m, hbytes, hcount, fun body hbody => ?_, toOption_eq_some.mp hp, hm, toOption_eq_some.mp hparams⟩
  obtain ⟨field, hfield⟩ := hbody.stands _ _ hcount
  exact absurd hfield.fits (by decide)

end Classwright.ClassFile
