import Classwright.Proofs.ClassFile.Parsing
import Classwright.Proofs.ClassFile.Sequential
import Classwright.Proofs.ClassFile.Spelling

/-! # Class files survive being written

A class that was written is read back as what it was, with its code, the variables in it and all annotations. The size
of an attribute is cut to 32 bits when it is written, so this is for attributes with sizes that fit. -/

namespace Classwright

open PoolM Reader

/-! ### What a file says about a class -/

namespace ClassFile

/-- The variable as it is read back, in scope in all of the code. -/
def LocalVariable.throughout (v : LocalVariable) (size : Nat) : Parsed.LocalVariable :=
  ⟨0, size.toUInt16, v.name, v.descriptor, v.slot⟩

end ClassFile

namespace ParsedClass

/-- The code is read back, with the frames at branch targets and the variables. -/
structure DescribesCode (p : ParsedClass) (a : Assembled) (vs : List ClassFile.LocalVariable) (c : Parsed.Code) : Prop where
  maxStack : c.maxStack = a.maxStack
  maxLocals : c.maxLocals = a.maxLocals
  code : c.code = a.code
  size : a.code.length ≤ 65535
  frameCount : c.frameCount = a.frameCount.toNat
  stackMap : Parsed.attribute? c.attributes "StackMapTable" =
    if a.frameCount = 0 then none else some (Bytes.u2 a.frameCount.toNat ++ a.stackMap)
  locals : c.locals p.pool = .ok (vs.map (·.throughout a.code.length))

structure DescribesField (p : ParsedClass) (f : ClassFile.Field) (g : Parsed.Field) : Prop where
  access : g.access = f.access
  name : g.name = f.name
  descriptor : g.descriptor = f.descriptor
  annotations : p.annotations g.attributes = .ok f.annotations

structure DescribesMethod (p : ParsedClass) (m : ClassFile.Method) (n : Parsed.Method) : Prop where
  access : n.access = m.access
  name : n.name = m.name
  descriptor : n.descriptor = m.descriptor
  code : Option.Rel (fun a c => p.DescribesCode a m.locals c) m.code n.code
  annotations : p.annotations n.attributes = .ok m.annotations
  /-- Lists that are all empty are not kept. -/
  paramAnnotations : p.paramAnnotations n = .ok (if m.paramAnnotations.all (·.isEmpty) then [] else m.paramAnnotations)

/-- The file says what the class is. -/
structure Describes (p : ParsedClass) (c : ClassFile) : Prop where
  minor : p.minor = c.minor
  major : p.major = c.major
  access : p.access = c.access
  name : p.name = c.name
  superName : p.superName = c.superName
  interfaces : p.interfaces = c.interfaces
  fields : List.Forall₂ p.DescribesField c.fields p.fields
  methods : List.Forall₂ p.DescribesMethod c.methods p.methods
  annotations : p.annotations p.attributes = .ok c.annotations

end ParsedClass

namespace ClassFile
variable {b b' : PoolBuilder} {bytes : Bytes} {p : ParsedClass}

/-! ### Classes whose lists can be counted -/

structure Method.Fits (m : Method) : Prop where
  locals : m.locals.length ≤ 65535
  annotations : AnnotationsFit m.annotations
  params : m.paramAnnotations.length ≤ 255
  paramAnnotations : ∀ as ∈ m.paramAnnotations, AnnotationsFit as

/-- The lists of the class and of all in it are short enough to be counted. -/
structure Fits (c : ClassFile) : Prop extends Counted c where
  ofFields : ∀ f ∈ c.fields, AnnotationsFit f.annotations
  ofMethods : ∀ m ∈ c.methods, m.Fits
  annotations : AnnotationsFit c.annotations

/-! ### Annotations -/

theorem annotations_stored (hb : b.Sound) (hp : p.pool = b.pool) {as : List Annotation} (hfit : AnnotationsFit as)
    {attributes : List Attribute} (h : (annotationsAttribute as).Gives b attributes) (rest : List Attribute)
    (hrest : ∀ a ∈ rest, a.name ≠ "RuntimeVisibleAnnotations") : p.annotations (attributes ++ rest) = .ok as := by
  rcases annotationsAttribute_gives h with ⟨rfl, rfl⟩ | ⟨data, hdata, rfl⟩
  · have hnone : rest.find? (·.name == "RuntimeVisibleAnnotations") = none :=
      List.find?_eq_none.mpr fun a ha heq => hrest a ha (beq_iff_eq.mp heq)
    rw [List.nil_append, ParsedClass.annotations, Parsed.attribute?, hnone]
    rfl
  · have hfound : p.annotations ([⟨"RuntimeVisibleAnnotations", data⟩] ++ rest) = readAnnotations p.pool data := rfl
    rw [hfound, hp, readAnnotations_eq hb hfit hdata]

theorem paramAnnotations_stored (hb : b.Sound) (hp : p.pool = b.pool) {m : Method} (hfit : m.Fits)
    {n : Parsed.Method} (h : MethodStored b m n) :
    p.paramAnnotations n = .ok (if m.paramAnnotations.all (·.isEmpty) then [] else m.paramAnnotations) := by
  obtain ⟨as, ps, has, hps, hattributes⟩ := h.attributes
  have hskip : Parsed.attribute? n.attributes "RuntimeVisibleParameterAnnotations" =
      Parsed.attribute? ps "RuntimeVisibleParameterAnnotations" := by
    rw [hattributes]
    rcases annotationsAttribute_gives has with ⟨-, rfl⟩ | ⟨data, -, rfl⟩ <;> rfl
  rw [ParsedClass.paramAnnotations, hskip, hp]
  rcases paramAnnotationsAttribute_gives hps with ⟨hempty, rfl⟩ | ⟨hsome, data, hdata, rfl⟩
  · rw [hempty]
    rfl
  · rw [hsome]
    exact readParamAnnotations_eq hb hfit.params hfit.paramAnnotations hdata

/-! ### Code -/

theorem reads_locals (hb : b.Sound) {size : Nat} {vs : List LocalVariable} (h : (localsBody size vs).Gives b bytes) :
    (many (Parsed.Code.readLocal b.pool) vs.length).Reads bytes (vs.map (·.throughout size)) := by
  induction vs generalizing bytes with
  | nil =>
    obtain rfl := gives_pure.mp h
    exact .pure []
  | cons v vs ih =>
    obtain ⟨n, d, hn, hd, h⟩ := gives_named hb (fun _ _ => .bind (localsBody_interns size vs) fun _ => .pure _) h
    obtain ⟨rest, hrest, h⟩ := (gives_bind (localsBody_interns size vs) fun _ => .pure _).mp h
    obtain rfl := gives_pure.mp h
    have hread : (Parsed.Code.readLocal b.pool).Reads (Bytes.u2 0 ++ (Bytes.u2 size ++ (Bytes.u2 n.toNat ++
        (Bytes.u2 d.toNat ++ Bytes.u2 v.slot.toNat)))) (v.throughout size) :=
      (Reads.u2 0).bind ((Reads.u2 size).bind (hn.bind (hd.bind (Reads.index v.slot).map)))
    have hmany := Reads.many_cons hread (ih hrest)
    simp only [List.append_assoc] at hmany ⊢
    exact hmany

theorem code_stored (hb : b.Sound) (hp : p.pool = b.pool) {a : Assembled} {vs : List LocalVariable}
    (hcount : vs.length ≤ 65535) (hsize : a.code.length ≤ 65535) {attributes : List Attribute}
    (h : (localsAttribute a.code.length vs).Gives b attributes) :
    p.DescribesCode a vs ⟨a.maxStack, a.maxLocals, a.code, stackMapAttribute a ++ attributes⟩ := by
  have hmap : Parsed.attribute? (stackMapAttribute a ++ attributes) "StackMapTable" =
      if a.frameCount = 0 then none else some (Bytes.u2 a.frameCount.toNat ++ a.stackMap) := by
    unfold stackMapAttribute
    split
    · rcases localsAttribute_gives h with ⟨-, rfl⟩ | ⟨body, -, rfl⟩ <;> rfl
    · rfl
  have hlocals : Parsed.attribute? (stackMapAttribute a ++ attributes) "LocalVariableTable" =
      Parsed.attribute? attributes "LocalVariableTable" := by
    unfold stackMapAttribute
    split <;> rfl
  refine ⟨rfl, rfl, rfl, hsize, ?_, hmap, ?_⟩
  · rw [Parsed.Code.frameCount, hmap]
    split_ifs with hzero
    · rw [hzero]
      rfl
    · have hvalue : Bytes.value (Bytes.u2 a.frameCount.toNat) = a.frameCount.toNat := by
        rw [Bytes.u2, Bytes.value_word]
        exact Nat.mod_eq_of_lt a.frameCount.toNat_lt
      exact hvalue
  · rw [Parsed.Code.locals, hlocals, hp]
    rcases localsAttribute_gives h with ⟨rfl, rfl⟩ | ⟨body, hbody, rfl⟩
    · rfl
    · exact (Reads.counted hcount (reads_locals hb hbody)).onBytes

/-! ### The whole class -/

theorem fields_stored (hb : b.Sound) (hp : p.pool = b.pool) {fs : List Field} {gs : List Parsed.Field}
    (hfit : ∀ f ∈ fs, AnnotationsFit f.annotations) (h : List.Forall₂ (FieldStored b) fs gs) :
    List.Forall₂ p.DescribesField fs gs := by
  induction h with
  | nil => exact .nil
  | @cons f g fs gs hg _ ih =>
    obtain ⟨hf, hfs⟩ := List.forall_mem_cons.mp hfit
    have hannotations := annotations_stored hb hp hf hg.attributes [] (by simp)
    rw [List.append_nil] at hannotations
    exact .cons ⟨hg.access, hg.name, hg.descriptor, hannotations⟩ (ih hfs)

theorem method_stored (hb : b.Sound) (hp : p.pool = b.pool) {m : Method} {n : Parsed.Method} (hfit : m.Fits)
    (hsize : ∀ a, m.code = some a → a.code.length ≤ 65535) (h : MethodStored b m n) : p.DescribesMethod m n := by
  have hcode : Option.Rel (fun a c => p.DescribesCode a m.locals c) m.code n.code := by
    have hstored := h.code
    generalize n.code = d at hstored ⊢
    revert hsize hstored
    generalize m.code = code
    intro hsize hstored
    cases hstored with
    | none => exact .none
    | some hlocals => exact .some (code_stored hb hp hfit.locals (hsize _ rfl) hlocals)
  obtain ⟨as, ps, has, hps, hattributes⟩ := h.attributes
  have hother : ∀ a ∈ ps, a.name ≠ "RuntimeVisibleAnnotations" := by
    rcases paramAnnotationsAttribute_gives hps with ⟨-, rfl⟩ | ⟨-, data, -, rfl⟩ <;> simp
  have hannotations := annotations_stored hb hp hfit.annotations has ps hother
  rw [← hattributes] at hannotations
  exact ⟨h.access, h.name, h.descriptor, hcode, hannotations, paramAnnotations_stored hb hp hfit h⟩

theorem methods_stored (hb : b.Sound) (hp : p.pool = b.pool) {ms : List Method} {ns : List Parsed.Method}
    (hfit : ∀ m ∈ ms, m.Fits) (hsize : ∀ m ∈ ms, ∀ a, m.code = some a → a.code.length ≤ 65535)
    (h : List.Forall₂ (MethodStored b) ms ns) : List.Forall₂ p.DescribesMethod ms ns := by
  induction h with
  | nil => exact .nil
  | @cons m n ms ns hn _ ih =>
    obtain ⟨hm, hms⟩ := List.forall_mem_cons.mp hfit
    obtain ⟨hcode, hcodes⟩ := List.forall_mem_cons.mp hsize
    exact .cons (method_stored hb hp hm hcode hn) (ih hms hcodes)

theorem Stored.describes {c : ClassFile} (hb : b.Sound) (hfit : c.Fits)
    (hsize : ∀ m ∈ c.methods, ∀ a, m.code = some a → a.code.length ≤ 65535) (h : Stored b c p) : p.Describes c := by
  have hannotations := annotations_stored hb h.pool hfit.annotations h.attributes [] (by simp)
  rw [List.append_nil] at hannotations
  exact ⟨h.minor, h.major, h.access, h.name, h.superName, h.interfaces,
    fields_stored hb h.pool hfit.ofFields h.fields, methods_stored hb h.pool hfit.ofMethods hsize h.methods, hannotations⟩

/-- The pool that is left when bodies have been assembled one after another, some of which may have failed, and what
    has become of the others. -/
inductive Assembles : PoolBuilder → List Assembled → Prop
  | start : Assembles {} []
  | next {b b' : PoolBuilder} {bodies : List Assembled} (before : Assembles b bodies) (code : Code) (head : MethodHead)
    (stackMaps : Bool) {r : Except FormatError Assembled} (h : (code.assemble head stackMaps).on b = (r, b')) :
    Assembles b' (r.toOption.toList ++ bodies)

theorem Assembles.sound {bodies : List Assembled} (h : Assembles b bodies) :
    b.Valid ∧ ∀ a ∈ bodies, a.code.length ≤ 65535 := by
  induction h with
  | start => exact ⟨PoolBuilder.valid_empty, by simp⟩
  | next _ code head stackMaps h ih =>
    obtain ⟨hvalid, hsizes⟩ := ih
    refine ⟨(code.assemble_interns head stackMaps).valid h hvalid, fun a ha => ?_⟩
    rcases List.mem_append.mp ha with ha | ha
    · obtain rfl := toOption_eq_some.mp (Option.mem_toList.mp ha)
      obtain ⟨p, entry, flow, offsets, size, b₁, b₂, parts⟩ := Code.exists_parts h
      obtain ⟨codes, -, rfl, -⟩ := parts.getD_offsets
      exact parts.size_le
    · exact hsizes a ha

end ClassFile

/-- A class whose lists can be counted and whose code has been assembled with its pool is read back as it was written. The
    number of bytes of an attribute is a 32-bit number, so each attribute has to have less than that. -/
theorem parse_write {c : ClassFile} {b b' : PoolBuilder} {bodies : List Assembled} {bytes : Bytes} (hfits : c.Fits)
    (hassembled : ClassFile.Assembles b bodies) (hcode : ∀ m ∈ c.methods, ∀ a, m.code = some a → a ∈ bodies)
    (h : c.write.on b = (.ok bytes, b')) (hsized : c.Sized b') :
    ∃ p, ParsedClass.parse bytes = .ok p ∧ p.Describes c := by
  obtain ⟨hvalid, hsizes⟩ := hassembled.sound
  have hvalid' := ClassFile.valid_of_write hvalid h
  obtain ⟨p, hreads, hstored⟩ := ClassFile.reads_written hfits.toCounted hvalid' h hsized
  exact ⟨p, hreads.onBytes, hstored.describes hvalid'.sound hfits fun m hm a ha => hsizes a (hcode m hm a ha)⟩

/-- Tells whether a number is zero. -/
def grade : Code :=
  ⟨#[.load .int 0, .jump .ifeq ⟨0⟩, .int 70000, .op .ireturn, .mark ⟨0⟩, .op .iconst1, .op .ireturn], 1⟩

def gradeHead : MethodHead := ⟨"demo/Graded", "grade", "(I)I", true⟩

/-- A class with annotations in all places, one of them inside another. -/
def gradedClass (body : Assembled) : ClassFile where
  major := 52
  access := 0x421
  name := "demo/Graded"
  interfaces := ["java/lang/Runnable"]
  fields := [⟨2, "count", "J", [⟨"Ldemo/Mark;", [⟨"level", .long 7⟩]⟩]⟩]
  methods :=
    [{ access := 9, name := "grade", descriptor := "(I)I", code := some body, locals := [⟨"n", "I", 0⟩]
       paramAnnotations := [[⟨"Ldemo/Mark;", []⟩]]
       annotations := [⟨"Ldemo/Tag;", [⟨"ratio", .double ⟨0x3ff8000000000000⟩⟩,
         ⟨"inner", .nested ⟨"Ldemo/Mark;", [⟨"flags", .array [.scalar 90 1, .scalar 66 7]⟩]⟩⟩]⟩] },
     { access := 0x401, name := "run", descriptor := "()V", paramAnnotations := [[], []] }]
  annotations := [⟨"Ldemo/Tag;", [⟨"kind", .enum "Ldemo/Kind;" "SMALL"⟩, ⟨"text", .string "été"⟩]⟩]

theorem fits_gradedClass (body : Assembled) : (gradedClass body).Fits := by
  refine ⟨⟨by simp [gradedClass], by simp [gradedClass], by simp [gradedClass]⟩, ?_, ?_, ?_⟩
  · simp [gradedClass, ClassFile.AnnotationsFit, ClassFile.Annotation.Fits, ClassFile.elementsFit,
      ClassFile.ElementValue.Fits]
  · refine List.forall_mem_cons.mpr ⟨⟨?_, ?_, ?_, ?_⟩, List.forall_mem_singleton.mpr ⟨?_, ?_, ?_, ?_⟩⟩
    all_goals simp [ClassFile.AnnotationsFit, ClassFile.Annotation.Fits, ClassFile.elementsFit,
      ClassFile.ElementValue.Fits, ClassFile.valuesFit]
  · simp [gradedClass, ClassFile.AnnotationsFit, ClassFile.Annotation.Fits, ClassFile.elementsFit,
      ClassFile.ElementValue.Fits]

theorem gradedClass_written : (match (grade.assemble gradeHead true).on {} with
    | (.ok a, b) => match (gradedClass a).write.on b with
      | (.ok bytes, _) => decide (bytes.length < 2 ^ 32)
      | _ => false
    | _ => false) = true := by
  decide +kernel

theorem parse_write_graded : ∃ a b b' bytes p, (grade.assemble gradeHead true).on {} = (.ok a, b) ∧
    (gradedClass a).Fits ∧ (gradedClass a).write.on b = (.ok bytes, b') ∧ (gradedClass a).Sized b' ∧
    ParsedClass.parse bytes = .ok p ∧ p.Describes (gradedClass a) := by
  have hok := gradedClass_written
  split at hok
  · rename_i a b ha
    split at hok
    · rename_i bytes b' hbytes
      have hassembled : ClassFile.Assembles b _ := .next .start grade gradeHead true ha
      have hsound := (ClassFile.valid_of_write hassembled.sound.1 hbytes).sound
      have hsized := ClassFile.sized_of_length hsound hbytes (of_decide_eq_true hok)
      obtain ⟨p, hp, hd⟩ := parse_write (fits_gradedClass a) hassembled (by simp [gradedClass, Except.toOption]) hbytes
        hsized
      exact ⟨a, b, b', bytes, p, ha, fits_gradedClass a, hbytes, hsized, hp, hd⟩
    · cases hok
  · cases hok

/-! ### Sizes that do not fit -/

namespace ClassFile

/-- Arrays in arrays, as many on each level as the list says. -/
def nestedArrays : List Nat → ElementValue
  | [] => .array []
  | n :: ns => .array (.replicate n (nestedArrays ns))

def arraysBytes : List Nat → Bytes
  | [] => Bytes.u1 '['.toNat ++ Bytes.u2 0
  | n :: ns => Bytes.u1 '['.toNat ++ (Bytes.u2 n ++ (List.replicate n (arraysBytes ns)).flatten)

theorem valuesBytes_replicate {v : ElementValue} {bytes : Bytes} (h : v.bytes = pure bytes) (n : Nat) :
    valuesBytes (.replicate n v) = pure (List.replicate n bytes).flatten := by
  induction n with
  | zero => rfl
  | succ n ih => rw [List.replicate_succ, valuesBytes, h, pure_bind, ih, pure_bind, List.replicate_succ, List.flatten_cons]

/-- They are written without any work for the pool. -/
theorem bytes_nestedArrays (ns : List Nat) : (nestedArrays ns).bytes = pure (arraysBytes ns) := by
  induction ns with
  | nil => rfl
  | cons n ns ih =>
    rw [nestedArrays, ElementValue.bytes, valuesBytes_replicate ih, pure_bind, List.length_replicate, List.append_assoc]
    rfl

theorem length_arraysBytes_cons (n : Nat) (ns : List Nat) :
    (arraysBytes (n :: ns)).length = 3 + n * (arraysBytes ns).length := by
  simp only [arraysBytes, Bytes.u1, Bytes.u2, List.length_append, Bytes.length_word, List.length_flatten,
    List.map_replicate, List.sum_replicate_nat]
  omega

theorem exists_arraysBytes (n m : Nat) (ns : List Nat) : ∃ rest,
    arraysBytes ((n + 1) :: m :: ns) = Bytes.u1 '['.toNat ++ Bytes.u2 (n + 1) ++ Bytes.u1 '['.toNat ++ rest := by
  simp only [arraysBytes, List.replicate_succ, List.flatten_cons, List.append_assoc]
  exact ⟨_, rfl⟩

theorem fits_nestedArrays {ns : List Nat} (h : ∀ n ∈ ns, n ≤ 65535) : (nestedArrays ns).Fits := by
  induction ns with
  | nil => exact ⟨Nat.zero_le _, trivial⟩
  | cons n ns ih =>
    obtain ⟨hn, hns⟩ := List.forall_mem_cons.mp h
    have hall : ∀ m, valuesFit (.replicate m (nestedArrays ns)) := by
      intro m
      induction m with
      | zero => trivial
      | succ m ihm => exact ⟨ih hns, ihm⟩
    exact ⟨Nat.le_trans (Nat.le_of_eq List.length_replicate) hn, hall n⟩

/-- The annotation with what is around it in an attribute takes twice as many bytes as can be counted in 32 bits. -/
def hugeMark : Annotation := ⟨"Ldemo/Mark;", [⟨"value", nestedArrays [25073, 57099, 1]⟩]⟩

/-- The contents of the attribute, by the indices of the names in it. -/
def hugeContents (type element : UInt16) : Bytes :=
  Bytes.u2 1 ++ (Bytes.u2 type.toNat ++ (Bytes.u2 1 ++ (Bytes.u2 element.toNat ++ arraysBytes [25073, 57099, 1])))

theorem annotationsBytes_huge : annotationsBytes [hugeMark] =
    (do return hugeContents (← utf8 "Ldemo/Mark;") (← utf8 "value")) := by
  simp only [annotationsBytes, annotationsBody, hugeMark, Annotation.bytes, elementsBytes, bytes_nestedArrays,
    pure_bind, bind_assoc, List.append_nil, List.append_assoc]
  rfl

theorem length_hugeContents (type element : UInt16) : (hugeContents type element).length = 2 ^ 33 := by
  have hnone : (arraysBytes []).length = 3 := rfl
  simp only [hugeContents, List.length_append, Bytes.u2, Bytes.length_word, length_arraysBytes_cons, hnone]
  rfl

/-- A class with a field, and annotations of either. -/
def hugeClass (ofField ofClass : List Annotation) : ClassFile where
  major := 52
  access := 0x21
  name := "demo/Huge"
  fields := [⟨2, "count", "I", ofField⟩]
  annotations := ofClass

/-- What is asked of the pool, whether the field or the class has the annotation. -/
def hugeRequests : List PoolRequest :=
  [.cls "demo/Huge", .cls Name.object, .utf8 "count", .utf8 "I", .utf8 "Ldemo/Mark;", .utf8 "value",
    .utf8 "RuntimeVisibleAnnotations"]

theorem on_hugeRequests {β : Type} (k : (name base field descriptor type element kind : UInt16) → PoolM β) :
    on (do
      let name ← cls "demo/Huge"
      let base ← cls Name.object
      let field ← utf8 "count"
      let descriptor ← utf8 "I"
      let type ← utf8 "Ldemo/Mark;"
      let element ← utf8 "value"
      let kind ← utf8 "RuntimeVisibleAnnotations"
      k name base field descriptor type element kind) {} = (k 2 4 5 6 7 8 9).on (.after hugeRequests) := by
  have hnext (n : Fin 7) : (hugeRequests.get n).ask.on (.after (hugeRequests.take n)) =
      (.ok ([2, 4, 5, 6, 7, 8, 9].get n), .after (hugeRequests.take (n + 1))) := by
    rw [List.take_succ_eq_append_getElem n.isLt]
    refine PoolBuilder.on_after ?_
    revert n
    decide +kernel
  exact (on_bind_ok (hnext 0)).trans <| (on_bind_ok (hnext 1)).trans <| (on_bind_ok (hnext 2)).trans <|
    (on_bind_ok (hnext 3)).trans <| (on_bind_ok (hnext 4)).trans <| (on_bind_ok (hnext 5)).trans <|
      on_bind_ok (hnext 6)

/-- The access bits, the class and its base, no interfaces, and the field as far as its descriptor. -/
def hugeMembers : Bytes := [0, 0x21, 0, 2, 0, 4, 0, 0, 0, 1, 0, 2, 0, 5, 0, 6]

/-- The file up to the attributes of the field. -/
def hugeFront : Bytes :=
  Bytes.u4 magic ++ Bytes.u4 52 ++ (PoolBuilder.after hugeRequests).pool.bytes ++ hugeMembers

theorem write_hugeClass {ofField ofClass : List Annotation} {rest : Bytes}
    (h : (hugeClass ofField ofClass).bodyBytes.on {} = (.ok (hugeMembers ++ rest), .after hugeRequests)) :
    (hugeClass ofField ofClass).write.on {} = (.ok (hugeFront ++ rest), .after hugeRequests) := by
  rw [hugeFront, List.append_assoc _ hugeMembers]
  exact on_bind_ok h

theorem noAttributes_bind {β : Type} (k : Bytes → PoolM β) :
    (annotationsAttribute [] >>= fun as => attributesBytes as >>= k) = k (Bytes.u2 0) := by
  have hnone : annotationsAttribute [] = pure [] := rfl
  rw [hnone, pure_bind, attributesBytes, attributesBody, pure_bind, pure_bind, List.append_nil]
  rfl

section
-- The annotation is a variable here, so that none of its bytes are worked out.
variable {a : Annotation} {contents : UInt16 → UInt16 → Bytes}
  (ha : annotationsBytes [a] = do return contents (← utf8 "Ldemo/Mark;") (← utf8 "value"))
  (hlength : ∀ type element, (contents type element).length = 2 ^ 33)
include ha hlength

/-- The size of the attribute is written as 0. -/
theorem hugeAttributes_bind {β : Type} (k : Bytes → PoolM β) :
    (annotationsAttribute [a] >>= fun as => attributesBytes as >>= k) = (do
      let type ← utf8 "Ldemo/Mark;"
      let element ← utf8 "value"
      let kind ← utf8 "RuntimeVisibleAnnotations"
      k (Bytes.u2 1 ++ (Bytes.u2 kind.toNat ++ (Bytes.u4 0 ++ contents type element)))) := by
  have hsize : Bytes.u4 (2 ^ 33) = Bytes.u4 0 := by decide
  have hattribute : annotationsAttribute [a] = (do
      let data ← annotationsBytes [a]
      return [⟨"RuntimeVisibleAnnotations", data⟩]) := rfl
  rw [hattribute, ha]
  simp only [attributesBytes, attributesBody, hlength, hsize, pure_bind, bind_assoc, List.append_nil, List.append_assoc]
  rfl

theorem write_hugeClass_ofField : (hugeClass [a] []).write.on {} =
    (.ok (hugeFront ++ ([0, 1, 0, 9, 0, 0, 0, 0] ++ (contents 7 8 ++ [0, 0, 0, 0]))), .after hugeRequests) := by
  apply write_hugeClass
  simp only [hugeClass, bodyBytes, classBytes, sequence, Field.bytes, hugeAttributes_bind ha hlength, noAttributes_bind,
    pure_bind, bind_assoc]
  refine (on_hugeRequests _).trans ?_
  simp only [on_pure, List.append_assoc, List.append_nil, List.length_singleton]
  rfl

theorem write_hugeClass_ofClass : (hugeClass [] [a]).write.on {} =
    (.ok (hugeFront ++ ([0, 0, 0, 0, 0, 1, 0, 9, 0, 0, 0, 0] ++ contents 7 8)), .after hugeRequests) := by
  apply write_hugeClass
  simp only [hugeClass, bodyBytes, classBytes, sequence, Field.bytes, hugeAttributes_bind ha hlength, noAttributes_bind,
    pure_bind, bind_assoc]
  refine (on_hugeRequests _).trans ?_
  simp only [on_pure, List.append_assoc, List.append_nil]
  rfl

end

theorem annotationsFit_huge : AnnotationsFit [hugeMark] :=
  ⟨by decide, List.forall_mem_singleton.mpr ⟨by decide, fits_nestedArrays (by decide), trivial⟩⟩

theorem fits_hugeClass {ofField ofClass : List Annotation} (hfield : AnnotationsFit ofField)
    (hclass : AnnotationsFit ofClass) : (hugeClass ofField ofClass).Fits :=
  ⟨⟨by simp [hugeClass], by simp [hugeClass], by simp [hugeClass]⟩, List.forall_mem_singleton.mpr hfield,
    List.forall_mem_nil _, hclass⟩

/-- The file up to where the annotations of the field are taken for a method with attributes. -/
def hugeMisread : Bytes :=
  hugeFront ++ ([0, 1, 0, 9, 0, 0, 0, 0] ++ [0, 1, 0, 7, 0, 1, 0, 8, 0x5b, 0x61, 0xf1, 0x5b])

theorem parse_hugeMisread (rest : Bytes) :
    ParsedClass.parse (hugeMisread ++ rest) = .error (.malformed (.notUtf8 61787 none)) := by
  have hfront : (ParsedClass.parse hugeMisread).map (fun _ => ()) = .error (.malformed (.notUtf8 61787 none)) := by
    decide +kernel
  cases hparse : ParsedClass.parse hugeMisread with
  | ok p =>
    rw [hparse] at hfront
    cases hfront
  | error e =>
    rw [hparse] at hfront
    cases hfront
    refine (Parsed.sequential_readClassFile.onBytes_append (fun n hn => ?_) rest).trans hparse
    cases hparse.symm.trans hn

/-- The annotations of the field come to twice the bytes that can be counted. Their size is written as 0, and the class is
    not read back. -/
theorem hugeField_unreadable : (hugeClass [hugeMark] []).Fits ∧ Assembles {} [] ∧
    ∃ rest, (hugeClass [hugeMark] []).write.on {} = (.ok (hugeMisread ++ rest), .after hugeRequests) ∧
      ∀ more, ParsedClass.parse (hugeMisread ++ more) = .error (.malformed (.notUtf8 61787 none)) := by
  obtain ⟨rest, hrest⟩ := exists_arraysBytes 25072 57099 [1]
  have hcontents : hugeContents 7 8 = [0, 1, 0, 7, 0, 1, 0, 8, 0x5b, 0x61, 0xf1, 0x5b] ++ rest := by
    rw [hugeContents, hrest]
    rfl
  have hwrite := write_hugeClass_ofField annotationsBytes_huge length_hugeContents
  rw [hcontents, List.append_assoc, ← List.append_assoc [0, 1, 0, 9, 0, 0, 0, 0], ← List.append_assoc hugeFront] at hwrite
  exact ⟨fits_hugeClass annotationsFit_huge ⟨by decide, List.forall_mem_nil _⟩, .start, _, hwrite, parse_hugeMisread⟩

end ClassFile

end Classwright
