import Classwright.ClassFile.Parsed
import Classwright.Proofs.ClassFile.Annotations

/-! # Reading class files back

Attributes are written with the number of their bytes, so a class file is taken apart whatever its attributes hold. What
is left of a class is said by the attributes that were written for it. -/

namespace Classwright

open PoolM Reader

namespace ClassFile
variable {b : PoolBuilder} {bytes : Bytes}

/-! ### Attributes -/

theorem attributesBody_interns (as : List Attribute) : (attributesBody as).Interns := by
  induction as with
  | nil => exact .pure _
  | cons a as ih => exact .bind (.utf8 a.name) fun _ => .bind ih fun _ => .pure _

theorem attributesBytes_interns (as : List Attribute) : (attributesBytes as).Interns :=
  .bind (attributesBody_interns as) fun _ => .pure _

theorem reads_attributesBody (hb : b.Sound) {as : List Attribute} (h : (attributesBody as).Gives b bytes)
    (hsizes : ∀ a ∈ as, a.data.length < 2 ^ 32) : (many (Parsed.readAttribute b.pool) as.length).Reads bytes as := by
  induction as generalizing bytes with
  | nil =>
    obtain rfl := gives_pure.mp h
    exact .pure []
  | cons a as ih =>
    obtain ⟨name, hname, h⟩ := (gives_bind (.utf8 a.name) fun _ => .bind (attributesBody_interns as) fun _ => .pure _).mp h
    obtain ⟨rest, hrest, h⟩ := (gives_bind (attributesBody_interns as) fun _ => .pure _).mp h
    obtain rfl := gives_pure.mp h
    obtain ⟨hsize, hsizes⟩ := List.forall_mem_cons.mp hsizes
    have hread : (Parsed.readAttribute b.pool).Reads
        (Bytes.u2 name.toNat ++ (Bytes.u4 a.data.length ++ a.data)) a :=
      (hname.reads_utf8 hb).bind ((Reads.u4 hsize).bind (Reads.take a.data).map)
    rw [List.append_assoc (Bytes.u2 _)]
    exact Reads.many_cons hread (ih hrest hsizes)

theorem reads_attributes (hb : b.Sound) {as : List Attribute} (hcount : as.length ≤ 65535)
    (h : (attributesBytes as).Gives b bytes) (hsizes : ∀ a ∈ as, a.data.length < 2 ^ 32) :
    (Parsed.readAttributes b.pool).Reads bytes as := by
  obtain ⟨body, hbody, h⟩ := (gives_bind (attributesBody_interns as) fun _ => .pure _).mp h
  obtain rfl := gives_pure.mp h
  exact Reads.counted hcount (reads_attributesBody hb hbody hsizes)

theorem length_data_le_body {as : List Attribute} (h : (attributesBody as).Gives b bytes) :
    ∀ a ∈ as, a.data.length ≤ bytes.length := by
  induction as generalizing bytes with
  | nil => simp
  | cons a as ih =>
    obtain ⟨name, -, h⟩ := (gives_bind (.utf8 a.name) fun _ => .bind (attributesBody_interns as) fun _ => .pure _).mp h
    obtain ⟨rest, hrest, h⟩ := (gives_bind (attributesBody_interns as) fun _ => .pure _).mp h
    obtain rfl := gives_pure.mp h
    simp only [List.length_append]
    refine List.forall_mem_cons.mpr ⟨by omega, fun a' ha' => ?_⟩
    have := ih hrest a' ha'
    omega

/-- No attribute is larger than what it is written in. -/
theorem length_data_le {as : List Attribute} (h : (attributesBytes as).Gives b bytes) :
    ∀ a ∈ as, a.data.length ≤ bytes.length := by
  obtain ⟨body, hbody, h⟩ := (gives_bind (attributesBody_interns as) fun _ => .pure _).mp h
  obtain rfl := gives_pure.mp h
  intro a ha
  rw [List.length_append]
  exact Nat.le_trans (length_data_le_body hbody a ha) (Nat.le_add_left _ _)

/-- The sizes of the attributes are numbers that can be written. -/
def AttributesSized (b : PoolBuilder) (attributes : PoolM (List Attribute)) : Prop :=
  ∀ as, attributes.Gives b as → ∀ a ∈ as, a.data.length < 2 ^ 32

theorem attributesSized_of_length {attributes : PoolM (List Attribute)} {as all : List Attribute}
    (h : attributes.Gives b as) (hsubset : as ⊆ all) (hall : (attributesBytes all).Gives b bytes)
    (hsize : bytes.length < 2 ^ 32) : AttributesSized b attributes := by
  intro as' h' a ha
  obtain rfl := h'.unique h
  exact Nat.lt_of_le_of_lt (length_data_le hall a (hsubset ha)) hsize

theorem annotationsAttribute_interns (as : List Annotation) : (annotationsAttribute as).Interns :=
  .ite (.pure _) (.bind (annotationsBytes_interns as) fun _ => .pure _)

theorem paramAnnotationsAttribute_interns (ass : List (List Annotation)) : (paramAnnotationsAttribute ass).Interns :=
  .ite (.pure _) (.bind (paramAnnotationsBytes_interns ass) fun _ => .pure _)

/-- There is an attribute just if there is an annotation. -/
theorem annotationsAttribute_gives {as : List Annotation} {attributes : List Attribute}
    (h : (annotationsAttribute as).Gives b attributes) :
    as = [] ∧ attributes = [] ∨
      ∃ data, (annotationsBytes as).Gives b data ∧ attributes = [⟨"RuntimeVisibleAnnotations", data⟩] := by
  unfold annotationsAttribute at h
  split at h
  · rename_i hempty
    exact .inl ⟨List.isEmpty_iff.mp hempty, gives_pure.mp h⟩
  · obtain ⟨data, hdata, h⟩ := (gives_bind (annotationsBytes_interns as) fun _ => .pure _).mp h
    exact .inr ⟨data, hdata, gives_pure.mp h⟩

theorem paramAnnotationsAttribute_gives {ass : List (List Annotation)} {attributes : List Attribute}
    (h : (paramAnnotationsAttribute ass).Gives b attributes) :
    ass.all (·.isEmpty) = true ∧ attributes = [] ∨
      ass.all (·.isEmpty) = false ∧ ∃ data, (paramAnnotationsBytes ass).Gives b data ∧
        attributes = [⟨"RuntimeVisibleParameterAnnotations", data⟩] := by
  unfold paramAnnotationsAttribute at h
  split at h
  · rename_i hempty
    exact .inl ⟨hempty, gives_pure.mp h⟩
  · rename_i hsome
    obtain ⟨data, hdata, h⟩ := (gives_bind (paramAnnotationsBytes_interns ass) fun _ => .pure _).mp h
    exact .inr ⟨Bool.eq_false_iff.mpr hsome, data, hdata, gives_pure.mp h⟩

/-! ### Code -/

theorem localsBody_interns (size : Nat) (vs : List LocalVariable) : (localsBody size vs).Interns := by
  induction vs with
  | nil => exact .pure _
  | cons v vs ih =>
    exact .bind (.utf8 v.name) fun _ => .bind (.utf8 v.descriptor) fun _ => .bind ih fun _ => .pure _

theorem localsAttribute_interns (size : Nat) (vs : List LocalVariable) : (localsAttribute size vs).Interns :=
  .ite (.pure _) (.bind (localsBody_interns size vs) fun _ => .pure _)

theorem codeBytes_interns (code : Assembled) (vs : List LocalVariable) : (codeBytes code vs).Interns :=
  .bind (localsAttribute_interns _ vs) fun _ => .bind (attributesBytes_interns _) fun _ => .pure _

theorem localsAttribute_gives {size : Nat} {vs : List LocalVariable} {attributes : List Attribute}
    (h : (localsAttribute size vs).Gives b attributes) :
    vs = [] ∧ attributes = [] ∨ ∃ body, (localsBody size vs).Gives b body ∧
      attributes = [⟨"LocalVariableTable", Bytes.u2 vs.length ++ body⟩] := by
  unfold localsAttribute at h
  split at h
  · rename_i hempty
    exact .inl ⟨List.isEmpty_iff.mp hempty, gives_pure.mp h⟩
  · obtain ⟨body, hbody, h⟩ := (gives_bind (localsBody_interns size vs) fun _ => .pure _).mp h
    exact .inr ⟨body, hbody, gives_pure.mp h⟩

/-- What is left of code and its variables. -/
inductive CodeStored (b : PoolBuilder) (vs : List LocalVariable) : Option Assembled → Option Parsed.Code → Prop
  | none : CodeStored b vs none none
  | some {code : Assembled} {attributes : List Attribute} (h : (localsAttribute code.code.length vs).Gives b attributes) :
    CodeStored b vs (some code)
      (some ⟨code.maxStack, code.maxLocals, code.code, stackMapAttribute code ++ attributes⟩)

theorem length_stackMapAttribute (code : Assembled) : (stackMapAttribute code).length ≤ 1 := by
  unfold stackMapAttribute
  split <;> simp

theorem reads_code (hb : b.Sound) {code : Assembled} {vs : List LocalVariable} (h : (codeBytes code vs).Gives b bytes)
    (hsize : bytes.length < 2 ^ 32) :
    ∃ c, CodeStored b vs (some code) (some c) ∧ (Parsed.readCode b.pool).Reads bytes c := by
  obtain ⟨locals, hlocals, h⟩ :=
    (gives_bind (localsAttribute_interns _ vs) fun _ => .bind (attributesBytes_interns _) fun _ => .pure _).mp h
  obtain ⟨attributes, hattributes, h⟩ := (gives_bind (attributesBytes_interns _) fun _ => .pure _).mp h
  obtain rfl := gives_pure.mp h
  have hcount : (stackMapAttribute code ++ locals).length ≤ 65535 := by
    have hmap := length_stackMapAttribute code
    have hone : locals.length ≤ 1 := by
      rcases localsAttribute_gives hlocals with ⟨-, rfl⟩ | ⟨body, -, rfl⟩ <;> simp
    rw [List.length_append]
    omega
  refine ⟨_, .some hlocals, ?_⟩
  simp only [List.length_append] at hsize
  have hsizes : ∀ a ∈ stackMapAttribute code ++ locals, a.data.length < 2 ^ 32 := fun a ha => by
    have := length_data_le hattributes a ha
    omega
  simp only [List.append_assoc]
  exact (Reads.index _).bind ((Reads.index _).bind ((Reads.u4 (by omega)).bind ((Reads.take _).bind
    ((Reads.u2 0).bind ((Reads.take []).bind (reads_attributes hb hcount hattributes hsizes).map)))))

/-! ### Fields and methods -/

/-- What is left of a field. -/
structure FieldStored (b : PoolBuilder) (f : Field) (g : Parsed.Field) : Prop where
  access : g.access = f.access
  name : g.name = f.name
  descriptor : g.descriptor = f.descriptor
  attributes : (annotationsAttribute f.annotations).Gives b g.attributes

/-- What is left of a method. -/
structure MethodStored (b : PoolBuilder) (m : Method) (n : Parsed.Method) : Prop where
  access : n.access = m.access
  name : n.name = m.name
  descriptor : n.descriptor = m.descriptor
  code : CodeStored b m.locals m.code n.code
  attributes : ∃ as ps, (annotationsAttribute m.annotations).Gives b as ∧
    (paramAnnotationsAttribute m.paramAnnotations).Gives b ps ∧ n.attributes = as ++ ps

theorem length_codeAttribute {code : Option Assembled} {vs : List LocalVariable} {attributes : List Attribute}
    (h : (codeAttribute code vs).Gives b attributes) : attributes.length ≤ 1 := by
  cases code with
  | none =>
    obtain rfl := gives_pure.mp h
    simp
  | some code =>
    obtain ⟨data, -, h⟩ := (gives_bind (codeBytes_interns code vs) fun _ => .pure _).mp h
    obtain rfl := gives_pure.mp h
    simp

theorem length_annotationsAttribute {as : List Annotation} {attributes : List Attribute}
    (h : (annotationsAttribute as).Gives b attributes) : attributes.length ≤ 1 := by
  rcases annotationsAttribute_gives h with ⟨-, rfl⟩ | ⟨data, -, rfl⟩ <;> simp

theorem Field.interns (f : Field) : f.bytes.Interns :=
  .bind (.utf8 f.name) fun _ => .bind (.utf8 f.descriptor) fun _ => .bind (annotationsAttribute_interns _) fun _ =>
    .bind (attributesBytes_interns _) fun _ => .pure _

theorem codeAttribute_interns (code : Option Assembled) (vs : List LocalVariable) : (codeAttribute code vs).Interns := by
  cases code with
  | none => exact .pure _
  | some code => exact .bind (codeBytes_interns code vs) fun _ => .pure _

theorem Method.interns (m : Method) : m.bytes.Interns :=
  .bind (.utf8 m.name) fun _ => .bind (.utf8 m.descriptor) fun _ => .bind (codeAttribute_interns _ _) fun _ =>
    .bind (annotationsAttribute_interns _) fun _ => .bind (paramAnnotationsAttribute_interns _) fun _ =>
      .bind (attributesBytes_interns _) fun _ => .pure _

/-- Members begin with their access bits, their name and their descriptor. -/
theorem gives_named (hb : b.Sound) {name descriptor : String} {k : UInt16 → UInt16 → PoolM Bytes}
    (hk : ∀ n d, (k n d).Interns)
    (h : Gives (do let n ← utf8 name; let d ← utf8 descriptor; k n d) b bytes) :
    ∃ n d : UInt16, b.pool.readUtf8.Reads (Bytes.u2 n.toNat) name ∧ b.pool.readUtf8.Reads (Bytes.u2 d.toNat) descriptor ∧
      (k n d).Gives b bytes := by
  obtain ⟨n, hn, h⟩ := (gives_bind (.utf8 name) fun _ => .bind (.utf8 descriptor) fun _ => hk _ _).mp h
  obtain ⟨d, hd, h⟩ := (gives_bind (.utf8 descriptor) fun _ => hk _ _).mp h
  exact ⟨n, d, hn.reads_utf8 hb, hd.reads_utf8 hb, h⟩

theorem Field.bytes_gives (hb : b.Sound) {f : Field} (h : f.bytes.Gives b bytes) :
    ∃ (n d : UInt16) (as : List Attribute) (attributes : Bytes), b.pool.readUtf8.Reads (Bytes.u2 n.toNat) f.name ∧
      b.pool.readUtf8.Reads (Bytes.u2 d.toNat) f.descriptor ∧ (annotationsAttribute f.annotations).Gives b as ∧
      (attributesBytes as).Gives b attributes ∧
      bytes = Bytes.u2 f.access.toNat ++ (Bytes.u2 n.toNat ++ (Bytes.u2 d.toNat ++ attributes)) := by
  obtain ⟨n, d, hn, hd, h⟩ := gives_named hb
    (fun _ _ => .bind (annotationsAttribute_interns _) fun _ => .bind (attributesBytes_interns _) fun _ => .pure _) h
  obtain ⟨as, has, h⟩ :=
    (gives_bind (annotationsAttribute_interns _) fun _ => .bind (attributesBytes_interns _) fun _ => .pure _).mp h
  obtain ⟨attributes, hattributes, h⟩ := (gives_bind (attributesBytes_interns _) fun _ => .pure _).mp h
  obtain rfl := gives_pure.mp h
  exact ⟨n, d, as, attributes, hn, hd, has, hattributes, by simp only [List.append_assoc]⟩

theorem reads_field (hb : b.Sound) {f : Field} (h : f.bytes.Gives b bytes)
    (hsized : AttributesSized b (annotationsAttribute f.annotations)) :
    ∃ g, FieldStored b f g ∧ (Parsed.readField b.pool).Reads bytes g := by
  obtain ⟨n, d, as, attributes, hn, hd, has, hattributes, rfl⟩ := f.bytes_gives hb h
  have hcount : as.length ≤ 65535 := Nat.le_trans (length_annotationsAttribute has) (by decide)
  refine ⟨⟨f.access, f.name, f.descriptor, as⟩, ⟨rfl, rfl, rfl, has⟩, ?_⟩
  exact (Reads.index _).bind (hn.bind (hd.bind (reads_attributes hb hcount hattributes (hsized as has)).map))

theorem Field.sized_of_length (hb : b.Sound) {f : Field} (h : f.bytes.Gives b bytes) (hsize : bytes.length < 2 ^ 32) :
    AttributesSized b (annotationsAttribute f.annotations) := by
  obtain ⟨n, d, as, attributes, -, -, has, hattributes, rfl⟩ := f.bytes_gives hb h
  simp only [List.length_append] at hsize
  exact attributesSized_of_length has (List.Subset.refl as) hattributes (by omega)

/-- The code is found among the attributes of a method, and the others are kept. -/
theorem codeAttribute_gives (hb : b.Sound) {code : Option Assembled} {vs : List LocalVariable}
    {front rest : List Attribute} (h : (codeAttribute code vs).Gives b front)
    (hsize : ∀ a ∈ front, a.data.length < 2 ^ 32) (hrest : ∀ a ∈ rest, a.name ≠ "Code") :
    ∃ c, CodeStored b vs code c ∧ Parsed.readMethodCode b.pool (front ++ rest) = .ok c ∧
      (front ++ rest).eraseP (·.name == "Code") = rest := by
  have hother : ∀ a ∈ rest, ¬(a.name == "Code") = true := fun a ha heq => hrest a ha (beq_iff_eq.mp heq)
  cases code with
  | none =>
    obtain rfl := gives_pure.mp h
    refine ⟨none, .none, ?_, ?_⟩
    · rw [List.nil_append, Parsed.readMethodCode, Parsed.attribute?, List.find?_eq_none.mpr hother]
      rfl
    · rw [List.nil_append, List.eraseP_of_forall_not hother]
  | some code =>
    obtain ⟨data, hdata, h⟩ := (gives_bind (codeBytes_interns code vs) fun _ => .pure _).mp h
    obtain rfl := gives_pure.mp h
    obtain ⟨c, hc, hread⟩ := reads_code hb hdata (hsize _ List.mem_cons_self)
    refine ⟨some c, hc, ?_, rfl⟩
    have hcode : Parsed.readMethodCode b.pool ([⟨"Code", data⟩] ++ rest) =
        ((Parsed.readCode b.pool).onBytes data).map some := rfl
    rw [hcode, hread.onBytes]
    rfl

/-- The sizes of the attributes of a method can be written. -/
structure Method.Sized (b : PoolBuilder) (m : Method) : Prop where
  code : AttributesSized b (codeAttribute m.code m.locals)
  annotations : AttributesSized b (annotationsAttribute m.annotations)
  paramAnnotations : AttributesSized b (paramAnnotationsAttribute m.paramAnnotations)

theorem Method.bytes_gives (hb : b.Sound) {m : Method} (h : m.bytes.Gives b bytes) :
    ∃ (n d : UInt16) (code as ps : List Attribute) (attributes : Bytes),
      b.pool.readUtf8.Reads (Bytes.u2 n.toNat) m.name ∧ b.pool.readUtf8.Reads (Bytes.u2 d.toNat) m.descriptor ∧
      (codeAttribute m.code m.locals).Gives b code ∧ (annotationsAttribute m.annotations).Gives b as ∧
      (paramAnnotationsAttribute m.paramAnnotations).Gives b ps ∧ (attributesBytes (code ++ (as ++ ps))).Gives b attributes ∧
      bytes = Bytes.u2 m.access.toNat ++ (Bytes.u2 n.toNat ++ (Bytes.u2 d.toNat ++ attributes)) := by
  obtain ⟨n, d, hn, hd, h⟩ := gives_named hb (fun _ _ => .bind (codeAttribute_interns _ _) fun _ =>
    .bind (annotationsAttribute_interns _) fun _ => .bind (paramAnnotationsAttribute_interns _) fun _ =>
      .bind (attributesBytes_interns _) fun _ => .pure _) h
  obtain ⟨code, hcode, h⟩ := (gives_bind (codeAttribute_interns _ _) fun _ =>
    .bind (annotationsAttribute_interns _) fun _ => .bind (paramAnnotationsAttribute_interns _) fun _ =>
      .bind (attributesBytes_interns _) fun _ => .pure _).mp h
  obtain ⟨as, has, h⟩ := (gives_bind (annotationsAttribute_interns _) fun _ =>
    .bind (paramAnnotationsAttribute_interns _) fun _ => .bind (attributesBytes_interns _) fun _ => .pure _).mp h
  obtain ⟨ps, hps, h⟩ :=
    (gives_bind (paramAnnotationsAttribute_interns _) fun _ => .bind (attributesBytes_interns _) fun _ => .pure _).mp h
  obtain ⟨attributes, hattributes, h⟩ := (gives_bind (attributesBytes_interns _) fun _ => .pure _).mp h
  obtain rfl := gives_pure.mp h
  rw [List.append_assoc code] at hattributes
  exact ⟨n, d, code, as, ps, attributes, hn, hd, hcode, has, hps, hattributes, by simp only [List.append_assoc]⟩

theorem reads_method (hb : b.Sound) {m : Method} (h : m.bytes.Gives b bytes) (hsized : m.Sized b) :
    ∃ n, MethodStored b m n ∧ (Parsed.readMethod b.pool).Reads bytes n := by
  obtain ⟨n, d, code, as, ps, attributes, hn, hd, hcode, has, hps, hattributes, rfl⟩ := m.bytes_gives hb h
  have hother : ∀ a ∈ as ++ ps, a.name ≠ "Code" := by
    rcases annotationsAttribute_gives has with ⟨-, rfl⟩ | ⟨data, -, rfl⟩ <;>
      rcases paramAnnotationsAttribute_gives hps with ⟨-, rfl⟩ | ⟨-, data, -, rfl⟩ <;> simp
  have hcount : (code ++ (as ++ ps)).length ≤ 65535 := by
    have hone := length_codeAttribute hcode
    have hone' := length_annotationsAttribute has
    have hone'' : ps.length ≤ 1 := by
      rcases paramAnnotationsAttribute_gives hps with ⟨-, rfl⟩ | ⟨-, data, -, rfl⟩ <;> simp
    simp only [List.length_append]
    omega
  have hsizes : ∀ a ∈ code ++ (as ++ ps), a.data.length < 2 ^ 32 :=
    List.forall_mem_append.mpr ⟨hsized.code code hcode,
      List.forall_mem_append.mpr ⟨hsized.annotations as has, hsized.paramAnnotations ps hps⟩⟩
  obtain ⟨c, hc, hfound, herase⟩ := codeAttribute_gives hb hcode (hsized.code code hcode) hother
  refine ⟨⟨m.access, m.name, m.descriptor, c, as ++ ps⟩, ⟨rfl, rfl, rfl, hc, as, ps, has, hps, rfl⟩, ?_⟩
  refine (Reads.index _).bind (hn.bind (hd.bind ((reads_attributes hb hcount hattributes hsizes).last ?_)))
  rw [herase]
  exact (Reads.ofExcept hfound).map

theorem Method.sized_of_length (hb : b.Sound) {m : Method} (h : m.bytes.Gives b bytes) (hsize : bytes.length < 2 ^ 32) :
    m.Sized b := by
  obtain ⟨n, d, code, as, ps, attributes, -, -, hcode, has, hps, hattributes, rfl⟩ := m.bytes_gives hb h
  simp only [List.length_append] at hsize
  have hlt : attributes.length < 2 ^ 32 := by omega
  exact ⟨attributesSized_of_length hcode (List.subset_append_left _ _) hattributes hlt,
    attributesSized_of_length has (List.subset_append_of_subset_right _ (List.subset_append_left _ _)) hattributes hlt,
    attributesSized_of_length hps (List.subset_append_of_subset_right _ (List.subset_append_right _ _)) hattributes hlt⟩

/-! ### Classes -/

theorem classBytes_interns (name : String) : (classBytes name).Interns := .bind (.cls name) fun _ => .pure _

theorem reads_class (hb : b.Sound) {name : String} (h : (classBytes name).Gives b bytes) :
    b.pool.readClass.Reads bytes name := by
  obtain ⟨i, hi, h⟩ := (gives_bind (.cls name) fun _ => .pure _).mp h
  obtain rfl := gives_pure.mp h
  exact hi.reads_class hb

/-- The class that another is based on. -/
def superBytes (name : Option String) : PoolM Bytes :=
  match name with
  | some s => classBytes s
  | none => pure (Bytes.u2 0)

theorem superBytes_interns (name : Option String) : (superBytes name).Interns := by
  cases name with
  | none => exact .pure _
  | some name => exact classBytes_interns name

theorem reads_super (hb : b.Sound) (hw : b.pool.Writable) {name : Option String} (h : (superBytes name).Gives b bytes) :
    b.pool.readClass?.Reads bytes name := by
  cases name with
  | none =>
    obtain rfl := gives_pure.mp h
    exact reads_noClass b.pool
  | some name =>
    obtain ⟨i, hi, h⟩ := (gives_bind (.cls name) fun _ => .pure _).mp h
    obtain rfl := gives_pure.mp h
    exact hi.reads_class? hb hw

/-- What is left of a class in a file with the pool of `b`. -/
structure Stored (b : PoolBuilder) (c : ClassFile) (p : ParsedClass) : Prop where
  minor : p.minor = c.minor
  major : p.major = c.major
  pool : p.pool = b.pool
  access : p.access = c.access
  name : p.name = c.name
  superName : p.superName = c.superName
  interfaces : p.interfaces = c.interfaces
  fields : List.Forall₂ (FieldStored b) c.fields p.fields
  methods : List.Forall₂ (MethodStored b) c.methods p.methods
  attributes : (annotationsAttribute c.annotations).Gives b p.attributes

/-- What follows the names of a class and of its base. -/
def membersBytes (c : ClassFile) (front : Bytes) : PoolM Bytes := do
  let interfaces ← sequence classBytes c.interfaces
  let fields ← sequence Field.bytes c.fields
  let methods ← sequence Method.bytes c.methods
  let annotations ← annotationsAttribute c.annotations
  let attributes ← attributesBytes annotations
  return front ++ Bytes.u2 c.interfaces.length ++ interfaces ++
    Bytes.u2 c.fields.length ++ fields ++
    Bytes.u2 c.methods.length ++ methods ++ attributes

theorem bodyBytes_eq (c : ClassFile) : c.bodyBytes = (do
    let name ← classBytes c.name
    let superName ← superBytes c.superName
    c.membersBytes (Bytes.u2 c.access.toNat ++ name ++ superName)) := by
  unfold bodyBytes superBytes
  cases c.superName <;> rfl

theorem membersBytes_interns (c : ClassFile) (front : Bytes) : (c.membersBytes front).Interns :=
  .bind (sequence_interns classBytes_interns _) fun _ => .bind (sequence_interns Field.interns _) fun _ =>
    .bind (sequence_interns Method.interns _) fun _ => .bind (annotationsAttribute_interns _) fun _ =>
      .bind (attributesBytes_interns _) fun _ => .pure _

theorem bodyBytes_interns (c : ClassFile) : c.bodyBytes.Interns := by
  rw [bodyBytes_eq]
  exact .bind (classBytes_interns _) fun _ => .bind (superBytes_interns _) fun _ => c.membersBytes_interns _

theorem membersBytes_gives {c : ClassFile} {front : Bytes} (h : (c.membersBytes front).Gives b bytes) :
    ∃ interfaces fields methods annotations attributes, (sequence classBytes c.interfaces).Gives b interfaces ∧
      (sequence Field.bytes c.fields).Gives b fields ∧ (sequence Method.bytes c.methods).Gives b methods ∧
      (annotationsAttribute c.annotations).Gives b annotations ∧ (attributesBytes annotations).Gives b attributes ∧
      bytes = front ++ Bytes.u2 c.interfaces.length ++ interfaces ++ Bytes.u2 c.fields.length ++ fields ++
        Bytes.u2 c.methods.length ++ methods ++ attributes := by
  obtain ⟨interfaces, hinterfaces, h⟩ := (gives_bind (sequence_interns classBytes_interns _) fun _ =>
    .bind (sequence_interns Field.interns _) fun _ => .bind (sequence_interns Method.interns _) fun _ =>
      .bind (annotationsAttribute_interns _) fun _ => .bind (attributesBytes_interns _) fun _ => .pure _).mp h
  obtain ⟨fields, hfields, h⟩ := (gives_bind (sequence_interns Field.interns _) fun _ =>
    .bind (sequence_interns Method.interns _) fun _ => .bind (annotationsAttribute_interns _) fun _ =>
      .bind (attributesBytes_interns _) fun _ => .pure _).mp h
  obtain ⟨methods, hmethods, h⟩ := (gives_bind (sequence_interns Method.interns _) fun _ =>
    .bind (annotationsAttribute_interns _) fun _ => .bind (attributesBytes_interns _) fun _ => .pure _).mp h
  obtain ⟨annotations, hannotations, h⟩ :=
    (gives_bind (annotationsAttribute_interns _) fun _ => .bind (attributesBytes_interns _) fun _ => .pure _).mp h
  obtain ⟨attributes, hattributes, h⟩ := (gives_bind (attributesBytes_interns _) fun _ => .pure _).mp h
  exact ⟨interfaces, fields, methods, annotations, attributes, hinterfaces, hfields, hmethods, hannotations, hattributes,
    gives_pure.mp h⟩

/-- The lists of a class are short enough to be counted. -/
structure Counted (c : ClassFile) : Prop where
  interfaces : c.interfaces.length ≤ 65535
  fields : c.fields.length ≤ 65535
  methods : c.methods.length ≤ 65535

theorem write_eq_ok {c : ClassFile} {b b' : PoolBuilder} (h : c.write.on b = (.ok bytes, b')) :
    ∃ body, c.bodyBytes.on b = (.ok body, b') ∧
      bytes = Bytes.u4 magic ++ Bytes.u2 c.minor.toNat ++ Bytes.u2 c.major.toNat ++ b'.pool.bytes ++ body := by
  obtain ⟨body, b₁, hbody, h⟩ := on_bind_eq_ok.mp h
  cases h
  exact ⟨body, hbody, rfl⟩

/-- The sizes of all attributes of a class can be written. -/
structure Sized (b : PoolBuilder) (c : ClassFile) : Prop where
  fields : ∀ f ∈ c.fields, AttributesSized b (annotationsAttribute f.annotations)
  methods : ∀ m ∈ c.methods, m.Sized b
  annotations : AttributesSized b (annotationsAttribute c.annotations)

/-- What is written for a class, by the pool that it leaves. -/
theorem write_gives {c : ClassFile} {b b' : PoolBuilder} (h : c.write.on b = (.ok bytes, b')) :
    ∃ name super interfaces fields methods annotations attributes, (classBytes c.name).Gives b' name ∧
      (superBytes c.superName).Gives b' super ∧ (sequence classBytes c.interfaces).Gives b' interfaces ∧
      (sequence Field.bytes c.fields).Gives b' fields ∧ (sequence Method.bytes c.methods).Gives b' methods ∧
      (annotationsAttribute c.annotations).Gives b' annotations ∧ (attributesBytes annotations).Gives b' attributes ∧
      bytes = Bytes.u4 magic ++ (Bytes.u2 c.minor.toNat ++ (Bytes.u2 c.major.toNat ++ (b'.pool.bytes ++
        (Bytes.u2 c.access.toNat ++ (name ++ (super ++ ((Bytes.u2 c.interfaces.length ++ interfaces) ++
          ((Bytes.u2 c.fields.length ++ fields) ++ ((Bytes.u2 c.methods.length ++ methods) ++ attributes))))))))) := by
  obtain ⟨body, hbody, rfl⟩ := write_eq_ok h
  have hgives := c.bodyBytes_interns.gives hbody
  rw [bodyBytes_eq] at hgives
  obtain ⟨name, hname, hgives⟩ :=
    (gives_bind (classBytes_interns _) fun _ => .bind (superBytes_interns _) fun _ => c.membersBytes_interns _).mp hgives
  obtain ⟨super, hsuper, hgives⟩ := (gives_bind (superBytes_interns _) fun _ => c.membersBytes_interns _).mp hgives
  obtain ⟨interfaces, fields, methods, annotations, attributes, hinterfaces, hfields, hmethods, hannotations, hattributes,
    rfl⟩ := membersBytes_gives hgives
  exact ⟨name, super, interfaces, fields, methods, annotations, attributes, hname, hsuper, hinterfaces, hfields, hmethods,
    hannotations, hattributes, by simp only [List.append_assoc]⟩

/-- A class that was written is taken apart by the pool that it leaves, whatever follows it. -/
theorem reads_written {c : ClassFile} (hc : c.Counted) {b b' : PoolBuilder} (hb' : b'.Valid)
    (h : c.write.on b = (.ok bytes, b')) (hsized : c.Sized b') :
    ∃ p, Parsed.readClassFile.Reads bytes p ∧ Stored b' c p := by
  obtain ⟨hsound, hwritable⟩ := hb'
  obtain ⟨name, super, interfaces, fields, methods, annotations, attributes, hname, hsuper, hinterfaces, hfields, hmethods,
    hannotations, hattributes, rfl⟩ := write_gives h
  obtain ⟨is, his, hreadInterfaces⟩ := reads_sequence (R := Eq) classBytes_interns
    (fun x _ _ h _ => ⟨x, rfl, reads_class hsound h⟩) hinterfaces (Nat.lt_succ_self _)
  obtain ⟨fs, hfs, hreadFields⟩ := reads_sequence Field.interns
    (fun f hf _ h _ => reads_field hsound h (hsized.fields f hf)) hfields (Nat.lt_succ_self _)
  obtain ⟨ms, hms, hreadMethods⟩ := reads_sequence Method.interns
    (fun m hm _ h _ => reads_method hsound h (hsized.methods m hm)) hmethods (Nat.lt_succ_self _)
  rw [List.forall₂_eq_eq_eq] at his
  subst his
  have hcount : annotations.length ≤ 65535 := Nat.le_trans (length_annotationsAttribute hannotations) (by decide)
  have hreadAttributes := reads_attributes hsound hcount hattributes (hsized.annotations _ hannotations)
  refine ⟨⟨c.minor, c.major, b'.pool, c.access, c.name, c.superName, c.interfaces, fs, ms, annotations⟩, ?_,
    ⟨rfl, rfl, rfl, rfl, rfl, rfl, rfl, hfs, hms, hannotations⟩⟩
  refine (Reads.u4 (by decide)).bind ?_
  rw [if_neg (fun h => h rfl)]
  exact (Reads.index c.minor).bind ((Reads.index c.major).bind ((ConstantPool.reads_bytes hwritable).bind
    ((Reads.index c.access).bind ((reads_class hsound hname).bind ((reads_super hsound hwritable hsuper).bind
      ((Reads.counted hc.interfaces hreadInterfaces).bind ((Reads.counted hc.fields hreadFields).bind
        ((Reads.counted hc.methods hreadMethods).bind hreadAttributes.map))))))))

theorem sized_of_length {c : ClassFile} {b b' : PoolBuilder} (hb' : b'.Sound) (h : c.write.on b = (.ok bytes, b'))
    (hsize : bytes.length < 2 ^ 32) : c.Sized b' := by
  obtain ⟨name, super, interfaces, fields, methods, annotations, attributes, -, -, -, hfields, hmethods, hannotations,
    hattributes, rfl⟩ := write_gives h
  simp only [List.length_append] at hsize
  refine ⟨fun f hf => ?_, fun m hm => ?_, ?_⟩
  · obtain ⟨part, hpart, hle⟩ := gives_of_mem_sequence Field.interns hfields hf
    exact Field.sized_of_length hb' hpart (by omega)
  · obtain ⟨part, hpart, hle⟩ := gives_of_mem_sequence Method.interns hmethods hm
    exact Method.sized_of_length hb' hpart (by omega)
  · exact attributesSized_of_length hannotations (List.Subset.refl _) hattributes (by omega)

theorem valid_of_write {c : ClassFile} {b b' : PoolBuilder} (hb : b.Valid) (h : c.write.on b = (.ok bytes, b')) :
    b'.Valid := by
  obtain ⟨body, hbody, -⟩ := write_eq_ok h
  exact c.bodyBytes_interns.valid hbody hb

/-- A class that was written can be read. -/
theorem parse_written {c : ClassFile} (hc : c.Counted) {b b' : PoolBuilder} (hb : b.Valid)
    (h : c.write.on b = (.ok bytes, b')) (hsized : c.Sized b') : ∃ p, ParsedClass.parse bytes = .ok p ∧ Stored b' c p := by
  obtain ⟨p, hread, hstored⟩ := reads_written hc (valid_of_write hb h) h hsized
  exact ⟨p, hread.onBytes, hstored⟩

end ClassFile

end Classwright
