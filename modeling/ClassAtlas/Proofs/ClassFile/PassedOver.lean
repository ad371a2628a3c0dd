import ClassAtlas.Proofs.ClassFile.Deposit

namespace ClassAtlas

/-!
# Attributes that are passed over

A decoder looks into an attribute only if its name means something where it stands.  Of all others
it needs the name and the length, so one of them more or less does not change a class, whatever its
bytes are.

* `AttributeOwner` — the declarations that have attributes, and the names that mean something on
  each of them;
* `AttributeOwner.PassesOver` — the names that are not looked into;
* `Table.Inserts`, `MemberRecord.Inserts`, `ClassFile.Inserts` — one attribute more, anywhere;
* `ClassFile.decl_of_inserts` — a class file means the same with an attribute that is passed over;
* `decode_of_inserts` — and it is decoded to the same class.
-/

variable {pool : Pool} {options : DecodeOptions}

/-! ### Names -/

/-- The declarations that have attributes. -/
inductive AttributeOwner where
  | classFile | field | method
  deriving DecidableEq, Repr

/-- The attributes for annotations that mean something on every declaration. -/
def annotationAttributes : List String :=
  ["RuntimeVisibleAnnotations", "RuntimeInvisibleAnnotations",
    "RuntimeVisibleTypeAnnotations", "RuntimeInvisibleTypeAnnotations"]

/-- The attributes for annotations that are kept from the running program. -/
def invisibleAttributes : List String :=
  ["RuntimeInvisibleAnnotations", "RuntimeInvisibleTypeAnnotations",
    "RuntimeInvisibleParameterAnnotations"]

namespace AttributeOwner

/-- The names that mean something on a declaration. -/
def known : AttributeOwner → List String
  | classFile =>
    ["Signature", "InnerClasses", "EnclosingMethod", "SourceFile"] ++ annotationAttributes
  | field => ["Signature", "ConstantValue"] ++ annotationAttributes
  | method =>
    ["Signature", "Exceptions", "RuntimeVisibleParameterAnnotations",
      "RuntimeInvisibleParameterAnnotations", "AnnotationDefault", "MethodParameters"]
      ++ annotationAttributes

/-- The attributes of a name are not looked into: it means nothing there, or it is for annotations
    that are not asked for. -/
def PassesOver (owner : AttributeOwner) (options : DecodeOptions) (name : String) : Prop :=
  name ∉ owner.known ∨ options.invisible = false ∧ name ∈ invisibleAttributes

end AttributeOwner

/-! ### One attribute -/

variable {item : RawAttribute}

/-- A step over an attribute that adds nothing to what is known. -/
def Skips {κ : Type} (add : κ → RawAttribute → Except Error κ) (item : RawAttribute) : Prop :=
  ∀ known, add known item = .ok known

theorem Annotated.skips_add
    (h : item.name ∉ annotationAttributes
      ∨ options.invisible = false ∧ item.name ∈ invisibleAttributes) :
    Skips (Annotated.add pool options) item := by
  intro known
  unfold add
  split
  case h_1 hname | h_3 hname => simp [hname, annotationAttributes, invisibleAttributes] at h
  case h_2 hname | h_4 hname =>
    have hoff : options.invisible = false := by
      simpa [hname, annotationAttributes, invisibleAttributes] using h
    rw [hoff]
    rfl
  case h_5 => rfl

theorem FieldAttributes.skips_add (h : AttributeOwner.field.PassesOver options item.name) :
    Skips (FieldAttributes.add pool options) item := by
  intro known
  unfold add
  split
  case h_1 hname | h_2 hname =>
    simp [hname, AttributeOwner.PassesOver, AttributeOwner.known, invisibleAttributes] at h
  case h_3 =>
    rw [Annotated.skips_add (h.imp_left fun hunknown hname =>
      hunknown (List.mem_append_right _ hname))]
    rfl

theorem MethodAttributes.skips_add (h : AttributeOwner.method.PassesOver options item.name) :
    Skips (MethodAttributes.add pool options) item := by
  intro known
  unfold add
  split
  case h_4 hname =>
    have hoff : options.invisible = false := by
      simpa [hname, AttributeOwner.PassesOver, AttributeOwner.known, invisibleAttributes] using h
    rw [hoff]
    rfl
  case h_7 =>
    rw [Annotated.skips_add (h.imp_left fun hunknown hname =>
      hunknown (List.mem_append_right _ hname))]
    rfl
  all_goals
    rename_i hname
    simp [hname, AttributeOwner.PassesOver, AttributeOwner.known, invisibleAttributes] at h

theorem ClassAttributes.skips_add {self : String}
    (h : AttributeOwner.classFile.PassesOver options item.name) :
    Skips (ClassAttributes.add pool options self) item := by
  intro known
  unfold add
  split
  case h_5 =>
    rw [Annotated.skips_add (h.imp_left fun hunknown hname =>
      hunknown (List.mem_append_right _ hname))]
    rfl
  all_goals
    rename_i hname
    simp [hname, AttributeOwner.PassesOver, AttributeOwner.known, invisibleAttributes] at h

/-! ### One attribute more -/

/-- The second table has one record more than the first. -/
def Table.Inserts {ρ : Type} (record : ρ) (table table' : Table ρ) : Prop :=
  ∃ before after, table.records = before ++ after ∧ table'.records = before ++ record :: after

/-- The second table has another record than the first in one place. -/
def Table.Changes {ρ : Type} (R : ρ → ρ → Prop) (table table' : Table ρ) : Prop :=
  ∃ before record record' after, table.records = before ++ record :: after
    ∧ table'.records = before ++ record' :: after ∧ R record record'

/-- The second member has one attribute more than the first. -/
def MemberRecord.Inserts (extra : AttributeRecord) (record record' : MemberRecord) : Prop :=
  ∃ table, record.attributes.Inserts extra table ∧ record' = { record with attributes := table }

/-- The second class file has one attribute more than the first, on a declaration of this sort. -/
inductive ClassFile.Inserts (extra : AttributeRecord) (file : ClassFile) :
    AttributeOwner → ClassFile → Prop
  | classFile {table : Table AttributeRecord} :
      file.content.attributes.Inserts extra table →
      file.Inserts extra .classFile { file with content.attributes := table }
  | field {table : Table MemberRecord} :
      file.content.fields.Changes (MemberRecord.Inserts extra) table →
      file.Inserts extra .field { file with content.fields := table }
  | method {table : Table MemberRecord} :
      file.content.methods.Changes (MemberRecord.Inserts extra) table →
      file.Inserts extra .method { file with content.methods := table }

/-- What is known after a table, and what follows from it, is the same without an attribute that
    is passed over. -/
theorem Table.Inserts.bind_foldlM {κ β : Type} {add : κ → RawAttribute → Except Error κ}
    {extra : AttributeRecord} {table table' : Table AttributeRecord} {name : String}
    (h : table.Inserts extra table') (hname : pool.utf8 extra.name = .ok name)
    (hskips : Skips add ⟨name, extra.body⟩) (known : κ) (next : κ → Except Error β) :
    (table'.records.mapM (·.raw pool) >>= fun items => items.foldlM add known >>= next)
      = (table.records.mapM (·.raw pool) >>= fun items => items.foldlM add known >>= next) := by
  obtain ⟨before, after, hrecords, hrecords'⟩ := h
  have hraw : extra.raw pool = .ok ⟨name, extra.body⟩ := by
    rw [AttributeRecord.raw, hname]
    rfl
  have hskip : ∀ items middle, (⟨name, extra.body⟩ :: items).foldlM add middle
      = items.foldlM add middle := by
    intro items middle
    rw [List.foldlM_cons, hskips]
    rfl
  rw [hrecords, hrecords', List.mapM_append, List.mapM_append, List.mapM_cons, hraw]
  -- The name is there, so the two can only fail at the other attributes, and in the same way.
  cases before.mapM (·.raw pool) with
  | error error => rfl
  | ok first =>
    cases after.mapM (·.raw pool) with
    | error error => rfl
    | ok second =>
      show (first ++ ⟨name, extra.body⟩ :: second).foldlM add known >>= next
        = (first ++ second).foldlM add known >>= next
      rw [List.foldlM_append, List.foldlM_append]
      simp only [hskip]

/-- One outcome for each record, where the records that differ have the same one. -/
theorem Table.Changes.mapM_eq {ρ β : Type} {R : ρ → ρ → Prop} {table table' : Table ρ}
    (h : table.Changes R table') {step : ρ → Except Error β}
    (hstep : ∀ ⦃record record'⦄, R record record' → step record' = step record) :
    table'.records.mapM step = table.records.mapM step := by
  obtain ⟨before, record, record', after, hrecords, hrecords', hchange⟩ := h
  rw [hrecords, hrecords', List.mapM_append, List.mapM_append, List.mapM_cons, List.mapM_cons,
    hstep hchange]

section

variable {extra : AttributeRecord} {name : String}

theorem MemberRecord.field_of_inserts {record record' : MemberRecord}
    (h : record.Inserts extra record') (hname : pool.utf8 extra.name = .ok name)
    (hover : AttributeOwner.field.PassesOver options name) :
    record'.field pool options = record.field pool options := by
  obtain ⟨table, htable, rfl⟩ := h
  unfold MemberRecord.field
  refine bind_congr fun _ => bind_congr fun _ => ?_
  exact htable.bind_foldlM hname (FieldAttributes.skips_add hover) {} _

theorem MemberRecord.openMethod_of_inserts {record record' : MemberRecord} {className : String}
    (h : record.Inserts extra record') (hname : pool.utf8 extra.name = .ok name)
    (hover : AttributeOwner.method.PassesOver options name) :
    record'.openMethod pool options className = record.openMethod pool options className := by
  obtain ⟨table, htable, rfl⟩ := h
  unfold MemberRecord.openMethod
  refine bind_congr fun _ => bind_congr fun _ => ?_
  exact htable.bind_foldlM hname (MethodAttributes.skips_add hover) {} _

/-- The class a file means, or why it means none, is the same with an attribute more that is passed
    over. -/
theorem ClassFile.decl_of_inserts {file longer : ClassFile} {owner : AttributeOwner}
    (h : file.Inserts extra owner longer)
    (hname : file.constants.pool.utf8 extra.name = .ok name)
    (hover : owner.PassesOver options name) (origin : Origin) :
    longer.decl origin options = file.decl origin options := by
  unfold ClassFile.decl
  cases h with
  | classFile htable =>
    refine if_congr Iff.rfl ?_ rfl
    unfold ClassRecord.decl
    simp only [ClassAttributes.ofTable,
      htable.bind_foldlM hname (ClassAttributes.skips_add hover)]
  | field htable =>
    refine if_congr Iff.rfl ?_ rfl
    unfold ClassRecord.decl
    rw [htable.mapM_eq fun _ _ h => MemberRecord.field_of_inserts h hname hover]
  | method htable =>
    refine if_congr Iff.rfl ?_ rfl
    unfold ClassRecord.decl
    simp only [htable.mapM_eq fun _ _ h => MemberRecord.openMethod_of_inserts h hname hover]

end

/-- **Attributes that are passed over do not show.** Bytes that are decoded are those of a class
    file.  With one attribute more, anywhere on the class, a field or a method, under a name of its
    pool that is not looked into there and with any bytes, the file is decoded to the same class. -/
theorem decode_of_inserts {decoder : Decoder} {origin : Origin} {data : List UInt8}
    {options : DecodeOptions} {result : ClassDecl}
    (h : (decoder.decode origin data options).2 = .ok result) :
    (∃ file : ClassFile, file.encode = data)
    ∧ ∀ file : ClassFile, file.encode = data →
      ∀ (extra : AttributeRecord) (owner : AttributeOwner) (longer : ClassFile) (name : String),
        file.Inserts extra owner longer → file.constants.pool.utf8 extra.name = .ok name →
        owner.PassesOver options name →
        (decoder.decode origin longer.encode options).2 = .ok result := by
  constructor
  · obtain ⟨file, rfl, -⟩ := Decoder.decode_eq_ok_iff.mp h
    exact ⟨file, rfl⟩
  · rintro file rfl extra owner longer name hinserts hname hover
    rw [Decoder.decode_encode_eq_ok_iff] at h ⊢
    rw [ClassFile.decl_of_inserts hinserts hname hover, h]

/-! ### A field with an attribute that means nothing -/

/-- An attribute named like the field of `annotatedFieldFile`. -/
def strayAttribute : AttributeRecord := ⟨3, [0xFF], by decide⟩

/-- The class file with this attribute on the field, in front of the one that is there. -/
def strayAttributeFile : ClassFile :=
  { annotatedFieldFile with
    content.fields := ⟨[{ annotatedFieldRecord with
      attributes := ⟨strayAttribute :: annotatedFieldRecord.attributes.records, by decide⟩ }],
      by decide⟩ }

/-- It is decoded like the class file without the attribute. -/
theorem decode_of_inserts_stray :
    ∃ result, (Decoder.new.decode ⟨"A.class", 0⟩ annotatedFieldFile.encode {}).2 = .ok result
      ∧ annotatedFieldFile.Inserts strayAttribute .field strayAttributeFile
      ∧ annotatedFieldFile.constants.pool.utf8 strayAttribute.name = .ok "f"
      ∧ AttributeOwner.field.PassesOver {} "f"
      ∧ (Decoder.new.decode ⟨"A.class", 0⟩ strayAttributeFile.encode {}).2 = .ok result := by
  obtain ⟨result, hresult⟩ := decl_annotatedFieldFile
  have hdecode : (Decoder.new.decode ⟨"A.class", 0⟩ annotatedFieldFile.encode {}).2 = .ok result :=
    Decoder.decode_encode_eq_ok_iff.mpr hresult
  have hinserts : annotatedFieldFile.Inserts strayAttribute .field strayAttributeFile :=
    .field ⟨[], annotatedFieldRecord, _, [], rfl, rfl, _, ⟨[], _, rfl, rfl⟩, rfl⟩
  have hover : AttributeOwner.field.PassesOver {} "f" := .inl (by decide)
  exact ⟨result, hdecode, hinserts, rfl, hover,
    (decode_of_inserts hdecode).2 _ rfl _ _ _ _ hinserts rfl hover⟩

end ClassAtlas
