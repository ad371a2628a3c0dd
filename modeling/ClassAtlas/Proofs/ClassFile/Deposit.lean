import ClassAtlas.Proofs.ClassFile.Layout
import ClassAtlas.Proofs.Signature.Notes
import ClassAtlas.Proofs.Signature.RoundTrip

namespace ClassAtlas

/-!
# Where the annotations on types go

A class file holds the annotations on the types of a declaration in attributes of that declaration,
apart from the types.  A decoder puts each of them in its place, and on no way there is one lost or
put down twice: neither where it waits for what the class says, nor where classes are split for it,
nor where the signature is made for it.

* `typeUsesIn` — the annotations on types that the attributes of a declaration hold;
* `Deposited` — annotations are exactly those of them that are not inside a method body;
* `MemberRecord.deposited_field`, `MemberRecord.deposited_method` — in the types of members;
* `deposited_of_decode` — in everything that was decoded.
-/

/-! ### In the attributes -/

/-- The annotations on types that an attribute holds, if it is of the kind that is asked for. -/
def RawAttribute.typeUses (pool : Pool) (options : DecodeOptions) (item : RawAttribute) :
    Except Error (List TypeUse) :=
  match item.name with
  | "RuntimeVisibleTypeAnnotations" => item.contents (TypeUse.readList pool)
  | "RuntimeInvisibleTypeAnnotations" =>
    if options.invisible then item.contents (TypeUse.readList pool) else return []
  | _ => return []

/-- The annotations on types that the attributes of a declaration hold. -/
def typeUsesIn (pool : Pool) (options : DecodeOptions) (attributes : Table AttributeRecord) :
    Except Error (List TypeUse) := do
  let table ← attributes.records.mapM (·.raw pool)
  return (← table.mapM (·.typeUses pool options)).flatten

variable {pool : Pool} {options : DecodeOptions} {item : RawAttribute}

/-- An attribute that is read for something else holds no annotations on types. -/
theorem RawAttribute.typeUses_of_name (hvisible : item.name ≠ "RuntimeVisibleTypeAnnotations")
    (hinvisible : item.name ≠ "RuntimeInvisibleTypeAnnotations") (known : List TypeUse) :
    ∃ uses, item.typeUses pool options = .ok uses ∧ known = known ++ uses := by
  refine ⟨[], ?_, (List.append_nil _).symm⟩
  unfold typeUses
  split
  · exact absurd ‹_› hvisible
  · exact absurd ‹_› hinvisible
  · rfl

theorem Annotated.typeUses_of_add {known known' : Annotated}
    (h : known.add pool options item = .ok known') :
    ∃ uses, item.typeUses pool options = .ok uses ∧ known'.typeUses = known.typeUses ++ uses := by
  unfold add at h
  dsimp only at h
  split at h
  case h_1 hname =>
    obtain ⟨more, -, hknown⟩ := except_bind_eq_ok.mp h
    cases hknown
    exact item.typeUses_of_name (by simp [hname]) (by simp [hname]) _
  case h_2 hname =>
    split at h
    · obtain ⟨more, -, hknown⟩ := except_bind_eq_ok.mp h
      cases hknown
      exact item.typeUses_of_name (by simp [hname]) (by simp [hname]) _
    · cases h
      exact item.typeUses_of_name (by simp [hname]) (by simp [hname]) _
  case h_3 hname =>
    obtain ⟨more, hmore, hknown⟩ := except_bind_eq_ok.mp h
    cases hknown
    rw [RawAttribute.typeUses, hname]
    exact ⟨more, hmore, rfl⟩
  case h_4 hname =>
    rw [RawAttribute.typeUses, hname]
    split at h
    · rename_i hinvisible
      obtain ⟨more, hmore, hknown⟩ := except_bind_eq_ok.mp h
      cases hknown
      exact ⟨more, (if_pos hinvisible).trans hmore, rfl⟩
    · rename_i hinvisible
      cases h
      exact ⟨[], if_neg hinvisible, (List.append_nil _).symm⟩
  case h_5 _ _ hvisible hinvisible =>
    cases h
    exact item.typeUses_of_name hvisible hinvisible _

/-- What a step over an attribute adds to the annotations on types that are known. -/
def Collects {κ : Type} (pool : Pool) (options : DecodeOptions)
    (add : κ → RawAttribute → Except Error κ) (typeUses : κ → List TypeUse) : Prop :=
  ∀ ⦃known item known'⦄, add known item = .ok known' →
    ∃ uses, item.typeUses pool options = .ok uses ∧ typeUses known' = typeUses known ++ uses

theorem FieldAttributes.collects_add :
    Collects pool options (FieldAttributes.add pool options) (·.annotated.typeUses) := by
  intro known item known' h
  unfold add at h
  split at h
  case h_1 hname | h_2 hname =>
    obtain ⟨_, -, hknown⟩ := except_bind_eq_ok.mp h
    cases hknown
    exact item.typeUses_of_name (by simp [hname]) (by simp [hname]) _
  case h_3 =>
    obtain ⟨annotated, hadd, hknown⟩ := except_bind_eq_ok.mp h
    cases hknown
    exact Annotated.typeUses_of_add hadd

theorem MethodAttributes.collects_add :
    Collects pool options (MethodAttributes.add pool options) (·.annotated.typeUses) := by
  intro known item known' h
  unfold add at h
  dsimp only at h
  split at h
  -- Annotations on parameters that are not visible are read only if they are asked for.
  case h_4 hname =>
    split at h
    · obtain ⟨_, -, hknown⟩ := except_bind_eq_ok.mp h
      cases hknown
      exact item.typeUses_of_name (by simp [hname]) (by simp [hname]) _
    · cases h
      exact item.typeUses_of_name (by simp [hname]) (by simp [hname]) _
  case h_7 =>
    obtain ⟨annotated, hadd, hknown⟩ := except_bind_eq_ok.mp h
    cases hknown
    exact Annotated.typeUses_of_add hadd
  all_goals
    rename_i hname
    obtain ⟨_, -, hknown⟩ := except_bind_eq_ok.mp h
    cases hknown
    exact item.typeUses_of_name (by simp [hname]) (by simp [hname]) _

theorem ClassAttributes.annotated_foldl_addInner (self : String) (rows : List InnerClass)
    (known : ClassAttributes) :
    (rows.foldl (ClassAttributes.addInner self) known).annotated = known.annotated := by
  induction rows generalizing known with
  | nil => rfl
  | cons row rest ih =>
    rw [List.foldl_cons, ih, addInner]
    split
    · rfl
    · split <;> rfl

theorem ClassAttributes.collects_add (self : String) :
    Collects pool options (ClassAttributes.add pool options self) (·.annotated.typeUses) := by
  intro known item known' h
  unfold add at h
  split at h
  case h_2 hname =>
    obtain ⟨rows, -, hknown⟩ := except_bind_eq_ok.mp h
    cases hknown
    dsimp only
    rw [ClassAttributes.annotated_foldl_addInner]
    exact item.typeUses_of_name (by simp [hname]) (by simp [hname]) _
  case h_5 =>
    obtain ⟨annotated, hadd, hknown⟩ := except_bind_eq_ok.mp h
    cases hknown
    exact Annotated.typeUses_of_add hadd
  all_goals
    rename_i hname
    obtain ⟨_, -, hknown⟩ := except_bind_eq_ok.mp h
    cases hknown
    exact item.typeUses_of_name (by simp [hname]) (by simp [hname]) _

/-- Over a whole table, the annotations on types of each attribute in turn. -/
theorem Collects.foldlM {κ : Type} {add : κ → RawAttribute → Except Error κ}
    {typeUses : κ → List TypeUse} (h : Collects pool options add typeUses)
    {table : List RawAttribute} {known known' : κ} (hall : table.foldlM add known = .ok known') :
    ∃ uses, table.mapM (·.typeUses pool options) = .ok uses
      ∧ typeUses known' = typeUses known ++ uses.flatten := by
  induction table generalizing known with
  | nil =>
    cases hall
    exact ⟨[], rfl, (List.append_nil _).symm⟩
  | cons item rest ih =>
    rw [List.foldlM_cons] at hall
    obtain ⟨middle, hitem, hrest⟩ := except_bind_eq_ok.mp hall
    obtain ⟨uses, huses, hmiddle⟩ := h hitem
    obtain ⟨more, hmore, hknown⟩ := ih hrest
    refine ⟨uses :: more, ?_, by rw [hknown, hmiddle, List.flatten_cons, List.append_assoc]⟩
    rw [List.mapM_cons, huses, hmore]
    rfl

/-- The attributes of a declaration are known to hold what they hold. -/
theorem Collects.typeUsesIn_eq {κ : Type} {add : κ → RawAttribute → Except Error κ}
    {typeUses : κ → List TypeUse} (h : Collects pool options add typeUses)
    {attributes : Table AttributeRecord} {table : List RawAttribute} {known known' : κ}
    (htable : attributes.records.mapM (·.raw pool) = .ok table) (hnone : typeUses known = [])
    (hall : table.foldlM add known = .ok known') :
    typeUsesIn pool options attributes = .ok (typeUses known') := by
  obtain ⟨uses, huses, hknown⟩ := h.foldlM hall
  rw [hknown, hnone, typeUsesIn, htable]
  show (do return (← table.mapM (·.typeUses pool options)).flatten : Except Error _) = _
  rw [huses]
  rfl

/-! ### In the types -/

/-- The annotations are exactly those on types in the attributes that are not inside a method
    body, each as often as it is there. -/
def Deposited (pool : Pool) (options : DecodeOptions) (attributes : Table AttributeRecord)
    (notes : List AnnotationUse) : Prop :=
  ∃ uses, typeUsesIn pool options attributes = .ok uses
    ∧ (notes : Multiset AnnotationUse) = (uses.filter (·.target ≠ .code)).map (·.note)

/-- What was read from a text has no annotations. -/
theorem ReadsExactly.notes_eq_nil {τ : Type} {reader : Reader τ} {encode : τ → String}
    {bare : τ → τ} {WellFormed : τ → Prop} {levels : τ → Nat}
    (hreads : ReadsExactly reader encode bare WellFormed levels) {notes : τ → List AnnotationUse}
    (hbare : ∀ tree, notes (bare tree) = []) {bytes : List UInt8} {tree : τ}
    (h : reader.value bytes = .ok tree) : notes tree = [] := by
  rw [← ((hreads.ok_iff bytes tree).mp h).2.1, hbare]

/-- What stands in a field: its type is that of the signature or the descriptor, annotated. -/
theorem FieldDecl.of_ofAttributes_eq_ok {name descriptor : String} {modifiers : FieldModifiers}
    {attributes : FieldAttributes} {field : FieldDecl}
    (h : FieldDecl.ofAttributes pool name descriptor modifiers attributes = .ok field) :
    ∃ type, JavaType.parseField (attributes.signature.getD descriptor) = .ok type
      ∧ type.placeAll name attributes.annotated.typeUses = .ok field.type
      ∧ field.name = name ∧ field.descriptor = descriptor := by
  unfold ofAttributes at h
  obtain ⟨type, htype, h⟩ := except_bind_eq_ok.mp h
  obtain ⟨placed, hplaced, h⟩ := except_bind_eq_ok.mp h
  dsimp only at h
  split at h
  · split at h
    all_goals
      obtain ⟨_, -, h⟩ := except_bind_eq_ok.mp h
      cases h
      exact ⟨type, htype, hplaced, rfl, rfl⟩
  · cases h
    exact ⟨type, htype, hplaced, rfl, rfl⟩

theorem FieldDecl.coe_notes_ofAttributes {name descriptor : String} {modifiers : FieldModifiers}
    {attributes : FieldAttributes} {field : FieldDecl}
    (h : FieldDecl.ofAttributes pool name descriptor modifiers attributes = .ok field) :
    (field.type.notes : Multiset AnnotationUse)
      = attributes.annotated.typeUses.flatMap (·.deposit) := by
  obtain ⟨type, htype, hplaced, -, -⟩ := FieldDecl.of_ofAttributes_eq_ok h
  have hnone := JavaType.readsExactly_readField.notes_eq_nil JavaType.notes_bare htype
  rw [JavaType.coe_notes_placeAll hplaced, hnone]
  exact add_zero _

theorem MemberRecord.deposited_field {record : MemberRecord} {field : FieldDecl}
    (h : record.field pool options = .ok field) :
    Deposited pool options record.attributes field.type.notes := by
  unfold MemberRecord.field at h
  obtain ⟨name, -, h⟩ := except_bind_eq_ok.mp h
  obtain ⟨descriptor, -, h⟩ := except_bind_eq_ok.mp h
  obtain ⟨table, htable, h⟩ := except_bind_eq_ok.mp h
  obtain ⟨attributes, hattributes, h⟩ := except_bind_eq_ok.mp h
  refine ⟨_, FieldAttributes.collects_add.typeUsesIn_eq htable rfl hattributes, ?_⟩
  rw [FieldDecl.coe_notes_ofAttributes h, flatMap_deposit]

/-- Classes that only have a name have no annotations. -/
theorem notesOfTypes_ofName (names : List String) :
    notesOfTypes (names.map fun name => (.ofClass (ClassType.ofName name) : JavaType AnnotationUse))
      = [] := by
  simp [notesOfTypes_eq_flatMap, List.flatMap_map, JavaType.notes, ClassType.ofName,
    notesOfSegments, ClassSegment.notes, notesOfTypes]

/-- The annotations that can be placed are, and those that have to wait are kept. -/
theorem OpenMethod.coe_notes_ofAttributes {className name descriptor : String}
    {modifiers : MethodModifiers} {attributes : MethodAttributes} {method : OpenMethod}
    (h : OpenMethod.ofAttributes className name descriptor modifiers attributes = .ok method) :
    (method.pending.flatMap (·.deposit) : Multiset AnnotationUse) + method.method.signature.notes
      = attributes.annotated.typeUses.flatMap (·.deposit) := by
  unfold ofAttributes at h
  obtain ⟨signature, hsignature, h⟩ := except_bind_eq_ok.mp h
  have hnone := MethodSignature.readsExactly_read.notes_eq_nil MethodSignature.notes_bare hsignature
  -- The exceptions that stand in for a `throws` clause are only names.
  have hthrows : (if signature.throws.isEmpty then
      { signature with
        throws := attributes.exceptions.map fun name => .ofClass (ClassType.ofName name) }
      else signature).notes = [] := by
    split
    · simp only [MethodSignature.notes, List.append_eq_nil_iff, notesOfTypes_ofName] at hnone ⊢
      exact ⟨⟨⟨hnone.1.1.1, hnone.1.1.2⟩, trivial⟩, hnone.2⟩
    · exact hnone
  dsimp only at h
  rw [List.partition_eq_filter_filter] at h
  obtain ⟨placed, hplaced, h⟩ := except_bind_eq_ok.mp h
  cases h
  dsimp only
  rw [MethodSignature.coe_notes_placeAll hplaced, hthrows, Multiset.coe_nil, add_zero,
    Multiset.coe_add, ← List.flatMap_append, Multiset.coe_eq_coe]
  -- Each annotation either waits or is placed.
  exact (List.filter_append_perm _ _).flatMap_right _

/-- Counting the parameters differently does not change the annotation. -/
theorem TypeUse.deposit_of_shift {synthetic : UInt8} {use use' : TypeUse}
    (h : use.shift synthetic = .ok use') : use'.deposit = use.deposit := by
  unfold shift at h
  split at h
  · rename_i htarget
    split at h
    · cases h
      simp [deposit, htarget]
    · cases h
  · cases h
    rfl

/-- The annotations that waited are placed with the others. -/
theorem OpenMethod.coe_notes_close {className : String} {synthetic : UInt8} {method : OpenMethod}
    {decl : MethodDecl} (h : method.close className synthetic = .ok decl) :
    (decl.signature.notes : Multiset AnnotationUse)
      = (method.pending.flatMap (·.deposit) : Multiset AnnotationUse)
        + method.method.signature.notes := by
  unfold close at h
  obtain ⟨signature, hsignature, h⟩ := except_bind_eq_ok.mp h
  cases h
  refine coe_notes_foldlM (fun {tree tree' use} hplace => ?_) hsignature
  obtain ⟨shifted, hshift, hplace⟩ := except_bind_eq_ok.mp hplace
  rw [MethodSignature.coe_notes_place hplace, TypeUse.deposit_of_shift hshift]

theorem MemberRecord.deposited_method {className : String} {synthetic : UInt8}
    {record : MemberRecord} {opened : OpenMethod} {method : MethodDecl}
    (h : record.openMethod pool options className = .ok opened)
    (hclose : opened.close className synthetic = .ok method) :
    Deposited pool options record.attributes method.signature.notes := by
  unfold MemberRecord.openMethod at h
  obtain ⟨name, -, h⟩ := except_bind_eq_ok.mp h
  obtain ⟨descriptor, -, h⟩ := except_bind_eq_ok.mp h
  obtain ⟨table, htable, h⟩ := except_bind_eq_ok.mp h
  obtain ⟨attributes, hattributes, h⟩ := except_bind_eq_ok.mp h
  refine ⟨_, MethodAttributes.collects_add.typeUsesIn_eq htable rfl hattributes, ?_⟩
  rw [OpenMethod.coe_notes_close hclose, OpenMethod.coe_notes_ofAttributes h, flatMap_deposit]

/-- The annotations anywhere in a class's signature, if there is one. -/
def notesOfSignature : Option (ClassSignature AnnotationUse) → List AnnotationUse
  | none => []
  | some signature => signature.notes

theorem notes_ofNames (superclass : Option String) (interfaces : List String) :
    (ClassSignature.ofNames superclass interfaces).notes = [] := by
  cases superclass <;>
    simp [ClassSignature.ofNames, ClassSignature.notes, ClassType.ofName, notesOfSegments,
      ClassSegment.notes, notesOfTypes, List.flatMap_map]

theorem coe_notes_classSignature {superclass : Option String} {interfaces : List String}
    {attributes : ClassAttributes} {signature : Option (ClassSignature AnnotationUse)}
    (h : classSignature superclass interfaces attributes = .ok signature) :
    (notesOfSignature signature : Multiset AnnotationUse)
      = (attributes.annotated.typeUses.filter (·.target ≠ .code)).map (·.note) := by
  unfold classSignature at h
  obtain ⟨parsed, hparsed, h⟩ := except_bind_eq_ok.mp h
  -- Neither a signature that was read nor one that is made of names has annotations.
  have hnone : notesOfSignature parsed = []
      ∧ (parsed.getD (ClassSignature.ofNames superclass interfaces)).notes = [] := by
    cases hsignature : attributes.signature with
    | none =>
      rw [hsignature] at hparsed
      cases hparsed
      exact ⟨rfl, notes_ofNames superclass interfaces⟩
    | some text =>
      rw [hsignature] at hparsed
      obtain ⟨signature, hread, hparsed⟩ := except_bind_eq_ok.mp hparsed
      cases hparsed
      have hnotes :=
        ClassSignature.readsExactly_read.notes_eq_nil ClassSignature.notes_bare hread
      exact ⟨hnotes, hnotes⟩
  dsimp only at h
  split at h
  · rename_i hempty
    cases h
    rw [List.isEmpty_iff.mp hempty, hnone.1]
    rfl
  · obtain ⟨placed, hplaced, h⟩ := except_bind_eq_ok.mp h
    cases h
    show (placed.notes : Multiset AnnotationUse) = _
    rw [ClassSignature.coe_notes_placeAll hplaced, hnone.2, flatMap_deposit, List.filter_filter]
    simp

/-- Two steps, each with one outcome for each item. -/
theorem forall₂_comp {β γ δ : Type} {R : β → γ → Prop} {S : γ → δ → Prop} {T : β → δ → Prop}
    (hcomp : ∀ {first second third}, R first second → S second third → T first third)
    {firsts : List β} {seconds : List γ} {thirds : List δ} (h : List.Forall₂ R firsts seconds)
    (h' : List.Forall₂ S seconds thirds) : List.Forall₂ T firsts thirds := by
  induction h generalizing thirds with
  | nil =>
    cases h'
    exact .nil
  | cons hfirst hrest ih =>
    cases h' with
    | cons hsecond hmore => exact .cons (hcomp hfirst hsecond) (ih hmore)

/-- In a class and its members, each annotation on a type is where it belongs. -/
theorem ClassRecord.deposited {origin : Origin} {version : FileVersion} {record : ClassRecord}
    {result : ClassDecl} (h : record.decl pool options origin version = .ok result) :
    List.Forall₂ (fun (record : MemberRecord) (field : FieldDecl) =>
      Deposited pool options record.attributes field.type.notes)
        record.fields.records result.fields
    ∧ List.Forall₂ (fun (record : MemberRecord) (method : MethodDecl) =>
      Deposited pool options record.attributes method.signature.notes)
        record.methods.records result.methods
    ∧ Deposited pool options record.attributes (notesOfSignature result.signature) := by
  obtain ⟨superclass, openMethods, table, attributes, -, -, -, hfields, hopenMethods, htable,
    hattributes, hmethods, hsignature⟩ := record.of_decl_eq_ok h
  refine ⟨?_, ?_, ?_⟩
  · exact (forall₂_of_mapM hfields).imp fun _ _ => MemberRecord.deposited_field
  · refine forall₂_comp (fun hopen hclose => ?_) (forall₂_of_mapM hopenMethods)
      (forall₂_of_mapM hmethods)
    exact MemberRecord.deposited_method hopen hclose
  · exact ⟨_, (ClassAttributes.collects_add _).typeUsesIn_eq htable rfl hattributes,
      coe_notes_classSignature hsignature⟩

/-- **Each annotation on a type is put down once, where it belongs.** Bytes that are decoded are
    those of a class file, and of this class file, each field, each method and the class itself
    have the annotations in their types that their attributes hold for them, those inside method
    bodies apart, each as often as it is there. -/
theorem deposited_of_decode {decoder : Decoder} {origin : Origin} {data : List UInt8}
    {options : DecodeOptions} {result : ClassDecl}
    (h : (decoder.decode origin data options).2 = .ok result) :
    (∃ file : ClassFile, file.encode = data)
    ∧ ∀ file : ClassFile, file.encode = data →
      List.Forall₂ (fun (record : MemberRecord) (field : FieldDecl) =>
        Deposited file.constants.pool options record.attributes field.type.notes)
          file.content.fields.records result.fields
      ∧ List.Forall₂ (fun (record : MemberRecord) (method : MethodDecl) =>
        Deposited file.constants.pool options record.attributes method.signature.notes)
          file.content.methods.records result.methods
      ∧ Deposited file.constants.pool options file.content.attributes
        (notesOfSignature result.signature) := by
  obtain ⟨file, rfl, hfile⟩ := Decoder.decode_eq_ok_iff.mp h
  refine ⟨⟨file, rfl⟩, fun other hother => ?_⟩
  -- There is only one class file with these bytes.
  obtain rfl := ClassFile.encode_injective hother
  unfold ClassFile.decl at hfile
  split at hfile
  · exact ClassRecord.deposited hfile
  · cases hfile

/-! ### A field with an annotation -/

/-- The names of `annotatedFieldFile`. -/
def annotatedFieldPool : Pool :=
  ⟨#[.reserved, .utf8 "A", .classRef 1, .utf8 "f", .utf8 "I",
    .utf8 "RuntimeVisibleTypeAnnotations", .utf8 "LN;"]⟩

/-- They as they stand in it. -/
def annotatedFieldPoolBytes : List UInt8 :=
  [0, 7, 1, 0, 1, 65, 7, 0, 1, 1, 0, 1, 102, 1, 0, 1, 73, 1, 0, 29, 82, 117, 110, 116, 105, 109,
    101, 86, 105, 115, 105, 98, 108, 101, 84, 121, 112, 101, 65, 110, 110, 111, 116, 97, 116, 105,
    111, 110, 115, 1, 0, 3, 76, 78, 59]

theorem takes_annotatedFieldPoolBytes :
    Pool.read.Takes annotatedFieldPoolBytes annotatedFieldPool := by
  have hread : Pool.read (.ofBytes annotatedFieldPoolBytes)
      = .ok annotatedFieldPool ⟨[], annotatedFieldPoolBytes.length, 0⟩ := by cbv
  exact Pool.takes_of_read hread

/-- The annotations on the type of its field. -/
def annotatedFieldAttribute : RawAttribute :=
  ⟨"RuntimeVisibleTypeAnnotations", [0, 1, 19, 0, 0, 6, 0, 0]⟩

/-- Its field. -/
def annotatedFieldRecord : MemberRecord :=
  ⟨0, 3, 4, ⟨[⟨5, annotatedFieldAttribute.body, by decide⟩], by decide⟩⟩

/-- A class that is its own superclass, with a field that has the annotation `N` on its type. -/
def annotatedFieldFile : ClassFile where
  minor := 0
  major := 52
  constants := ⟨_, _, takes_annotatedFieldPoolBytes⟩
  content := {
    flags := 0x21
    name := 2
    superclass := 2
    interfaces := .empty
    fields := ⟨[annotatedFieldRecord], by decide⟩
    methods := .empty
    attributes := .empty }

theorem contents_annotatedFieldAttribute :
    annotatedFieldAttribute.contents (TypeUse.readList annotatedFieldPool)
      = .ok [⟨.field, [], ⟨"N", []⟩⟩] := by
  cbv

theorem field_annotatedFieldRecord :
    annotatedFieldRecord.field annotatedFieldPool {}
      = .ok ⟨"f", .ofBits 0, "I", .primitive .int [⟨"N", []⟩], false, [], none⟩ := by
  have htype : JavaType.parseField "I" = .ok (.primitive .int [] : AnnotatedType) := by cbv
  have hplaced : (.primitive .int [] : AnnotatedType).placeAll "f" [⟨.field, [], ⟨"N", []⟩⟩]
      = .ok (.primitive .int [⟨"N", []⟩]) := by cbv
  have hattributes : FieldAttributes.ofTable annotatedFieldPool {} [annotatedFieldAttribute]
      = .ok { annotated := { typeUses := [⟨.field, [], ⟨"N", []⟩⟩] } } := by
    have hcontents := contents_annotatedFieldAttribute
    simp only [annotatedFieldAttribute] at hcontents
    simp [annotatedFieldAttribute, FieldAttributes.ofTable, FieldAttributes.add, Annotated.add,
      hcontents]
  exact except_bind_eq_ok.mpr ⟨"f", rfl, except_bind_eq_ok.mpr ⟨"I", rfl,
    except_bind_eq_ok.mpr ⟨[annotatedFieldAttribute], rfl, except_bind_eq_ok.mpr ⟨_, hattributes,
      except_bind_eq_ok.mpr ⟨_, htype, except_bind_eq_ok.mpr ⟨_, hplaced, rfl⟩⟩⟩⟩⟩⟩

theorem decl_annotatedFieldFile :
    ∃ result, annotatedFieldFile.decl ⟨"A.class", 0⟩ {} = .ok result := by
  have hfields : ∃ fields,
      [annotatedFieldRecord].mapM (·.field annotatedFieldPool {}) = .ok fields := by
    rw [List.mapM_cons, field_annotatedFieldRecord]
    exact ⟨_, rfl⟩
  obtain ⟨fields, hfields⟩ := hfields
  exact ⟨.ofParts annotatedFieldPool ⟨"A.class", 0⟩ ⟨52, 0⟩ (.ofBits 0x21) "A" (some "A") [] fields
    {} [] none, except_bind_eq_ok.mpr ⟨"A", rfl, except_bind_eq_ok.mpr ⟨some "A", rfl,
      except_bind_eq_ok.mpr ⟨[], rfl, except_bind_eq_ok.mpr ⟨fields, hfields, rfl⟩⟩⟩⟩⟩

/-- The annotation in the file is on the type of the field. -/
theorem deposited_of_decode_annotatedField :
    ∃ result, (Decoder.new.decode ⟨"A.class", 0⟩ annotatedFieldFile.encode {}).2 = .ok result
      ∧ result.fields.map (·.type.notes) = [[⟨"N", []⟩]] := by
  obtain ⟨result, hresult⟩ := decl_annotatedFieldFile
  have hdecode : (Decoder.new.decode ⟨"A.class", 0⟩ annotatedFieldFile.encode {}).2 = .ok result :=
    Decoder.decode_eq_ok_iff.mpr ⟨annotatedFieldFile, rfl, hresult⟩
  have huses : typeUsesIn annotatedFieldPool {} annotatedFieldRecord.attributes
      = .ok [⟨.field, [], ⟨"N", []⟩⟩] :=
    except_bind_eq_ok.mpr ⟨[annotatedFieldAttribute], rfl, except_bind_eq_ok.mpr
      ⟨[_], except_bind_eq_ok.mpr ⟨_, contents_annotatedFieldAttribute, rfl⟩, rfl⟩⟩
  obtain ⟨hfields, -, -⟩ := (deposited_of_decode hdecode).2 annotatedFieldFile rfl
  obtain ⟨field, rest, ⟨uses, huses', hnotes⟩, hrest, hresult⟩ :=
    List.forall₂_cons_left_iff.mp hfields
  cases hrest
  obtain rfl := Except.ok.inj (huses.symm.trans huses')
  refine ⟨result, hdecode, ?_⟩
  rw [hresult]
  simpa using hnotes

end ClassAtlas
