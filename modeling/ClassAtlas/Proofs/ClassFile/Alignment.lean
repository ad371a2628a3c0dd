import ClassAtlas.Proofs.ClassFile.Deposit
import ClassAtlas.Proofs.Pool.Layout
import ClassAtlas.Proofs.Signature.Attached

namespace ClassAtlas

open Reader Relation

/-!
# Members and their records

The interfaces, fields and methods of a class are in tables one behind the other, and the members
have tables of attributes in turn.  Each of them is what its own record says, whatever stands in
front of it and behind it.  Only annotations on the parameters of constructors need something from
elsewhere: how many parameters the class puts in front of the written ones.

* `FileRecord` — a class file with the entries of its pool;
* `syntheticCount` — the number of these parameters, from the flags of the class and what its table
  of member classes says about itself;
* `MemberRecord.GivesField`, `MemberRecord.GivesMethod` — a member is what its record says;
* `members_of_decode` — for all members of a class that is decoded.
-/

variable {pool : Pool} {options : DecodeOptions}

/-! ### Whole files -/

/-- A class file, of which the entries of the pool are told apart but not read. -/
structure FileRecord where
  /-- The lesser part of the version. -/
  minor : UInt16
  /-- The greater part of the version. -/
  major : UInt16
  /-- The constant pool. -/
  constants : PoolRecord
  /-- Everything behind it. -/
  content : ClassRecord

/-- The bytes of the file. -/
def FileRecord.encode (file : FileRecord) : List UInt8 :=
  spell 4 classFileMagic.toNat ++ (spell 2 file.minor.toNat ++ (spell 2 file.major.toNat
    ++ (file.constants.encode ++ file.content.encode)))

/-- A file that is decoded has a pool, and with it the record behind the pool means the class. -/
theorem FileRecord.of_decode_eq_ok {decoder : Decoder} {origin : Origin} {file : FileRecord}
    {result : ClassDecl} (h : (decoder.decode origin file.encode options).2 = .ok result) :
    ∃ pool, Pool.read.value file.constants.encode = .ok pool
      ∧ file.content.decl pool options origin ⟨file.major, file.minor⟩ = .ok result := by
  obtain ⟨⟨minor, major, ⟨bytes, pool, htakes⟩, content⟩, hbytes, hdecl⟩ :=
    Decoder.decode_eq_ok_iff.mp h
  have hbehind := List.append_cancel_left hbytes
  obtain ⟨hminor, hbehind⟩ := unambiguous_u16 hbehind
  obtain ⟨hmajor, hbehind⟩ := unambiguous_u16 hbehind
  dsimp only at hminor hmajor hbehind
  -- The pool ends where its last entry does, so the class begins there.
  have hread : Pool.read (.ofBytes _) = .ok pool _ := htakes.ok_of_rest_eq hbehind
  have hstart : (Cursor.ofBytes (file.constants.encode ++ file.content.encode)).rest
      = file.constants.encode ++ file.content.encode := rfl
  have hpass := Pool.passes_of_read hstart hread
  have hconstants : file.constants.encode = bytes :=
    List.append_cancel_right (hpass.rest_eq.symm.trans hbehind)
  rw [hconstants] at hbehind ⊢
  obtain ⟨hcontent, -⟩ := @ClassRecord.unambiguous_encode file.content content [] []
    (by simpa using hbehind)
  refine ⟨pool, Reader.value_eq_ok.mpr ⟨_, htakes.ok_of_rest_eq (List.append_nil _).symm⟩, ?_⟩
  unfold ClassFile.decl at hdecl
  split at hdecl
  · rwa [hcontent, hminor, hmajor]
  · cases hdecl

/-! ### Parameters in front of the written ones -/

/-- The rows of the table of member classes that an attribute holds. -/
def RawAttribute.innerClasses (pool : Pool) (item : RawAttribute) :
    Except Error (List InnerClass) :=
  if item.name = "InnerClasses" then
    item.contents do
      times (← u16).toNat (InnerClass.read pool)
  else return []

/-- What the table of member classes says about the class itself. -/
def ClassRecord.ownRows (pool : Pool) (self : String) (record : ClassRecord) :
    Except Error (List InnerClass) := do
  let table ← record.attributes.records.mapM (·.raw pool)
  let rows ← table.mapM (·.innerClasses pool)
  return rows.flatten.filter (·.name = self)

/-- The number of parameters in front of the written ones of a constructor, from the flags of the
    class and what is said about it: where it is said more than once, the flags that are said last
    count, and any outer class. -/
def syntheticCount (modifiers : ClassModifiers) (own : List InnerClass) : UInt8 :=
  if modifiers.has enumFlag then 2
  else
    match own.getLast? with
    | some row => if row.flags &&& staticFlag = 0 ∧ own.any (·.outer.isSome) then 1 else 0
    | none => 0

/-- What is known of a class is what the rows about itself say. -/
structure ClassAttributes.Reflects (known : ClassAttributes) (own : List InnerClass) : Prop where
  /-- The flags are the last ones. -/
  innerFlags_eq : known.innerFlags = own.getLast?.map (·.flags)
  /-- There is an outer class if a row has one. -/
  isSome_outerClass : known.outerClass.isSome = own.any (·.outer.isSome)

namespace ClassAttributes

theorem Reflects.addInner {known : ClassAttributes} {own : List InnerClass}
    (h : known.Reflects own) (self : String) (row : InnerClass) :
    (known.addInner self row).Reflects (own ++ [row].filter (·.name = self)) := by
  unfold ClassAttributes.addInner
  split
  · rename_i hself
    rw [List.filter_cons_of_pos (by simpa using hself), List.filter_nil]
    constructor
    · simp
    · simp [Option.isSome_or, h.isSome_outerClass, Bool.or_comm]
  · rename_i hother
    rw [List.filter_cons_of_neg (by simpa using hother), List.filter_nil, List.append_nil]
    split
    · exact ⟨h.innerFlags_eq, h.isSome_outerClass⟩
    · exact h

theorem Reflects.foldl_addInner {self : String} {known : ClassAttributes} {own : List InnerClass}
    (h : known.Reflects own) (rows : List InnerClass) :
    (rows.foldl (ClassAttributes.addInner self) known).Reflects
      (own ++ rows.filter (·.name = self)) := by
  induction rows generalizing known own with
  | nil => rwa [List.filter_nil, List.append_nil]
  | cons row rest ih =>
    have hrest := ih (h.addInner self row)
    rwa [List.append_assoc, ← List.filter_append] at hrest

theorem Reflects.add {self : String} {known known' : ClassAttributes} {own : List InnerClass}
    {item : RawAttribute} (h : known.Reflects own)
    (hadd : known.add pool options self item = .ok known') :
    ∃ rows, item.innerClasses pool = .ok rows
      ∧ known'.Reflects (own ++ rows.filter (·.name = self)) := by
  unfold ClassAttributes.add at hadd
  unfold RawAttribute.innerClasses
  split at hadd
  case h_2 hname =>
    obtain ⟨rows, hrows, hadd⟩ := except_bind_eq_ok.mp hadd
    cases hadd
    exact ⟨rows, (if_pos hname).trans hrows, h.foldl_addInner rows⟩
  -- The others say nothing about member classes.
  all_goals
    obtain ⟨_, -, hadd⟩ := except_bind_eq_ok.mp hadd
    cases hadd
    refine ⟨[], if_neg ?_, ?_⟩
    · simp_all
    · simpa using ⟨h.innerFlags_eq, h.isSome_outerClass⟩

theorem Reflects.foldlM_add {self : String} {known known' : ClassAttributes}
    {own : List InnerClass} {table : List RawAttribute} (h : known.Reflects own)
    (hall : table.foldlM (ClassAttributes.add pool options self) known = .ok known') :
    ∃ rows, table.mapM (·.innerClasses pool) = .ok rows
      ∧ known'.Reflects (own ++ rows.flatten.filter (·.name = self)) := by
  induction table generalizing known own with
  | nil =>
    cases hall
    exact ⟨[], rfl, by simpa using h⟩
  | cons item rest ih =>
    rw [List.foldlM_cons] at hall
    obtain ⟨middle, hitem, hrest⟩ := except_bind_eq_ok.mp hall
    obtain ⟨rows, hrows, hmiddle⟩ := h.add hitem
    obtain ⟨more, hmore, hknown⟩ := ih hmiddle hrest
    refine ⟨rows :: more, ?_, ?_⟩
    · rw [List.mapM_cons, hrows, hmore]
      rfl
    · rwa [List.flatten_cons, List.filter_append, ← List.append_assoc]

end ClassAttributes

/-- The parameters are counted from the flags and the rows about the class itself. -/
theorem syntheticParameters_eq {modifiers : ClassModifiers} {attributes : ClassAttributes}
    {own : List InnerClass} (h : attributes.Reflects own) :
    syntheticParameters modifiers attributes = syntheticCount modifiers own := by
  unfold syntheticParameters syntheticCount
  refine if_congr Iff.rfl rfl ?_
  rw [h.innerFlags_eq, ← h.isSome_outerClass]
  cases own.getLast? with
  | none => rfl
  | some row => cases attributes.outerClass <;> simp

/-! ### Fields -/

/-- The field is what its record says in this pool. -/
structure MemberRecord.GivesField (pool : Pool) (options : DecodeOptions) (record : MemberRecord)
    (field : FieldDecl) : Prop where
  /-- The name is the text its index stands for. -/
  name_eq : pool.utf8 record.name = .ok field.name
  /-- So is the descriptor. -/
  descriptor_eq : pool.utf8 record.descriptor = .ok field.descriptor
  /-- Everything else comes from the record too. -/
  field_eq : record.field pool options = .ok field

theorem MemberRecord.givesField_of_eq_ok {record : MemberRecord} {field : FieldDecl}
    (h : record.field pool options = .ok field) : record.GivesField pool options field := by
  have hfield := h
  unfold MemberRecord.field at h
  obtain ⟨name, hname, h⟩ := except_bind_eq_ok.mp h
  obtain ⟨descriptor, hdescriptor, h⟩ := except_bind_eq_ok.mp h
  obtain ⟨table, -, h⟩ := except_bind_eq_ok.mp h
  obtain ⟨attributes, -, h⟩ := except_bind_eq_ok.mp h
  obtain ⟨_, -, -, rfl, rfl⟩ := FieldDecl.of_ofAttributes_eq_ok h
  exact ⟨hname, hdescriptor, hfield⟩

/-! ### Methods -/

/-- The method a record means in a class with so many parameters in front of the written ones. -/
def MemberRecord.method (pool : Pool) (options : DecodeOptions) (className : String)
    (synthetic : UInt8) (record : MemberRecord) : Except Error MethodDecl := do
  (← record.openMethod pool options className).close className synthetic

/-- One of the attributes of a member is a signature. -/
def MemberRecord.HasSignature (pool : Pool) (record : MemberRecord) : Prop :=
  ∃ item ∈ record.attributes.records, pool.utf8 item.name = .ok "Signature"

/-- The types have annotations that the others do not have, and are the same apart from this. -/
def AnnotatedFrom (types types' : List AnnotatedType) : Prop :=
  List.Forall₂ (ReflTransGen JavaType.Attached) types types'

/-- Methods that differ at most in the annotations on the types of their parameters. -/
def MethodDecl.AgreesApartFromParameters (method method' : MethodDecl) : Prop :=
  (∃ types, AnnotatedFrom types method.signature.parameters
    ∧ AnnotatedFrom types method'.signature.parameters)
  ∧ method' = { method with signature.parameters := method'.signature.parameters }

/-- The method is what its record says in this pool and in a class of this name, with so many
    parameters in front of the written ones. -/
structure MemberRecord.GivesMethod (pool : Pool) (options : DecodeOptions) (className : String)
    (synthetic : UInt8) (record : MemberRecord) (method : MethodDecl) : Prop where
  /-- The name is the text its index stands for. -/
  name_eq : pool.utf8 record.name = .ok method.name
  /-- So is the descriptor. -/
  descriptor_eq : pool.utf8 record.descriptor = .ok method.descriptor
  /-- Everything else comes from the record, the class name and that number. -/
  method_eq : record.method pool options className synthetic = .ok method
  /-- The number only matters to constructors without a signature. -/
  method_eq_of_other : method.name ≠ constructorName ∨ record.HasSignature pool →
    ∀ other, record.method pool options className other = .ok method
  /-- And of these only to the annotations on the types of their parameters. -/
  agrees_of_other : ∀ other method', record.method pool options className other = .ok method' →
    method.AgreesApartFromParameters method'

theorem MethodAttributes.isSome_signature_add {known known' : MethodAttributes}
    {item : RawAttribute} (h : known.add pool options item = .ok known') :
    known'.signature.isSome ↔ known.signature.isSome ∨ item.name = "Signature" := by
  unfold add at h
  dsimp only at h
  split at h
  case h_1 hname =>
    obtain ⟨text, -, h⟩ := except_bind_eq_ok.mp h
    cases h
    simp [hname]
  -- Annotations on parameters that are not visible are read only if they are asked for.
  case h_4 hname =>
    split at h
    · obtain ⟨_, -, h⟩ := except_bind_eq_ok.mp h
      cases h
      simp [hname]
    · cases h
      simp [hname]
  all_goals
    obtain ⟨_, -, h⟩ := except_bind_eq_ok.mp h
    cases h
    simp_all

theorem MethodAttributes.isSome_signature_ofTable {known known' : MethodAttributes}
    {table : List RawAttribute}
    (h : table.foldlM (MethodAttributes.add pool options) known = .ok known') :
    known'.signature.isSome ↔ known.signature.isSome ∨ ∃ item ∈ table, item.name = "Signature" := by
  induction table generalizing known with
  | nil =>
    cases h
    simp
  | cons item rest ih =>
    rw [List.foldlM_cons] at h
    obtain ⟨middle, hitem, hrest⟩ := except_bind_eq_ok.mp h
    rw [ih hrest, isSome_signature_add hitem, List.exists_mem_cons_iff, or_assoc]

/-- The attributes of a member and their names. -/
theorem MemberRecord.hasSignature_iff {record : MemberRecord} {table : List RawAttribute}
    (h : record.attributes.records.mapM (·.raw pool) = .ok table) :
    record.HasSignature pool ↔ ∃ item ∈ table, item.name = "Signature" := by
  have hsame : ∀ {item : AttributeRecord} {raw : RawAttribute}, item.raw pool = .ok raw →
      (pool.utf8 item.name = .ok "Signature" ↔ raw.name = "Signature") := by
    intro item raw hraw
    obtain ⟨name, hname, hraw⟩ := except_bind_eq_ok.mp hraw
    cases hraw
    rw [hname, Except.ok.injEq]
  replace h := forall₂_of_mapM h
  unfold HasSignature
  generalize record.attributes.records = items at h ⊢
  induction h with
  | nil => simp
  | cons hitem _ ih =>
    rw [List.exists_mem_cons_iff, List.exists_mem_cons_iff]
    exact or_congr (hsame hitem) ih

theorem OpenMethod.of_ofAttributes_eq_ok {className name descriptor : String}
    {modifiers : MethodModifiers} {attributes : MethodAttributes} {opened : OpenMethod}
    (h : OpenMethod.ofAttributes className name descriptor modifiers attributes = .ok opened) :
    opened.method.name = name ∧ opened.method.descriptor = descriptor
      ∧ (∀ use ∈ opened.pending, use.isOnParameter = true)
      ∧ (name ≠ constructorName ∨ attributes.signature.isSome → opened.pending = []) := by
  unfold ofAttributes at h
  obtain ⟨signature, -, h⟩ := except_bind_eq_ok.mp h
  dsimp only at h
  rw [List.partition_eq_filter_filter] at h
  obtain ⟨placed, -, h⟩ := except_bind_eq_ok.mp h
  cases h
  refine ⟨rfl, rfl, ?_, ?_⟩
  · intro use huse
    simp_all
  · intro hready
    rw [List.filter_eq_nil_iff]
    intro use _
    cases hsignature : attributes.signature <;> simp_all

theorem AnnotatedFrom.refl (types : List AnnotatedType) : AnnotatedFrom types types :=
  List.forall₂_refl types

theorem AnnotatedFrom.trans {types types' types'' : List AnnotatedType}
    (first : AnnotatedFrom types types') (second : AnnotatedFrom types' types'') :
    AnnotatedFrom types types'' := by
  refine forall₂_comp ?_ first second
  exact fun hfirst hsecond => hfirst.trans hsecond

/-- Placing an annotation on a parameter changes nothing but the types of the parameters, and
    these only by annotations. -/
theorem MethodSignature.of_place_eq_ok {className method : String} {use : TypeUse}
    {signature signature' : MethodSignature AnnotationUse} (huse : use.isOnParameter = true)
    (h : signature.place className method use = .ok signature') :
    AnnotatedFrom signature.parameters signature'.parameters
      ∧ signature' = { signature with parameters := signature'.parameters } := by
  obtain ⟨target, path, note⟩ := use
  cases target with
  | formalParameter index =>
    obtain ⟨htree, -⟩ := Edit.of_toExcept_eq_ok h note
    rw [MethodSignature.attach, Edit.tree_map] at htree
    subst htree
    refine ⟨?_, rfl⟩
    rcases attachInTypes_cases note path index.toNat signature.parameters with
      hsame | ⟨before, type, after, type', htypes, hattached, htree⟩
    · rw [hsame]
      exact .refl _
    · rw [htree, htypes]
      exact List.rel_append (AnnotatedFrom.refl before)
        (.cons (.single hattached) (AnnotatedFrom.refl after))
  | _ => cases huse

theorem TypeUse.isOnParameter_of_shift {synthetic : UInt8} {use use' : TypeUse}
    (h : use.shift synthetic = .ok use') (huse : use.isOnParameter = true) :
    use'.isOnParameter = true := by
  obtain ⟨target, path, note⟩ := use
  cases target with
  | formalParameter index =>
    unfold shift at h
    dsimp only at h
    split at h
    · cases h
      rfl
    · cases h
  | _ => cases huse

/-- So does placing those that waited, one after the other. -/
theorem OpenMethod.of_close_eq_ok {className : String} {synthetic : UInt8} {opened : OpenMethod}
    {method : MethodDecl} (hpending : ∀ use ∈ opened.pending, use.isOnParameter = true)
    (h : opened.close className synthetic = .ok method) :
    AnnotatedFrom opened.method.signature.parameters method.signature.parameters
      ∧ method
        = { opened.method with signature.parameters := method.signature.parameters } := by
  have hsteps : ∀ {uses : List TypeUse} {signature signature' : MethodSignature AnnotationUse},
      (∀ use ∈ uses, use.isOnParameter = true) →
      uses.foldlM (fun (signature : MethodSignature AnnotationUse) use => do
        signature.place className opened.method.name (← use.shift synthetic)) signature
          = .ok signature' →
      AnnotatedFrom signature.parameters signature'.parameters
        ∧ signature' = { signature with parameters := signature'.parameters } := by
    intro uses
    induction uses with
    | nil =>
      rintro signature _ - ⟨⟩
      exact ⟨.refl _, rfl⟩
    | cons use rest ih =>
      intro signature signature' huses hall
      rw [List.forall_mem_cons] at huses
      rw [List.foldlM_cons] at hall
      obtain ⟨middle, hplace, hrest⟩ := except_bind_eq_ok.mp hall
      obtain ⟨shifted, hshift, hplace⟩ := except_bind_eq_ok.mp hplace
      obtain ⟨hfirst, hmiddle⟩ :=
        MethodSignature.of_place_eq_ok (TypeUse.isOnParameter_of_shift hshift huses.1) hplace
      obtain ⟨hsecond, hlast⟩ := ih huses.2 hrest
      rw [hmiddle] at hlast
      exact ⟨hfirst.trans hsecond, hlast⟩
  unfold close at h
  obtain ⟨signature, hsignature, h⟩ := except_bind_eq_ok.mp h
  cases h
  obtain ⟨htypes, hsame⟩ := hsteps hpending hsignature
  refine ⟨htypes, ?_⟩
  dsimp only
  rw [← hsame]

theorem MemberRecord.givesMethod_of_eq_ok {className : String} {synthetic : UInt8}
    {record : MemberRecord} {opened : OpenMethod} {method : MethodDecl}
    (h : record.openMethod pool options className = .ok opened)
    (hclose : opened.close className synthetic = .ok method) :
    record.GivesMethod pool options className synthetic method := by
  have hopen := h
  unfold MemberRecord.openMethod at h
  obtain ⟨name, hname, h⟩ := except_bind_eq_ok.mp h
  obtain ⟨descriptor, hdescriptor, h⟩ := except_bind_eq_ok.mp h
  obtain ⟨table, htable, h⟩ := except_bind_eq_ok.mp h
  obtain ⟨attributes, hattributes, h⟩ := except_bind_eq_ok.mp h
  obtain ⟨rfl, rfl, hpending, hready⟩ := OpenMethod.of_ofAttributes_eq_ok h
  have hmethod : ∀ other,
      record.method pool options className other = opened.close className other := by
    intro other
    rw [MemberRecord.method, hopen]
    rfl
  obtain ⟨htypes, hsame⟩ := OpenMethod.of_close_eq_ok hpending hclose
  have hsignature : record.HasSignature pool ↔ attributes.signature.isSome := by
    rw [hasSignature_iff htable, MethodAttributes.isSome_signature_ofTable hattributes]
    simp
  refine ⟨?_, ?_, (hmethod _).trans hclose, ?_, ?_⟩
  · rw [hsame]
    exact hname
  · rw [hsame]
    exact hdescriptor
  · -- Nothing has waited, so the number is not asked for.
    intro hother other
    rw [hsame] at hother
    have hnone := hready (hother.imp_right hsignature.mp)
    rw [hmethod, ← hclose, OpenMethod.close, OpenMethod.close, hnone]
    rfl
  · intro other method' hmethod'
    rw [hmethod] at hmethod'
    obtain ⟨htypes', hsame'⟩ := OpenMethod.of_close_eq_ok hpending hmethod'
    refine ⟨⟨_, htypes, htypes'⟩, ?_⟩
    rw [hsame', hsame]

/-! ### All members -/

/-- **Members do not influence each other.** Where a class file is decoded, its interfaces, fields
    and methods are those of the records in its tables, one for each and in their order.  A field
    is what its own record says in the pool; so is a method, in a class of this name, and only
    annotations on the parameter types of a constructor without signature ask for more, for what
    the flags and the table of member classes say about the class.  The names and descriptors are
    the texts that the records point at. -/
theorem members_of_decode {decoder : Decoder} {origin : Origin} {file : FileRecord}
    {result : ClassDecl} (h : (decoder.decode origin file.encode options).2 = .ok result) :
    ∃ pool own, Pool.read.value file.constants.encode = .ok pool
      ∧ pool.className file.content.name = .ok result.name
      ∧ file.content.ownRows pool result.name = .ok own
      ∧ List.Forall₂ (fun index name => pool.className index = .ok name)
        file.content.interfaces.records result.interfaces
      ∧ List.Forall₂ (MemberRecord.GivesField pool options)
        file.content.fields.records result.fields
      ∧ List.Forall₂ (MemberRecord.GivesMethod pool options result.name
          (syntheticCount (.ofBits file.content.flags) own))
        file.content.methods.records result.methods := by
  obtain ⟨pool, hpool, hdecl⟩ := FileRecord.of_decode_eq_ok h
  obtain ⟨superclass, openMethods, table, attributes, hname, -, hinterfaces, hfields, hopenMethods,
    htable, hattributes, hmethods, -⟩ := file.content.of_decl_eq_ok hdecl
  have hnothing : ({} : ClassAttributes).Reflects [] := ⟨rfl, rfl⟩
  obtain ⟨rows, hrows, hreflects⟩ := hnothing.foldlM_add hattributes
  have hown : file.content.ownRows pool result.name
      = .ok (rows.flatten.filter (·.name = result.name)) := by
    rw [ClassRecord.ownRows, htable]
    show (do return (← table.mapM (·.innerClasses pool)).flatten.filter _ : Except Error _) = _
    rw [hrows]
    rfl
  refine ⟨pool, _, hpool, hname, hown, forall₂_of_mapM hinterfaces, ?_, ?_⟩
  · exact (forall₂_of_mapM hfields).imp fun _ _ => MemberRecord.givesField_of_eq_ok
  · rw [syntheticParameters_eq hreflects] at hmethods
    refine forall₂_comp (fun hopen hclose => ?_) (forall₂_of_mapM hopenMethods)
      (forall₂_of_mapM hmethods)
    exact MemberRecord.givesMethod_of_eq_ok hopen hclose

/-! ### A constructor with an annotation on its written parameter -/

/-- The names of `innerFile`. -/
def innerPool : Pool :=
  ⟨#[.reserved, .utf8 "A", .classRef 1, .utf8 "<init>", .utf8 "(LA;I)V",
    .utf8 "RuntimeVisibleTypeAnnotations", .utf8 "LN;", .utf8 "InnerClasses"]⟩

/-- They as they stand in it. -/
def innerConstants : PoolRecord where
  entries := [
    .text [65] (by decide),
    .tagged 7 [0, 1] rfl,
    .text [60, 105, 110, 105, 116, 62] (by decide),
    .text [40, 76, 65, 59, 73, 41, 86] (by decide),
    .text [82, 117, 110, 116, 105, 109, 101, 86, 105, 115, 105, 98, 108, 101, 84, 121, 112, 101,
      65, 110, 110, 111, 116, 97, 116, 105, 111, 110, 115] (by decide),
    .text [76, 78, 59] (by decide),
    .text [73, 110, 110, 101, 114, 67, 108, 97, 115, 115, 101, 115] (by decide)]
  slots_lt := by decide

theorem takes_innerConstants : Pool.read.Takes innerConstants.encode innerPool := by
  have hread : Pool.read (.ofBytes innerConstants.encode)
      = .ok innerPool ⟨[], innerConstants.encode.length, 0⟩ := by cbv
  exact Pool.takes_of_read hread

/-- The annotation `N`, on the first parameter that is written. -/
def innerUse : TypeUse := ⟨.formalParameter 0, [], ⟨"N", []⟩⟩

/-- The annotations on types of its constructor. -/
def innerUses : RawAttribute := ⟨"RuntimeVisibleTypeAnnotations", [0, 1, 22, 0, 0, 0, 6, 0, 0]⟩

/-- Its constructor. -/
def innerConstructor : MemberRecord := ⟨0, 3, 4, ⟨[⟨5, innerUses.body, by decide⟩], by decide⟩⟩

/-- Its table of member classes. -/
def innerRows : RawAttribute := ⟨"InnerClasses", [0, 1, 0, 2, 0, 2, 0, 0, 0, 0]⟩

/-- A class that is its own superclass and a member of itself, with a constructor. -/
def innerFile : FileRecord where
  minor := 0
  major := 52
  constants := innerConstants
  content := {
    flags := 0x21
    name := 2
    superclass := 2
    interfaces := .empty
    fields := .empty
    methods := ⟨[innerConstructor], by decide⟩
    attributes := ⟨[⟨7, innerRows.body, by decide⟩], by decide⟩ }

/-- The types of the constructor without the annotation. -/
def innerTypes : MethodSignature AnnotationUse :=
  ⟨[], [.ofClass (ClassType.ofName "A"), .primitive .int []], .primitive .void [], [], none⟩

/-- The constructor without the annotation. -/
def innerOpened : OpenMethod where
  pending := [innerUse]
  method := ⟨"<init>", .ofBits 0, "(LA;I)V", innerTypes, false, [], [], [], none, []⟩

/-- The constructor with the annotation, which is on the second parameter in the descriptor. -/
def innerMethod : MethodDecl :=
  { innerOpened.method with
    signature.parameters := [.ofClass (ClassType.ofName "A"), .primitive .int [⟨"N", []⟩]] }

theorem parse_innerTypes : MethodSignature.parse "(LA;I)V" = .ok innerTypes := by cbv

theorem openMethod_innerConstructor :
    innerConstructor.openMethod innerPool {} "A" = .ok innerOpened := by
  have hcontents : innerUses.contents (TypeUse.readList innerPool)
      = .ok [⟨.formalParameter 0, [], ⟨"N", []⟩⟩] := by cbv
  have hattributes : MethodAttributes.ofTable innerPool {} [innerUses]
      = .ok { annotated := { typeUses := [innerUse] } } := by
    simp only [innerUses] at hcontents
    simp [innerUses, innerUse, MethodAttributes.ofTable, MethodAttributes.add, Annotated.add,
      hcontents]
  exact except_bind_eq_ok.mpr ⟨"<init>", rfl, except_bind_eq_ok.mpr ⟨"(LA;I)V", rfl,
    except_bind_eq_ok.mpr ⟨[innerUses], rfl, except_bind_eq_ok.mpr ⟨_, hattributes,
      except_bind_eq_ok.mpr ⟨_, parse_innerTypes, rfl⟩⟩⟩⟩⟩

theorem close_innerOpened : innerOpened.close "A" 1 = .ok innerMethod := by
  have hattach : (.primitive .int [] : AnnotatedType).attach (⟨"N", []⟩ : AnnotationUse) []
      = .done (.primitive .int [⟨"N", []⟩]) := by
    rw [JavaType.attach]
    rfl
  have hplace : innerTypes.place "A" "<init>" ⟨.formalParameter 1, [], ⟨"N", []⟩⟩
      = .ok innerMethod.signature := by
    show (((JavaType.attach _ _ (.primitive .int [])).map _).map _).toExcept _ = _
    rw [hattach]
    rfl
  have hshift : innerUse.shift 1 = .ok ⟨.formalParameter 1, [], ⟨"N", []⟩⟩ := rfl
  unfold OpenMethod.close
  rw [show innerOpened.pending = [innerUse] from rfl, List.foldlM_cons, hshift]
  exact except_bind_eq_ok.mpr ⟨_, except_bind_eq_ok.mpr ⟨_, hplace, rfl⟩, rfl⟩

theorem innerClasses_innerRows : innerRows.innerClasses innerPool = .ok [⟨"A", some "A", 0⟩] := by
  cbv

theorem ownRows_innerFile :
    innerFile.content.ownRows innerPool "A" = .ok [⟨"A", some "A", 0⟩] :=
  except_bind_eq_ok.mpr ⟨[innerRows], rfl,
    except_bind_eq_ok.mpr ⟨[_], except_bind_eq_ok.mpr ⟨_, innerClasses_innerRows, rfl⟩, rfl⟩⟩

theorem decode_innerFile :
    ∃ result, (Decoder.new.decode ⟨"A.class", 0⟩ innerFile.encode {}).2 = .ok result := by
  let attributes : ClassAttributes := { innerFlags := some 0, outerClass := some "A" }
  have hattributes : ClassAttributes.ofTable innerPool {} "A" [innerRows] = .ok attributes := by
    have hrows := innerClasses_innerRows
    simp only [RawAttribute.innerClasses, innerRows, ↓reduceIte] at hrows
    simp [innerRows, ClassAttributes.ofTable, ClassAttributes.add, hrows,
      ClassAttributes.addInner, attributes]
  have hopen : [innerConstructor].mapM (·.openMethod innerPool {} "A") = .ok [innerOpened] := by
    rw [List.mapM_cons, openMethod_innerConstructor]
    rfl
  have hclose : [innerOpened].mapM (·.close "A" 1) = .ok [innerMethod] := by
    rw [List.mapM_cons, close_innerOpened]
    rfl
  refine ⟨.ofParts innerPool ⟨"A.class", 0⟩ ⟨52, 0⟩ (.ofBits 0x21) "A" (some "A") [] [] attributes
    [innerMethod] none, Decoder.decode_eq_ok_iff.mpr
      ⟨⟨0, 52, ⟨_, _, takes_innerConstants⟩, innerFile.content⟩, rfl, ?_⟩⟩
  exact except_bind_eq_ok.mpr ⟨"A", rfl, except_bind_eq_ok.mpr ⟨some "A", rfl,
    except_bind_eq_ok.mpr ⟨[], rfl, except_bind_eq_ok.mpr ⟨[], rfl, except_bind_eq_ok.mpr
      ⟨_, hopen, except_bind_eq_ok.mpr ⟨[innerRows], rfl, except_bind_eq_ok.mpr ⟨_, hattributes,
        except_bind_eq_ok.mpr ⟨_, hclose, rfl⟩⟩⟩⟩⟩⟩⟩⟩

/-- It is decoded with the annotation on the parameter behind the enclosing instance. -/
theorem members_of_decode_inner :
    ∃ result, (Decoder.new.decode ⟨"A.class", 0⟩ innerFile.encode {}).2 = .ok result
      ∧ result.methods = [innerMethod] := by
  obtain ⟨result, hresult⟩ := decode_innerFile
  obtain ⟨pool, own, hpool, hname, hown, -, -, hmethods⟩ := members_of_decode hresult
  have hread : Pool.read.value innerFile.constants.encode = .ok innerPool :=
    Reader.value_eq_ok.mpr ⟨_, takes_innerConstants.ok_of_rest_eq (List.append_nil _).symm⟩
  obtain rfl := Except.ok.inj (hread.symm.trans hpool)
  have hself : result.name = "A" := (Except.ok.inj hname).symm
  rw [hself] at hown hmethods
  obtain rfl := Except.ok.inj (ownRows_innerFile.symm.trans hown)
  obtain ⟨method, rest, hmethod, hrest, hmethods⟩ := List.forall₂_cons_left_iff.mp hmethods
  cases hrest
  have hgiven : innerConstructor.method innerPool {} "A" 1 = .ok innerMethod :=
    except_bind_eq_ok.mpr ⟨_, openMethod_innerConstructor, close_innerOpened⟩
  obtain rfl := Except.ok.inj (hgiven.symm.trans hmethod.method_eq)
  exact ⟨result, hresult, hmethods⟩

end ClassAtlas
