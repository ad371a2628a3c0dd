import ClassAtlas.Proofs.ClassFile.PrefixFree
import ClassAtlas.Proofs.Reading.Spelling

namespace ClassAtlas

open Reader

/-!
# The layout of class files

A class file as the records it is made of, none of them looked into, and what each record means.

* `AttributeRecord`, `MemberRecord`, `ClassRecord`, `ClassFile` — the records and their bytes;
* `MemberRecord.field`, `MemberRecord.openMethod`, `ClassRecord.decl`, `ClassFile.decl` — what they
  mean;
* `ClassDecl.readEnd`, `ClassDecl.ofTables` — what is done behind the last table of a class;
* `Decoder.decode_eq_ok_iff` — a decoder gives exactly what the class file means whose bytes it is
  handed;
* `ClassFile.encode_injective` — there is no more than one.
-/

/-! ### Attributes -/

/-- An attribute in a table. -/
structure AttributeRecord where
  /-- The index of the name. -/
  name : UInt16
  /-- The bytes. -/
  body : List UInt8
  /-- There are no more than four bytes can count. -/
  length_lt : body.length < 2 ^ 32

/-- The index, the number of the bytes, and the bytes. -/
def AttributeRecord.encode (record : AttributeRecord) : List UInt8 :=
  spell 2 record.name.toNat ++ (spell 4 record.body.length ++ record.body)

/-- The attribute by its name. -/
def AttributeRecord.raw (pool : Pool) (record : AttributeRecord) : Except Error RawAttribute := do
  return ⟨← pool.utf8 record.name, record.body⟩

/-- The parts of an attribute. -/
def AttributeRecord.fields (record : AttributeRecord) :
    UInt16 × { body : List UInt8 // body.length < 2 ^ 32 } :=
  (record.name, ⟨record.body, record.length_lt⟩)

theorem AttributeRecord.fields_bijective : Function.Bijective AttributeRecord.fields := by
  constructor
  · rintro ⟨name, body, hlength⟩ ⟨name', body', hlength'⟩ h
    simpa [fields] using h
  · rintro ⟨name, body, hlength⟩
    exact ⟨⟨name, body, hlength⟩, rfl⟩

theorem RawAttribute.readsAs_read (pool : Pool) :
    (RawAttribute.read pool).ReadsAs AttributeRecord.encode (AttributeRecord.raw pool) :=
  (readsAs_u16.bind fun _ => .afterLift fun name =>
    readsAs_sized (RawAttribute.mk name)).of_surjective
      AttributeRecord.fields AttributeRecord.fields_bijective.surjective

theorem RawAttribute.readsAs_readTable (pool : Pool) :
    (RawAttribute.readTable pool).ReadsAs (Table.encode AttributeRecord.encode)
      fun table => table.records.mapM (·.raw pool) :=
  (RawAttribute.readsAs_read pool).table

/-! ### Members -/

/-- A field or a method in a table. -/
structure MemberRecord where
  /-- The flags. -/
  flags : UInt16
  /-- The index of the name. -/
  name : UInt16
  /-- The index of the descriptor. -/
  descriptor : UInt16
  /-- The attributes. -/
  attributes : Table AttributeRecord

namespace MemberRecord

/-- The numbers and the attributes. -/
def encode (record : MemberRecord) : List UInt8 :=
  spell 2 record.flags.toNat ++ (spell 2 record.name.toNat ++ (spell 2 record.descriptor.toNat
    ++ record.attributes.encode AttributeRecord.encode))

/-- The field it is, if it is one. -/
def field (pool : Pool) (options : DecodeOptions) (record : MemberRecord) :
    Except Error FieldDecl := do
  let name ← pool.utf8 record.name
  let descriptor ← pool.utf8 record.descriptor
  let table ← record.attributes.records.mapM (·.raw pool)
  let attributes ← FieldAttributes.ofTable pool options table
  FieldDecl.ofAttributes pool name descriptor (FieldModifiers.ofBits record.flags) attributes

/-- The method it is, if it is one. -/
def openMethod (pool : Pool) (options : DecodeOptions) (className : String)
    (record : MemberRecord) : Except Error OpenMethod := do
  let name ← pool.utf8 record.name
  let descriptor ← pool.utf8 record.descriptor
  let table ← record.attributes.records.mapM (·.raw pool)
  let attributes ← MethodAttributes.ofTable pool options table
  OpenMethod.ofAttributes className name descriptor (MethodModifiers.ofBits record.flags) attributes

/-- The parts of a member. -/
def fields (record : MemberRecord) : UInt16 × UInt16 × UInt16 × Table AttributeRecord :=
  (record.flags, record.name, record.descriptor, record.attributes)

theorem fields_bijective : Function.Bijective fields := by
  constructor
  · rintro ⟨flags, name, descriptor, attributes⟩ ⟨flags', name', descriptor', attributes'⟩ h
    simpa [fields] using h
  · rintro ⟨flags, name, descriptor, attributes⟩
    exact ⟨⟨flags, name, descriptor, attributes⟩, rfl⟩

end MemberRecord

/-- The parts of a member are read, and then it is worked out what they mean. -/
theorem readsAs_member {β : Type} (pool : Pool)
    {next : UInt16 → String → String → List RawAttribute → Reader β}
    {outcome : UInt16 → String → String → List RawAttribute → Except Error β}
    (hnext : ∀ flags name descriptor table,
      (next flags name descriptor table).ReadsAs (fun _ : Unit => [])
        fun _ => outcome flags name descriptor table) :
    (do
      let flags ← u16
      let name ← pool.utf8 (← u16)
      let descriptor ← pool.utf8 (← u16)
      let table ← RawAttribute.readTable pool
      next flags name descriptor table : Reader β).ReadsAs MemberRecord.encode (fun record => do
        let name ← pool.utf8 record.name
        let descriptor ← pool.utf8 record.descriptor
        let table ← record.attributes.records.mapM (·.raw pool)
        outcome record.flags name descriptor table) :=
  (readsAs_u16.bind fun _ => readsAs_u16.bind fun _ => .afterLift fun _ =>
    readsAs_u16.bind fun _ => .afterLift fun _ =>
      (RawAttribute.readsAs_readTable pool).finally fun _ => hnext _ _ _ _).of_surjective
    MemberRecord.fields MemberRecord.fields_bijective.surjective

theorem FieldDecl.readsAs_read (pool : Pool) (options : DecodeOptions) :
    (FieldDecl.read pool options).ReadsAs MemberRecord.encode (MemberRecord.field pool options) :=
  readsAs_member pool fun _ _ _ _ => .afterLift fun _ => readsAs_lift _

theorem OpenMethod.readsAs_read (pool : Pool) (options : DecodeOptions) (className : String) :
    (OpenMethod.read pool options className).ReadsAs MemberRecord.encode
      (MemberRecord.openMethod pool options className) :=
  readsAs_member pool fun _ _ _ _ => .afterLift fun _ => readsAs_lift _

/-! ### Classes -/

/-- Everything behind the constant pool. -/
structure ClassRecord where
  /-- The flags. -/
  flags : UInt16
  /-- The index of the class. -/
  name : UInt16
  /-- The index of the superclass. -/
  superclass : UInt16
  /-- The indices of the interfaces. -/
  interfaces : Table UInt16
  /-- The fields. -/
  fields : Table MemberRecord
  /-- The methods. -/
  methods : Table MemberRecord
  /-- The attributes. -/
  attributes : Table AttributeRecord

namespace ClassRecord

/-- The numbers and the tables. -/
def encode (record : ClassRecord) : List UInt8 :=
  spell 2 record.flags.toNat ++ (spell 2 record.name.toNat ++ (spell 2 record.superclass.toNat
    ++ (record.interfaces.encode (fun index => spell 2 index.toNat)
    ++ (record.fields.encode MemberRecord.encode ++ (record.methods.encode MemberRecord.encode
    ++ record.attributes.encode AttributeRecord.encode)))))

/-- The class it is, if it is one. -/
def decl (pool : Pool) (options : DecodeOptions) (origin : Origin) (version : FileVersion)
    (record : ClassRecord) : Except Error ClassDecl := do
  let fileModifiers := ClassModifiers.ofBits record.flags
  let name ← pool.className record.name
  if fileModifiers.has moduleFlag then
    throw (.notSupported s!"module descriptor '{name}'")
  let superclass ← pool.optionalClassName record.superclass
  if superclass.isNone ∧ name ≠ "java.lang.Object" then
    throw (.malformed (.noSuperclass name))
  let interfaces ← record.interfaces.records.mapM pool.className
  let fields ← record.fields.records.mapM (·.field pool options)
  let openMethods ← record.methods.records.mapM (·.openMethod pool options name)
  let table ← record.attributes.records.mapM (·.raw pool)
  let attributes ← ClassAttributes.ofTable pool options name table
  let methods ← openMethods.mapM (·.close name (syntheticParameters fileModifiers attributes))
  let signature ← classSignature superclass interfaces attributes
  return .ofParts pool origin version fileModifiers name superclass interfaces fields attributes
    methods signature

/-- The parts of a class. -/
def parts (record : ClassRecord) : UInt16 × UInt16 × UInt16 × Table UInt16 × Table MemberRecord
    × Table MemberRecord × Table AttributeRecord :=
  (record.flags, record.name, record.superclass, record.interfaces, record.fields, record.methods,
    record.attributes)

theorem parts_bijective : Function.Bijective parts := by
  constructor
  · rintro ⟨flags, name, superclass, interfaces, fields, methods, attributes⟩
      ⟨flags', name', superclass', interfaces', fields', methods', attributes'⟩ h
    simpa [parts] using h
  · rintro ⟨flags, name, superclass, interfaces, fields, methods, attributes⟩
    exact ⟨⟨flags, name, superclass, interfaces, fields, methods, attributes⟩, rfl⟩

end ClassRecord

/-- One outcome for each item. -/
theorem forall₂_of_mapM {β γ : Type} {step : β → Except Error γ} {items : List β}
    {values : List γ} (h : items.mapM step = .ok values) :
    List.Forall₂ (fun item value => step item = .ok value) items values := by
  induction items generalizing values with
  | nil =>
    cases h
    exact .nil
  | cons item rest ih =>
    rw [List.mapM_cons] at h
    obtain ⟨value, hvalue, h⟩ := except_bind_eq_ok.mp h
    obtain ⟨more, hmore, h⟩ := except_bind_eq_ok.mp h
    cases h
    exact .cons hvalue (ih hmore)

/-- Steps that read nothing, one for each item. -/
theorem mapM_liftM {β γ : Type} (step : β → Except Error γ) (items : List β) :
    items.mapM (fun item => (liftM (step item) : Reader γ)) = liftM (items.mapM step) := by
  induction items with
  | nil => rfl
  | cons item rest ih =>
    rw [List.mapM_cons, List.mapM_cons, ih]
    cases step item with
    | error error => rfl
    | ok value => cases rest.mapM step <;> rfl

/-- The reader of a class in one piece. -/
theorem ClassDecl.read_eq (pool : Pool) (options : DecodeOptions) (origin : Origin)
    (version : FileVersion) : ClassDecl.read pool options origin version = (do
      let fileModifiers := ClassModifiers.ofBits (← u16)
      let name ← pool.className (← u16)
      if fileModifiers.has moduleFlag then
        throw (.notSupported s!"module descriptor '{name}'")
      let superclass ← pool.optionalClassName (← u16)
      if superclass.isNone ∧ name ≠ "java.lang.Object" then
        malformed (.noSuperclass name)
      let interfaces ← times (← u16).toNat do
        pool.className (← u16)
      let fields ← times (← u16).toNat (FieldDecl.read pool options)
      let openMethods ← times (← u16).toNat (OpenMethod.read pool options name)
      let table ← RawAttribute.readTable pool
      let attributes ← ClassAttributes.ofTable pool options name table
      let methods ← openMethods.mapM fun method =>
        (method.close name (syntheticParameters fileModifiers attributes) : Except Error MethodDecl)
      let left := (← get).rest.length
      if left ≠ 0 then malformed (.trailingBytes left name)
      let signature ← classSignature superclass interfaces attributes
      return .ofParts pool origin version fileModifiers name superclass interfaces fields
        attributes methods signature) := rfl

section

variable (pool : Pool) (options : DecodeOptions) (origin : Origin) (version : FileVersion)
  (fileModifiers : ClassModifiers) (name : String) (superclass : Option String)
  (interfaces : List String) (fields : List FieldDecl) (openMethods : List OpenMethod)
  (table : List RawAttribute)

/-- The class that has these tables. -/
def ClassDecl.ofTables : Except Error ClassDecl := do
  let attributes ← ClassAttributes.ofTable pool options name table
  let methods ← openMethods.mapM (·.close name (syntheticParameters fileModifiers attributes))
  let signature ← classSignature superclass interfaces attributes
  return .ofParts pool origin version fileModifiers name superclass interfaces fields attributes
    methods signature

/-- What a reader of classes does behind the last table. -/
def ClassDecl.readEnd : Reader ClassDecl := do
  let attributes ← ClassAttributes.ofTable pool options name table
  let methods ← openMethods.mapM fun method =>
    (method.close name (syntheticParameters fileModifiers attributes) : Except Error MethodDecl)
  let left := (← get).rest.length
  if left ≠ 0 then malformed (.trailingBytes left name)
  let signature ← classSignature superclass interfaces attributes
  return .ofParts pool origin version fileModifiers name superclass interfaces fields attributes
    methods signature

/-- Nothing is read there any more, it is only seen whether this is the end. -/
theorem ClassDecl.readsAllAs_readEnd :
    (readEnd pool options origin version fileModifiers name superclass interfaces fields openMethods
      table).ReadsAllAs (fun _ : Unit => [])
      fun _ => ofTables pool options origin version fileModifiers name superclass interfaces fields
        openMethods table := by
  refine .afterLift _ fun attributes => ?_
  rw [mapM_liftM]
  refine .afterLift _ fun methods => ?_
  refine Reader.readsAllAs_end ?_ ?_
  · exact fun _ _ _ _ => malformed_bind_ne_ok
  · exact .afterLift fun signature => readsAs_lift (.ok _)

end

theorem ClassDecl.readsAllAs_read (pool : Pool) (options : DecodeOptions) (origin : Origin)
    (version : FileVersion) :
    (ClassDecl.read pool options origin version).ReadsAllAs ClassRecord.encode
      (ClassRecord.decl pool options origin version) := by
  have hclassName : (do pool.className (← u16) : Reader String).ReadsAs
      (fun index : UInt16 => spell 2 index.toNat) pool.className :=
    readsAs_u16.finally fun _ => readsAs_lift _
  -- Where a class is refused nothing that follows can give it back.
  have hrefused : ∀ (error : Error) (next : Unit → Reader ClassDecl) (start : Cursor)
      (value : ClassDecl) (stop : Cursor),
      ((throw error : Reader Unit) >>= next) start ≠ .ok value stop := by
    intro error next start value stop h
    obtain ⟨_, _, hthrow, -⟩ := bind_eq_ok.mp h
    cases hthrow
  rw [ClassDecl.read_eq]
  exact ReadsAllAs.of_surjective (readsAs_u16.bindAll fun flags => readsAs_u16.bindAll fun index =>
    .afterLift (pool.className index) fun name =>
      .guard ((ClassModifiers.ofBits flags).has moduleFlag = true) _
        (.notSupported s!"module descriptor '{name}'") (hrefused _ _)
        (readsAs_u16.bindAll fun index =>
      .afterLift (pool.optionalClassName index) fun superclass =>
        .guard (superclass.isNone = true ∧ name ≠ "java.lang.Object") _
          (.malformed (.noSuperclass name)) (hrefused _ _)
        (hclassName.tableAll fun interfaces =>
        (FieldDecl.readsAs_read pool options).tableAll fun fields =>
          (OpenMethod.readsAs_read pool options name).tableAll fun openMethods =>
            (RawAttribute.readsAs_readTable pool).finallyAll fun table =>
              ClassDecl.readsAllAs_readEnd pool options origin version
                (ClassModifiers.ofBits flags) name superclass interfaces fields openMethods
                table)))
    ClassRecord.parts ClassRecord.parts_bijective.surjective

/-- What the tables of a record mean that means a class, and that there is no more to the class. -/
theorem ClassRecord.exists_ofParts_of_decl_eq_ok {pool : Pool} {options : DecodeOptions}
    {origin : Origin} {version : FileVersion} {record : ClassRecord} {result : ClassDecl}
    (h : record.decl pool options origin version = .ok result) :
    ∃ name superclass interfaces fields openMethods table attributes methods signature,
      pool.className record.name = .ok name
      ∧ pool.optionalClassName record.superclass = .ok superclass
      ∧ record.interfaces.records.mapM pool.className = .ok interfaces
      ∧ record.fields.records.mapM (·.field pool options) = .ok fields
      ∧ record.methods.records.mapM (·.openMethod pool options name) = .ok openMethods
      ∧ record.attributes.records.mapM (·.raw pool) = .ok table
      ∧ ClassAttributes.ofTable pool options name table = .ok attributes
      ∧ openMethods.mapM (·.close name
          (syntheticParameters (ClassModifiers.ofBits record.flags) attributes)) = .ok methods
      ∧ classSignature superclass interfaces attributes = .ok signature
      ∧ result = .ofParts pool origin version (ClassModifiers.ofBits record.flags) name superclass
          interfaces fields attributes methods signature := by
  unfold decl at h
  obtain ⟨name, hname, h⟩ := except_bind_eq_ok.mp h
  dsimp only at h
  split at h
  · cases h
  obtain ⟨superclass, hsuperclass, h⟩ := except_bind_eq_ok.mp h
  split at h
  · cases h
  obtain ⟨interfaces, hinterfaces, h⟩ := except_bind_eq_ok.mp h
  obtain ⟨fields, hfields, h⟩ := except_bind_eq_ok.mp h
  obtain ⟨openMethods, hopenMethods, h⟩ := except_bind_eq_ok.mp h
  obtain ⟨table, htable, h⟩ := except_bind_eq_ok.mp h
  obtain ⟨attributes, hattributes, h⟩ := except_bind_eq_ok.mp h
  obtain ⟨methods, hmethods, h⟩ := except_bind_eq_ok.mp h
  obtain ⟨signature, hsignature, h⟩ := except_bind_eq_ok.mp h
  cases h
  exact ⟨name, superclass, interfaces, fields, openMethods, table, attributes, methods, signature,
    hname, hsuperclass, hinterfaces, hfields, hopenMethods, htable, hattributes, hmethods,
    hsignature, rfl⟩

/-- The same, said of the parts as the class has them. -/
theorem ClassRecord.of_decl_eq_ok {pool : Pool} {options : DecodeOptions} {origin : Origin}
    {version : FileVersion} {record : ClassRecord} {result : ClassDecl}
    (h : record.decl pool options origin version = .ok result) :
    ∃ superclass openMethods table attributes,
      pool.className record.name = .ok result.name
      ∧ pool.optionalClassName record.superclass = .ok superclass
      ∧ record.interfaces.records.mapM pool.className = .ok result.interfaces
      ∧ record.fields.records.mapM (·.field pool options) = .ok result.fields
      ∧ record.methods.records.mapM (·.openMethod pool options result.name) = .ok openMethods
      ∧ record.attributes.records.mapM (·.raw pool) = .ok table
      ∧ ClassAttributes.ofTable pool options result.name table = .ok attributes
      ∧ openMethods.mapM (·.close result.name
          (syntheticParameters (ClassModifiers.ofBits record.flags) attributes))
        = .ok result.methods
      ∧ classSignature superclass result.interfaces attributes = .ok result.signature := by
  obtain ⟨name, superclass, interfaces, fields, openMethods, table, attributes, methods, signature,
    hname, hsuperclass, hinterfaces, hfields, hopenMethods, htable, hattributes, hmethods,
    hsignature, rfl⟩ := record.exists_ofParts_of_decl_eq_ok h
  exact ⟨superclass, openMethods, table, attributes, hname, hsuperclass, hinterfaces, hfields,
    hopenMethods, htable, hattributes, hmethods, hsignature⟩

/-! ### Class files -/

/-- The count and the entries of a constant pool, and the pool they make. -/
structure Constants where
  /-- The bytes. -/
  bytes : List UInt8
  /-- The pool. -/
  pool : Pool
  /-- It is read from all of them. -/
  takes : Pool.read.Takes bytes pool

/-- A class file. -/
structure ClassFile where
  /-- The lesser part of the version. -/
  minor : UInt16
  /-- The greater part of the version. -/
  major : UInt16
  /-- The constant pool. -/
  constants : Constants
  /-- Everything behind it. -/
  content : ClassRecord

namespace ClassFile

/-- The bytes of the file. -/
def encode (file : ClassFile) : List UInt8 :=
  spell 4 classFileMagic.toNat ++ (spell 2 file.minor.toNat ++ (spell 2 file.major.toNat
    ++ (file.constants.bytes ++ file.content.encode)))

/-- The class it holds, if it holds one. -/
def decl (origin : Origin) (options : DecodeOptions) (file : ClassFile) :
    Except Error ClassDecl :=
  if oldestMajor ≤ file.major ∧ file.major ≤ options.maxMajor then
    file.content.decl file.constants.pool options origin ⟨file.major, file.minor⟩
  else .error (.malformed (.badVersion file.major file.minor))

end ClassFile

theorem FileVersion.readsAs_read (options : DecodeOptions) :
    (FileVersion.read options).ReadsAs
      (fun version : UInt16 × UInt16 => spell 4 classFileMagic.toNat
        ++ (spell 2 version.1.toNat ++ spell 2 version.2.toNat))
      fun version =>
        if oldestMajor ≤ version.2 ∧ version.2 ≤ options.maxMajor then
          .ok ⟨version.2, version.1⟩
        else .error (.malformed (.badVersion version.2 version.1)) := by
  have hnumbers : (do
      let minor ← u16
      let major ← u16
      if oldestMajor ≤ major ∧ major ≤ options.maxMajor then return ⟨major, minor⟩
      else malformed (.badVersion major minor) : Reader FileVersion).ReadsAs
        (fun version : UInt16 × UInt16 => spell 2 version.1.toNat ++ spell 2 version.2.toNat)
        fun version =>
          if oldestMajor ≤ version.2 ∧ version.2 ≤ options.maxMajor then
            .ok ⟨version.2, version.1⟩
          else .error (.malformed (.badVersion version.2 version.1)) := by
    have hcheck : ∀ minor major : UInt16,
        (if oldestMajor ≤ major ∧ major ≤ options.maxMajor then return ⟨major, minor⟩
          else malformed (.badVersion major minor) : Reader FileVersion).ReadsAs
        (fun _ : Unit => []) fun _ =>
          if oldestMajor ≤ major ∧ major ≤ options.maxMajor then .ok ⟨major, minor⟩
          else .error (.malformed (.badVersion major minor)) := by
      intro minor major
      split
      · exact readsAs_lift (.ok _)
      · exact readsAs_lift (.error _)
    exact readsAs_u16.bind fun minor => readsAs_u16.finally fun major => hcheck minor major
  intro start stop version
  unfold FileVersion.read
  rw [bind_eq_ok]
  constructor
  · -- Only one magic number is let through, so it is no part of the record.
    rintro ⟨magic, middle, hmagic, hread⟩
    obtain ⟨_, hpass, ⟨⟩⟩ := (readsAs_u32 _ _ _).mp hmagic
    by_cases hother : magic ≠ classFileMagic
    · rw [if_pos hother] at hread
      exact absurd hread malformed_bind_ne_ok
    · rw [if_neg hother] at hread
      obtain ⟨numbers, hpass', hversion⟩ := (hnumbers _ _ _).mp hread
      rw [not_not.mp hother] at hpass
      exact ⟨numbers, hpass.trans hpass', hversion⟩
  · rintro ⟨numbers, hpass, hversion⟩
    obtain ⟨middle, hpass, hpass'⟩ := hpass.split
    refine ⟨classFileMagic, middle, (readsAs_u32 _ _ _).mpr ⟨_, hpass, rfl⟩, ?_⟩
    rw [if_neg (not_not.mpr rfl)]
    exact (hnumbers _ _ _).mpr ⟨numbers, hpass', hversion⟩

theorem Pool.readsAs_read :
    Pool.read.ReadsAs Constants.bytes fun constants => .ok constants.pool := by
  intro start stop pool
  constructor
  · intro hread
    obtain ⟨bytes, hpass, htakes⟩ := Pool.sequential_read hread
    exact ⟨⟨bytes, pool, htakes⟩, hpass, rfl⟩
  · rintro ⟨constants, hpass, hpool⟩
    cases hpool
    exact constants.takes.ok hpass

theorem ClassDecl.readsAllAs_readFile (origin : Origin) (options : DecodeOptions) :
    (ClassDecl.readFile origin options).ReadsAllAs ClassFile.encode
      (ClassFile.decl origin options) := by
  have hfile := ((FileVersion.readsAs_read options).bindAll fun version =>
    Pool.readsAs_read.bindAll fun pool =>
      ClassDecl.readsAllAs_read pool options origin version).of_surjective
    (fun file : ClassFile => ((file.minor, file.major), file.constants, file.content))
    (fun ⟨⟨minor, major⟩, constants, content⟩ => ⟨⟨minor, major, constants, content⟩, rfl⟩)
  intro start decl
  refine (hfile start decl).trans (exists_congr fun file => ?_)
  simp only [ClassFile.encode, List.append_assoc, ClassFile.decl]
  split <;> rfl

/-- **A decoder gives what the class file means.** Bytes are decoded exactly if they are those of a
    class file that means a class, and then they give this class. -/
theorem Decoder.decode_eq_ok_iff {decoder : Decoder} {origin : Origin} {data : List UInt8}
    {options : DecodeOptions} {decl : ClassDecl} :
    (decoder.decode origin data options).2 = .ok decl
      ↔ ∃ file : ClassFile, data = file.encode ∧ file.decl origin options = .ok decl := by
  rw [(Decoder.decode_spec ..).1]
  exact (ClassDecl.readsAllAs_readFile origin options).value_eq_ok

/-! ### No bytes are those of two class files -/

theorem unambiguous_u16 : Unambiguous fun value : UInt16 => spell 2 value.toNat :=
  unambiguous_spell UInt16.toNat_lt fun _ _ => UInt16.toNat_inj.mp

theorem AttributeRecord.unambiguous_encode : Unambiguous AttributeRecord.encode := by
  have hbody : Unambiguous fun body : { body : List UInt8 // body.length < 2 ^ 32 } =>
      spell 4 body.val.length ++ body.val := by
    have hlengths : Unambiguous fun length : Fin (2 ^ 32) => spell 4 length.val :=
      unambiguous_spell (fun length => length.isLt) Fin.val_injective
    rintro ⟨body, hbody⟩ ⟨body', hbody'⟩ tail tail' hsame
    simp only [List.append_assoc] at hsame
    obtain ⟨hlength, hrest⟩ := @hlengths ⟨_, hbody⟩ ⟨_, hbody'⟩ _ _ hsame
    obtain ⟨rfl, htail⟩ := List.append_inj hrest (Fin.val_eq_of_eq hlength)
    exact ⟨rfl, htail⟩
  exact (unambiguous_u16.pair hbody).of_injective AttributeRecord.fields
    AttributeRecord.fields_bijective.injective

theorem MemberRecord.unambiguous_encode : Unambiguous MemberRecord.encode :=
  (unambiguous_u16.pair (unambiguous_u16.pair (unambiguous_u16.pair
    AttributeRecord.unambiguous_encode.table))).of_injective
    MemberRecord.fields MemberRecord.fields_bijective.injective

theorem ClassRecord.unambiguous_encode : Unambiguous ClassRecord.encode :=
  (unambiguous_u16.pair (unambiguous_u16.pair (unambiguous_u16.pair (unambiguous_u16.table.pair
    (MemberRecord.unambiguous_encode.table.pair (MemberRecord.unambiguous_encode.table.pair
      AttributeRecord.unambiguous_encode.table)))))).of_injective
    ClassRecord.parts ClassRecord.parts_bijective.injective

theorem Constants.unambiguous_bytes : Unambiguous Constants.bytes := by
  rintro ⟨bytes, pool, htakes⟩ ⟨bytes', pool', htakes'⟩ tail tail' hsame
  dsimp only at hsame
  -- Read from the same bytes, both give the one pool and leave the one rest.
  have hread : Pool.read (.ofBytes (bytes ++ tail)) = .ok pool _ := htakes.ok_of_rest_eq rfl
  have hread' : Pool.read (.ofBytes (bytes ++ tail)) = .ok pool' _ := htakes'.ok_of_rest_eq hsame
  obtain ⟨rfl, hstop⟩ := EStateM.Result.ok.inj (hread.symm.trans hread')
  obtain rfl : tail = tail' := congrArg Cursor.rest hstop
  obtain rfl := List.append_cancel_right hsame
  exact ⟨rfl, rfl⟩

/-- The bytes of a class file determine it. -/
theorem ClassFile.encode_injective : Function.Injective ClassFile.encode := by
  have hnumbers := (unambiguous_u16.pair (unambiguous_u16.pair
    (Constants.unambiguous_bytes.pair ClassRecord.unambiguous_encode)))
  rintro ⟨minor, major, constants, content⟩ ⟨minor', major', constants', content'⟩ hsame
  have hbehind := List.append_cancel_left hsame
  obtain ⟨hfile, -⟩ := @hnumbers (minor, major, constants, content)
    (minor', major', constants', content') [] [] (by simpa using hbehind)
  simpa using hfile

/-- So the bytes of a class file are decoded to what it means, and to nothing else. -/
theorem Decoder.decode_encode_eq_ok_iff {decoder : Decoder} {origin : Origin} {file : ClassFile}
    {options : DecodeOptions} {decl : ClassDecl} :
    (decoder.decode origin file.encode options).2 = .ok decl
      ↔ file.decl origin options = .ok decl := by
  rw [decode_eq_ok_iff]
  constructor
  · rintro ⟨other, hbytes, hdecl⟩
    rwa [ClassFile.encode_injective hbytes]
  · intro hdecl
    exact ⟨file, rfl, hdecl⟩

end ClassAtlas
