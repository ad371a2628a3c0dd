import ClassAtlas.Proofs.ClassFile.Layout
import ClassAtlas.Proofs.Reading.Reasons

namespace ClassAtlas

open Reader

/-!
# Why class files are refused

A class file that means no class is refused for the reason for which it means none: the decoder
comes to the same one of all that may be wrong with it.

* `ClassDecl.reports_read`, `FileVersion.reports_read` — the parts of a file;
* `Decoder.decode_encode` — a decoder answers with what the file means, class or reason.
-/

variable {pool : Pool} {options : DecodeOptions}

/-! ### Members -/

theorem RawAttribute.reports_read {behind : List UInt8 → Prop} :
    (RawAttribute.read pool).Reports AttributeRecord.encode (AttributeRecord.raw pool) behind :=
  (Reports.bind readsAs_u16 reports_u16 fun _ => .afterLift fun name =>
    reports_sized (RawAttribute.mk name)).of_fields AttributeRecord.fields

theorem RawAttribute.reports_readTable {behind : List UInt8 → Prop} :
    (RawAttribute.readTable pool).Reports (Table.encode AttributeRecord.encode)
      (fun table => table.records.mapM (·.raw pool)) behind :=
  .table (RawAttribute.readsAs_read pool) RawAttribute.reports_read

/-- What a member means is worked out when all of it is read, apart from its name and its
    descriptor, which are looked up at once. -/
theorem reports_member {β : Type} {next : UInt16 → String → String → List RawAttribute → Reader β}
    {outcome : UInt16 → String → String → List RawAttribute → Except Error β}
    {behind : List UInt8 → Prop}
    (hnext : ∀ flags name descriptor table,
      (next flags name descriptor table).Reports (fun _ : Unit => [])
        (fun _ => outcome flags name descriptor table) behind) :
    (do
      let flags ← u16
      let name ← pool.utf8 (← u16)
      let descriptor ← pool.utf8 (← u16)
      let table ← RawAttribute.readTable pool
      next flags name descriptor table : Reader β).Reports MemberRecord.encode (fun record => do
        let name ← pool.utf8 record.name
        let descriptor ← pool.utf8 record.descriptor
        let table ← record.attributes.records.mapM (·.raw pool)
        outcome record.flags name descriptor table) behind :=
  (Reports.bind readsAs_u16 reports_u16 fun _ => .bind readsAs_u16 reports_u16 fun _ =>
    .afterLift fun _ => .bind readsAs_u16 reports_u16 fun _ => .afterLift fun _ =>
      .finally (RawAttribute.readsAs_readTable pool) RawAttribute.reports_readTable fun _ =>
        hnext _ _ _ _).of_fields MemberRecord.fields

theorem FieldDecl.reports_read {behind : List UInt8 → Prop} :
    (FieldDecl.read pool options).Reports MemberRecord.encode (MemberRecord.field pool options)
      behind :=
  reports_member fun _ _ _ _ => .afterLift fun _ => reports_lift _

theorem OpenMethod.reports_read {className : String} {behind : List UInt8 → Prop} :
    (OpenMethod.read pool options className).Reports MemberRecord.encode
      (MemberRecord.openMethod pool options className) behind :=
  reports_member fun _ _ _ _ => .afterLift fun _ => reports_lift _

/-! ### Classes -/

/-- The end is looked for between the methods and the signature, where there is nothing to read. -/
theorem ClassDecl.reports_readEnd (origin : Origin) (version : FileVersion)
    (fileModifiers : ClassModifiers) (name : String) (superclass : Option String)
    (interfaces : List String) (fields : List FieldDecl) (openMethods : List OpenMethod)
    (table : List RawAttribute) :
    (readEnd pool options origin version fileModifiers name superclass interfaces fields openMethods
      table).Reports (fun _ : Unit => [])
      (fun _ => ofTables pool options origin version fileModifiers name superclass interfaces fields
        openMethods table) nothing := by
  refine .afterLift fun attributes => ?_
  rw [mapM_liftM]
  refine .afterLift fun methods => ?_
  exact reports_end (.afterLift fun signature => reports_lift (.ok _))

theorem ClassDecl.reports_read (pool : Pool) (options : DecodeOptions) (origin : Origin)
    (version : FileVersion) :
    (ClassDecl.read pool options origin version).Reports ClassRecord.encode
      (ClassRecord.decl pool options origin version) nothing := by
  have hreads : (do pool.className (← u16) : Reader String).ReadsAs
      (fun index : UInt16 => spell 2 index.toNat) pool.className :=
    readsAs_u16.finally fun _ => readsAs_lift _
  have hreports : (do pool.className (← u16) : Reader String).Reports
      (fun index : UInt16 => spell 2 index.toNat) pool.className anything :=
    .finally readsAs_u16 reports_u16 fun _ => reports_lift _
  rw [ClassDecl.read_eq]
  exact (Reports.bind readsAs_u16 reports_u16 fun flags =>
    .bind readsAs_u16 reports_u16 fun index => .afterLift fun name =>
      .guard ((ClassModifiers.ofBits flags).has moduleFlag = true) _
        (.notSupported s!"module descriptor '{name}'") (fun _ => rfl)
        (.bind readsAs_u16 reports_u16 fun index => .afterLift fun superclass =>
          .guard (superclass.isNone = true ∧ name ≠ "java.lang.Object") _
            (.malformed (.noSuperclass name)) (fun _ => rfl)
            (.tableThen hreads hreports fun interfaces =>
              .tableThen (FieldDecl.readsAs_read pool options) FieldDecl.reports_read fun fields =>
                .tableThen (OpenMethod.readsAs_read pool options name) OpenMethod.reports_read
                  fun openMethods =>
                    .finally (RawAttribute.readsAs_readTable pool) RawAttribute.reports_readTable
                      fun table => ClassDecl.reports_readEnd origin version
                        (ClassModifiers.ofBits flags) name superclass interfaces fields openMethods
                        table))).of_fields ClassRecord.parts

/-! ### Class files -/

theorem FileVersion.reports_read :
    (FileVersion.read options).Reports
      (fun version : UInt16 × UInt16 => spell 4 classFileMagic.toNat
        ++ (spell 2 version.1.toNat ++ spell 2 version.2.toNat))
      (fun version =>
        if oldestMajor ≤ version.2 ∧ version.2 ≤ options.maxMajor then
          .ok ⟨version.2, version.1⟩
        else .error (.malformed (.badVersion version.2 version.1))) anything := by
  have hnumbers : (do
      let minor ← u16
      let major ← u16
      if oldestMajor ≤ major ∧ major ≤ options.maxMajor then return ⟨major, minor⟩
      else malformed (.badVersion major minor) : Reader FileVersion).Reports
        (fun version : UInt16 × UInt16 => spell 2 version.1.toNat ++ spell 2 version.2.toNat)
        (fun version =>
          if oldestMajor ≤ version.2 ∧ version.2 ≤ options.maxMajor then
            .ok ⟨version.2, version.1⟩
          else .error (.malformed (.badVersion version.2 version.1))) anything := by
    have hcheck : ∀ minor major : UInt16,
        (if oldestMajor ≤ major ∧ major ≤ options.maxMajor then return ⟨major, minor⟩
          else malformed (.badVersion major minor) : Reader FileVersion).Reports
        (fun _ : Unit => [])
        (fun _ =>
          if oldestMajor ≤ major ∧ major ≤ options.maxMajor then .ok ⟨major, minor⟩
          else .error (.malformed (.badVersion major minor))) anything := by
      intro minor major
      split
      · exact reports_lift (.ok _)
      · exact reports_lift (.error _)
    exact .bind readsAs_u16 reports_u16 fun minor => .finally readsAs_u16 reports_u16
      fun major => hcheck minor major
  intro version start stop error hpass hbehind herror
  obtain ⟨middle, hpass, hpass'⟩ := hpass.split
  unfold FileVersion.read
  rw [bind_apply, (readsAs_u32 _ _ _).mpr ⟨classFileMagic, hpass, rfl⟩]
  dsimp only
  rw [if_neg (not_not.mpr rfl)]
  exact hnumbers hpass' hbehind herror

/-- A pool was read from its bytes, so there is no reason to refuse it. -/
theorem Pool.reports_read :
    Pool.read.Reports Constants.bytes (fun constants => .ok constants.pool) anything :=
  reports_of_total fun constants => ⟨constants.pool, rfl⟩

theorem ClassDecl.reports_readFile (origin : Origin) (options : DecodeOptions) :
    (ClassDecl.readFile origin options).Reports ClassFile.encode (ClassFile.decl origin options)
      nothing := by
  have hfile := (Reports.bind (FileVersion.readsAs_read options) FileVersion.reports_read
    fun version => .bind Pool.readsAs_read Pool.reports_read fun pool =>
      ClassDecl.reports_read pool options origin version).of_fields
    (fun file : ClassFile => ((file.minor, file.major), file.constants, file.content))
  intro file start stop error hpass hbehind herror
  refine @hfile file start stop error ?_ hbehind ?_
  · simpa only [ClassFile.encode, List.append_assoc] using hpass
  · unfold ClassFile.decl at herror
    dsimp only
    split at herror
    · rename_i hversion
      rw [if_pos hversion]
      exact herror
    · rename_i hversion
      rw [if_neg hversion]
      exact herror

/-- A decoder answers to the bytes of a class file with what the file means: with its class, or
    with the reason for which it means none. -/
theorem Decoder.decode_encode (decoder : Decoder) (origin : Origin) (file : ClassFile)
    (options : DecodeOptions) :
    (decoder.decode origin file.encode options).2 = file.decl origin options := by
  cases hdecl : file.decl origin options with
  | ok decl => exact Decoder.decode_encode_eq_ok_iff.mpr hdecl
  | error error =>
    rw [(Decoder.decode_spec ..).1]
    exact (ClassDecl.reports_readFile origin options).value_eq_error hdecl

end ClassAtlas
