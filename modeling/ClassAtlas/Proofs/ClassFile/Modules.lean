import ClassAtlas.Proofs.ClassFile.Failures
import ClassAtlas.Proofs.ClassFile.Layout

namespace ClassAtlas

open Reader

/-!
# Modules

A module is refused for what it is, as soon as the flags and the name of its class are read, and
nothing else is refused so.

* `HeadingRecord` — the bytes of a class file up to the name of its class, and what they mean;
* `Heading.readsAs_read` — the headings that are read;
* `Decoder.decode_eq_notSupported_iff` — the files that are refused for being modules.
-/

/-! ### Headings -/

/-- A class file up to the name of its class. -/
structure HeadingRecord where
  /-- The lesser part of the version. -/
  minor : UInt16
  /-- The greater part of the version. -/
  major : UInt16
  /-- The constant pool. -/
  constants : Constants
  /-- The flags. -/
  flags : UInt16
  /-- The index of the class. -/
  name : UInt16

namespace HeadingRecord

/-- The magic number, the version, the pool, the flags and the index. -/
def encode (record : HeadingRecord) : List UInt8 :=
  spell 4 classFileMagic.toNat ++ (spell 2 record.minor.toNat ++ (spell 2 record.major.toNat
    ++ (record.constants.bytes ++ (spell 2 record.flags.toNat ++ spell 2 record.name.toNat))))

/-- The heading it is, if the version is one that is accepted and the index is that of a class. -/
def heading (options : DecodeOptions) (record : HeadingRecord) : Except Error Heading := do
  if oldestMajor ≤ record.major ∧ record.major ≤ options.maxMajor then
    let name ← record.constants.pool.className record.name
    return ⟨⟨record.major, record.minor⟩, record.constants.pool, record.flags, name⟩
  else throw (.malformed (.badVersion record.major record.minor))

theorem heading_eq_ok_iff {options : DecodeOptions} {record : HeadingRecord} {heading : Heading} :
    record.heading options = .ok heading ↔ ∃ name,
      (oldestMajor ≤ record.major ∧ record.major ≤ options.maxMajor)
      ∧ record.constants.pool.className record.name = .ok name
      ∧ heading = ⟨⟨record.major, record.minor⟩, record.constants.pool, record.flags, name⟩ := by
  unfold HeadingRecord.heading
  split
  · rename_i hversion
    simp only [except_bind_eq_ok, hversion, true_and]
    refine exists_congr fun name => and_congr_right fun _ => ?_
    exact ⟨fun h => (Except.ok.inj h).symm, fun h => congrArg Except.ok h.symm⟩
  · rename_i hversion
    simp only [hversion, false_and, exists_false, iff_false]
    exact nofun

end HeadingRecord

theorem Heading.readsAs_read (options : DecodeOptions) :
    (Heading.read options).ReadsAs HeadingRecord.encode (HeadingRecord.heading options) := by
  have hname : ∀ version (pool : Pool) flags,
      (do
        let name ← pool.className (← u16)
        return ⟨version, pool, flags, name⟩ : Reader Heading).ReadsAs
      (fun index : UInt16 => spell 2 index.toNat)
      fun index => do return ⟨version, pool, flags, ← pool.className index⟩ :=
    fun _ _ _ => readsAs_u16.finally fun _ => .afterLift fun _ => readsAs_lift (.ok _)
  have hheading := ((FileVersion.readsAs_read options).bind fun version =>
    Pool.readsAs_read.bind fun pool => readsAs_u16.bind fun flags =>
      hname version pool flags).of_surjective
    (fun record : HeadingRecord =>
      ((record.minor, record.major), record.constants, record.flags, record.name))
    (fun ⟨⟨minor, major⟩, constants, flags, name⟩ => ⟨⟨minor, major, constants, flags, name⟩, rfl⟩)
  intro start stop heading
  refine (hheading start stop heading).trans (exists_congr fun record => ?_)
  simp only [HeadingRecord.encode, List.append_assoc, HeadingRecord.heading]
  split <;> rfl

/-! ### Whole files -/

/-- A heading that says it is a module is refused, whatever follows. -/
theorem ClassDecl.readFile_of_isModule {origin : Origin} {options : DecodeOptions}
    {start middle : Cursor} {heading : Heading}
    (hread : Heading.read options start = .ok heading middle) (hmodule : heading.isModule = true) :
    ClassDecl.readFile origin options start = .error heading.refusal middle := by
  rw [readFile_eq, bind_apply, hread]
  dsimp only
  rw [if_pos hmodule]
  rfl

/-- **Modules, and only modules, are not supported.** A file is refused so exactly if its magic
    number, version, constant pool, flags and class name can be read, and the flags say that it is
    a module, whatever follows. -/
theorem Decoder.decode_eq_notSupported_iff {decoder : Decoder} {origin : Origin}
    {data : List UInt8} {options : DecodeOptions} :
    (∃ what, (decoder.decode origin data options).2 = .error (.notSupported what))
      ↔ ∃ (record : HeadingRecord) (name : String) (rest : List UInt8),
        data = record.encode ++ rest
        ∧ oldestMajor ≤ record.major ∧ record.major ≤ options.maxMajor
        ∧ record.constants.pool.className record.name = .ok name
        ∧ hasFlag record.flags moduleFlag = true := by
  rw [(Decoder.decode_spec ..).1]
  constructor
  · rintro ⟨what, hwhat⟩
    obtain ⟨stop, hread⟩ := value_eq_error.mp hwhat
    rcases ClassDecl.readFile_eq_error hread with hformat | ⟨heading, middle, hheading, hmodule, -⟩
    · cases hformat
    · obtain ⟨record, hpass, hmeaning⟩ := (Heading.readsAs_read options _ _ _).mp hheading
      obtain ⟨name, ⟨hold, hnew⟩, hname, rfl⟩ := HeadingRecord.heading_eq_ok_iff.mp hmeaning
      exact ⟨record, name, middle.rest, hpass.rest_eq, hold, hnew, hname, hmodule⟩
  · rintro ⟨record, name, rest, hdata, hold, hnew, hname, hmodule⟩
    have hmeaning := HeadingRecord.heading_eq_ok_iff.mpr ⟨name, ⟨hold, hnew⟩, hname, rfl⟩
    have hpass : (Cursor.ofBytes data).Passes record.encode ⟨rest, 0 + record.encode.length, 0⟩ :=
      ⟨hdata, rfl, rfl⟩
    have hread := (Heading.readsAs_read options _ _ _).mpr ⟨record, hpass, hmeaning⟩
    exact ⟨_, value_eq_error.mpr ⟨_, ClassDecl.readFile_of_isModule hread hmodule⟩⟩

end ClassAtlas
