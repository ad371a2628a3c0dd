import ClassAtlas.Annotations.TypeUse
import ClassAtlas.Proofs.Annotations.Deciphering

namespace ClassAtlas

open Reader

/-!
# Annotated uses of types are read one by one

A use of a type is a target, a path and an annotation.  What stands behind the byte of the target
depends on that byte, and some of it is passed over; still each use ends where the next one begins.

* `TargetRecord`, `TypeUseRecord` — the records, with `encode` for their bytes;
* `TypeUseRecord.Legal` — targets and paths as they may be;
* `TypeUseRecord.Means` — what a record means;
* `AnnotationTarget.answers_read`, `TypePath.deciphers_read`, `TypeUse.deciphers_read` — one record;
* `TypeUse.readList_table` — the table of an attribute.
-/

/-! ### Targets -/

/-- The bytes that say what a target is: of declarations, and of places inside method bodies. -/
def targetBytes : List UInt8 :=
  [0x00, 0x01, 0x10, 0x11, 0x12, 0x13, 0x14, 0x15, 0x16, 0x17,
    0x40, 0x41, 0x42, 0x43, 0x44, 0x45, 0x46, 0x47, 0x48, 0x49, 0x4A, 0x4B]

/-- The range of instructions in which a local variable is what the slot holds. -/
structure VariableRange where
  /-- The first instruction. -/
  start : UInt16
  /-- The number of the bytes of the instructions. -/
  length : UInt16
  /-- The slot. -/
  slot : UInt16

/-- The three numbers. -/
def VariableRange.encode (range : VariableRange) : List UInt8 :=
  spell 2 range.start.toNat ++ (spell 2 range.length.toNat ++ spell 2 range.slot.toNat)

/-- The expressions whose type is annotated. -/
inductive ExpressionKind where
  | instanceTest | creation | constructorReference | methodReference
  deriving DecidableEq, Repr

/-- The expressions inside which a type is annotated. -/
inductive ArgumentKind where
  | cast | constructorCall | methodCall | constructorReference | methodReference
  deriving DecidableEq, Repr

/-- A target in a class file. -/
inductive TargetRecord where
  /-- The declaration of a class's type variable. -/
  | classTypeParameter (index : UInt8)
  /-- The declaration of a method's type variable. -/
  | methodTypeParameter (index : UInt8)
  /-- The superclass or an interface. -/
  | supertype (index : UInt16)
  /-- A bound of a class's type variable. -/
  | classTypeParameterBound (parameter bound : UInt8)
  /-- A bound of a method's type variable. -/
  | methodTypeParameterBound (parameter bound : UInt8)
  /-- The type of a field. -/
  | field
  /-- The result type of a method. -/
  | result
  /-- The receiver type of a method. -/
  | receiver
  /-- The type of a formal parameter. -/
  | formalParameter (index : UInt8)
  /-- A type in the `throws` clause. -/
  | throws (index : UInt16)
  /-- The type of a local variable. -/
  | localVariable (ranges : Table VariableRange)
  /-- The type of a resource that is closed in the end. -/
  | resource (ranges : Table VariableRange)
  /-- The type of the exceptions that a handler catches. -/
  | handler (index : UInt16)
  /-- The type of an expression. -/
  | expression (kind : ExpressionKind) (offset : UInt16)
  /-- A type in an expression. -/
  | argument (kind : ArgumentKind) (offset : UInt16) (index : UInt8)
  /-- Bytes that are no target. -/
  | unknown (byte : UInt8) (fields : List UInt8) (h : byte ∉ targetBytes)

namespace TargetRecord

/-- The byte of the target. -/
def byte : TargetRecord → UInt8
  | classTypeParameter _ => 0x00
  | methodTypeParameter _ => 0x01
  | supertype _ => 0x10
  | classTypeParameterBound _ _ => 0x11
  | methodTypeParameterBound _ _ => 0x12
  | field => 0x13
  | result => 0x14
  | receiver => 0x15
  | formalParameter _ => 0x16
  | throws _ => 0x17
  | localVariable _ => 0x40
  | resource _ => 0x41
  | handler _ => 0x42
  | expression .instanceTest _ => 0x43
  | expression .creation _ => 0x44
  | expression .constructorReference _ => 0x45
  | expression .methodReference _ => 0x46
  | argument .cast _ _ => 0x47
  | argument .constructorCall _ _ => 0x48
  | argument .methodCall _ _ => 0x49
  | argument .constructorReference _ _ => 0x4A
  | argument .methodReference _ _ => 0x4B
  | unknown byte _ _ => byte

/-- What stands behind the byte. -/
def fields : TargetRecord → List UInt8
  | classTypeParameter index => [index]
  | methodTypeParameter index => [index]
  | supertype index => spell 2 index.toNat
  | classTypeParameterBound parameter bound => [parameter] ++ [bound]
  | methodTypeParameterBound parameter bound => [parameter] ++ [bound]
  | field => []
  | result => []
  | receiver => []
  | formalParameter index => [index]
  | throws index => spell 2 index.toNat
  | localVariable ranges => ranges.encode VariableRange.encode
  | resource ranges => ranges.encode VariableRange.encode
  | handler index => spell 2 index.toNat
  | expression _ offset => spell 2 offset.toNat
  | argument _ offset index => spell 2 offset.toNat ++ [index]
  | unknown _ fields _ => fields

/-- The byte and what stands behind it. -/
def encode (record : TargetRecord) : List UInt8 := record.byte :: record.fields

/-- The target; places inside method bodies are not told apart. -/
def target? : TargetRecord → Option AnnotationTarget
  | classTypeParameter index => some (.classTypeParameter index)
  | methodTypeParameter index => some (.methodTypeParameter index)
  | supertype index => some (.supertype index)
  | classTypeParameterBound parameter bound => some (.classTypeParameterBound parameter bound)
  | methodTypeParameterBound parameter bound => some (.methodTypeParameterBound parameter bound)
  | field => some .field
  | result => some .result
  | receiver => some .receiver
  | formalParameter index => some (.formalParameter index)
  | throws index => some (.throws index)
  | localVariable _ => some .code
  | resource _ => some .code
  | handler _ => some .code
  | expression _ _ => some .code
  | argument _ _ _ => some .code
  | unknown _ _ _ => none

end TargetRecord

variable {depth : Nat} {rest : List UInt8}

theorem length_encode_ranges (ranges : Table VariableRange) :
    (ranges.records.flatMap VariableRange.encode).length = ranges.records.length * 6 := by
  rw [List.length_flatMap]
  simp [VariableRange.encode]

/-- A place inside a method body is passed over. -/
theorem answers_passOver {count : Nat} {chunk : List UInt8} (h : chunk.length = count) :
    Answers (do
        skip count
        return .code) chunk rest depth AnnotationTarget.code True :=
  (answers_skip h).map fun _ => AnnotationTarget.code

theorem answers_passOverRanges (ranges : Table VariableRange) :
    Answers (do
        let rows ← u16
        skip (rows.toNat * 6)
        return .code) (ranges.encode VariableRange.encode) rest depth AnnotationTarget.code True := by
  refine (answers_u16_ofNat ranges.length_lt).andThen ?_
  rw [UInt16.toNat_ofNat_of_lt' ranges.length_lt]
  exact answers_passOver (length_encode_ranges ranges)

theorem AnnotationTarget.answers_read {record : TargetRecord} {target : AnnotationTarget}
    (h : record.target? = some target) :
    Answers AnnotationTarget.read record.encode rest depth target True := by
  refine (answers_u8 record.byte).andThen ?_
  -- Every byte is a number here, so the tests on it are computed.
  cases record with
  | classTypeParameter index =>
    cases h
    exact (answers_u8 index).map _
  | methodTypeParameter index =>
    cases h
    exact (answers_u8 index).map _
  | supertype index =>
    cases h
    exact (answers_u16 index).map _
  | classTypeParameterBound parameter bound =>
    cases h
    exact (answers_u8 parameter).map₂ (answers_u8 bound) _
  | methodTypeParameterBound parameter bound =>
    cases h
    exact (answers_u8 parameter).map₂ (answers_u8 bound) _
  | field =>
    cases h
    exact answers_pure _
  | result =>
    cases h
    exact answers_pure _
  | receiver =>
    cases h
    exact answers_pure _
  | formalParameter index =>
    cases h
    exact (answers_u8 index).map _
  | throws index =>
    cases h
    exact (answers_u16 index).map _
  | localVariable ranges =>
    cases h
    exact answers_passOverRanges ranges
  | resource ranges =>
    cases h
    exact answers_passOverRanges ranges
  | handler index =>
    cases h
    exact answers_passOver (length_spell 2 index.toNat)
  | expression kind offset =>
    cases h
    cases kind <;> exact answers_passOver (length_spell 2 offset.toNat)
  | argument kind offset index =>
    cases h
    have hlength : (spell 2 offset.toNat ++ [index]).length = 3 := by
      rw [List.length_append, length_spell, List.length_singleton]
    cases kind <;> exact answers_passOver hlength
  | unknown byte fields hunknown => cases h

/-- Whatever stands behind the byte, it is not looked at. -/
theorem AnnotationTarget.refusesAt_read {record : TargetRecord} (h : record.target? = none) :
    RefusesAt AnnotationTarget.read record.encode rest depth := by
  cases record with
  | unknown byte fields hunknown =>
    refine .behind (answers_u8 byte) ?_
    have houtside : ∀ known ∈ targetBytes, byte.toNat ≠ known.toNat := by
      intro known hmem heq
      exact hunknown (UInt8.toNat_inj.mp heq ▸ hmem)
    -- As numbers, so that the ranges of bytes are told apart like single bytes.
    simp only [targetBytes, List.forall_mem_cons, UInt8.reduceToNat] at houtside
    simp only [← UInt8.toNat_inj, UInt8.le_iff_toNat_le, UInt8.reduceToNat]
    iterate 13 rw [if_neg (by omega)]
    exact refusesAt_malformed _
  | _ => cases h

/-! ### Paths -/

/-- The kind and the argument of a step. -/
def PathStep.pair : PathStep → UInt8 × UInt8
  | .element => (0, 0)
  | .nested => (1, 0)
  | .bound => (2, 0)
  | .argument index => (3, index)

/-- A kind there is not, or an argument where there is none. -/
def IllegalStep (pair : UInt8 × UInt8) : Prop := 3 < pair.1 ∨ pair.1 < 3 ∧ pair.2 ≠ 0

instance : DecidablePred IllegalStep := fun pair =>
  inferInstanceAs (Decidable (3 < pair.1 ∨ pair.1 < 3 ∧ pair.2 ≠ 0))

/-- The two bytes. -/
def encodeStep (pair : UInt8 × UInt8) : List UInt8 := [pair.1] ++ [pair.2]

/-- The two bytes are a step if they are its pair. -/
theorem PathStep.ofRaw?_eq_some {bytes : UInt8 × UInt8} {step : PathStep} :
    PathStep.ofRaw? bytes.1 bytes.2 = some step ↔ step.pair = bytes := by
  constructor
  · intro h
    unfold ofRaw? at h
    split_ifs at h with hargument hplain helement hnested hbound <;> cases h
    · exact Prod.ext hargument.symm rfl
    · exact Prod.ext helement.symm (not_not.mp hplain).symm
    · exact Prod.ext hnested.symm (not_not.mp hplain).symm
    · exact Prod.ext hbound.symm (not_not.mp hplain).symm
  · intro h
    cases step <;> cases h <;> rfl

theorem PathStep.pair_injective : Function.Injective PathStep.pair := by
  intro step other h
  have hstep := ofRaw?_eq_some.mpr h
  rw [ofRaw?_eq_some.mpr rfl] at hstep
  exact (Option.some.inj hstep).symm

theorem PathStep.not_illegalStep_pair (step : PathStep) : ¬ IllegalStep step.pair := by
  cases step <;> simp [IllegalStep, pair]

/-- What is not illegal is the pair of a step. -/
theorem PathStep.exists_pair {pair : UInt8 × UInt8} (h : ¬ IllegalStep pair) :
    ∃ step : PathStep, step.pair = pair := by
  obtain ⟨kind, argument⟩ := pair
  obtain ⟨hkind, hargument⟩ := not_or.mp h
  have hkinds : kind = 0 ∨ kind = 1 ∨ kind = 2 ∨ kind = 3 := by
    simp only [← UInt8.toNat_inj, UInt8.lt_iff_toNat_lt, UInt8.reduceToNat] at hkind ⊢
    omega
  rcases hkinds with rfl | rfl | rfl | rfl
  · obtain rfl : argument = 0 := by simpa using hargument
    exact ⟨.element, rfl⟩
  · obtain rfl : argument = 0 := by simpa using hargument
    exact ⟨.nested, rfl⟩
  · obtain rfl : argument = 0 := by simpa using hargument
    exact ⟨.bound, rfl⟩
  · exact ⟨.argument argument, rfl⟩

theorem PathStep.answers_read (step : PathStep) :
    Answers PathStep.read (encodeStep step.pair) rest depth step True := by
  refine (answers_u8 step.pair.1).andThen ?_
  refine (answers_u8 step.pair.2).last ?_
  rw [PathStep.ofRaw, PathStep.ofRaw?_eq_some.mpr (Eq.refl step.pair)]
  exact answers_pure step

theorem PathStep.refusesAt_read {pair : UInt8 × UInt8} (h : IllegalStep pair) :
    RefusesAt PathStep.read (encodeStep pair) rest depth := by
  refine .behind (answers_u8 pair.1) ?_
  refine .behind (answers_u8 pair.2) ?_
  rw [PathStep.ofRaw]
  cases hstep : PathStep.ofRaw? pair.1 pair.2 with
  | none => exact refusesAt_malformed _
  | some step =>
    rw [← PathStep.ofRaw?_eq_some.mp hstep] at h
    exact absurd h step.not_illegalStep_pair

/-- A path of so few pairs that a byte can count them. -/
def encodePath (path : List (UInt8 × UInt8)) : List UInt8 :=
  [.ofNat path.length] ++ path.flatMap encodeStep

theorem TypePath.answers_read {path : TypePath} (hlength : path.length < 256) :
    Answers TypePath.read (encodePath (path.map PathStep.pair)) rest depth path True := by
  have hsteps : Deciphers TypePath.read
      ([.ofNat path.length] ++ path.flatMap fun step => encodeStep step.pair) rest depth
      (List.Forall₂ (· = ·) path) (∀ step ∈ path, True) :=
    deciphers_counted rest (answers_u8 (.ofNat path.length)) (UInt8.toNat_ofNat_of_lt' hlength)
      fun step _ _ => step.answers_read.deciphers
  unfold encodePath
  rw [List.length_map, List.flatMap_map]
  refine (hsteps.answers (List.forall₂_same.mpr fun _ _ => rfl)).congr ?_
  exact iff_of_true (fun _ _ => trivial) trivial

theorem TypePath.refusesAt_read {path : List (UInt8 × UInt8)} (hlength : path.length < 256)
    (h : ∃ pair ∈ path, IllegalStep pair) :
    RefusesAt TypePath.read (encodePath path) rest depth := by
  refine refusesAt_counted (fun pair => ¬ IllegalStep pair)
    (answers_u8 (.ofNat path.length)) (UInt8.toNat_ofNat_of_lt' hlength) ?_ ?_ ?_
  · intro pair _ hlegal
    obtain ⟨step, rfl⟩ := PathStep.exists_pair hlegal
    exact ⟨step, fun after => step.answers_read⟩
  · intro pair _ hillegal after
    exact PathStep.refusesAt_read (not_not.mp hillegal)
  · simpa using h

/-! ### Uses of types -/

/-- A use of a type in a class file. -/
structure TypeUseRecord where
  /-- The target. -/
  target : TargetRecord
  /-- The kinds and the arguments of the steps. -/
  path : List (UInt8 × UInt8)
  /-- A byte can count them. -/
  length_lt : path.length < 256
  /-- The annotation. -/
  note : AnnotationRecord
  /-- Two bytes can count each of its lists. -/
  counted : note.Counted

namespace TypeUseRecord

/-- The target, the path and the annotation. -/
def encode (record : TypeUseRecord) : List UInt8 :=
  record.target.encode ++ (encodePath record.path ++ record.note.encode)

/-- The target is one, and so is each of the steps. -/
def Legal (record : TypeUseRecord) : Prop :=
  record.target.target? ≠ none ∧ ∀ pair ∈ record.path, ¬ IllegalStep pair

-- On the steps that are there, and not on all pairs of bytes.
instance (record : TypeUseRecord) : Decidable record.Legal :=
  @instDecidableAnd _ _ inferInstance (List.decidableBAll _ _)

/-- The annotation means something, and it is not nested too deeply. -/
def Readable (pool : Pool) (record : TypeUseRecord) : Prop :=
  (∃ note, record.note.Means pool note) ∧ record.note.levels < nestingLimit

/-- The use is the one that the record means. -/
structure Means (pool : Pool) (record : TypeUseRecord) (use : TypeUse) : Prop where
  /-- The target is that of the record. -/
  target : record.target.target? = some use.target
  /-- So are the steps. -/
  path : record.path = use.path.map PathStep.pair
  /-- The annotation is what the one of the record means. -/
  note : record.note.Means pool use.note

end TypeUseRecord

variable {pool : Pool} {record : TypeUseRecord}

/-- The steps of a path that is not illegal. -/
theorem TypeUseRecord.Legal.exists_steps (h : record.Legal) :
    ∃ path : TypePath, path.map PathStep.pair = record.path := by
  have hpath : record.path ∈ Set.range (List.map PathStep.pair) := by
    rw [Set.range_list_map]
    exact fun pair hmem => PathStep.exists_pair (h.2 pair hmem)
  exact hpath

theorem TypeUse.deciphers_read (h : record.Legal) :
    (TypeUse.read pool).Deciphers record.encode rest 0 (record.Means pool)
      (record.note.levels ≤ nestingLimit - 1) := by
  -- There is one target and one path that the record can mean.
  obtain ⟨target, htarget⟩ := Option.ne_none_iff_exists'.mp h.1
  obtain ⟨path, hpath⟩ := h.exists_steps
  have hlength : path.length < 256 := by
    rw [← List.length_map PathStep.pair, hpath]
    exact record.length_lt
  have hnote := (@AnnotationUse.deciphers_read pool rest record.note record.counted).map
    (TypeUse.mk target path)
  unfold TypeUse.read TypeUseRecord.encode
  rw [← hpath]
  refine Deciphers.congr (.after (AnnotationTarget.answers_read htarget)
    (.after (TypePath.answers_read hlength) (.ofSurface hnote))) (fun use => ?_) Iff.rfl
  constructor
  · rintro ⟨note, hmeans, rfl⟩
    exact ⟨htarget, hpath.symm, hmeans⟩
  · obtain ⟨target', path', note⟩ := use
    rintro ⟨htarget', hpath', hmeans⟩
    obtain rfl := Option.some.inj (htarget.symm.trans htarget')
    obtain rfl := List.map_injective_iff.mpr PathStep.pair_injective (hpath.trans hpath')
    exact ⟨note, hmeans, rfl⟩

theorem TypeUseRecord.Readable.fits (h : record.Readable pool) :
    record.note.levels ≤ nestingLimit - 1 := Nat.le_pred_of_lt h.2

/-- A legal record with an annotation that can be read means something. -/
theorem TypeUseRecord.Readable.exists_means (hlegal : record.Legal) (h : record.Readable pool) :
    ∃ use, record.Means pool use := by
  obtain ⟨target, htarget⟩ := Option.ne_none_iff_exists'.mp hlegal.1
  obtain ⟨path, hpath⟩ := hlegal.exists_steps
  obtain ⟨note, hnote⟩ := h.1
  exact ⟨⟨target, path, note⟩, htarget, hpath.symm, hnote⟩

/-- A legal record is read where its annotation is. -/
theorem TypeUse.answers_read (hlegal : record.Legal) (h : record.Readable pool) :
    ∃ use, ∀ rest, Answers (TypeUse.read pool) record.encode rest 0 use True := by
  obtain ⟨use, hmeans⟩ := h.exists_means hlegal
  refine ⟨use, fun rest => ?_⟩
  exact ((TypeUse.deciphers_read hlegal).answers hmeans).congr (iff_true_intro h.fits)

theorem TypeUse.refusesAt_read (h : ¬ record.Legal) :
    RefusesAt (TypeUse.read pool) record.encode rest 0 := by
  cases htarget : record.target.target? with
  | none => exact .before (AnnotationTarget.refusesAt_read htarget)
  | some target =>
    -- The target is read, so it is a step that is refused.
    refine .behind (AnnotationTarget.answers_read htarget) (.before ?_)
    refine TypePath.refusesAt_read record.length_lt ?_
    by_contra hnone
    refine h ⟨by simp [htarget], fun pair hmem hillegal => hnone ⟨pair, hmem, hillegal⟩⟩

/-- **Uses of types are read one by one.** Whatever stands behind the table of an attribute, reading
    it gives a use for each record, with its target, its steps and what its annotation means, and
    goes just as far; if the target or a step of a record is not legal, the table is malformed. -/
theorem TypeUse.readList_table (pool : Pool) (table : Table TypeUseRecord)
    (h : ∀ record ∈ table.records, record.Legal → record.Readable pool) (rest : List UInt8)
    (position : Nat) :
    ((∀ record ∈ table.records, record.Legal) →
      ∃ uses, List.Forall₂ (TypeUseRecord.Means pool) table.records uses
        ∧ TypeUse.readList pool ⟨table.encode TypeUseRecord.encode ++ rest, position, 0⟩
          = .ok uses ⟨rest, position + (table.encode TypeUseRecord.encode).length, 0⟩)
    ∧ ((∃ record ∈ table.records, ¬ record.Legal) →
      ∃ cause stop,
        TypeUse.readList pool ⟨table.encode TypeUseRecord.encode ++ rest, position, 0⟩
          = .error (.malformed cause) stop) := by
  have hcount := UInt16.toNat_ofNat_of_lt' table.length_lt
  constructor
  · intro hlegal
    have hreadable := fun record hmem => h record hmem (hlegal record hmem)
    obtain ⟨uses, huses⟩ := exists_forall₂ fun record hmem =>
      (hreadable record hmem).exists_means (hlegal record hmem)
    have htable : (TypeUse.readList pool).Deciphers (table.encode TypeUseRecord.encode) rest 0
        (List.Forall₂ (TypeUseRecord.Means pool) table.records)
        (∀ record ∈ table.records, record.note.levels ≤ nestingLimit - 1) :=
      deciphers_counted rest (answers_u16_ofNat table.length_lt) hcount fun record hmem _ =>
        TypeUse.deciphers_read (hlegal record hmem)
    refine ⟨uses, huses, (htable.answers huses).ok ?_ position⟩
    exact fun record hmem => (hreadable record hmem).fits
  · intro hillegal
    exact refusesAt_counted TypeUseRecord.Legal (answers_u16_ofNat table.length_lt) hcount
      (fun record hmem hlegal => TypeUse.answers_read hlegal (h record hmem hlegal))
      (fun record _ hrecord after => TypeUse.refusesAt_read hrecord) hillegal position

/-- An annotation without elements on the bound of an argument of a parameter. -/
def parameterUse : TypeUseRecord :=
  ⟨.formalParameter 1, [(3, 0), (2, 0)], by decide, ⟨1, []⟩, ⟨by decide, trivial⟩⟩

/-- The same annotation on a local variable. -/
def variableUse : TypeUseRecord :=
  ⟨.localVariable ⟨[⟨0, 4, 1⟩], by decide⟩, [], by decide, ⟨1, []⟩, ⟨by decide, trivial⟩⟩

/-- The same annotation behind a step into an array that has an argument. -/
def strayUse : TypeUseRecord :=
  ⟨.field, [(0, 1)], by decide, ⟨1, []⟩, ⟨by decide, trivial⟩⟩

/-- The first two in a table. -/
def legalUses : Table TypeUseRecord := ⟨[parameterUse, variableUse], by decide⟩

/-- The first and the last in a table. -/
def strayUses : Table TypeUseRecord := ⟨[parameterUse, strayUse], by decide⟩

/-- In front of another byte the first table is read as far as it goes, and the second one is
    refused. -/
theorem TypeUse.readList_table_parameter :
    (∃ uses, List.Forall₂ (TypeUseRecord.Means assortedPool) legalUses.records uses
      ∧ TypeUse.readList assortedPool ⟨legalUses.encode TypeUseRecord.encode ++ [7], 6, 0⟩
        = .ok uses ⟨[7], 6 + (legalUses.encode TypeUseRecord.encode).length, 0⟩)
    ∧ ∃ cause stop,
      TypeUse.readList assortedPool ⟨strayUses.encode TypeUseRecord.encode ++ [7], 6, 0⟩
        = .error (.malformed cause) stop := by
  have hnote : (⟨1, []⟩ : AnnotationRecord).Means assortedPool ⟨"a.Mark", []⟩ :=
    ⟨⟨"a/Mark", by decide, by decide, by decide⟩, rfl⟩
  have hlegal : ∀ record ∈ legalUses.records, record.Readable assortedPool := by
    simp only [legalUses, List.forall_mem_cons]
    exact ⟨⟨⟨_, hnote⟩, by decide⟩, ⟨⟨_, hnote⟩, by decide⟩, by simp⟩
  have hstray : ∀ record ∈ strayUses.records, record.Readable assortedPool := by
    simp only [strayUses, List.forall_mem_cons]
    exact ⟨⟨⟨_, hnote⟩, by decide⟩, ⟨⟨_, hnote⟩, by decide⟩, by simp⟩
  exact ⟨(TypeUse.readList_table _ legalUses (fun record hmem _ => hlegal record hmem) _ _).1
      (by decide),
    (TypeUse.readList_table _ strayUses (fun record hmem _ => hstray record hmem) _ _).2
      ⟨strayUse, .tail _ (.head _), by decide⟩⟩

end ClassAtlas
