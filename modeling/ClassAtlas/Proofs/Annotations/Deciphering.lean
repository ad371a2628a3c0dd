import ClassAtlas.Proofs.Annotations.Layout
import ClassAtlas.Proofs.ClassFile.Failures
import ClassAtlas.Proofs.Reading.Deciphering

namespace ClassAtlas

open Reader

/-!
# Annotations are read as they are laid out

Whatever stands behind an annotation or a value, reading it gives what its record means and goes
just as far, unless it is nested too deeply.

* `AnnotationUse.deciphers_readWith`, `AnnotationValue.deciphers_readWith` — one level, given the
  same of the levels inside;
* `deciphers_readAt` — all levels, by induction on how many can be opened;
* `annotations_readNested` — annotations and values from the first level on.
-/

variable {pool : Pool} {room depth : Nat} {rest : List UInt8}

/-- What is inside a level answers to the records that fit into the room. -/
def ReadsAnnotations (pool : Pool) (room depth : Nat) (reader : Reader AnnotationUse) : Prop :=
  ∀ record : AnnotationRecord, record.Counted → ∀ rest,
    reader.Deciphers record.encode rest depth (record.Means pool) (record.levels ≤ room)

/-- The same of values. -/
def ReadsValues (pool : Pool) (room depth : Nat) (reader : Reader AnnotationValue) : Prop :=
  ∀ record : ValueRecord, record.Counted → ∀ rest,
    reader.Deciphers record.encode rest depth (record.Means pool) (record.levels ≤ room)

/-! ### One level -/

theorem deciphers_readElement {value : Reader AnnotationValue}
    (hvalue : ReadsValues pool room depth value) {record : ElementRecord} (h : record.Counted) :
    Deciphers (do
        let name ← pool.utf8 (← u16)
        return ⟨name, ← value⟩ : Reader AnnotationElement)
      record.encode rest depth (record.Means pool) (record.levels ≤ room) := by
  obtain ⟨name, value⟩ := record
  rw [ElementRecord.encode]
  refine Deciphers.after (answers_u16 name) ?_
  have hfields := Deciphers.afterLift (pool.utf8 name) fun text =>
    (hvalue value h rest).map (AnnotationElement.mk text)
  refine hfields.congr (fun element => ?_) Iff.rfl
  obtain ⟨text, found⟩ := element
  simp [Pool.utf8_eq_ok, ElementRecord.Means]

theorem AnnotationUse.deciphers_readWith {value : Reader AnnotationValue}
    (hvalue : ReadsValues pool room depth value) {record : AnnotationRecord} (h : record.Counted) :
    (AnnotationUse.readWith pool value).Deciphers record.encode rest depth (record.Means pool)
      (record.levels ≤ room + 1) := by
  obtain ⟨type, elements⟩ := record
  obtain ⟨hcount, helements⟩ := h
  rw [elementsCounted_iff] at helements
  unfold readWith
  rw [AnnotationRecord.encode, encodeElements_eq_flatMap]
  refine Deciphers.after (answers_u16 type) ?_
  have htable := deciphers_counted rest (answers_u16_ofNat hcount)
    (UInt16.toNat_ofNat_of_lt' hcount) fun element hmem _ =>
      deciphers_readElement hvalue (helements element hmem)
  have hfields := Deciphers.afterLift (pool.describedClass type) fun name =>
    htable.map (AnnotationUse.mk name)
  simp only [bind_assoc] at hfields
  refine hfields.congr (fun note => ?_) ?_
  · obtain ⟨name, found⟩ := note
    simp [Pool.describedClass_eq_ok, AnnotationRecord.Means, elementsMean_iff]
  · rw [AnnotationRecord.levels, Nat.add_le_add_iff_right, levelsOfElements_le_iff]

/-- A value stands behind the byte of its mark. -/
theorem deciphers_behindMark {mark : Char} (ascii : mark.toNat < 128) {β : Type}
    {next : Nat → UInt8 → Reader β} {body : List UInt8} {Means : β → Prop} {Fits : Prop}
    (h : ∀ offset tag, Text.latin1 tag = mark →
      (next offset tag).Deciphers body rest depth Means Fits) :
    Deciphers (do
        let offset ← position
        let tag ← u8
        next offset tag) (markByte mark :: body) rest depth Means Fits :=
  .ofPosition fun offset =>
    .after (answers_u8 (markByte mark)) (h offset _ (Text.latin1_ofNat ascii))

theorem ConstantTag.mark_mem_constantTags (tag : ConstantTag) : tag.mark ∈ constantTags := by
  cases tag <;> decide

theorem AnnotationValue.deciphers_readWith {note : Reader AnnotationUse}
    (hnote : ReadsAnnotations pool room depth note) {value : Reader AnnotationValue}
    (hvalue : ReadsValues pool room depth value) {record : ValueRecord} (h : record.Counted) :
    (AnnotationValue.readWith pool note value).Deciphers record.encode rest depth
      (record.Means pool) (record.levels ≤ room + 1) := by
  -- The mark says which way the reader goes, so only what stands behind it is left.
  cases record with
  | constant tag index =>
    refine deciphers_behindMark (by cases tag <;> decide) fun offset byte hbyte => ?_
    rw [hbyte, if_pos tag.mark_mem_constantTags]
    refine Deciphers.congr (.last (answers_u16 index) ((deciphers_lift _).map _))
      (fun value => ?_) ?_
    · simp only [Pool.constant_eq_ok, ValueRecord.Means]
    · simp [ValueRecord.levels]
  | text index =>
    refine deciphers_behindMark (by decide) fun offset byte hbyte => ?_
    rw [hbyte, if_neg (by decide)]
    refine Deciphers.congr (.last (answers_u16 index) ((deciphers_lift _).map _))
      (fun value => ?_) ?_
    · simp only [Pool.utf8_eq_ok, ValueRecord.Means]
    · simp [ValueRecord.levels]
  | enumConstant type name =>
    refine deciphers_behindMark (by decide) fun offset byte hbyte => ?_
    rw [hbyte, if_neg (by decide)]
    refine Deciphers.congr (.after (answers_u16 type) (.last (answers_u16 name)
      (.afterLift _ fun typeName => (deciphers_lift _).map _))) (fun value => ?_) ?_
    · simp only [Pool.utf8_eq_ok, Pool.describedClass_eq_ok, ValueRecord.Means]
    · simp [ValueRecord.levels]
  | classLiteral descriptor =>
    refine deciphers_behindMark (by decide) fun offset byte hbyte => ?_
    rw [hbyte, if_neg (by decide)]
    refine Deciphers.congr (.last (answers_u16 descriptor)
      (.afterLift _ fun text => (deciphers_lift _).map _)) (fun value => ?_) ?_
    · simp only [Pool.holdsResult_iff, ValueRecord.Means]
      constructor
      · rintro ⟨text, htext, type, htype, rfl⟩
        exact ⟨type, ⟨text, htext, htype⟩, rfl⟩
      · rintro ⟨type, ⟨text, htext, htype⟩, rfl⟩
        exact ⟨text, htext, type, htype, rfl⟩
    · simp [ValueRecord.levels]
  | nested record =>
    refine deciphers_behindMark (by decide) fun offset byte hbyte => ?_
    rw [hbyte, if_neg (by decide)]
    -- An annotation inside opens one level of its own, and the value around it another.
    refine ((hnote record h rest).map AnnotationValue.nested).congr (fun value => ?_) ?_
    · simp only [ValueRecord.Means]
    · rw [ValueRecord.levels, Nat.add_le_add_iff_right]
  | array records =>
    obtain ⟨hcount, hrecords⟩ := h
    rw [valuesCounted_iff] at hrecords
    refine deciphers_behindMark (by decide) fun offset byte hbyte => ?_
    rw [hbyte, if_neg (by decide), encodeValues_eq_flatMap]
    have htable := deciphers_counted rest (answers_u16_ofNat hcount)
      (UInt16.toNat_ofNat_of_lt' hcount) fun record hmem after =>
        hvalue record (hrecords record hmem) after
    have harray := htable.map AnnotationValue.array
    simp only [bind_assoc] at harray
    refine harray.congr (fun value => ?_) ?_
    · simp only [ValueRecord.Means, valuesMean_iff]
    · rw [ValueRecord.levels, Nat.add_le_add_iff_right, levelsOfValues_le_iff]

/-! ### All levels -/

/-- By induction on the levels that can be opened, since each of them has one less inside. -/
theorem deciphers_readAt (pool : Pool) (room depth : Nat) :
    ReadsAnnotations pool room depth (AnnotationUse.readAt pool room)
      ∧ ReadsValues pool room depth (AnnotationValue.readAt pool room) := by
  induction room generalizing depth with
  | zero =>
    constructor
    · intro record _ rest
      refine (deciphers_tooDeep _).congr (fun _ => Iff.rfl) ?_
      exact iff_of_false id (Nat.not_le.mpr record.levels_pos)
    · intro record _ rest
      refine (deciphers_tooDeep _).congr (fun _ => Iff.rfl) ?_
      exact iff_of_false id (Nat.not_le.mpr record.levels_pos)
  | succ room ih =>
    obtain ⟨hnote, hvalue⟩ := ih (depth + 1)
    constructor
    · intro record hcounted rest
      exact deciphers_framed (AnnotationUse.deciphers_readWith hvalue hcounted)
    · intro record hcounted rest
      exact deciphers_framed (AnnotationValue.deciphers_readWith hnote hvalue hcounted)

theorem AnnotationUse.deciphers_read {record : AnnotationRecord} (h : record.Counted) :
    (AnnotationUse.read pool).Deciphers record.encode rest 0 (record.Means pool)
      (record.levels ≤ nestingLimit - 1) :=
  .ofRoom ((deciphers_readAt pool _ 0).1 record h rest)

/-- **Annotations are read as they are laid out.** In front of any bytes, reading an annotation or a
    value gives what the record means where every index stands for what it has to, and goes just as
    far; it fails because of the nesting if this takes `nestingLimit` levels, and for a format error
    if an index stands for something else. -/
theorem annotations_readNested (pool : Pool) :
    (∀ record : AnnotationRecord, record.Counted →
      (AnnotationUse.read pool).ReadsNested record.encode (record.Means pool) record.levels)
    ∧ ∀ record : ValueRecord, record.Counted →
      (AnnotationValue.read pool).ReadsNested record.encode (record.Means pool) record.levels := by
  constructor
  · intro record hcounted
    exact (AnnotationUse.contained_read pool).readsNested fun rest =>
      AnnotationUse.deciphers_read hcounted
  · intro record hcounted
    exact (AnnotationValue.contained_read pool).readsNested fun rest =>
      .ofRoom ((deciphers_readAt pool _ 0).2 record hcounted rest)

/-- An annotation with an array of values of all sorts and an annotation inside. -/
def assortedRecord : AnnotationRecord :=
  ⟨1, [⟨2, .array [.constant .int 3, .text 2, .enumConstant 1 2, .classLiteral 4]⟩,
    ⟨2, .nested ⟨1, []⟩⟩]⟩

/-- What its indices stand for. -/
def assortedPool : Pool :=
  ⟨#[.reserved, .utf8 "La/Mark;", .utf8 "x", .integer 42, .utf8 "V"]⟩

/-- What it means. -/
def assortedNote : AnnotationUse :=
  ⟨"a.Mark", [⟨"x", .array [.constant (.int 42), .constant (.string "x"),
    .enumConstant "a.Mark" "x", .classLiteral (.primitive .void [])]⟩,
    ⟨"x", .nested ⟨"a.Mark", []⟩⟩]⟩

theorem assortedRecord_means : assortedRecord.Means assortedPool assortedNote := by
  have hclass : assortedPool.HoldsClass 1 "a.Mark" := ⟨"a/Mark", by decide, by decide, by decide⟩
  have hname : assortedPool.Holds 2 (.utf8 "x") := by decide
  have hint : assortedPool.HoldsConstant .int 3 (.int 42) := ⟨.integer 42, by decide, rfl⟩
  have hvoid : assortedPool.HoldsResult 4 (.primitive .void []) :=
    ⟨by decide, rfl, ⟨by decide, trivial⟩, by decide⟩
  refine ⟨hclass, _, _, ⟨hname, ?_⟩, ⟨_, _, ⟨hname, ?_⟩, rfl, rfl⟩, rfl⟩
  · exact ⟨_, ⟨_, _, ⟨_, hint, rfl⟩, ⟨_, _, ⟨_, hname, rfl⟩, ⟨_, _, ⟨_, hclass, _, hname, rfl⟩,
      ⟨_, _, ⟨_, hvoid, rfl⟩, rfl, rfl⟩, rfl⟩, rfl⟩, rfl⟩, rfl⟩
  · exact ⟨⟨"a.Mark", []⟩, ⟨hclass, rfl⟩, rfl⟩

/-- In front of another byte the annotation is read as far as it goes, and a value that takes the
    number in slot 3 for a `long` is refused. -/
theorem annotations_readNested_assorted :
    assortedRecord.Counted
      ∧ AnnotationUse.read assortedPool ⟨assortedRecord.encode ++ [7], 6, 0⟩
        = .ok assortedNote ⟨[7], 6 + assortedRecord.encode.length, 0⟩
      ∧ (ValueRecord.constant .long 3).Counted
      ∧ ∃ error stop, AnnotationValue.read assortedPool
          ⟨(ValueRecord.constant .long 3).encode ++ [7], 6, 0⟩ = .error error stop
        ∧ error.isFormatError = true := by
  have hcounted : assortedRecord.Counted := by
    simp [assortedRecord, AnnotationRecord.Counted, ElementsCounted, ElementRecord.Counted,
      ValueRecord.Counted, ValuesCounted]
  have hlong : ∀ value, ¬ (ValueRecord.constant .long 3).Means assortedPool value := by
    rintro _ ⟨constant, ⟨entry, hslot, hvalue⟩, rfl⟩
    cases hslot
    cases hvalue
  exact ⟨hcounted,
    ((annotations_readNested assortedPool).1 _ hcounted).ok _ assortedRecord_means (by decide) _ _,
    trivial, ((annotations_readNested assortedPool).2 (.constant .long 3) trivial).refused hlong _ _⟩

end ClassAtlas
