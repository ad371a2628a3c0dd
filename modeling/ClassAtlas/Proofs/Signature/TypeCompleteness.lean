import ClassAtlas.Proofs.Signature.TypeSoundness

namespace ClassAtlas

open Reader

/-!
# Written types are read back

The written form of a well-formed type is read back, without the annotations, if its levels fit
into those that are left; otherwise it is refused because of its nesting, and not for any other
reason.

* `ReadsTypes` — a reader that does so for all types of a place;
* `answers_readIdentifier`, `answers_readSegmentsWith` — names and class types;
* `JavaType.readsTypes_readAt` — types, by induction on the levels that are left.
-/

variable {α : Type}

/-! ### Names -/

theorem answers_readIdentifier {ends : Char → Bool} {marks : List Char}
    (hends : ∀ c, ends c = true ↔ c ∈ marks) (ascii : ∀ c ∈ marks, c.toNat < 128)
    {name : String} (hname : NameWithout marks name) {rest : List UInt8} {next : UInt8}
    (hnext : rest.head? = some next) (hmark : Text.latin1 next ∈ marks) (depth : Nat) :
    Answers (readIdentifier ends) (Text.utf8 name) rest depth name True := by
  -- A byte that ends the name would be an ASCII character of it.
  have hgo : ∀ byte ∈ Text.utf8 name, ends (Text.latin1 byte) = false := by
    intro byte hbyte
    by_contra hstop
    rw [Bool.not_eq_false, hends] at hstop
    have hmem := (Text.exists_latin1_iff name (ascii _ hstop)).mp ⟨byte, hbyte, rfl⟩
    exact hname.2 _ hmem hstop
  have hne : Text.utf8 name ≠ [] := by
    rw [Ne, Text.utf8_eq_nil_iff]
    exact hname.1
  refine .ofPosition fun start => ?_
  have hrun : Answers _ _ rest depth _ _ := answers_takeUntil hgo hnext ((hends _).mpr hmark)
  refine ⟨fun _ position => ?_, fun h => absurd trivial h⟩
  rw [bind_apply, hrun.ok trivial]
  dsimp only
  rw [if_neg (by simpa using hne), Text.ofUtf8?_utf8]
  rfl

/-- The internal spelling of an outermost name is without what ends a name. -/
theorem NameWithout.internal {name : String} (h : NameWithout outermostEnds name) :
    NameWithout innerEnds (Text.internal name) := by
  refine h.replaceChar (by decide) ?_
  simp [outermostEnds, innerEnds]

/-! ### Types inside types -/

/-- Every well-formed type for the place is read back if it fits, and refused because of its
    nesting if it does not. -/
def ReadsTypes (reader : Reader (JavaType α)) (place : TypePlace) (room depth : Nat) : Prop :=
  ∀ type, JavaType.WellFormedAt place type → ∀ rest,
    Answers reader (Text.utf8 type.encode) rest depth type.bare (type.levels ≤ room)

/-- The next byte in front of a type. -/
theorem JavaType.head?_append {type : JavaType α} (h : type.WellFormed) (rest : List UInt8) :
    (Text.utf8 type.encode ++ rest).head? = some (.ofNat type.mark.toNat) := by
  rw [List.head?_append_of_ne_nil _ (utf8_encode_ne_nil h), head?_encode h]

/-- No type looks like the end of a list of types. -/
theorem JavaType.opens {type : JavaType α} (h : type.WellFormed) {closing : Char}
    (hclosing : closing ∈ ['>', ')']) :
    Opens closing (fun type => Text.utf8 (JavaType.encode type)) type := by
  refine ⟨.ofNat type.mark.toNat, head?_encode h, ?_⟩
  rw [latin1_mark]
  rintro rfl
  cases type with
  | primitive kind _ =>
    have hdescriptor : kind.descriptor ∉ ['>', ')'] := by cases kind <;> decide
    exact hdescriptor hclosing
  | bounded side _ _ => cases side <;> simp [mark] at hclosing
  | _ => simp [mark] at hclosing

theorem answers_readTypeVariable {name : String} (hname : NameWithout [';'] name)
    (annotations : List α) (rest : List UInt8) (depth : Nat) :
    Answers (readTypeVariable : Reader (JavaType α))
      (Text.utf8 (JavaType.typeVariable name annotations).encode) rest depth
      (.typeVariable name []) True := by
  have hends : ∀ c, decide (c = ';') = true ↔ c ∈ [';'] := by simp
  simp only [JavaType.encode, Text.utf8_append, List.append_assoc]
  refine (answers_expect 'T').andThen ?_
  have hsemicolon : (Text.utf8 ";" ++ rest).head? = some (.ofNat ';'.toNat) := rfl
  refine (answers_readIdentifier hends (by simp) hname hsemicolon (by decide) depth).andThen ?_
  exact (answers_expect ';').map fun _ => JavaType.typeVariable name []

variable {type : Reader (JavaType α)} {room depth : Nat}

theorem readsTypes_readReferenceWith (htype : ReadsTypes type .field room depth) :
    ReadsTypes (readReferenceWith type) .bound room depth := by
  intro value hvalue rest
  have hfield : TypePlace.field.admits value = true := by
    have hplace := hvalue.1
    cases value <;> simp_all [TypePlace.admits]
  have hmark : value.mark ∈ ['L', 'T', '['] := value.mark_mem_referenceMarks.mpr hvalue.1
  refine .ofPeek _ (JavaType.head?_append hvalue.2 rest) ?_
  rw [JavaType.latin1_mark, if_pos hmark]
  exact htype value ⟨hfield, hvalue.2⟩ rest

/-- A type argument that is no wildcard can be a bound, and does not look like a wildcard. -/
theorem TypePlace.bound_of_argument {value : JavaType α}
    (h : TypePlace.argument.admits value = true) :
    (∃ annotations, value = .wildcard annotations)
      ∨ (∃ side bound annotations, value = .bounded side bound annotations)
      ∨ TypePlace.bound.admits value = true ∧ value.mark ∉ ['*', '+', '-'] := by
  cases value <;> simp_all [TypePlace.admits, JavaType.mark]

theorem readsTypes_readArgumentWith (htype : ReadsTypes type .field room depth) :
    ReadsTypes (readArgumentWith type) .argument room depth := by
  have hreference := readsTypes_readReferenceWith htype
  rw [readArgumentWith_eq]
  intro value hvalue rest
  refine .ofPeek _ (JavaType.head?_append hvalue.2 rest) ?_
  rw [JavaType.latin1_mark]
  rcases TypePlace.bound_of_argument hvalue.1 with ⟨annotations, rfl⟩
    | ⟨side, bound, annotations, rfl⟩ | ⟨hplace, hmark⟩
  · rw [JavaType.mark, if_pos rfl]
    exact ((answers_skip_one (.ofNat '*'.toNat)).map fun _ => JavaType.wildcard []).congr
      (iff_of_true trivial (Nat.zero_le _))
  · have hbound := (hreference bound hvalue.2 rest).map fun bound => JavaType.bounded side bound []
    cases side with
    | upper =>
      rw [JavaType.mark, if_neg (by decide), if_pos rfl]
      exact (answers_skip_one (.ofNat '+'.toNat)).andThen hbound
    | lower =>
      rw [JavaType.mark, if_neg (by decide), if_neg (by decide), if_pos rfl]
      exact (answers_skip_one (.ofNat '-'.toNat)).andThen hbound
  · simp only [List.mem_cons, List.not_mem_nil, or_false, not_or] at hmark
    rw [if_neg hmark.1, if_neg hmark.2.1, if_neg hmark.2.2]
    exact hreference value ⟨hplace, hvalue.2⟩ rest

theorem answers_readArgumentsWith (htype : ReadsTypes type .field room depth)
    {arguments : List (JavaType α)} (hne : arguments ≠ [])
    (hwf : ∀ type ∈ arguments, type.WellFormedAt .argument) (rest : List UInt8) :
    Answers (readArgumentsWith type) (Text.utf8 (bracketed arguments (encodeTypes arguments))) rest
      depth (bareTypes arguments) (levelsOfTypes arguments ≤ room) := by
  have hsome : ¬ arguments.isEmpty = true := by simpa using hne
  have hitems : InTurn (fun type => Text.utf8 (JavaType.encode type))
      (fun value after => Answers (readArgumentWith type) (Text.utf8 value.encode) after depth
        value.bare (value.levels ≤ room)
        ∧ Opens '>' (fun type => Text.utf8 (JavaType.encode type)) value)
      arguments (.ofNat '>'.toNat :: rest) :=
    .of_forall fun value hv after =>
      ⟨readsTypes_readArgumentWith htype value (hwf value hv) after,
        JavaType.opens (hwf value hv).2 (by decide)⟩
  have hsome : arguments.map JavaType.bare ≠ [] := by rwa [Ne, List.map_eq_nil_iff]
  have hlist := (answers_untilByte (by decide) hitems).nonempty hsome .noTypeArguments
  rw [bracketed, if_neg (by simpa using hne), Text.utf8_append, Text.utf8_append,
    utf8_encodeTypes, List.append_assoc, bareTypes_eq_map]
  refine (?_ : Answers _ _ _ _ _ _).congr (levelsOfTypes_le_iff arguments room).symm
  unfold readArgumentsWith
  exact (answers_expect '<').andThen hlist

/-! ### Class types -/

/-- The byte behind the name of a class is one that ends it, and opens the arguments iff there are
    any. -/
theorem head?_encodeArguments (segment : ClassSegment α) {rest : List UInt8} {next : UInt8}
    (hnext : rest.head? = some next) (hend : Text.latin1 next ∈ [';', '.']) :
    ∃ byte, (Text.utf8 segment.encodeArguments ++ rest).head? = some byte
      ∧ Text.latin1 byte ∈ innerEnds
      ∧ (Text.latin1 byte = '<' ↔ segment.arguments ≠ []) := by
  obtain ⟨name, arguments, annotations⟩ := segment
  cases arguments with
  | nil =>
    simp only [List.mem_cons, List.not_mem_nil, or_false] at hend
    refine ⟨next, hnext, ?_, ?_⟩
    · rcases hend with h | h <;> rw [h] <;> decide
    · rcases hend with h | h <;> rw [h] <;> simp
  | cons argument rest =>
    exact ⟨.ofNat '<'.toNat, rfl, by decide,
      iff_of_true (Text.latin1_ofNat (by decide)) (List.cons_ne_nil _ _)⟩

theorem answers_readSegmentWith (htype : ReadsTypes type .field room depth)
    {segment : ClassSegment α} (hname : NameWithout innerEnds segment.name)
    (harguments : segment.WellFormedArguments) {rest : List UInt8} {next : UInt8}
    (hnext : rest.head? = some next) (hend : Text.latin1 next ∈ [';', '.']) :
    Answers (readSegmentWith type) (Text.utf8 (segment.name ++ segment.encodeArguments)) rest depth
      segment.bare (segment.levelsOfArguments ≤ room) := by
  have hends : ∀ c, decide (c ∈ [';', '<', '.']) = true ↔ c ∈ innerEnds := by simp [innerEnds]
  obtain ⟨byte, hhead, hmark, hopen⟩ := head?_encodeArguments segment hnext hend
  obtain ⟨name, arguments, annotations⟩ := segment
  rw [Text.utf8_append]
  unfold readSegmentWith
  refine (answers_readIdentifier hends (by simp [innerEnds]) hname hhead hmark depth).andThen ?_
  refine .ofPeek byte hhead ?_
  by_cases hne : arguments = []
  · subst hne
    rw [if_neg (mt hopen.mp (by simp))]
    exact (answers_pure _).congr (iff_of_true trivial (Nat.zero_le _))
  · rw [if_pos (hopen.mpr hne)]
    exact (answers_readArgumentsWith htype hne ((wellFormedTypes_iff _).mp harguments) rest).map
      fun arguments => (⟨name, arguments, []⟩ : ClassSegment α)

/-- What the spelling of a class is read as, and that its name can be read. -/
theorem spelling_eq {isOutermost : Bool} {segment : ClassSegment α}
    (hname : NameWithout (if isOutermost then outermostEnds else innerEnds) segment.name) :
    ∃ raw : ClassSegment α, NameWithout innerEnds raw.name
      ∧ segment.spelling isOutermost = raw.name ++ raw.encodeArguments
      ∧ (raw.WellFormedArguments ↔ segment.WellFormedArguments)
      ∧ raw.levelsOfArguments = segment.levelsOfArguments
      ∧ (if isOutermost then { raw.bare with name := Text.dotted raw.bare.name } else raw.bare)
          = segment.bare := by
  obtain ⟨name, arguments, annotations⟩ := segment
  cases isOutermost with
  | false => exact ⟨⟨name, arguments, annotations⟩, hname, rfl, Iff.rfl, rfl, rfl⟩
  | true =>
    have hfresh : '/' ∉ name.toList := fun hslash => hname.2 '/' hslash (by decide)
    refine ⟨⟨Text.internal name, arguments, annotations⟩, hname.internal, rfl, Iff.rfl, rfl, ?_⟩
    rw [if_pos rfl, ClassSegment.bare, ClassSegment.bare]
    dsimp only
    rw [Text.dotted_internal hfresh]

/-- One class and the mark behind it, then what the mark leads to. -/
theorem answers_readSegmentsWith_succ (htype : ReadsTypes type .field room depth)
    {segment : ClassSegment α} {read : ClassType α} {bound : Nat}
    (hname : NameWithout (if read.isEmpty then outermostEnds else innerEnds) segment.name)
    (harguments : segment.WellFormedArguments) (mark : Char) (hmark : mark ∈ [';', '.'])
    {more rest : List UInt8} {result : ClassType α} {Fits : Prop}
    (hmore : Answers (if mark = ';' then pure (segment.bare :: read).reverse
      else readSegmentsWith type bound (segment.bare :: read)) more rest depth result Fits) :
    Answers (readSegmentsWith type (bound + 1) read)
      (Text.utf8 (segment.spelling read.isEmpty) ++ .ofNat mark.toNat :: more) rest depth result
      (segment.levelsOfArguments ≤ room ∧ Fits) := by
  obtain ⟨raw, hraw, hspelling, hiff, hlevels, hbare⟩ := spelling_eq hname
  have hlatin : Text.latin1 (.ofNat mark.toNat) = mark := by
    have hascii : ∀ c ∈ [';', '.'], c.toNat < 128 := by simp
    exact Text.latin1_ofNat (hascii mark hmark)
  have hsegment : Answers (readSegmentWith type) (Text.utf8 (segment.spelling read.isEmpty))
      (.ofNat mark.toNat :: more ++ rest) depth raw.bare (segment.levelsOfArguments ≤ room) := by
    rw [hspelling, ← hlevels]
    refine answers_readSegmentWith htype hraw (hiff.mpr harguments) List.head?_cons ?_
    rwa [hlatin]
  rw [readSegmentsWith_eq]
  refine hsegment.bind (.ofPosition fun offset => ?_)
  refine (answers_u8 (.ofNat mark.toNat)).andThen ?_
  rw [hbare, hlatin]
  by_cases hsemicolon : mark = ';'
  · rw [if_pos hsemicolon] at hmore ⊢
    exact hmore
  · have hdot : mark = '.' := by simpa [hsemicolon] using hmark
    rw [if_neg hsemicolon] at hmore
    rw [if_neg hsemicolon, if_pos hdot]
    exact hmore

/-- The fuel is enough for the classes. -/
theorem answers_readSegmentsWith (htype : ReadsTypes type .field room depth)
    (later : List (ClassSegment α)) (segment : ClassSegment α) (read : ClassType α) (bound : Nat)
    (hbound : later.length < bound)
    (hwf : WellFormedSegments (if read.isEmpty then outermostEnds else innerEnds)
      (segment :: later)) (rest : List UInt8) :
    Answers (readSegmentsWith type bound read)
      (Text.utf8 (segment.spelling read.isEmpty ++ encodeInner later ++ ";")) rest depth
      (read.reverse ++ bareSegments (segment :: later))
      (levelsOfSegments (segment :: later) ≤ room) := by
  -- On the inner classes: the last class is followed by the semicolon, the others by a dot.
  induction later generalizing segment read bound with
  | nil =>
    obtain ⟨hname, harguments, -⟩ := hwf
    obtain ⟨bound, rfl⟩ : ∃ n, bound = n + 1 := Nat.exists_eq_succ_of_ne_zero (Nat.ne_of_gt hbound)
    have hlast : Answers (if ';' = ';' then pure (segment.bare :: read).reverse
        else readSegmentsWith type bound (segment.bare :: read)) [] rest depth
        (read.reverse ++ bareSegments [segment]) True := by
      rw [if_pos rfl, List.reverse_cons]
      exact answers_pure _
    rw [encodeInner, String.append_empty, Text.utf8_append]
    refine (answers_readSegmentsWith_succ htype hname harguments ';' (by decide) hlast).congr ?_
    simp [levelsOfSegments]
  | cons next later ih =>
    obtain ⟨hname, harguments, hlater⟩ := hwf
    obtain ⟨bound, rfl⟩ : ∃ n, bound = n + 1 :=
      Nat.exists_eq_succ_of_ne_zero (Nat.ne_of_gt (Nat.zero_lt_of_lt hbound))
    have hmore := ih next (segment.bare :: read) bound (Nat.lt_of_succ_lt_succ hbound) hlater
    have hbytes : Text.utf8 (segment.spelling read.isEmpty ++ encodeInner (next :: later) ++ ";")
        = Text.utf8 (segment.spelling read.isEmpty) ++ .ofNat '.'.toNat
          :: Text.utf8 (next.spelling false ++ encodeInner later ++ ";") := by
      simp only [encodeInner, ClassSegment.spelling, Text.utf8_append, List.append_assoc,
        Bool.false_eq_true, if_false]
      rfl
    rw [List.reverse_cons, List.append_assoc] at hmore
    rw [hbytes]
    refine (answers_readSegmentsWith_succ htype hname harguments '.' (by decide) ?_).congr
      Nat.max_le.symm
    rw [if_neg (by decide)]
    exact hmore

/-- Every inner class has at least its dot. -/
theorem length_le_length_encodeInner (later : List (ClassSegment α)) :
    later.length ≤ (Text.utf8 (encodeInner later)).length := by
  induction later with
  | nil => exact Nat.zero_le _
  | cons segment rest ih =>
    have hdot : (Text.utf8 ".").length = 1 := rfl
    rw [encodeInner]
    simp only [Text.utf8_append, List.length_append, List.length_cons, hdot]
    omega

theorem ClassType.answers_readWith (htype : ReadsTypes type .field room depth)
    {segments : ClassType α} (hwf : segments.WellFormed) (rest : List UInt8) :
    Answers (ClassType.readWith type) (Text.utf8 (ClassType.encode segments)) rest depth
      segments.bare (levelsOfSegments segments ≤ room) := by
  obtain ⟨hne, hsegments⟩ := hwf
  obtain ⟨segment, later, rfl⟩ := List.exists_cons_of_ne_nil hne
  have hbytes : Text.utf8 (ClassType.encode (segment :: later)) = [.ofNat 'L'.toNat]
      ++ Text.utf8 (segment.spelling true ++ encodeInner later ++ ";") := by
    simp only [ClassType.encode, JavaType.encode, encodeOutermost, ClassSegment.spelling,
      Text.utf8_append, List.append_assoc, if_true]
    rfl
  rw [hbytes]
  unfold ClassType.readWith
  refine (answers_expect 'L').andThen ?_
  refine .ofGet fun cursor hunread => ?_
  refine answers_readSegmentsWith htype later segment [] cursor.rest.length ?_ hsegments rest
  have hinner := length_le_length_encodeInner later
  have hsemicolon : (Text.utf8 ";").length = 1 := rfl
  rw [hunread, Text.utf8_append, Text.utf8_append]
  simp only [List.length_append, hsemicolon]
  omega

/-! ### Types -/

/-- The brackets are counted up to another byte. -/
theorem answers_readBrackets (count : Nat) {rest : List UInt8} {next : UInt8}
    (hnext : rest.head? = some next) (hother : Text.latin1 next ≠ '[') :
    Answers readBrackets (List.replicate count (.ofNat '['.toNat)) rest depth count True := by
  have htail : rest.takeWhile (Text.latin1 · = '[') = [] := by
    obtain ⟨tail, rfl⟩ := List.head?_eq_some_iff.mp hnext
    rw [List.takeWhile_cons_of_neg (by simpa using hother)]
  have hbrackets : ∀ byte ∈ List.replicate count (UInt8.ofNat '['.toNat),
      decide (Text.latin1 byte = '[') = true := by
    intro byte hbyte
    rw [List.eq_of_mem_replicate hbyte]
    decide
  unfold readBrackets
  refine .ofGet fun cursor hunread => ?_
  have hcount : (cursor.rest.takeWhile (Text.latin1 · = '[')).length = count := by
    rw [hunread, List.takeWhile_append_of_pos hbrackets, htail, List.append_nil,
      List.length_replicate]
  rw [hcount]
  have hskip : Answers (skip count) (List.replicate count (.ofNat '['.toNat)) rest depth () True :=
    .ofPasses fun _ _ hpass _ => skip_eq_ok.mpr ⟨_, hpass, List.length_replicate⟩
  have hpeek : Answers (do let _ ← peek; return count : Reader Nat) [] rest depth count True :=
    .ofPeek next hnext (answers_pure count)
  rw [← List.append_nil (List.replicate _ _)]
  exact hskip.andThen hpeek

theorem Primitive.descriptor_not_mem_referenceMarks (kind : Primitive) :
    kind.descriptor ∉ referenceMarks := by
  cases kind <;> decide

/-- The element of an array can be a field, and does not look like an array. -/
theorem TypePlace.field_of_element {type : JavaType α} (h : TypePlace.element.admits type = true) :
    TypePlace.field.admits type = true ∧ type.mark ≠ '[' := by
  cases type with
  | primitive kind _ =>
    refine ⟨by simpa [admits] using h, fun hmark => ?_⟩
    have hbracket : kind.descriptor = '[' := hmark
    exact kind.descriptor_not_mem_referenceMarks (hbracket ▸ by decide)
  | _ => simp_all [admits, JavaType.mark]

/-- Only wildcards open no level, and they are read as type arguments only. -/
theorem JavaType.levels_pos {type : JavaType α} {allowVoid : Bool}
    (h : (TypePlace.reading allowVoid).admits type = true) : 0 < type.levels := by
  cases type with
  | wildcard _ => cases allowVoid <;> cases h
  | bounded _ _ _ => cases allowVoid <;> cases h
  | _ => exact Nat.succ_pos _

/-- **Completeness of types.** By induction on the levels that are left: a type that is too deep
    is one that still opens a level when none is left. -/
theorem JavaType.readsTypes_readAt (room : Nat) (allowVoid : Bool) (depth : Nat) :
    ReadsTypes (JavaType.readAt room allowVoid : Reader (JavaType α)) (.reading allowVoid) room
      depth := by
  induction room generalizing allowVoid depth with
  | zero =>
    intro type htype rest
    have hdeep : ¬ type.levels ≤ 0 := Nat.not_le_of_gt (levels_pos htype.1)
    exact (answers_tooDeep _ _ _ _).congr (iff_of_false not_false hdeep)
  | succ room ih =>
    rw [readAt_succ]
    have hinner := ih false (depth + 1)
    intro type htype rest
    refine answers_nested (.ofPeek _ (head?_append htype.2 rest) ?_)
    rw [latin1_mark]
    cases type with
    | primitive kind annotations =>
      -- A descriptor is none of the marks that are tested before it.
      have hother := kind.descriptor_not_mem_referenceMarks
      simp only [referenceMarks, List.mem_cons, List.not_mem_nil, or_false, not_or] at hother
      have hallowed : ¬ (kind = .void ∧ (!allowVoid) = true) := by
        rintro ⟨rfl, hforbidden⟩
        cases allowVoid
        · cases htype.1
        · cases hforbidden
      rw [mark, if_neg hother.1, if_neg hother.2.1, if_neg hother.2.2,
        Primitive.ofDescriptor?_descriptor]
      dsimp only
      rw [if_neg hallowed, encode, Text.utf8_toString kind.descriptor_ascii]
      exact ((answers_skip_one _).map fun _ => JavaType.primitive kind []).congr
        (iff_of_true trivial (Nat.le_add_left 1 room))
    | ofClass segments =>
      rw [mark, if_pos rfl]
      exact ((ClassType.answers_readWith hinner htype.2 rest).map JavaType.ofClass).congr
        Nat.succ_le_succ_iff.symm
    | array element dimensions =>
      obtain ⟨hne, hplace, helement⟩ := htype.2
      obtain ⟨hfield, hmark⟩ := TypePlace.field_of_element hplace
      rw [mark, if_neg (by decide), if_neg (by decide), if_pos rfl, encode, Text.utf8_append,
        Text.utf8_replicate (by decide)]
      refine (Answers.andThen (answers_readBrackets _ (head?_append helement rest) ?_)
        ((hinner element ⟨hfield, helement⟩ rest).map fun element =>
          JavaType.arrayOf element dimensions.length)).congr Nat.succ_le_succ_iff.symm
      rwa [latin1_mark]
    | typeVariable name annotations =>
      rw [mark, if_neg (by decide), if_pos rfl]
      exact (answers_readTypeVariable htype.2 annotations rest (depth + 1)).congr
        (iff_of_true trivial (Nat.le_add_left 1 room))
    -- Wildcards stand neither as fields nor as results.
    | wildcard annotations => cases allowVoid <;> cases htype.1
    | bounded side bound annotations => cases allowVoid <;> cases htype.1

/-- At the start of a text almost all levels are left. -/
theorem JavaType.readsTypes_read (allowVoid : Bool) :
    ReadsTypes (JavaType.read allowVoid : Reader (JavaType α)) (.reading allowVoid)
      (nestingLimit - 1) 0 := by
  intro type htype rest
  have h := readsTypes_readAt (nestingLimit - 1) allowVoid 0 type htype rest
  exact ⟨fun hfits position => h.ok hfits position,
    fun hfits position => h.tooDeep hfits position⟩

theorem ClassType.answers_read {segments : ClassType α} (hwf : segments.WellFormed)
    (rest : List UInt8) :
    Answers ClassType.read (Text.utf8 (ClassType.encode segments)) rest 0 segments.bare
      (levelsOfSegments segments ≤ nestingLimit - 1) :=
  ClassType.answers_readWith (JavaType.readsTypes_read false) hwf rest

end ClassAtlas
