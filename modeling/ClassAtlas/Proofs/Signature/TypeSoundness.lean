import ClassAtlas.Proofs.Reading.Repetition
import ClassAtlas.Proofs.Signature.WellFormed
import ClassAtlas.Signature.Parse

namespace ClassAtlas

open Reader

/-!
# What is read is the written form of what is given

Each rule of the grammar accounts for its bytes: they are the written form of the tree it gives,
and the tree is well-formed, bare and within the levels that were left.

* `JavaType.Readable` — what a reader of types can give;
* `GivesTypes` — a reader that gives such types and accounts for them;
* `accounts_readIdentifier`, `accounts_readSegmentsWith` — names and class types;
* `JavaType.givesTypes_readAt` — types, by induction on the levels that are left.
-/

variable {α : Type}

/-! ### Names -/

/-- A name is read up to one of the characters that end it. -/
theorem accounts_readIdentifier {ends : Char → Bool} {marks : List Char}
    (hends : ∀ c, ends c = true ↔ c ∈ marks) (ascii : ∀ c ∈ marks, c.toNat < 128) (depth : Nat) :
    Accounts (readIdentifier ends) depth Text.utf8 fun name after =>
      NameWithout marks name ∧ ∃ byte, after.head? = some byte ∧ Text.latin1 byte ∈ marks := by
  intro start name stop hdepth hread
  obtain ⟨_, _, hposition, hread⟩ := bind_eq_ok.mp hread
  cases hposition
  obtain ⟨run, after, htake, hread⟩ := bind_eq_ok.mp hread
  obtain ⟨hpass, hgo, byte, hhead, hstop⟩ := takeUntil_eq_ok.mp htake
  split at hread
  · exact absurd hread malformed_ne_ok
  · rename_i hne
    cases htext : Text.ofUtf8? run with
    | none =>
      rw [htext] at hread
      exact absurd hread malformed_ne_ok
    | some text =>
      rw [htext] at hread
      obtain ⟨rfl, rfl⟩ := pure_eq_ok.mp hread
      have hrun := Text.utf8_of_ofUtf8? htext
      rw [hrun]
      refine ⟨hpass, ⟨?_, ?_⟩, byte, hhead, (hends _).mp hstop⟩
      · rintro rfl
        rw [← hrun] at hne
        exact hne rfl
      · intro c hc hmark
        obtain ⟨b, hb, rfl⟩ := (Text.exists_latin1_iff text (ascii c hmark)).mpr hc
        have hfalse := hgo b (hrun ▸ hb)
        rw [(hends _).mpr hmark] at hfalse
        cases hfalse

/-! ### What readers of types give -/

/-- A bare and well-formed type for a place, which fits into the levels that are left. -/
structure JavaType.Readable (place : TypePlace) (room : Nat) (type : JavaType α) : Prop where
  /-- It may stand at the place and is well-formed. -/
  wellFormed : type.WellFormedAt place
  /-- It fits. -/
  levels_le : type.levels ≤ room
  /-- It has no annotations. -/
  bare_eq : type.bare = type

/-- The same of the classes of a class type. -/
structure SegmentsReadable (ends : List Char) (room : Nat) (segments : List (ClassSegment α)) :
    Prop where
  /-- They are well-formed. -/
  wellFormed : WellFormedSegments ends segments
  /-- They fit. -/
  levels_le : levelsOfSegments segments ≤ room
  /-- They have no annotations. -/
  bare_eq : bareSegments segments = segments

theorem map_bare_of_readable {place : TypePlace} {room : Nat} {types : List (JavaType α)}
    (h : ∀ type ∈ types, type.Readable place room) : types.map (·.bare) = types :=
  (List.map_congr_left fun type ht => (h type ht).bare_eq).trans (List.map_id' _)

theorem levelsOfTypes_le_of_readable {place : TypePlace} {room : Nat} {types : List (JavaType α)}
    (h : ∀ type ∈ types, type.Readable place room) : levelsOfTypes types ≤ room :=
  (levelsOfTypes_le_iff _ _).mpr fun type ht => (h type ht).levels_le

theorem JavaType.Readable.ne_nil {place : TypePlace} {room : Nat} {type : JavaType α}
    (h : type.Readable place room) : Text.utf8 type.encode ≠ [] :=
  utf8_encode_ne_nil h.wellFormed.2

/-- A type variable may stand everywhere but needs a level. -/
theorem accounts_readTypeVariable (room depth : Nat) :
    Accounts (readTypeVariable : Reader (JavaType α)) depth (fun type => Text.utf8 type.encode)
      fun type _ => ∀ place, type.Readable place (room + 1) := by
  intro start type stop hdepth hread
  obtain ⟨_, first, hexpect, hread⟩ := bind_eq_ok.mp hread
  obtain ⟨name, second, hname, hread⟩ := bind_eq_ok.mp hread
  obtain ⟨_, third, hend, hread⟩ := bind_eq_ok.mp hread
  obtain ⟨rfl, rfl⟩ := pure_eq_ok.mp hread
  have hmark := expect_eq_ok.mp hexpect
  have hsemicolon := expect_eq_ok.mp hend
  have hends : ∀ c, decide (c = ';') = true ↔ c ∈ [';'] := by simp
  obtain ⟨hpass, hwf, -⟩ := accounts_readIdentifier hends (by simp) depth
    (hmark.depth_eq.trans hdepth) hname
  refine ⟨?_, fun _ => ⟨⟨rfl, hwf⟩, Nat.le_add_left 1 room, rfl⟩⟩
  simp only [JavaType.encode, Text.utf8_append]
  exact (hmark.trans hpass).trans hsemicolon

/-- Every type that the reader gives is written as it was read, and is readable for the place. -/
def GivesTypes (reader : Reader (JavaType α)) (place : TypePlace) (room depth : Nat) : Prop :=
  Accounts reader depth (fun type => Text.utf8 type.encode) fun type _ => type.Readable place room

variable {type : Reader (JavaType α)} {room depth : Nat}

/-- A type that is not primitive, told by its first byte. -/
theorem givesTypes_readReferenceWith (htype : GivesTypes type .field room depth) :
    GivesTypes (readReferenceWith type) .bound room depth := by
  intro start value stop hdepth hread
  obtain ⟨byte, _, hpeek, hread⟩ := bind_eq_ok.mp hread
  obtain ⟨hhead, rfl⟩ := peek_eq_ok.mp hpeek
  split at hread
  · rename_i hmark
    obtain ⟨hpass, hvalue⟩ := htype hdepth hread
    refine ⟨hpass, ⟨?_, hvalue.wellFormed.2⟩, hvalue.levels_le, hvalue.bare_eq⟩
    -- The byte that was looked at is the mark of the type that was read.
    have hfirst := hpass.head?_eq hhead hvalue.ne_nil
    rw [JavaType.head?_encode hvalue.wellFormed.2, Option.some.injEq] at hfirst
    rw [← hfirst, JavaType.latin1_mark] at hmark
    exact value.mark_mem_referenceMarks.mp hmark
  · exact absurd hread bind_malformed_ne_ok

/-- Types that can be bounds can be type arguments. -/
theorem JavaType.Readable.argument_of_bound {type : JavaType α}
    (h : type.Readable .bound room) : type.Readable .argument room := by
  refine ⟨⟨?_, h.wellFormed.2⟩, h.levels_le, h.bare_eq⟩
  have hplace := h.wellFormed.1
  cases type <;> simp_all [TypePlace.admits]

theorem JavaType.Readable.bounded {bound : JavaType α}
    (h : bound.Readable .bound room) (side : BoundSide) :
    (JavaType.bounded side bound []).Readable .argument room where
  wellFormed := ⟨rfl, h.wellFormed⟩
  levels_le := h.levels_le
  bare_eq := by rw [bare, h.bare_eq]

/-- A wildcard with a bound: the character of the side, then the bound. -/
theorem accounts_bounded (side : BoundSide) {reference : Reader (JavaType α)}
    (hreference : GivesTypes reference .bound room depth)
    {start stop : Cursor} {byte : UInt8} {value : JavaType α} (hdepth : start.depth = depth)
    (hhead : start.rest.head? = some byte)
    (hbyte : Text.latin1 byte = (JavaType.bounded side value []).mark)
    (hread : (do skip 1; return .bounded side (← reference) [] : Reader (JavaType α)) start
      = .ok value stop) :
    start.Passes (Text.utf8 value.encode) stop ∧ value.Readable .argument room := by
  obtain ⟨_, middle, hskip, hread⟩ := bind_eq_ok.mp hread
  obtain ⟨bound, _, hbound, hread⟩ := bind_eq_ok.mp hread
  obtain ⟨rfl, rfl⟩ := pure_eq_ok.mp hread
  have hpass := passes_of_skip_one hhead hskip
  rw [Text.eq_of_latin1 hbyte] at hpass
  obtain ⟨hpassed, hvalue⟩ := hreference (hpass.depth_eq.trans hdepth) hbound
  refine ⟨?_, hvalue.bounded side⟩
  rw [JavaType.encode, Text.utf8_append]
  cases side <;> exact hpass.trans hpassed

theorem givesTypes_readArgumentWith (htype : GivesTypes type .field room depth) :
    GivesTypes (readArgumentWith type) .argument room depth := by
  rw [readArgumentWith_eq]
  have hreference := givesTypes_readReferenceWith htype
  intro start value stop hdepth hread
  obtain ⟨byte, _, hpeek, hread⟩ := bind_eq_ok.mp hread
  obtain ⟨hhead, rfl⟩ := peek_eq_ok.mp hpeek
  split at hread
  · rename_i hbyte
    obtain ⟨_, _, hskip, hread⟩ := bind_eq_ok.mp hread
    obtain ⟨rfl, rfl⟩ := pure_eq_ok.mp hread
    have hpass := passes_of_skip_one hhead hskip
    rw [Text.eq_of_latin1 hbyte] at hpass
    exact ⟨hpass, ⟨rfl, trivial⟩, Nat.zero_le _, rfl⟩
  split at hread
  · rename_i hbyte
    exact accounts_bounded .upper hreference hdepth hhead hbyte hread
  split at hread
  · rename_i hbyte
    exact accounts_bounded .lower hreference hdepth hhead hbyte hread
  · obtain ⟨hpass, hvalue⟩ := hreference hdepth hread
    exact ⟨hpass, hvalue.argument_of_bound⟩

/-! ### Class types -/

theorem utf8_encodeTypes (types : List (JavaType α)) :
    Text.utf8 (encodeTypes types) = types.flatMap fun type => Text.utf8 type.encode := by
  induction types with
  | nil => rfl
  | cons type rest ih => rw [encodeTypes, Text.utf8_append, ih, List.flatMap_cons]

theorem accounts_readArgumentsWith (htype : GivesTypes type .field room depth) :
    Accounts (readArgumentsWith type) depth
      (fun arguments => Text.utf8 (bracketed arguments (encodeTypes arguments)))
      fun arguments _ => arguments ≠ [] ∧ ∀ type ∈ arguments, type.Readable .argument room := by
  intro start value stop hdepth hread
  obtain ⟨_, middle, hopen, hread⟩ := bind_eq_ok.mp hread
  obtain ⟨arguments, _, harguments, hread⟩ := bind_eq_ok.mp hread
  have hpass := expect_eq_ok.mp hopen
  obtain ⟨hpassed, hturn⟩ := accounts_untilByte (givesTypes_readArgumentWith htype)
    (fun _ _ h => h.ne_nil) (hpass.depth_eq.trans hdepth) harguments
  split at hread
  · exact absurd hread malformed_bind_ne_ok
  · rename_i hne
    obtain ⟨rfl, rfl⟩ := pure_eq_ok.mp hread
    refine ⟨?_, by simpa using hne, hturn.forall fun _ _ h => h.1⟩
    show start.Passes (Text.utf8 (bracketed arguments (encodeTypes arguments))) _
    rw [bracketed, if_neg hne, Text.utf8_append, Text.utf8_append, utf8_encodeTypes,
      List.append_assoc]
    exact hpass.trans hpassed

theorem SegmentsReadable.cons {ends : List Char} {segment : ClassSegment α}
    {later : List (ClassSegment α)} (hsegment : SegmentsReadable ends room [segment])
    (hlater : SegmentsReadable innerEnds room later) :
    SegmentsReadable ends room (segment :: later) where
  wellFormed := ⟨hsegment.wellFormed.1, hsegment.wellFormed.2.1, hlater.wellFormed⟩
  levels_le := Nat.max_le.mpr ⟨(Nat.max_le.mp hsegment.levels_le).1, hlater.levels_le⟩
  bare_eq := by
    have hbare := hsegment.bare_eq
    rw [bareSegments, List.cons.injEq] at hbare
    rw [bareSegments, hbare.1, hlater.bare_eq]

/-- The dots of the outermost name are slashes in the text, and so it has no slashes. -/
theorem SegmentsReadable.dotted {segment : ClassSegment α}
    (h : SegmentsReadable innerEnds room [segment]) :
    SegmentsReadable outermostEnds room [{ segment with name := Text.dotted segment.name }] := by
  obtain ⟨name, arguments, annotations⟩ := segment
  obtain ⟨⟨hname, harguments, -⟩, hlevels, hbare⟩ := h
  refine ⟨⟨?_, harguments, trivial⟩, hlevels, ?_⟩
  · refine hname.replaceChar (by decide) ?_
    simp [outermostEnds, innerEnds]
  · simp only [bareSegments, ClassSegment.bare, List.cons.injEq, ClassSegment.mk.injEq] at hbare ⊢
    exact ⟨⟨trivial, hbare.1.2⟩, trivial⟩

theorem accounts_readSegmentWith (htype : GivesTypes type .field room depth) :
    Accounts (readSegmentWith type) depth
      (fun segment => Text.utf8 (segment.name ++ segment.encodeArguments))
      fun segment _ => SegmentsReadable innerEnds room [segment] := by
  intro start value stop hdepth hread
  obtain ⟨name, middle, hname, hread⟩ := bind_eq_ok.mp hread
  have hends : ∀ c, decide (c ∈ [';', '<', '.']) = true ↔ c ∈ innerEnds := by simp [innerEnds]
  obtain ⟨hpass, hwf, -⟩ := accounts_readIdentifier hends (by simp [innerEnds]) depth hdepth
    hname
  obtain ⟨byte, _, hpeek, hread⟩ := bind_eq_ok.mp hread
  obtain ⟨hhead, rfl⟩ := peek_eq_ok.mp hpeek
  split at hread
  · obtain ⟨arguments, _, harguments, hread⟩ := bind_eq_ok.mp hread
    obtain ⟨rfl, rfl⟩ := pure_eq_ok.mp hread
    obtain ⟨hpassed, hne, hall⟩ :=
      accounts_readArgumentsWith htype (hpass.depth_eq.trans hdepth) harguments
    refine ⟨?_, ⟨hwf, (wellFormedTypes_iff _).mpr fun t ht => (hall t ht).wellFormed, trivial⟩,
      ?_, ?_⟩
    · show start.Passes (Text.utf8 (name ++ bracketed arguments (encodeTypes arguments))) _
      rw [Text.utf8_append]
      exact hpass.trans hpassed
    · exact Nat.max_le.mpr ⟨levelsOfTypes_le_of_readable hall, Nat.zero_le _⟩
    · rw [bareSegments, ClassSegment.bare, bareTypes_eq_map, map_bare_of_readable hall,
        bareSegments]
  · obtain ⟨rfl, rfl⟩ := pure_eq_ok.mp hread
    refine ⟨?_, ⟨hwf, trivial, trivial⟩, Nat.zero_le _, rfl⟩
    show start.Passes (Text.utf8 (name ++ "")) _
    rw [Text.utf8_append]
    exact hpass.trans (.refl _)

/-- How a class is spelled as the outermost class, and how as an inner one. -/
def ClassSegment.spelling (isOutermost : Bool) (segment : ClassSegment α) : String :=
  (if isOutermost then Text.internal segment.name else segment.name) ++ segment.encodeArguments

/-- A class as it was read, with the dots put into the name of the outermost one. -/
theorem spelling_of_raw {isOutermost : Bool} {raw segment : ClassSegment α}
    (hraw : SegmentsReadable innerEnds room [raw])
    (hsegment : (if isOutermost then { raw with name := Text.dotted raw.name } else raw)
      = segment) :
    Text.utf8 (raw.name ++ raw.encodeArguments) = Text.utf8 (segment.spelling isOutermost)
      ∧ SegmentsReadable (if isOutermost then outermostEnds else innerEnds) room [segment] := by
  cases isOutermost with
  | false =>
    rw [if_neg Bool.false_ne_true] at hsegment
    subst hsegment
    exact ⟨rfl, hraw⟩
  | true =>
    rw [if_pos rfl] at hsegment
    subst hsegment
    refine ⟨?_, hraw.dotted⟩
    -- No dots were read in the name, so its slashes come back from the dots put in for them.
    have hfresh : '.' ∉ raw.name.toList := fun hdot =>
      hraw.wellFormed.1.2 '.' hdot (by simp [innerEnds])
    rw [ClassSegment.spelling, if_pos rfl, Text.internal_dotted hfresh]
    cases raw
    rfl

/-- What was read behind the classes already there, and the semicolon. -/
theorem accounts_readSegmentsWith (htype : GivesTypes type .field room depth) (bound : Nat)
    (read : ClassType α) {start stop : Cursor} {segments : ClassType α}
    (hdepth : start.depth = depth)
    (hread : readSegmentsWith type bound read start = .ok segments stop) :
    ∃ segment later, segments = read.reverse ++ segment :: later
      ∧ start.Passes
          (Text.utf8 (segment.spelling read.isEmpty ++ encodeInner later ++ ";")) stop
      ∧ SegmentsReadable (if read.isEmpty then outermostEnds else innerEnds) room
          (segment :: later) := by
  -- On the fuel; only the first class has nothing read before it.
  induction bound generalizing read start with
  | zero => cases hread
  | succ bound ih =>
    rw [readSegmentsWith_eq] at hread
    obtain ⟨raw, middle, hraw, hread⟩ := bind_eq_ok.mp hread
    obtain ⟨hpass, hreadable⟩ := accounts_readSegmentWith htype hdepth hraw
    obtain ⟨_, _, hposition, hread⟩ := bind_eq_ok.mp hread
    cases hposition
    obtain ⟨found, after, hfound, hread⟩ := bind_eq_ok.mp hread
    rw [u8_eq_ok] at hfound
    generalize hsegment : (if read.isEmpty then
      { raw with name := Text.dotted raw.name } else raw) = segment at hread
    obtain ⟨hspelling, hlegal⟩ := spelling_of_raw hreadable hsegment
    have hpassed := hpass.trans hfound
    beta_reduce at hpassed
    rw [hspelling] at hpassed
    split at hread
    · rename_i hend
      obtain ⟨rfl, rfl⟩ := pure_eq_ok.mp hread
      rw [Text.eq_of_latin1 hend] at hpassed
      refine ⟨segment, [], List.reverse_cons, ?_, hlegal⟩
      rw [Text.utf8_append, Text.utf8_append, encodeInner, Text.utf8_empty, List.append_nil]
      exact hpassed
    split at hread
    · rename_i hdot
      rw [Text.eq_of_latin1 hdot] at hpassed
      obtain ⟨next, later, rfl, hmore, hlater⟩ :=
        ih (segment :: read) (hpassed.depth_eq.trans hdepth) hread
      refine ⟨segment, next :: later, by simp, ?_, hlegal.cons hlater⟩
      have hall := hpassed.trans hmore
      simp only [Text.utf8_append, encodeInner, ClassSegment.spelling, List.isEmpty_cons,
        Bool.false_eq_true, if_false, List.append_assoc] at hall ⊢
      exact hall
    · exact absurd hread malformed_ne_ok

theorem ClassType.accounts_readWith (htype : GivesTypes type .field room depth) :
    Accounts (ClassType.readWith type) depth (fun segments => Text.utf8 (ClassType.encode segments))
      fun segments _ => segments ≠ [] ∧ SegmentsReadable outermostEnds room segments := by
  intro start value stop hdepth hread
  obtain ⟨_, middle, hmark, hread⟩ := bind_eq_ok.mp hread
  obtain ⟨_, _, hget, hread⟩ := bind_eq_ok.mp hread
  cases hget
  have hpass := expect_eq_ok.mp hmark
  obtain ⟨segment, later, rfl, hpassed, hreadable⟩ :=
    accounts_readSegmentsWith htype _ _ (hpass.depth_eq.trans hdepth) hread
  refine ⟨?_, List.cons_ne_nil _ _, hreadable⟩
  have hall := hpass.trans hpassed
  simp only [Text.utf8_append, ClassSegment.spelling, List.isEmpty_nil, if_true,
    List.append_assoc] at hall
  simp only [ClassType.encode, JavaType.encode, encodeOutermost, List.reverse_nil, List.nil_append,
    Text.utf8_append, List.append_assoc]
  exact hall

/-! ### Types -/

theorem accounts_readBrackets (depth : Nat) :
    Accounts readBrackets depth (fun count => List.replicate count (.ofNat '['.toNat))
      fun _ after => ∃ byte, after.head? = some byte ∧ Text.latin1 byte ≠ '[' := by
  intro start count stop hdepth hread
  obtain ⟨_, _, hget, hread⟩ := bind_eq_ok.mp hread
  cases hget
  obtain ⟨_, middle, hskip, hread⟩ := bind_eq_ok.mp hread
  obtain ⟨byte, _, hpeek, hread⟩ := bind_eq_ok.mp hread
  obtain ⟨hhead, rfl⟩ := peek_eq_ok.mp hpeek
  obtain ⟨rfl, rfl⟩ := pure_eq_ok.mp hread
  obtain ⟨chunk, hpass, hlen⟩ := skip_eq_ok.mp hskip
  -- What was skipped is as long as the run of brackets and begins where it does.
  have hsplit : start.rest.takeWhile (Text.latin1 · = '[')
      ++ start.rest.dropWhile (Text.latin1 · = '[') = chunk ++ middle.rest := by
    rw [List.takeWhile_append_dropWhile, hpass.rest_eq]
  obtain ⟨hchunk, hrest⟩ := List.append_inj hsplit hlen.symm
  have hbrackets : chunk = List.replicate chunk.length (.ofNat '['.toNat) := by
    refine List.eq_replicate_of_mem fun b hb => Text.eq_of_latin1 ?_
    rw [← hchunk] at hb
    simpa using List.mem_takeWhile_imp hb
  refine ⟨?_, byte, hhead, ?_⟩
  · show start.Passes (List.replicate _ _) middle
    rw [← hlen, ← hbrackets]
    exact hpass
  · have hnot := List.head?_dropWhile_not (fun b => decide (Text.latin1 b = '[')) start.rest
    rw [hrest, hhead] at hnot
    simpa using hnot

/-- A field type that does not begin like an array can be the element of one. -/
theorem TypePlace.element_of_field {type : JavaType α} (h : TypePlace.field.admits type = true)
    (hmark : type.mark ≠ '[') : TypePlace.element.admits type = true := by
  cases type <;> simp_all [TypePlace.admits, JavaType.mark]

theorem JavaType.Readable.arrayOf {count : Nat} {element : JavaType α}
    (h : element.Readable .field room) (hmark : element.mark ≠ '[') (hcount : count ≠ 0) :
    (JavaType.arrayOf element count).Readable .field (room + 1) where
  wellFormed := by
    refine ⟨rfl, ?_, TypePlace.element_of_field h.wellFormed.1 hmark, h.wellFormed.2⟩
    rw [Ne, List.replicate_eq_nil_iff]
    exact hcount
  levels_le := Nat.succ_le_succ h.levels_le
  bare_eq := by rw [JavaType.arrayOf, bare, h.bare_eq, List.length_replicate, JavaType.arrayOf]

/-- The place that a reader of types reads for. -/
def TypePlace.reading (allowVoid : Bool) : TypePlace := if allowVoid then result else field

theorem JavaType.Readable.reading {type : JavaType α} (h : type.Readable .field room)
    (allowVoid : Bool) : type.Readable (.reading allowVoid) room := by
  cases allowVoid with
  | false => exact h
  | true =>
    refine ⟨⟨?_, h.wellFormed.2⟩, h.levels_le, h.bare_eq⟩
    have hplace := h.wellFormed.1
    cases type <;> simp_all [TypePlace.reading, TypePlace.admits]

theorem SegmentsReadable.ofClass {segments : ClassType α} (hne : segments ≠ [])
    (h : SegmentsReadable outermostEnds room segments) (place : TypePlace) :
    (JavaType.ofClass segments).Readable place (room + 1) where
  wellFormed := ⟨rfl, hne, h.wellFormed⟩
  levels_le := Nat.succ_le_succ h.levels_le
  bare_eq := by rw [JavaType.bare, h.bare_eq]

theorem Primitive.descriptor_of_ofDescriptor? {c : Char} {kind : Primitive}
    (h : Primitive.ofDescriptor? c = some kind) : kind.descriptor = c := by
  simpa using List.find?_some h

theorem JavaType.readable_primitive {kind : Primitive} {allowVoid : Bool}
    (h : ¬ (kind = .void ∧ (!allowVoid) = true)) (room : Nat) :
    (JavaType.primitive kind [] : JavaType α).Readable (.reading allowVoid) (room + 1) where
  wellFormed := by
    refine ⟨?_, trivial⟩
    cases allowVoid <;> simp_all [TypePlace.reading, TypePlace.admits]
  levels_le := Nat.le_add_left 1 room
  bare_eq := rfl

/-- **Soundness of types.** By induction on the levels that are left, since every rule reads the
    types inside with one level less. -/
theorem JavaType.givesTypes_readAt (room : Nat) (allowVoid : Bool) (depth : Nat) :
    GivesTypes (JavaType.readAt room allowVoid : Reader (JavaType α)) (.reading allowVoid) room
      depth := by
  induction room generalizing allowVoid depth with
  | zero =>
    intro start value stop hdepth hread
    exact absurd hread tooDeep_ne_ok
  | succ room ih =>
    rw [readAt_succ]
    refine accounts_nested ?_
    intro start value stop hdepth hread
    obtain ⟨byte, _, hpeek, hread⟩ := bind_eq_ok.mp hread
    obtain ⟨hhead, rfl⟩ := peek_eq_ok.mp hpeek
    have htype := ih false (depth + 1)
    -- By the first byte: a class type, a type variable, an array or a primitive type.
    split at hread
    · obtain ⟨segments, _, hsegments, hread⟩ := bind_eq_ok.mp hread
      obtain ⟨rfl, rfl⟩ := pure_eq_ok.mp hread
      obtain ⟨hpass, hne, hreadable⟩ := ClassType.accounts_readWith htype hdepth hsegments
      exact ⟨hpass, hreadable.ofClass hne _⟩
    split at hread
    · obtain ⟨hpass, hreadable⟩ := accounts_readTypeVariable room (depth + 1) hdepth hread
      exact ⟨hpass, hreadable _⟩
    split at hread
    · rename_i hbracket
      obtain ⟨count, middle, hcount, hread⟩ := bind_eq_ok.mp hread
      obtain ⟨element, _, helement, hread⟩ := bind_eq_ok.mp hread
      obtain ⟨rfl, rfl⟩ := pure_eq_ok.mp hread
      obtain ⟨hpass, next, hnext, hother⟩ := accounts_readBrackets (depth + 1) hdepth hcount
      obtain ⟨hpassed, hreadable⟩ := htype (hpass.depth_eq.trans hdepth) helement
      -- The brackets went on to a byte that is none, and with it the element begins.
      have hmark : element.mark ≠ '[' := by
        have hfirst := hpassed.head?_eq hnext hreadable.ne_nil
        rw [head?_encode hreadable.wellFormed.2, Option.some.injEq] at hfirst
        rwa [← hfirst, latin1_mark] at hother
      -- Without brackets this byte would be the first one, which is a bracket.
      have hsome : count ≠ 0 := by
        rintro rfl
        have hrest : start.rest = middle.rest := hpass.rest_eq
        rw [hrest, hnext, Option.some.injEq] at hhead
        exact hother (hhead ▸ hbracket)
      refine ⟨?_, JavaType.Readable.reading (hreadable.arrayOf hmark hsome) _⟩
      show start.Passes (Text.utf8 (JavaType.arrayOf element count).encode) _
      rw [arrayOf, encode, Text.utf8_append, Text.utf8_replicate (by decide), List.length_replicate]
      exact hpass.trans hpassed
    cases hkind : Primitive.ofDescriptor? (Text.latin1 byte) with
    | none =>
      rw [hkind] at hread
      exact absurd hread bind_malformed_ne_ok
    | some kind =>
      rw [hkind] at hread
      dsimp only at hread
      split at hread
      · exact absurd hread bind_malformed_ne_ok
      · rename_i hallowed
        obtain ⟨_, _, hskip, hread⟩ := bind_eq_ok.mp hread
        obtain ⟨rfl, rfl⟩ := pure_eq_ok.mp hread
        have hpass := passes_of_skip_one hhead hskip
        have hdescriptor := Primitive.descriptor_of_ofDescriptor? hkind
        rw [Text.eq_of_latin1 hdescriptor.symm] at hpass
        refine ⟨?_, readable_primitive hallowed room⟩
        show start.Passes (Text.utf8 kind.descriptor.toString) _
        rw [Text.utf8_toString kind.descriptor_ascii]
        exact hpass

theorem JavaType.givesTypes_read (allowVoid : Bool) :
    GivesTypes (JavaType.read allowVoid : Reader (JavaType α)) (.reading allowVoid)
      (nestingLimit - 1) 0 := by
  intro start type stop hdepth hread
  obtain ⟨room, _, hroom, hread⟩ := bind_eq_ok.mp hread
  obtain ⟨hleft, rfl⟩ := EStateM.Result.ok.inj hroom
  rw [hdepth, Nat.sub_zero] at hleft
  subst hleft
  exact JavaType.givesTypes_readAt _ allowVoid 0 hdepth hread

theorem ClassType.accounts_read :
    Accounts (ClassType.read : Reader (ClassType α)) 0
      (fun segments => Text.utf8 (ClassType.encode segments))
      fun segments _ =>
        segments ≠ [] ∧ SegmentsReadable outermostEnds (nestingLimit - 1) segments :=
  ClassType.accounts_readWith (JavaType.givesTypes_read false)

end ClassAtlas
