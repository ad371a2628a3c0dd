import ClassAtlas.Proofs.Annotations.Layout
import ClassAtlas.Proofs.Annotations.Occurrences
import ClassAtlas.Proofs.ClassFile.Layout
import ClassAtlas.Proofs.Text.Order

namespace ClassAtlas

/-!
# The classes a class refers to

A decoded class lists the classes that its constant pool, its types and its annotations mention, in
the order of their bytes, each once and without itself.

* `mem_sortedWithout`, `pairwise_sortedWithout` — names in order;
* `Pool.StandsFor`, `Pool.Mentions` — the class that the name of a class entry stands for;
* `FieldDecl.Mentions`, `MethodDecl.Mentions`, `ClassDecl.Mentions` — the types and annotations of a
  class and of its members;
* `referenced_of_decode` — what is listed.
-/

/-! ### Names in order -/

/-- What is collected already stands in front. -/
theorem eraseReps_loop (first : String) (rest collected : List String) :
    List.eraseRepsBy.loop (· == ·) first rest collected
      = collected.reverse ++ (first :: rest).eraseReps := by
  induction rest generalizing first collected with
  | nil => simp [List.eraseReps, List.eraseRepsBy, List.eraseRepsBy.loop]
  | cons second rest ih =>
    -- The next name is passed over or collected, on both sides alike.
    rw [List.eraseReps, List.eraseRepsBy, List.eraseRepsBy.loop, List.eraseRepsBy.loop]
    cases first == second <;> simp [ih]

/-- A name that is repeated is left out. -/
theorem eraseReps_cons_cons (first second : String) (rest : List String) :
    (first :: second :: rest).eraseReps
      = if first = second then (second :: rest).eraseReps
        else first :: (second :: rest).eraseReps := by
  rw [List.eraseReps, List.eraseRepsBy, List.eraseRepsBy.loop]
  by_cases hsame : first = second
  · rw [if_pos hsame, hsame, beq_self_eq_true]
    exact eraseReps_loop second rest []
  · rw [if_neg hsame, beq_eq_false_iff_ne.mpr hsame]
    exact eraseReps_loop second rest [first]

theorem mem_eraseReps {name : String} {names : List String} :
    name ∈ names.eraseReps ↔ name ∈ names := by
  cases names with
  | nil => rfl
  | cons first rest =>
    induction rest generalizing first with
    | nil => rfl
    | cons second rest ih =>
      rw [eraseReps_cons_cons]
      split
      · rename_i hsame
        rw [ih, hsame, List.mem_cons (b := second)]
        simp
      · rw [List.mem_cons, ih, List.mem_cons (b := first)]

/-- Of names in order it leaves each one once. -/
theorem pairwise_eraseReps {names : List String} (h : names.Pairwise (· ≤ ·)) :
    names.eraseReps.Pairwise (· < ·) := by
  cases names with
  | nil => exact .nil
  | cons first rest =>
    induction rest generalizing first with
    | nil => exact List.pairwise_singleton ..
    | cons second rest ih =>
      obtain ⟨hfirst, hrest⟩ := List.pairwise_cons.mp h
      rw [eraseReps_cons_cons]
      split
      · exact ih second hrest
      · rename_i hne
        refine List.pairwise_cons.mpr ⟨fun name hname => ?_, ih second hrest⟩
        -- The second name is larger than the first, and no later one is smaller than it.
        have hlt : first < second := lt_of_le_of_ne (hfirst second List.mem_cons_self) hne
        rw [mem_eraseReps, List.mem_cons] at hname
        obtain rfl | hlater := hname
        · exact hlt
        · exact hlt.trans_le ((List.pairwise_cons.mp hrest).1 name hlater)

theorem mem_sortedWithout {self name : String} {names : List String} :
    name ∈ sortedWithout self names ↔ name ∈ names ∧ name ≠ self := by
  rw [sortedWithout, List.mem_filter, mem_eraseReps, List.mem_mergeSort, decide_eq_true_eq]

theorem pairwise_sortedWithout (self : String) (names : List String) :
    (sortedWithout self names).Pairwise (· < ·) := by
  have hsorted : (names.mergeSort fun a b => decide (a ≤ b)).Pairwise
      fun a b => decide (a ≤ b) = true :=
    List.pairwise_mergeSort (by simpa using fun _ _ _ => le_trans) (by simpa using le_total) names
  simp only [decide_eq_true_eq] at hsorted
  exact (pairwise_eraseReps hsorted).filter _

/-! ### In the constant pool -/

/-- The class that the name of a class entry stands for: one that is not an array for itself, an
    array of a class for this class.  An array of anything else stands for none. -/
inductive Pool.StandsFor : (text name : String) → Prop
  | itself {text : String} (h : text.toList.head? ≠ some '[') : StandsFor text (Text.dotted text)
  | element (internal : String) (dimensions : Nat) :
      StandsFor (String.ofList (List.replicate (dimensions + 1) '[') ++ ("L" ++ internal ++ ";"))
        (Text.dotted internal)

/-- A class entry whose name is a text stands for the class. -/
def Pool.Mentions (pool : Pool) (name : String) : Prop :=
  ∃ index text, .classRef index ∈ pool.entries ∧ pool.Holds index (.utf8 text)
    ∧ Pool.StandsFor text name

/-- Only brackets are dropped from the front of a text, and all of them. -/
theorem exists_replicate_append (characters : List Char) :
    ∃ dimensions, characters = List.replicate dimensions '[' ++ characters.dropWhile (· = '[')
      ∧ (characters.dropWhile (· = '[')).head? ≠ some '[' := by
  refine ⟨(characters.takeWhile (· = '[')).length, ?_, fun hhead => ?_⟩
  · have hbrackets : characters.takeWhile (· = '[') = List.replicate _ '[' :=
      List.eq_replicate_of_mem fun c hc => by simpa using List.mem_takeWhile_imp hc
    rw [← hbrackets, List.takeWhile_append_dropWhile]
  · have hother := List.head?_dropWhile_not (· = '[') characters
    rw [hhead] at hother
    exact absurd rfl (of_decide_eq_false hother)

theorem dropWhile_replicate_append (dimensions : Nat) (internal : String) :
    (String.ofList (List.replicate dimensions '[') ++ ("L" ++ internal ++ ";")).toList.dropWhile
        (· = '[') = ("L" ++ internal ++ ";").toList := by
  have hbrackets : ∀ c ∈ List.replicate dimensions '[', decide (c = '[') = true :=
    fun c hc => decide_eq_true (List.eq_of_mem_replicate hc)
  have hmark : ("L" ++ internal ++ ";").toList = 'L' :: (internal.toList ++ [';']) := by
    rw [String.toList_append, String.toList_append]
    rfl
  rw [String.toList_append, String.toList_ofList, List.dropWhile_append_of_pos hbrackets, hmark,
    List.dropWhile_cons_of_neg (by decide)]

theorem Pool.mentionedClass?_eq_some {text name : String} :
    mentionedClass? text = some name ↔ StandsFor text name := by
  obtain ⟨dimensions, htext, hhead⟩ := exists_replicate_append text.toList
  unfold mentionedClass?
  dsimp only
  generalize hdrop : text.toList.dropWhile (· = '[') = rest at htext hhead ⊢
  cases dimensions with
  | zero =>
    -- Nothing was dropped.
    rw [List.replicate_zero, List.nil_append] at htext
    rw [if_pos (by rw [htext]), Option.some_inj]
    constructor
    · rintro rfl
      exact .itself (htext ▸ hhead)
    · rintro (⟨-⟩ | ⟨internal, dimensions⟩)
      · rfl
      · rw [← htext, String.toList_append, String.toList_ofList, List.replicate_succ] at hhead
        exact absurd rfl hhead
  | succ dimensions =>
    -- Some brackets were, and what is left has to be the descriptor of a class.
    have hlonger : rest.length ≠ text.toList.length := by
      rw [htext, List.length_append, List.length_replicate]
      omega
    obtain ⟨element, rfl⟩ : ∃ element : String, element.toList = rest :=
      ⟨String.ofList rest, String.toList_ofList⟩
    rw [if_neg hlonger, Option.map_eq_some_iff]
    simp only [describedClass?_eq_some]
    constructor
    · rintro ⟨internal, rfl, rfl⟩
      have hwhole : text = String.ofList (List.replicate (dimensions + 1) '[')
          ++ ("L" ++ internal ++ ";") := by
        rw [← String.toList_inj, htext, String.toList_append (t := "L" ++ internal ++ ";"),
          String.toList_ofList]
      rw [hwhole]
      exact .element internal dimensions
    · rintro (h | ⟨internal, more⟩)
      · rw [htext, List.replicate_succ] at h
        exact absurd rfl h
      · rw [dropWhile_replicate_append, String.toList_inj] at hdrop
        exact ⟨internal, hdrop.symm, rfl⟩

theorem Pool.mem_classNames_iff {pool : Pool} {name : String} :
    name ∈ pool.classNames ↔ pool.Mentions name := by
  rw [classNames, List.mem_filterMap]
  simp only [Array.mem_toList_iff]
  constructor
  · rintro ⟨entry, hentry, hname⟩
    split at hname
    · rename_i index
      split at hname
      · rename_i text htext
        exact ⟨index, text, hentry, utf8_eq_ok.mp htext, mentionedClass?_eq_some.mp hname⟩
      · cases hname
    · cases hname
  · rintro ⟨index, text, hentry, htext, hstands⟩
    refine ⟨.classRef index, hentry, ?_⟩
    dsimp only
    rw [utf8_eq_ok.mpr htext]
    exact mentionedClass?_eq_some.mpr hstands

/-! ### In a class -/

variable {name : String}

/-- The type of the field mentions the class, or an annotation on the field does. -/
def FieldDecl.Mentions (field : FieldDecl) (name : String) : Prop :=
  field.type.Mentions name ∨ ∃ note ∈ field.annotations, note.Mentions name

/-- A type of the method mentions the class, or an annotation on the method or on a parameter. -/
def MethodDecl.Mentions (method : MethodDecl) (name : String) : Prop :=
  (∃ type ∈ method.signature.types, type.Mentions name)
    ∨ ∃ note ∈ method.annotations ++ method.parameterAnnotations.flatten, note.Mentions name

/-- A type in the signature mentions the class, or an annotation on this class, or a member. -/
def ClassDecl.Mentions (decl : ClassDecl) (name : String) : Prop :=
  (∃ signature, decl.signature = some signature ∧ ∃ type ∈ signature.types, type.Mentions name)
    ∨ (∃ note ∈ decl.annotations, note.Mentions name)
    ∨ (∃ field ∈ decl.fields, field.Mentions name)
    ∨ ∃ method ∈ decl.methods, method.Mentions name

theorem mem_flatMap_noteNames_iff {notes : List AnnotationUse} :
    name ∈ notes.flatMap (·.classNames) ↔ ∃ note ∈ notes, note.Mentions name := by
  simp only [List.mem_flatMap, AnnotationUse.mem_classNames_iff]

theorem FieldDecl.mem_classNames_iff {field : FieldDecl} :
    name ∈ field.classNames ↔ field.Mentions name := by
  rw [classNames, List.mem_append, field.type.mem_classNames_iff, mem_flatMap_noteNames_iff]
  rfl

theorem MethodDecl.mem_classNames_iff {method : MethodDecl} :
    name ∈ method.classNames ↔ method.Mentions name := by
  rw [classNames, List.mem_append, method.signature.mem_classNames_iff, mem_flatMap_noteNames_iff]
  rfl

theorem mem_signatureNames_iff {signature : Option (ClassSignature AnnotationUse)} :
    name ∈ (signature.map (·.classNames)).getD []
      ↔ ∃ known, signature = some known ∧ ∃ type ∈ known.types, type.Mentions name := by
  cases signature with
  | none => simp
  | some signature => simp [ClassSignature.mem_classNames_iff]

/-- What is listed of a class is what its pool and the class itself mention. -/
theorem ClassRecord.referenced_of_decl_eq_ok {pool : Pool} {options : DecodeOptions}
    {origin : Origin} {version : FileVersion} {record : ClassRecord} {result : ClassDecl}
    (h : record.decl pool options origin version = .ok result) :
    ∃ names, result.referenced = sortedWithout result.name names
      ∧ ∀ name, name ∈ names ↔ pool.Mentions name ∨ result.Mentions name := by
  obtain ⟨_, _, _, fields, _, _, attributes, methods, signature, -, -, -, -, -, -, -, -, -, rfl⟩ :=
    record.exists_ofParts_of_decl_eq_ok h
  refine ⟨_, rfl, fun name => ?_⟩
  simp only [List.mem_append, Pool.mem_classNames_iff, mem_signatureNames_iff,
    mem_flatMap_noteNames_iff, List.mem_flatMap (f := FieldDecl.classNames),
    List.mem_flatMap (f := MethodDecl.classNames), FieldDecl.mem_classNames_iff,
    MethodDecl.mem_classNames_iff, or_assoc]
  rfl

/-- **Referenced classes.** What a decoded class lists stands in the order of the bytes, each name
    once, and does not contain the class itself.  Any other class is listed iff the constant pool
    mentions it, or a type of the class, of a field or of a method, or an annotation on one of these
    or on a parameter. -/
theorem referenced_of_decode {decoder : Decoder} {origin : Origin} {data : List UInt8}
    {options : DecodeOptions} {result : ClassDecl}
    (h : (decoder.decode origin data options).2 = .ok result) :
    result.referenced.Pairwise (fun name other => Text.utf8 name < Text.utf8 other)
    ∧ result.name ∉ result.referenced
    ∧ (∃ file : ClassFile, file.encode = data)
    ∧ ∀ file : ClassFile, file.encode = data → ∀ name, name ≠ result.name →
      (name ∈ result.referenced ↔ file.constants.pool.Mentions name ∨ result.Mentions name) := by
  obtain ⟨file, rfl, hfile⟩ := Decoder.decode_eq_ok_iff.mp h
  unfold ClassFile.decl at hfile
  split at hfile
  case isFalse => cases hfile
  obtain ⟨names, hreferenced, hnames⟩ := ClassRecord.referenced_of_decl_eq_ok hfile
  rw [hreferenced]
  refine ⟨?_, fun hself => (mem_sortedWithout.mp hself).2 rfl, ⟨file, rfl⟩, ?_⟩
  · exact (pairwise_sortedWithout _ _).imp fun hlt => Text.utf8_lt_utf8_iff.mpr hlt
  · intro other hother name hne
    -- There is only one class file with these bytes.
    obtain rfl := ClassFile.encode_injective hother
    rw [mem_sortedWithout, and_iff_left hne, hnames]

/-! ### A field with a generic type -/

/-- The names of `genericFieldFile`, one of them that of an array. -/
def genericFieldPool : Pool :=
  ⟨#[.reserved, .utf8 "A", .classRef 1, .utf8 "[[Lp/B;", .classRef 3, .utf8 "f", .utf8 "Lq/O$I;",
    .utf8 "Signature", .utf8 "Lq/O<Lq/C;>.I;"]⟩

/-- They as they stand in it. -/
def genericFieldPoolBytes : List UInt8 :=
  [0, 9, 1, 0, 1, 65, 7, 0, 1, 1, 0, 7, 91, 91, 76, 112, 47, 66, 59, 7, 0, 3, 1, 0, 1, 102, 1, 0, 7,
    76, 113, 47, 79, 36, 73, 59, 1, 0, 9, 83, 105, 103, 110, 97, 116, 117, 114, 101, 1, 0, 14, 76,
    113, 47, 79, 60, 76, 113, 47, 67, 59, 62, 46, 73, 59]

theorem takes_genericFieldPoolBytes : Pool.read.Takes genericFieldPoolBytes genericFieldPool := by
  have hread : Pool.read (.ofBytes genericFieldPoolBytes)
      = .ok genericFieldPool ⟨[], genericFieldPoolBytes.length, 0⟩ := by cbv
  exact Pool.takes_of_read hread

/-- Its field, whose type has an argument of the outer class. -/
def genericField : FieldDecl where
  name := "f"
  modifiers := .ofBits 0
  descriptor := "Lq/O$I;"
  type := .ofClass [⟨"q.O", [.ofClass (ClassType.ofName "q.C")], []⟩, ⟨"I", [], []⟩]
  isGeneric := true
  annotations := []
  constant := none

/-- The field as it stands in the file. -/
def genericFieldRecord : MemberRecord := ⟨0, 5, 6, ⟨[⟨7, [0, 8], by decide⟩], by decide⟩⟩

/-- A class that is its own superclass, with a field of a generic type. -/
def genericFieldFile : ClassFile where
  minor := 0
  major := 52
  constants := ⟨_, _, takes_genericFieldPoolBytes⟩
  content := {
    flags := 0x21
    name := 2
    superclass := 2
    interfaces := .empty
    fields := ⟨[genericFieldRecord], by decide⟩
    methods := .empty
    attributes := .empty }

theorem field_genericFieldRecord :
    genericFieldRecord.field genericFieldPool {} = .ok genericField := by
  cbv

/-- What it means. -/
def genericFieldDecl : ClassDecl :=
  .ofParts genericFieldPool ⟨"A.class", 0⟩ ⟨52, 0⟩ (.ofBits 0x21) "A" (some "A") [] [genericField]
    {} [] none

theorem decl_genericFieldFile :
    genericFieldFile.decl ⟨"A.class", 0⟩ {} = .ok genericFieldDecl := by
  have hfields : [genericFieldRecord].mapM (·.field genericFieldPool {})
      = .ok [genericField] := by
    rw [List.mapM_cons, field_genericFieldRecord]
    rfl
  exact except_bind_eq_ok.mpr ⟨"A", rfl, except_bind_eq_ok.mpr ⟨some "A", rfl,
    except_bind_eq_ok.mpr ⟨[], rfl, except_bind_eq_ok.mpr ⟨_, hfields, rfl⟩⟩⟩⟩

/-- It lists the element class of the array, the class of the field and the argument in its outer
    class. -/
theorem referenced_of_decode_genericField :
    (Decoder.new.decode ⟨"A.class", 0⟩ genericFieldFile.encode {}).2 = .ok genericFieldDecl
      ∧ "p.B" ∈ genericFieldDecl.referenced
      ∧ "q.O$I" ∈ genericFieldDecl.referenced
      ∧ "q.C" ∈ genericFieldDecl.referenced := by
  have hdecode : (Decoder.new.decode ⟨"A.class", 0⟩ genericFieldFile.encode {}).2
      = .ok genericFieldDecl := Decoder.decode_encode_eq_ok_iff.mpr decl_genericFieldFile
  have hlisted := (referenced_of_decode hdecode).2.2.2 genericFieldFile rfl
  have hfield : ∀ name, genericField.type.Mentions name → genericFieldDecl.Mentions name :=
    fun name h => .inr (.inr (.inl ⟨genericField, List.mem_singleton.mpr rfl, .inl h⟩))
  refine ⟨hdecode, (hlisted _ (by decide)).mpr (.inl ?_), (hlisted _ (by decide)).mpr (.inr ?_),
    (hlisted _ (by decide)).mpr (.inr ?_)⟩
  · exact ⟨3, "[[Lp/B;", Array.mem_of_getElem? (i := 4) rfl, rfl, .element "p/B" 1⟩
  · exact hfield _ (genericField.type.mem_classNames_iff.mp (by decide))
  · exact hfield _ (genericField.type.mem_classNames_iff.mp (by decide))

end ClassAtlas
