import ClassAtlas.Proofs.Signature.SegmentNames

namespace ClassAtlas

/-!
# Where a path leads

An annotation attached along a path comes last at the node that the path leads to, and nothing else
of the type changes but that classes on the way may be split into those they stand for.

* `TypePath.replicate_leading_append` — a path by its leading steps;
* `ClassSegment.StandsFor` — the classes that one class stands for;
* `JavaType.SplitAlong` — a type after classes on a path were split;
* `JavaType.AnnotatedAt` — a type with one annotation more where a path leads to;
* `ClassType.attach_cases` — all that attaching to a class type can come to;
* `JavaType.exists_splitAlong` — attaching splits and annotates, or it splits and is refused;
* `JavaType.marks`, `JavaType.lists` — what a type is besides its annotations, and their lists;
* `JavaType.attach_follows` — all of it for a type and a path.
-/

variable {α : Type}

/-! ### Paths by their leading steps -/

namespace TypePath

variable {step : PathStep} {count : Nat}

theorem takeWhile_eq_replicate (step : PathStep) (path : TypePath) :
    path.takeWhile (· = step) = List.replicate (path.leading step) step :=
  List.eq_replicate_of_mem fun _ hstep => by simpa using List.mem_takeWhile_imp hstep

/-- A path is its leading steps of one sort and the others. -/
theorem replicate_leading_append (step : PathStep) (path : TypePath) :
    List.replicate (path.leading step) step ++ path.drop (path.leading step) = path := by
  rw [← takeWhile_eq_replicate]
  exact (List.prefix_iff_eq_append.mp (List.takeWhile_prefix _)).symm ▸ rfl

/-- So are fewer of the leading steps and the others. -/
theorem replicate_append_drop {path : TypePath} (h : count ≤ path.leading step) :
    List.replicate count step ++ path.drop count = path := by
  have htake : path.take count = List.replicate count step := by
    rw [← replicate_leading_append step path, List.take_append_of_le_length (by simpa using h),
      List.take_replicate, Nat.min_eq_left h]
  rw [← htake, List.take_append_drop]

end TypePath

/-! ### The classes that one class stands for -/

/-- The class falls into others where a dollar sign is in its name behind the package.  The first
    one keeps the annotations, the last one the arguments. -/
inductive ClassSegment.StandsFor (outermost : Bool) : ClassSegment α → ClassType α → Prop
  | one (segment : ClassSegment α) (hname : '$' ∉ ownName outermost segment.name.toList) :
    StandsFor outermost segment [segment]
  | more (segment : ClassSegment α) (first : List Char) (middle : List (List Char))
    (last : List Char)
    (hname : ownName outermost segment.name.toList
      = ['$'].intercalate (first :: (middle ++ [last])))
    (hparts : ∀ part ∈ first :: (middle ++ [last]), '$' ∉ part) :
    StandsFor outermost segment
      (⟨String.ofList (packagePrefix outermost segment.name.toList ++ first), [],
          segment.annotations⟩
        :: (middle.map (⟨String.ofList ·, [], []⟩)
          ++ [⟨String.ofList last, segment.arguments, []⟩]))

theorem intercalate_dollarParts (characters : List Char) :
    ['$'].intercalate (dollarParts characters) = characters := by
  induction characters with
  | nil => rfl
  | cons c rest ih =>
    by_cases hc : c = '$'
    · rw [hc, dollarParts, List.intercalate_cons_of_ne_nil (dollarParts_ne_nil rest), ih]
      rfl
    · obtain ⟨first, inner, hrest, hparts⟩ := dollarParts_cons_of_ne hc rest
      rw [hparts, List.intercalate_cons_cons_left, ← hrest, ih]

theorem dollar_notMem_of_mem_dollarParts {characters part : List Char}
    (h : part ∈ dollarParts characters) : '$' ∉ part :=
  fun hdollar => (mem_of_mem_dollarParts h hdollar).2 rfl

theorem argumentsOnLast_concat (arguments : List (JavaType α)) (names : List String)
    (last : String) : argumentsOnLast arguments (names ++ [last])
      = names.map (⟨·, [], []⟩) ++ [⟨last, arguments, []⟩] := by
  induction names with
  | nil => rfl
  | cons name names ih =>
    rw [List.cons_append, argumentsOnLast, ih]
    · rfl
    · simp

theorem ClassSegment.standsFor_split (outermost : Bool) (segment : ClassSegment α) :
    segment.StandsFor outermost (segment.split outermost) := by
  obtain ⟨first, inner, hparts, hnames⟩ := exists_nestedNames_eq outermost segment.name
  have hown := intercalate_dollarParts (ownName outermost segment.name.toList)
  rw [hparts] at hown
  have hfree : ∀ part ∈ first :: inner, '$' ∉ part := fun part hpart =>
    dollar_notMem_of_mem_dollarParts (hparts ▸ hpart)
  rw [split, hnames]
  rcases List.eq_nil_or_concat inner with rfl | ⟨middle, last, rfl⟩
  · rw [List.intercalate_singleton] at hown
    rw [hown, packagePrefix_append_ownName, String.ofList_toList, List.map_nil, argumentsOnLast]
    obtain ⟨name, arguments, annotations⟩ := segment
    exact .one _ (hown ▸ hfree first List.mem_cons_self)
  · rw [List.concat_eq_append] at hown hfree ⊢
    rw [List.map_append, List.map_singleton, ← List.cons_append, argumentsOnLast_concat,
      List.map_cons, List.map_map]
    exact StandsFor.more segment first middle last hown.symm hfree

/-! ### Along a path -/

/-- A type after classes that a path leads through were split, each only if the path steps to
    a class inside it that is not written. -/
inductive JavaType.SplitAlong : TypePath → JavaType α → JavaType α → Prop
  | nothing (path : TypePath) (type : JavaType α) : SplitAlong path type type
  | bound (side : BoundSide) (annotations : List α) {rest : TypePath} {bound bound' : JavaType α}
    (h : SplitAlong rest bound bound') :
    SplitAlong (.bound :: rest) (.bounded side bound annotations) (.bounded side bound' annotations)
  | element (dimensions : List (List α)) {rest : TypePath} {element element' : JavaType α}
    (h : SplitAlong rest element element') :
    SplitAlong (List.replicate dimensions.length .element ++ rest) (.array element dimensions)
      (.array element' dimensions)
  | split (outer : ClassType α) (innermost : ClassSegment α) (rest : TypePath)
    {parts : ClassType α} {type : JavaType α} (hparts : innermost.StandsFor outer.isEmpty parts)
    (h : SplitAlong (List.replicate (outer.length + 1) .nested ++ rest) (.ofClass (outer ++ parts))
      type) :
    SplitAlong (List.replicate (outer.length + 1) .nested ++ rest)
      (.ofClass (outer ++ [innermost])) type
  | argument (outer : ClassType α) (name : String) (before after : List (JavaType α))
    (annotations : List α) (inner : ClassType α) (index : UInt8) {rest : TypePath}
    {argument argument' : JavaType α} (hindex : before.length = index.toNat)
    (h : SplitAlong rest argument argument') :
    SplitAlong (List.replicate outer.length .nested ++ .argument index :: rest)
      (.ofClass (outer ++ ⟨name, before ++ argument :: after, annotations⟩ :: inner))
      (.ofClass (outer ++ ⟨name, before ++ argument' :: after, annotations⟩ :: inner))

/-- A type with one annotation more at the node that a path leads to.  The path steps through the
    dimensions of an array to its element, and through the classes of a class type to the argument
    of one of them. -/
inductive JavaType.AnnotatedAt (note : α) : TypePath → JavaType α → JavaType α → Prop
  | primitive (kind : Primitive) (annotations : List α) :
    AnnotatedAt note [] (.primitive kind annotations) (.primitive kind (annotations ++ [note]))
  | typeVariable (name : String) (annotations : List α) :
    AnnotatedAt note [] (.typeVariable name annotations)
      (.typeVariable name (annotations ++ [note]))
  | wildcard (annotations : List α) :
    AnnotatedAt note [] (.wildcard annotations) (.wildcard (annotations ++ [note]))
  | bounded (side : BoundSide) (bound : JavaType α) (annotations : List α) :
    AnnotatedAt note [] (.bounded side bound annotations)
      (.bounded side bound (annotations ++ [note]))
  | bound (side : BoundSide) (annotations : List α) {rest : TypePath} {bound bound' : JavaType α}
    (h : AnnotatedAt note rest bound bound') :
    AnnotatedAt note (.bound :: rest) (.bounded side bound annotations)
      (.bounded side bound' annotations)
  | dimension (element : JavaType α) (outer : List (List α)) (annotations : List α)
    (inner : List (List α)) :
    AnnotatedAt note (List.replicate outer.length .element)
      (.array element (outer ++ annotations :: inner))
      (.array element (outer ++ (annotations ++ [note]) :: inner))
  | element (dimensions : List (List α)) {rest : TypePath} {element element' : JavaType α}
    (h : AnnotatedAt note rest element element') :
    AnnotatedAt note (List.replicate dimensions.length .element ++ rest)
      (.array element dimensions) (.array element' dimensions)
  | segment (outer : ClassType α) (name : String) (arguments : List (JavaType α))
    (annotations : List α) (inner : ClassType α) :
    AnnotatedAt note (List.replicate outer.length .nested)
      (.ofClass (outer ++ ⟨name, arguments, annotations⟩ :: inner))
      (.ofClass (outer ++ ⟨name, arguments, annotations ++ [note]⟩ :: inner))
  | argument (outer : ClassType α) (name : String) (before after : List (JavaType α))
    (annotations : List α) (inner : ClassType α) (index : UInt8) {rest : TypePath}
    {argument argument' : JavaType α} (hindex : before.length = index.toNat)
    (h : AnnotatedAt note rest argument argument') :
    AnnotatedAt note (List.replicate outer.length .nested ++ .argument index :: rest)
      (.ofClass (outer ++ ⟨name, before ++ argument :: after, annotations⟩ :: inner))
      (.ofClass (outer ++ ⟨name, before ++ argument' :: after, annotations⟩ :: inner))

/-! ### Attaching to a class type -/

/-- The classes that a path with so many leading steps to nested classes leads into. -/
def ClassType.shapedFor (depth : Nat) (segments : ClassType α) : ClassType α :=
  if depth < segments.length then segments else segments.splitInnermost

theorem ClassType.shapedFor_of_lt {depth : Nat} {segments : ClassType α}
    (h : depth < segments.length) : segments.shapedFor depth = segments := if_pos h

theorem ClassType.shapedFor_concat {outer : ClassType α} {depth : Nat} (h : outer.length < depth)
    (innermost : ClassSegment α) :
    shapedFor depth (outer ++ [innermost]) = outer ++ innermost.split outer.isEmpty := by
  rw [shapedFor, if_neg (by simpa using h), splitInnermost_concat]

/-- What attaching to a class type comes to: the path ends at one of its classes, or leads on into
    an argument of one, or it leads nowhere. -/
inductive ClassType.AttachCases [ToString α] (note : α) (path : TypePath) (segments : ClassType α) :
    Edit (ClassType α) → Prop
  | segment (outer : ClassType α) (name : String) (arguments : List (JavaType α))
    (annotations : List α) (inner : ClassType α)
    (hpath : path = List.replicate outer.length .nested)
    (hshaped : segments.shapedFor outer.length
      = outer ++ ⟨name, arguments, annotations⟩ :: inner) :
    AttachCases note path segments
      (.done (outer ++ ⟨name, arguments, annotations ++ [note]⟩ :: inner))
  | argument (outer : ClassType α) (name : String) (before : List (JavaType α))
    (argument : JavaType α) (after : List (JavaType α)) (annotations : List α)
    (inner : ClassType α) (index : UInt8) (rest : TypePath)
    (hindex : before.length = index.toNat)
    (hpath : path = List.replicate outer.length .nested ++ .argument index :: rest)
    (hshaped : segments.shapedFor outer.length
      = outer ++ ⟨name, before ++ argument :: after, annotations⟩ :: inner) :
    AttachCases note path segments
      ((argument.attach note rest).map fun argument' =>
        outer ++ ⟨name, before ++ argument' :: after, annotations⟩ :: inner)
  | refused (cause : Malformation) :
    AttachCases note path segments (.refused (segments.shapedFor (path.leading .nested)) cause)

/-- An entry of a list, what stands before it and behind it, and what it is set to. -/
theorem exists_append_of_getElem? {β : Type} {items : List β} {index : Nat} {item : β}
    (h : items[index]? = some item) :
    ∃ before after, items = before ++ item :: after ∧ before.length = index
      ∧ ∀ item', items.set index item' = before ++ item' :: after := by
  obtain ⟨hindex, rfl⟩ := List.getElem?_eq_some_iff.mp h
  have hlength : (items.take index).length = index := by
    rw [List.length_take, Nat.min_eq_left (Nat.le_of_lt hindex)]
  refine ⟨items.take index, items.drop (index + 1), ?_, hlength, fun item' => ?_⟩
  · rw [List.getElem_cons_drop, List.take_append_drop]
  · exact List.set_eq_take_cons_drop item' hindex

theorem ClassType.attach_cases [ToString α] (note : α) (path : TypePath) (segments : ClassType α) :
    AttachCases note path segments (ClassType.attach note path segments) := by
  have hpath := path.replicate_leading_append .nested
  rw [ClassType.attach]
  rw [← shapedFor]
  split
  · exact .refused _
  · rename_i segment hsegment
    obtain ⟨outer, inner, hshaped, hlength, hset⟩ := exists_append_of_getElem? hsegment
    obtain ⟨name, arguments, annotations⟩ := segment
    simp only [hset]
    rw [← hlength] at hpath hshaped
    split
    · rename_i hentered
      rw [← hlength] at hentered
      rw [hentered, List.append_nil] at hpath
      exact .segment outer name arguments annotations inner hpath.symm hshaped
    · rename_i index rest hentered
      split
      · exact .refused _
      · rename_i argument hargument
        obtain ⟨before, after, harguments, hindex, hsetArgument⟩ :=
          exists_append_of_getElem? hargument
        rw [← hlength] at hentered
        rw [hentered] at hpath
        obtain rfl : arguments = before ++ argument :: after := harguments
        simp only [hsetArgument]
        exact .argument outer name before argument after annotations inner index rest hindex
          hpath.symm hshaped
    · exact .refused _

/-! ### Attaching splits and annotates -/

/-- The classes that a path leads into are those written, or the split ones. -/
theorem JavaType.SplitAlong.shaped {path : TypePath} {depth : Nat} {segments : ClassType α}
    {type : JavaType α} (rest : TypePath) (hpath : path = List.replicate depth .nested ++ rest)
    (h : SplitAlong path (.ofClass (segments.shapedFor depth)) type) :
    SplitAlong path (.ofClass segments) type := by
  by_cases hdepth : depth < segments.length
  · rwa [ClassType.shapedFor_of_lt hdepth] at h
  · rcases List.eq_nil_or_concat segments with rfl | ⟨outer, innermost, rfl⟩
    · -- There is no class to split.
      rwa [ClassType.shapedFor, if_neg hdepth] at h
    · rw [List.concat_eq_append] at h hdepth ⊢
      rw [List.length_append, List.length_singleton, Nat.not_lt] at hdepth
      rw [ClassType.shapedFor_concat hdepth] at h
      obtain ⟨deeper, rfl⟩ := Nat.exists_eq_add_of_le hdepth
      rw [List.replicate_add, List.append_assoc] at hpath
      subst hpath
      exact .split outer innermost _ (innermost.standsFor_split outer.isEmpty) h

/-- An edit has annotated a type where a path leads to, or it was refused and has left the type as
    it was. -/
def Edit.Annotates (note : α) (path : TypePath) (shaped : JavaType α) (edit : Edit (JavaType α)) :
    Prop :=
  match edit.refusal with
  | none => shaped.AnnotatedAt note path edit.tree
  | some _ => edit.tree = shaped

theorem Edit.Annotates.map {note : α} {path rest : TypePath} {shaped : JavaType α}
    {edit : Edit (JavaType α)} (h : edit.Annotates note rest shaped)
    (whole : JavaType α → JavaType α)
    (hwhole : ∀ tree, shaped.AnnotatedAt note rest tree →
      (whole shaped).AnnotatedAt note path (whole tree)) :
    (edit.map whole).Annotates note path (whole shaped) := by
  unfold Annotates at h ⊢
  rw [Edit.map]
  dsimp only
  split at h
  · exact hwhole _ h
  · exact congrArg whole h

section Attaching

variable [ToString α]

/-- In a class type, if it is so in the arguments of its classes. -/
theorem ClassType.exists_splitAlong (note : α) {path : TypePath} (segments : ClassType α)
    (harguments : ∀ (rest : TypePath) (argument : JavaType α), rest.length < path.length →
      ∃ shaped, argument.SplitAlong rest shaped
        ∧ (argument.attach note rest).Annotates note rest shaped) :
    ∃ shaped, (JavaType.ofClass segments).SplitAlong path shaped
      ∧ ((ClassType.attach note path segments).map .ofClass).Annotates note path shaped := by
  have hcases := segments.attach_cases note path
  generalize ClassType.attach note path segments = edit at hcases ⊢
  cases hcases with
  | segment outer name arguments annotations inner hpath hshaped =>
    refine ⟨_, .shaped [] (hpath.trans (List.append_nil _).symm) (.nothing path _), ?_⟩
    rw [hshaped, hpath]
    exact JavaType.AnnotatedAt.segment outer name arguments annotations inner
  | argument outer name before argument after annotations inner index rest hindex hpath hshaped =>
    have hshorter : rest.length < path.length := by
      rw [hpath, List.length_append, List.length_cons]
      omega
    obtain ⟨shaped, hsplit, hannotates⟩ := harguments rest argument hshorter
    refine ⟨.ofClass (outer ++ ⟨name, before ++ shaped :: after, annotations⟩ :: inner), ?_, ?_⟩
    · refine .shaped _ hpath ?_
      rw [hshaped, hpath]
      exact .argument outer name before after annotations inner index hindex hsplit
    · rw [hpath]
      exact hannotates.map
        (fun tree => .ofClass (outer ++ ⟨name, before ++ tree :: after, annotations⟩ :: inner))
        fun tree htree => .argument outer name before after annotations inner index hindex htree
  | refused cause =>
    exact ⟨_, .shaped _ (path.replicate_leading_append .nested).symm (.nothing path _), rfl⟩

/-- In an array, if it is so in its element. -/
theorem JavaType.exists_splitAlong_array (note : α) {path : TypePath} (element : JavaType α)
    (dimensions : List (List α))
    (helement : ∃ shaped, element.SplitAlong (path.drop dimensions.length) shaped
      ∧ (element.attach note (path.drop dimensions.length)).Annotates note
        (path.drop dimensions.length) shaped) :
    ∃ shaped, (JavaType.array element dimensions).SplitAlong path shaped
      ∧ ((JavaType.array element dimensions).attach note path).Annotates note path shaped := by
  rw [JavaType.attach]
  split
  · rename_i hinside
    refine ⟨_, .nothing path _, ?_⟩
    split
    · rename_i hentered
      obtain ⟨outer, annotations, inner, hdimensions, hlength, hmodify⟩ :=
        List.exists_of_modify (· ++ [note]) hinside
      have hpath := path.replicate_leading_append .element
      rw [hentered, List.drop_length, List.append_nil, ← hentered, ← hlength] at hpath
      rw [hmodify, hdimensions, ← hpath]
      exact AnnotatedAt.dimension element outer annotations inner
    · exact rfl
  · rename_i hbeyond
    obtain ⟨shaped, hsplit, hannotates⟩ := helement
    have hpath := TypePath.replicate_append_drop (Nat.not_lt.mp hbeyond)
    have hsplit' := SplitAlong.element dimensions hsplit
    have hannotates' := hannotates.map (.array · dimensions) fun tree htree =>
      AnnotatedAt.element dimensions htree
    rw [hpath] at hsplit' hannotates'
    exact ⟨_, hsplit', hannotates'⟩

/-- **Attaching follows the path.** It splits classes on its way, and then annotates the node at the
    end or is refused. -/
theorem JavaType.exists_splitAlong (note : α) (path : TypePath) (type : JavaType α) :
    ∃ shaped, type.SplitAlong path shaped
      ∧ (type.attach note path).Annotates note path shaped := by
  cases type with
  | primitive kind annotations =>
    refine ⟨_, .nothing path _, ?_⟩
    rw [JavaType.attach]
    split
    · rename_i hempty
      rw [List.isEmpty_iff.mp hempty]
      exact AnnotatedAt.primitive kind annotations
    · exact rfl
  | typeVariable name annotations =>
    refine ⟨_, .nothing path _, ?_⟩
    rw [JavaType.attach]
    split
    · rename_i hempty
      rw [List.isEmpty_iff.mp hempty]
      exact AnnotatedAt.typeVariable name annotations
    · exact rfl
  | ofClass segments =>
    rw [JavaType.attach]
    exact ClassType.exists_splitAlong note segments fun rest argument hshorter =>
      JavaType.exists_splitAlong note rest argument
  | array element dimensions =>
    exact exists_splitAlong_array note element dimensions
      (JavaType.exists_splitAlong note (path.drop dimensions.length) element)
  | wildcard annotations =>
    refine ⟨_, .nothing path _, ?_⟩
    rw [JavaType.attach.eq_def]
    dsimp only
    split
    · exact AnnotatedAt.wildcard annotations
    · exact rfl
    · exact rfl
  | bounded side bound annotations =>
    rw [JavaType.attach.eq_def]
    dsimp only
    split
    · exact ⟨_, .nothing [] _, AnnotatedAt.bounded side bound annotations⟩
    · rename_i rest
      obtain ⟨shaped, hsplit, hannotates⟩ := JavaType.exists_splitAlong note rest bound
      exact ⟨_, .bound side annotations hsplit, hannotates.map (.bounded side · annotations)
        fun tree htree => .bound side annotations htree⟩
    · exact ⟨_, .nothing path _, rfl⟩
termination_by (path.length, sizeOf type)
decreasing_by
  · exact Prod.Lex.left _ _ hshorter
  · exact Prod.Lex.right' _ (by simp) (by simp only [JavaType.array.sizeOf_spec]; omega)
  · rename_i hpath
    exact Prod.Lex.left _ _ (by simp [hpath])

end Attaching

/-! ### Besides the annotations -/

/-- What a type use is, besides a class type. -/
inductive TypeMark where
  | primitive (kind : Primitive)
  | array (dimensions : Nat)
  | typeVariable (name : String)
  | wildcard (side : Option BoundSide)
  deriving DecidableEq, Repr

mutual

/-- What the type and all types inside it are, from left to right, but for class types. -/
def JavaType.marks : JavaType α → List TypeMark
  | .primitive kind _ => [.primitive kind]
  | .ofClass segments => marksOfSegments segments
  | .array element dimensions => .array dimensions.length :: element.marks
  | .typeVariable name _ => [.typeVariable name]
  | .wildcard _ => [.wildcard none]
  | .bounded side bound _ => .wildcard (some side) :: bound.marks
termination_by structural type => type

/-- In the arguments of each class. -/
def marksOfSegments : List (ClassSegment α) → List TypeMark
  | [] => []
  | segment :: rest => segment.marksOfArguments ++ marksOfSegments rest
termination_by structural segments => segments

/-- In the arguments of one class. -/
def ClassSegment.marksOfArguments : ClassSegment α → List TypeMark
  | ⟨_, arguments, _⟩ => marksOfTypes arguments
termination_by structural segment => segment

/-- In each of the types. -/
def marksOfTypes : List (JavaType α) → List TypeMark
  | [] => []
  | type :: rest => type.marks ++ marksOfTypes rest
termination_by structural types => types

end

mutual

/-- The lists of annotations at all nodes of the type, from left to right. -/
def JavaType.lists : JavaType α → List (List α)
  | .primitive _ annotations => [annotations]
  | .ofClass segments => listsOfSegments segments
  | .array element dimensions => dimensions ++ element.lists
  | .typeVariable _ annotations => [annotations]
  | .wildcard annotations => [annotations]
  | .bounded _ bound annotations => annotations :: bound.lists
termination_by structural type => type

/-- At classes and in their arguments. -/
def listsOfSegments : List (ClassSegment α) → List (List α)
  | [] => []
  | segment :: rest => segment.lists ++ listsOfSegments rest
termination_by structural segments => segments

/-- At one class and in its arguments. -/
def ClassSegment.lists : ClassSegment α → List (List α)
  | ⟨_, arguments, annotations⟩ => annotations :: listsOfTypes arguments
termination_by structural segment => segment

/-- In each of the types. -/
def listsOfTypes : List (JavaType α) → List (List α)
  | [] => []
  | type :: rest => type.lists ++ listsOfTypes rest
termination_by structural types => types

end

section Lists

variable (types types' : List (JavaType α)) (segments segments' : List (ClassSegment α))

theorem classNamesOfTypes_append :
    classNamesOfTypes (types ++ types') = classNamesOfTypes types ++ classNamesOfTypes types' := by
  induction types with
  | nil => rfl
  | cons type rest ih =>
    rw [List.cons_append, classNamesOfTypes, ih, classNamesOfTypes, List.append_assoc]

/-- The names inside classes are those in all their arguments. -/
theorem argumentNamesOfSegments_eq :
    argumentNamesOfSegments segments = classNamesOfTypes (segments.flatMap (·.arguments)) := by
  induction segments with
  | nil => rfl
  | cons segment rest ih =>
    cases segment
    rw [argumentNamesOfSegments, ih, List.flatMap_cons, classNamesOfTypes_append, argumentNames]

theorem marksOfTypes_append :
    marksOfTypes (types ++ types') = marksOfTypes types ++ marksOfTypes types' := by
  induction types with
  | nil => rfl
  | cons type rest ih => rw [List.cons_append, marksOfTypes, ih, marksOfTypes, List.append_assoc]

theorem marksOfSegments_eq :
    marksOfSegments segments = marksOfTypes (segments.flatMap (·.arguments)) := by
  induction segments with
  | nil => rfl
  | cons segment rest ih =>
    cases segment
    rw [marksOfSegments, ih, List.flatMap_cons, marksOfTypes_append, ClassSegment.marksOfArguments]

theorem listsOfTypes_append :
    listsOfTypes (types ++ types') = listsOfTypes types ++ listsOfTypes types' := by
  induction types with
  | nil => rfl
  | cons type rest ih => rw [List.cons_append, listsOfTypes, ih, listsOfTypes, List.append_assoc]

theorem listsOfSegments_append : listsOfSegments (segments ++ segments')
    = listsOfSegments segments ++ listsOfSegments segments' := by
  induction segments with
  | nil => rfl
  | cons segment rest ih =>
    rw [List.cons_append, listsOfSegments, ih, listsOfSegments, List.append_assoc]

end Lists

/-! ### What a split keeps -/

namespace ClassSegment.StandsFor

variable {outermost : Bool} {segment : ClassSegment α} {parts : ClassType α}

/-- The classes have the name that the one class has. -/
theorem name_eq (h : segment.StandsFor outermost parts) : ClassType.name parts = segment.name := by
  cases h with
  | one hname => exact String.intercalate_singleton
  | more first middle last hname hparts =>
    have hjoined : String.ofList (ownName outermost segment.name.toList) = String.intercalate "$"
        (String.ofList first :: (middle.map String.ofList ++ [String.ofList last])) := by
      rw [hname, ← String.toList_inj, String.toList_intercalate]
      simp [Function.comp_def]
    have hwhole : segment.name = String.ofList (packagePrefix outermost segment.name.toList)
        ++ String.ofList (ownName outermost segment.name.toList) := by
      rw [← String.ofList_append, packagePrefix_append_ownName, String.ofList_toList]
    nth_rewrite 2 [hwhole]
    rw [hjoined, ← String.intercalate_cons_append, ← String.ofList_append]
    simp [ClassType.name, Function.comp_def]

/-- They have the arguments that it has. -/
theorem arguments_eq (h : segment.StandsFor outermost parts) :
    parts.flatMap (·.arguments) = segment.arguments := by
  cases h with
  | one hname => exact List.append_nil _
  | more first middle last hname hparts => simp

/-- They have the lists of annotations that the one class has, and empty ones. -/
theorem lists_eq (h : segment.StandsFor outermost parts) :
    ∃ count, listsOfSegments parts
      = segment.annotations :: (List.replicate count [] ++ listsOfTypes segment.arguments) := by
  cases h with
  | one hname =>
    obtain ⟨name, arguments, annotations⟩ := segment
    exact ⟨0, List.append_nil _⟩
  | more first middle last hname hparts =>
    obtain ⟨name, arguments, annotations⟩ := segment
    have hmiddle : listsOfSegments (α := α) (middle.map (⟨String.ofList ·, [], []⟩))
        = List.replicate middle.length [] := by
      clear hname hparts
      induction middle with
      | nil => rfl
      | cons part middle ih => exact congrArg ([] :: ·) ih
    refine ⟨middle.length + 1, ?_⟩
    rw [listsOfSegments, listsOfSegments_append, hmiddle, List.replicate_succ']
    simp [listsOfSegments, lists, listsOfTypes]

end ClassSegment.StandsFor

theorem ClassType.name_append_of_standsFor {outermost : Bool} {segment : ClassSegment α}
    {parts : ClassType α} (h : segment.StandsFor outermost parts) (outer : ClassType α) :
    ClassType.name (outer ++ parts) = ClassType.name (outer ++ [segment]) := by
  have hparts : parts ≠ [] := by cases h <;> simp
  have hsegment : ClassType.name [segment] = segment.name := String.intercalate_singleton
  by_cases houter : outer = []
  · rw [houter, List.nil_append, List.nil_append, h.name_eq, hsegment]
  · -- The names of the classes in front are joined to the same name.
    have hjoin : ∀ inner : ClassType α, inner ≠ [] →
        ClassType.name (outer ++ inner) = ClassType.name outer ++ "$" ++ ClassType.name inner := by
      intro inner hinner
      rw [ClassType.name, List.map_append,
        String.intercalate_append_of_ne_nil (by simpa using houter) (by simpa using hinner)]
      rfl
    rw [hjoin parts hparts, hjoin [segment] (List.cons_ne_nil _ _), h.name_eq, hsegment]

namespace JavaType

variable {path : TypePath} {type type' : JavaType α}

/-- A type in which classes were split has the same class names, -/
theorem SplitAlong.classNames_eq (h : SplitAlong path type type') :
    type'.classNames = type.classNames := by
  induction h with
  | nothing => rfl
  | bound side annotations h ih => exact ih
  | element dimensions h ih => exact ih
  | split outer innermost rest hparts h ih =>
    rw [ih, classNames, classNames, argumentNamesOfSegments_eq, argumentNamesOfSegments_eq,
      List.flatMap_append, List.flatMap_append, hparts.arguments_eq, List.flatMap_singleton,
      ClassType.name_append_of_standsFor hparts]
  | argument outer name before after annotations inner index hindex h ih =>
    simp only [classNames, ClassType.name, List.map_append, List.map_cons,
      argumentNamesOfSegments_eq, List.flatMap_append, List.flatMap_cons, classNamesOfTypes_append,
      classNamesOfTypes, ih]

/-- and everything else that is not an annotation. -/
theorem SplitAlong.marks_eq (h : SplitAlong path type type') : type'.marks = type.marks := by
  induction h with
  | nothing => rfl
  | bound side annotations h ih => exact congrArg (_ :: ·) ih
  | element dimensions h ih => exact congrArg (_ :: ·) ih
  | split outer innermost rest hparts h ih =>
    rw [ih, marks, marks, marksOfSegments_eq, marksOfSegments_eq, List.flatMap_append,
      List.flatMap_append, hparts.arguments_eq, List.flatMap_singleton]
  | argument outer name before after annotations inner index hindex h ih =>
    simp only [marks, marksOfSegments_eq, List.flatMap_append, List.flatMap_cons,
      marksOfTypes_append, marksOfTypes, ih]

/-- It has the same lists of annotations in the same order, with empty ones between them. -/
theorem SplitAlong.lists_sublist (h : SplitAlong path type type') :
    type.lists.Sublist type'.lists
      ∧ type'.lists.filter (!·.isEmpty) = type.lists.filter (!·.isEmpty) := by
  induction h with
  | nothing => exact ⟨.refl _, rfl⟩
  | bound side annotations h ih =>
    rw [lists, lists, List.filter_cons, List.filter_cons, ih.2]
    exact ⟨ih.1.cons_cons _, rfl⟩
  | element dimensions h ih =>
    rw [lists, lists, List.filter_append, List.filter_append, ih.2]
    exact ⟨.append_left ih.1 _, rfl⟩
  | split outer innermost rest hparts h ih =>
    obtain ⟨count, hlists⟩ := hparts.lists_eq
    obtain ⟨name, arguments, annotations⟩ := innermost
    have hsegment : (JavaType.ofClass (outer ++ [⟨name, arguments, annotations⟩])).lists
        = listsOfSegments outer ++ annotations :: listsOfTypes arguments := by
      rw [lists, listsOfSegments_append, listsOfSegments, listsOfSegments, List.append_nil,
        ClassSegment.lists]
    rw [lists, listsOfSegments_append, hlists] at ih
    rw [hsegment]
    constructor
    · exact .trans (.append_left (.cons_cons _ (List.sublist_append_right _ _)) _) ih.1
    · rw [ih.2]
      simp [List.filter_cons]
  | argument outer name before after annotations inner index hindex h ih =>
    simp only [lists, listsOfSegments_append, listsOfSegments, ClassSegment.lists,
      listsOfTypes_append, listsOfTypes, List.filter_append, List.filter_cons, ih.2]
    refine ⟨.append_left (.append_right (.cons_cons _ ?_) _) _, trivial⟩
    exact .append_left (.append_right ih.1 _) _

end JavaType

/-! ### What an annotation keeps -/

/-- One of the lists has one entry more, which is its last one. -/
def GrowsOnce (note : α) (lists lists' : List (List α)) : Prop :=
  ∃ before list after, lists = before ++ list :: after
    ∧ lists' = before ++ (list ++ [note]) :: after

theorem GrowsOnce.append {note : α} {lists lists' : List (List α)} (h : GrowsOnce note lists lists')
    (left right : List (List α)) :
    GrowsOnce note (left ++ lists ++ right) (left ++ lists' ++ right) := by
  obtain ⟨before, list, after, rfl, rfl⟩ := h
  exact ⟨left ++ before, list, after ++ right, by simp, by simp⟩

namespace JavaType

variable {note : α} {path : TypePath} {type type' : JavaType α}

theorem AnnotatedAt.classNames_eq (h : AnnotatedAt note path type type') :
    type'.classNames = type.classNames := by
  induction h with
  | bound side annotations h ih => exact ih
  | element dimensions h ih => exact ih
  | segment outer name arguments annotations inner =>
    simp only [classNames, ClassType.name, List.map_append, List.map_cons,
      argumentNamesOfSegments_eq, List.flatMap_append, List.flatMap_cons]
  | argument outer name before after annotations inner index hindex h ih =>
    simp only [classNames, ClassType.name, List.map_append, List.map_cons,
      argumentNamesOfSegments_eq, List.flatMap_append, List.flatMap_cons, classNamesOfTypes_append,
      classNamesOfTypes, ih]
  | _ => rfl

theorem AnnotatedAt.marks_eq (h : AnnotatedAt note path type type') : type'.marks = type.marks := by
  induction h with
  | bound side annotations h ih => exact congrArg (_ :: ·) ih
  | element dimensions h ih => exact congrArg (_ :: ·) ih
  | dimension element outer annotations inner => simp [marks]
  | segment outer name arguments annotations inner =>
    simp only [marks, marksOfSegments_eq, List.flatMap_append, List.flatMap_cons]
  | argument outer name before after annotations inner index hindex h ih =>
    simp only [marks, marksOfSegments_eq, List.flatMap_append, List.flatMap_cons,
      marksOfTypes_append, marksOfTypes, ih]
  | _ => rfl

/-- One list of annotations has one more, at its end. -/
theorem AnnotatedAt.growsOnce (h : AnnotatedAt note path type type') :
    GrowsOnce note type.lists type'.lists := by
  have hlist : ∀ annotations : List α, GrowsOnce note [annotations] [annotations ++ [note]] :=
    fun annotations => ⟨[], annotations, [], rfl, rfl⟩
  induction h with
  | primitive kind annotations => exact hlist annotations
  | typeVariable name annotations => exact hlist annotations
  | wildcard annotations => exact hlist annotations
  | bounded side bound annotations => exact (hlist annotations).append [] bound.lists
  | bound side annotations h ih => simpa [lists] using ih.append [annotations] []
  | dimension element outer annotations inner =>
    simpa [lists] using (hlist annotations).append outer (inner ++ element.lists)
  | element dimensions h ih => simpa [lists] using ih.append dimensions []
  | segment outer name arguments annotations inner =>
    simpa [lists, listsOfSegments_append, listsOfSegments, ClassSegment.lists]
      using (hlist annotations).append (listsOfSegments outer)
        (listsOfTypes arguments ++ listsOfSegments inner)
  | argument outer name before after annotations inner index hindex h ih =>
    simpa [lists, listsOfSegments_append, listsOfSegments, ClassSegment.lists, listsOfTypes_append,
        listsOfTypes]
      using ih.append (listsOfSegments outer ++ annotations :: listsOfTypes before)
        (listsOfTypes after ++ listsOfSegments inner)

/-- **What attaching does to a type.** It splits classes that the path steps into, and then it puts
    the annotation last at the node at the end of the path, or it is refused.  All class names stay,
    and all that is not an annotation, and all annotations. -/
theorem attach_follows [ToString α] (note : α) (path : TypePath) (type : JavaType α) :
    (∃ shaped, type.SplitAlong path shaped
        ∧ type.lists.Sublist shaped.lists
        ∧ shaped.lists.filter (!·.isEmpty) = type.lists.filter (!·.isEmpty)
        ∧ match (type.attach note path).refusal with
          | none => shaped.AnnotatedAt note path (type.attach note path).tree
            ∧ GrowsOnce note shaped.lists (type.attach note path).tree.lists
          | some _ => (type.attach note path).tree = shaped)
      ∧ (type.attach note path).tree.classNames = type.classNames
      ∧ (type.attach note path).tree.marks = type.marks := by
  obtain ⟨shaped, hsplit, hannotates⟩ := type.exists_splitAlong note path
  unfold Edit.Annotates at hannotates
  split at hannotates
  · refine ⟨⟨shaped, hsplit, hsplit.lists_sublist.1, hsplit.lists_sublist.2, ?_⟩, ?_, ?_⟩
    · exact ⟨hannotates, hannotates.growsOnce⟩
    · rw [hannotates.classNames_eq, hsplit.classNames_eq]
    · rw [hannotates.marks_eq, hsplit.marks_eq]
  · refine ⟨⟨shaped, hsplit, hsplit.lists_sublist.1, hsplit.lists_sublist.2, ?_⟩, ?_, ?_⟩
    · exact hannotates
    · rw [hannotates, hsplit.classNames_eq]
    · rw [hannotates, hsplit.marks_eq]

end JavaType

end ClassAtlas
