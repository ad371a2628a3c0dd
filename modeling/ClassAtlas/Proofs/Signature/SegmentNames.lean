import ClassAtlas.Proofs.Signature.Attaching
import ClassAtlas.Proofs.Signature.WellFormed
import Mathlib.Data.List.DropRight

namespace ClassAtlas

/-!
# The names of the classes in a type

A type is well-formed if its parts stand where the grammar has them and the names of its classes
can be read back.  What gaining annotations changes about this is only the names: a class that is
split is replaced by the classes its name stands for.

* `ownName` — the part of a class's name that dollar signs divide;
* `JavaType.segmentNames` — the names of all classes in a type;
* `JavaType.Grammatical` — well-formed but for the names of the classes;
* `SplitClosed` — what the classes that a name stands for have in common with the one class;
* `JavaType.Gains.grammatical`, `JavaType.Gains.forall_segmentNames`, `JavaType.Gains.levels_le`
  — what a type that gains annotations keeps.
-/

variable {α : Type}

/-! ### The classes that a name stands for -/

theorem dollarParts_cons_of_ne {c : Char} (h : c ≠ '$') (rest : List Char) :
    ∃ first inner, dollarParts rest = first :: inner
      ∧ dollarParts (c :: rest) = (c :: first) :: inner := by
  induction rest generalizing c with
  | nil => exact ⟨[], [], rfl, by simp [dollarParts]⟩
  | cons next rest ih =>
    have hcons : ∀ first inner, dollarParts (next :: rest) = first :: inner →
        dollarParts (c :: next :: rest) = (c :: first) :: inner := by
      intro first inner hparts
      rw [dollarParts.eq_3 _ _ h, hparts]
    by_cases hnext : next = '$'
    · have hparts : dollarParts (next :: rest) = [] :: dollarParts rest := by
        rw [hnext, dollarParts]
      exact ⟨_, _, hparts, hcons _ _ hparts⟩
    · obtain ⟨first, inner, -, hparts⟩ := ih hnext
      exact ⟨_, _, hparts, hcons _ _ hparts⟩

theorem dollarParts_ne_nil (characters : List Char) : dollarParts characters ≠ [] := by
  rcases characters with _ | ⟨c, rest⟩
  · simp [dollarParts]
  · by_cases h : c = '$'
    · simp [h, dollarParts]
    · obtain ⟨first, inner, -, hparts⟩ := dollarParts_cons_of_ne h rest
      simp [hparts]

/-- The parts are made of the other characters. -/
theorem mem_of_mem_dollarParts {characters part : List Char} {c : Char}
    (hpart : part ∈ dollarParts characters) (hc : c ∈ part) : c ∈ characters ∧ c ≠ '$' := by
  induction characters generalizing part with
  | nil => simp_all [dollarParts]
  | cons head rest ih =>
    by_cases hhead : head = '$'
    · rw [hhead, dollarParts, List.mem_cons] at hpart
      rcases hpart with rfl | hpart
      · cases hc
      · exact ⟨List.mem_cons_of_mem _ (ih hpart hc).1, (ih hpart hc).2⟩
    · obtain ⟨first, inner, hrest, hparts⟩ := dollarParts_cons_of_ne hhead rest
      rw [hparts, List.mem_cons] at hpart
      rcases hpart with rfl | hpart
      · rcases List.mem_cons.mp hc with rfl | hc
        · exact ⟨List.mem_cons_self, hhead⟩
        · have hfirst := ih (hrest ▸ List.mem_cons_self) hc
          exact ⟨List.mem_cons_of_mem _ hfirst.1, hfirst.2⟩
      · have hinner := ih (hrest ▸ List.mem_cons_of_mem _ hpart) hc
        exact ⟨List.mem_cons_of_mem _ hinner.1, hinner.2⟩

/-- A text without dollar signs is one part. -/
theorem dollarParts_of_notMem {characters : List Char} (h : '$' ∉ characters) :
    dollarParts characters = [characters] := by
  induction characters with
  | nil => rfl
  | cons head rest ih =>
    rw [List.mem_cons, not_or] at h
    obtain ⟨first, inner, hrest, hparts⟩ := dollarParts_cons_of_ne (Ne.symm h.1) rest
    rw [ih h.2, List.cons.injEq] at hrest
    rw [hparts, ← hrest.1, ← hrest.2]

/-- The part of a class's name that dollar signs divide: without the package, which the name of
    an outermost class has in front. -/
def ownName (outermost : Bool) (name : List Char) : List Char :=
  if outermost then Text.afterLast '.' name else name

/-- What stands in front of it. -/
def packagePrefix (outermost : Bool) (name : List Char) : List Char :=
  if outermost then name.rdropWhile (· ≠ '.') else []

theorem packagePrefix_append_ownName (outermost : Bool) (name : List Char) :
    packagePrefix outermost name ++ ownName outermost name = name := by
  cases outermost with
  | false => rfl
  | true => exact List.rdropWhile_append_rtakeWhile

/-- No dot that ends a package is left in the part. -/
theorem dot_notMem_ownName (name : List Char) : '.' ∉ ownName true name := by
  intro hdot
  simpa using List.mem_rtakeWhile_imp hdot

/-- Another part behind the same package. -/
theorem ownName_packagePrefix_append {outermost : Bool} {name part : List Char}
    (hpart : outermost → '.' ∉ part) :
    ownName outermost (packagePrefix outermost name ++ part) = part := by
  cases outermost with
  | false => rfl
  | true =>
    have hdotless := hpart rfl
    show (name.rdropWhile (· ≠ '.') ++ part).rtakeWhile (· ≠ '.') = part
    clear hpart
    induction part using List.reverseRecOn with
    | nil =>
      rw [List.append_nil, List.rtakeWhile_eq_nil_iff]
      exact fun hne => List.rdropWhile_last_not _ _ hne
    | append_singleton part c ih =>
      rw [List.mem_append, List.mem_singleton, not_or] at hdotless
      rw [← List.append_assoc, List.rtakeWhile_concat_pos _ _ _ (by simpa using Ne.symm hdotless.2),
        ih hdotless.1]

/-- The first class has the package in front of its part. -/
theorem exists_nestedNames_eq (outermost : Bool) (name : String) :
    ∃ first inner, dollarParts (ownName outermost name.toList) = first :: inner
      ∧ nestedNames outermost name
        = String.ofList (packagePrefix outermost name.toList ++ first)
          :: inner.map String.ofList := by
  obtain ⟨first, inner, hparts⟩ :=
    List.exists_cons_of_ne_nil (dollarParts_ne_nil (ownName outermost name.toList))
  refine ⟨first, inner, hparts, ?_⟩
  cases outermost with
  | false =>
    rw [ownName, if_neg Bool.false_ne_true] at hparts
    simp [nestedNames, hparts, packagePrefix]
  | true =>
    -- The package is cut off by the length of the part behind it.
    have hlength := congrArg List.length (packagePrefix_append_ownName true name.toList)
    rw [List.length_append] at hlength
    have hpackage :
        name.toList.take (name.toList.length - (ownName true name.toList).length)
          = packagePrefix true name.toList := by
      rw [← hlength, Nat.add_sub_cancel]
      nth_rewrite 2 [← packagePrefix_append_ownName true name.toList]
      exact List.take_left
    rw [ownName, if_pos rfl] at hparts hpackage
    simp only [nestedNames, hparts, hpackage, if_true]

/-- A name without dollar signs stands for itself. -/
theorem nestedNames_eq_singleton {outermost : Bool} {name : String}
    (h : '$' ∉ ownName outermost name.toList) : nestedNames outermost name = [name] := by
  obtain ⟨first, inner, hparts, hnames⟩ := exists_nestedNames_eq outermost name
  rw [dollarParts_of_notMem h, List.cons.injEq] at hparts
  rw [hnames, ← hparts.1, ← hparts.2, packagePrefix_append_ownName, String.ofList_toList,
    List.map_nil]

/-! ### What those classes have in common with the one -/

/-- Names of classes, the first of which may be an outermost one. -/
def labelled (outermost : Bool) : List String → List (Bool × String)
  | [] => []
  | first :: inner => (outermost, first) :: inner.map (false, ·)

/-- A property of the names of classes, and of whether they are outermost, that passes to the
    classes the name stands for. -/
def SplitClosed (Fine : Bool × String → Prop) : Prop :=
  ∀ outermost name, Fine (outermost, name) →
    ∀ named ∈ labelled outermost (nestedNames outermost name), Fine named

/-- A property passes on if it does to the first class and to each inner one. -/
theorem SplitClosed.of_parts {Fine : Bool × String → Prop}
    (hfirst : ∀ outermost name first, Fine (outermost, name) →
      first ∈ dollarParts (ownName outermost name.toList) →
      String.ofList (packagePrefix outermost name.toList ++ first) ∈ nestedNames outermost name →
      Fine (outermost, String.ofList (packagePrefix outermost name.toList ++ first)))
    (hinner : ∀ outermost name part, Fine (outermost, name) →
      part ∈ dollarParts (ownName outermost name.toList) →
      String.ofList part ∈ nestedNames outermost name → Fine (false, String.ofList part)) :
    SplitClosed Fine := by
  intro outermost name hfine named hnamed
  obtain ⟨first, inner, hparts, hnames⟩ := exists_nestedNames_eq outermost name
  rw [hnames, labelled, List.mem_cons, List.map_map, List.mem_map] at hnamed
  rcases hnamed with rfl | ⟨part, hpart, rfl⟩
  · exact hfirst outermost name first hfine (hparts ▸ List.mem_cons_self)
      (hnames ▸ List.mem_cons_self)
  · exact hinner outermost name part hfine (hparts ▸ List.mem_cons_of_mem _ hpart)
      (hnames ▸ List.mem_cons_of_mem _ (List.mem_map_of_mem hpart))

/-- The characters that end the name of a class. -/
def nameEnds (outermost : Bool) : List Char := if outermost then outermostEnds else innerEnds

theorem splitClosed_notMem_nameEnds :
    SplitClosed fun named => ∀ c ∈ named.2.toList, c ∉ nameEnds named.1 := by
  refine .of_parts (fun outermost name first hfine hfirst _ c hc => ?_)
    (fun outermost name part hfine hpart _ c hc => ?_)
  · apply hfine
    dsimp only at hc ⊢
    rw [String.toList_ofList, List.mem_append] at hc
    rw [← packagePrefix_append_ownName outermost name.toList, List.mem_append]
    exact hc.imp_right fun hc => (mem_of_mem_dollarParts hfirst hc).1
  · dsimp only at hc hfine ⊢
    rw [String.toList_ofList] at hc
    have hown := (mem_of_mem_dollarParts hpart hc).1
    have hname : c ∈ name.toList := by
      rw [← packagePrefix_append_ownName outermost name.toList]
      exact List.mem_append_right _ hown
    cases outermost with
    | false => exact hfine c hname
    | true =>
      -- A dot may stand in the name of an outermost class, but only inside the package.
      have hdot : c ≠ '.' := by
        rintro rfl
        exact dot_notMem_ownName _ hown
      have hends := hfine c hname
      simp_all [nameEnds, outermostEnds, innerEnds]

/-- Of a name that stands for classes with names of their own, each of those names does so. -/
theorem splitClosed_empty_notMem_nestedNames :
    SplitClosed fun named => "" ∉ nestedNames named.1 named.2 := by
  refine .of_parts (fun outermost name first hfine hfirst hmem => ?_)
    (fun outermost name part hfine hpart hmem => ?_)
  · -- The first class has no dollar sign left in its part, so it stands for itself.
    dsimp only at hfine ⊢
    have hown : ownName outermost (packagePrefix outermost name.toList ++ first) = first := by
      refine ownName_packagePrefix_append fun houtermost hdot => ?_
      subst houtermost
      exact dot_notMem_ownName _ (mem_of_mem_dollarParts hfirst hdot).1
    rw [nestedNames_eq_singleton, List.mem_singleton]
    · rintro hempty
      exact hfine (hempty ▸ hmem)
    · rw [String.toList_ofList, hown]
      exact fun hdollar => (mem_of_mem_dollarParts hfirst hdollar).2 rfl
  · dsimp only at hfine ⊢
    rw [nestedNames_eq_singleton, List.mem_singleton]
    · rintro hempty
      exact hfine (hempty ▸ hmem)
    · rw [ownName, if_neg Bool.false_ne_true, String.toList_ofList]
      exact fun hdollar => (mem_of_mem_dollarParts hpart hdollar).2 rfl

/-- Such a name is not empty. -/
theorem ne_empty_of_notMem_nestedNames {outermost : Bool} {name : String}
    (h : "" ∉ nestedNames outermost name) : name ≠ "" := by
  rintro rfl
  exact h (by cases outermost <;> decide)

/-! ### The names in a type -/

mutual

/-- The names of all classes in the type, each with whether it is the outermost class of its class
    type. -/
def JavaType.segmentNames : JavaType α → List (Bool × String)
  | .primitive _ _ => []
  | .ofClass segments => namesOfSegments true segments
  | .array element _ => element.segmentNames
  | .typeVariable _ _ => []
  | .wildcard _ => []
  | .bounded _ bound _ => bound.segmentNames
termination_by structural type => type

/-- The names of classes, the first of which may be an outermost one, and those in their
    arguments. -/
def namesOfSegments : Bool → List (ClassSegment α) → List (Bool × String)
  | _, [] => []
  | outermost, segment :: rest =>
    (outermost, segment.name) :: (segment.namesOfArguments ++ namesOfSegments false rest)
termination_by structural _ segments => segments

/-- The names in the arguments of one class. -/
def ClassSegment.namesOfArguments : ClassSegment α → List (Bool × String)
  | ⟨_, arguments, _⟩ => namesOfTypes arguments
termination_by structural segment => segment

/-- The names in each of the types. -/
def namesOfTypes : List (JavaType α) → List (Bool × String)
  | [] => []
  | type :: rest => type.segmentNames ++ namesOfTypes rest
termination_by structural types => types

end

theorem namesOfTypes_append (types types' : List (JavaType α)) :
    namesOfTypes (types ++ types') = namesOfTypes types ++ namesOfTypes types' := by
  induction types with
  | nil => rfl
  | cons type rest ih => rw [List.cons_append, namesOfTypes, ih, namesOfTypes, List.append_assoc]

theorem namesOfSegments_append (outermost : Bool) (segments segments' : List (ClassSegment α)) :
    namesOfSegments outermost (segments ++ segments') = namesOfSegments outermost segments
      ++ namesOfSegments (outermost && segments.isEmpty) segments' := by
  induction segments generalizing outermost with
  | nil => rw [List.isEmpty_nil, Bool.and_true, namesOfSegments]; rfl
  | cons segment rest ih =>
    rw [List.cons_append, namesOfSegments, ih, namesOfSegments, List.isEmpty_cons,
      Bool.false_and, Bool.and_false, List.cons_append, List.append_assoc]

theorem namesOfSegments_argumentsOnLast (outermost : Bool) (arguments : List (JavaType α))
    (first : String) (inner : List String) :
    namesOfSegments outermost (argumentsOnLast arguments (first :: inner))
      = labelled outermost (first :: inner) ++ namesOfTypes arguments := by
  induction inner generalizing outermost first with
  | nil => simp [argumentsOnLast, namesOfSegments, ClassSegment.namesOfArguments, labelled]
  | cons next inner ih =>
    rw [argumentsOnLast, namesOfSegments, ih]
    · simp [ClassSegment.namesOfArguments, namesOfTypes, labelled]
    · simp

/-- A class that is split, without regard to its annotations. -/
theorem exists_split_eq (outermost : Bool) (segment : ClassSegment α) :
    ∃ first inner,
      argumentsOnLast segment.arguments (nestedNames outermost segment.name) = first :: inner
      ∧ segment.split outermost = { first with annotations := segment.annotations } :: inner := by
  obtain ⟨first, inner, -, hnames⟩ := exists_nestedNames_eq outermost segment.name
  have hne : argumentsOnLast segment.arguments (nestedNames outermost segment.name) ≠ [] := by
    rw [hnames]
    cases inner <;> simp [argumentsOnLast]
  obtain ⟨segment', inner', hsegments⟩ := List.exists_cons_of_ne_nil hne
  exact ⟨segment', inner', hsegments, by rw [ClassSegment.split, hsegments]⟩

/-- A class that is split leaves the names it stands for, and all its arguments. -/
theorem namesOfSegments_split (outermost : Bool) (segment : ClassSegment α) :
    namesOfSegments outermost (segment.split outermost)
      = labelled outermost (nestedNames outermost segment.name) ++ segment.namesOfArguments := by
  obtain ⟨first, inner, -, hnames⟩ := exists_nestedNames_eq outermost segment.name
  obtain ⟨segment', inner', hsegments, hsplit⟩ := exists_split_eq outermost segment
  calc namesOfSegments outermost (segment.split outermost)
      = namesOfSegments outermost (segment' :: inner') := by
        cases segment'
        rw [hsplit]
        rfl
    _ = labelled outermost (nestedNames outermost segment.name)
          ++ namesOfTypes segment.arguments := by
        rw [← hsegments, hnames, namesOfSegments_argumentsOnLast]
    _ = _ := by
        cases segment
        rfl

/-- What gains annotations keeps a property of the names that passes on. -/
theorem JavaType.Gains.forall_segmentNames {added : List α} {type type' : JavaType α}
    (h : Gains added type type') {Fine : Bool × String → Prop} (hclosed : SplitClosed Fine)
    (hfine : ∀ named ∈ type.segmentNames, Fine named) :
    ∀ named ∈ type'.segmentNames, Fine named := by
  induction h with
  | nothing => exact hfine
  | primitive => exact hfine
  | typeVariable => exact hfine
  | wildcard => exact hfine
  | bounded => exact hfine
  | bound side annotations h ih => exact ih hfine
  | dimension => exact hfine
  | element dimensions h ih => exact ih hfine
  | split outer innermost h ih =>
    -- The only rule that changes names.
    apply ih
    simp only [segmentNames, namesOfSegments_append, Bool.true_and, namesOfSegments_split,
      namesOfSegments, List.append_nil, List.forall_mem_append, List.forall_mem_cons] at hfine ⊢
    exact ⟨hfine.1, hclosed _ _ hfine.2.1, hfine.2.2⟩
  | segment outer name arguments annotations inner =>
    simpa only [segmentNames, namesOfSegments_append, namesOfSegments,
      ClassSegment.namesOfArguments] using hfine
  | argument outer name before after annotations inner h ih =>
    simp only [segmentNames, namesOfSegments_append, namesOfSegments,
      ClassSegment.namesOfArguments, namesOfTypes_append, namesOfTypes, List.forall_mem_append,
      List.forall_mem_cons] at hfine ⊢
    obtain ⟨houter, hname, ⟨hbefore, hargument, hafter⟩, hinner⟩ := hfine
    exact ⟨houter, hname, ⟨hbefore, ih hargument, hafter⟩, hinner⟩

/-! ### The grammar -/

mutual

/-- Whether the types inside a type may stand where they stand, and the names of type variables
    can be read back. -/
def JavaType.Grammatical : JavaType α → Prop
  | .primitive _ _ => True
  | .ofClass segments => segments ≠ [] ∧ GrammaticalSegments segments
  | .array element dimensions =>
    dimensions ≠ [] ∧ TypePlace.element.admits element ∧ element.Grammatical
  | .typeVariable name _ => NameWithout [';'] name
  | .wildcard _ => True
  | .bounded _ bound _ => TypePlace.bound.admits bound ∧ bound.Grammatical
termination_by structural type => type

/-- The arguments of all classes. -/
def GrammaticalSegments : List (ClassSegment α) → Prop
  | [] => True
  | segment :: rest => segment.GrammaticalArguments ∧ GrammaticalSegments rest
termination_by structural segments => segments

/-- The arguments of one class. -/
def ClassSegment.GrammaticalArguments : ClassSegment α → Prop
  | ⟨_, arguments, _⟩ => GrammaticalTypes arguments
termination_by structural segment => segment

/-- Each of the types as a type argument. -/
def GrammaticalTypes : List (JavaType α) → Prop
  | [] => True
  | type :: rest => (TypePlace.argument.admits type ∧ type.Grammatical) ∧ GrammaticalTypes rest
termination_by structural types => types

end

mutual

/-- Well-formed is what the grammar admits, with names that can be read back. -/
theorem JavaType.wellFormed_iff : (type : JavaType α) → (type.WellFormed ↔
    type.Grammatical ∧ ∀ named ∈ type.segmentNames, NameWithout (nameEnds named.1) named.2)
  | .primitive _ _ => by simp [JavaType.WellFormed, JavaType.Grammatical, JavaType.segmentNames]
  | .ofClass segments => by
    rw [JavaType.WellFormed, JavaType.Grammatical, JavaType.segmentNames, and_assoc]
    exact and_congr_right fun _ => wellFormedSegments_iff true segments
  | .array element _ => by
    rw [JavaType.WellFormed, JavaType.Grammatical, JavaType.segmentNames,
      element.wellFormed_iff, and_assoc, and_assoc]
  | .typeVariable _ _ => by simp [JavaType.WellFormed, JavaType.Grammatical, JavaType.segmentNames]
  | .wildcard _ => by simp [JavaType.WellFormed, JavaType.Grammatical, JavaType.segmentNames]
  | .bounded _ bound _ => by
    rw [JavaType.WellFormed, JavaType.Grammatical, JavaType.segmentNames,
      bound.wellFormed_iff, and_assoc]
termination_by structural type => type

theorem wellFormedSegments_iff : (outermost : Bool) → (segments : List (ClassSegment α)) →
    (WellFormedSegments (nameEnds outermost) segments ↔ GrammaticalSegments segments
      ∧ ∀ named ∈ namesOfSegments outermost segments, NameWithout (nameEnds named.1) named.2)
  | _, [] => by simp [WellFormedSegments, GrammaticalSegments, namesOfSegments]
  | outermost, segment :: rest => by
    rw [WellFormedSegments, GrammaticalSegments, namesOfSegments, List.forall_mem_cons,
      List.forall_mem_append, segment.wellFormedArguments_iff]
    have hrest := wellFormedSegments_iff false rest
    rw [nameEnds, if_neg Bool.false_ne_true] at hrest
    rw [hrest]
    tauto
termination_by structural _ segments => segments

theorem ClassSegment.wellFormedArguments_iff : (segment : ClassSegment α) →
    (segment.WellFormedArguments ↔ segment.GrammaticalArguments
      ∧ ∀ named ∈ segment.namesOfArguments, NameWithout (nameEnds named.1) named.2)
  | ⟨_, arguments, _⟩ => wellFormedTypes_iff_grammatical arguments
termination_by structural segment => segment

theorem wellFormedTypes_iff_grammatical : (types : List (JavaType α)) →
    (WellFormedTypes types ↔ GrammaticalTypes types
      ∧ ∀ named ∈ namesOfTypes types, NameWithout (nameEnds named.1) named.2)
  | [] => by simp [WellFormedTypes, GrammaticalTypes, namesOfTypes]
  | type :: rest => by
    rw [WellFormedTypes, GrammaticalTypes, namesOfTypes, List.forall_mem_append,
      type.wellFormed_iff, wellFormedTypes_iff_grammatical rest]
    tauto
termination_by structural types => types

end

theorem grammaticalTypes_iff (types : List (JavaType α)) :
    GrammaticalTypes types ↔ ∀ type ∈ types, TypePlace.argument.admits type ∧ type.Grammatical := by
  induction types with
  | nil => simp [GrammaticalTypes]
  | cons type rest ih => rw [GrammaticalTypes, ih, List.forall_mem_cons]

theorem grammaticalSegments_iff (segments : List (ClassSegment α)) :
    GrammaticalSegments segments ↔ ∀ segment ∈ segments, segment.GrammaticalArguments := by
  induction segments with
  | nil => simp [GrammaticalSegments]
  | cons segment rest ih => rw [GrammaticalSegments, ih, List.forall_mem_cons]

theorem GrammaticalTypes.argumentsOnLast {arguments : List (JavaType α)}
    (h : GrammaticalTypes arguments) (names : List String) :
    GrammaticalSegments (argumentsOnLast arguments names) := by
  fun_induction ClassAtlas.argumentsOnLast arguments names with
  | case1 => trivial
  | case2 name => exact ⟨h, trivial⟩
  | case3 name names _ ih => exact ⟨trivial, ih⟩

/-- A class that is split keeps its arguments. -/
theorem ClassSegment.GrammaticalArguments.split {segment : ClassSegment α}
    (h : segment.GrammaticalArguments) (outermost : Bool) :
    GrammaticalSegments (segment.split outermost) := by
  obtain ⟨first, inner, hsegments, hsplit⟩ := exists_split_eq outermost segment
  obtain ⟨name, arguments, annotations⟩ := segment
  have hall := GrammaticalTypes.argumentsOnLast h (nestedNames outermost name)
  rw [hsplit]
  rw [hsegments] at hall
  cases first
  exact hall

/-- A type that gains annotations stays of its kind. -/
theorem JavaType.Gains.admits_eq {added : List α} {type type' : JavaType α}
    (h : Gains added type type') (place : TypePlace) : place.admits type' = place.admits type := by
  induction h with
  | split outer innermost h ih => exact ih
  | _ => rfl

/-- A type that gains annotations stays within the grammar. -/
theorem JavaType.Gains.grammatical {added : List α} {type type' : JavaType α}
    (h : Gains added type type') (hgrammatical : type.Grammatical) : type'.Grammatical := by
  induction h with
  | nothing => exact hgrammatical
  | primitive => exact hgrammatical
  | typeVariable => exact hgrammatical
  | wildcard => exact hgrammatical
  | bounded => exact hgrammatical
  | bound side annotations h ih =>
    rw [Grammatical] at hgrammatical ⊢
    rw [h.admits_eq]
    exact ⟨hgrammatical.1, ih hgrammatical.2⟩
  | dimension element outer annotations inner =>
    rw [Grammatical] at hgrammatical ⊢
    exact ⟨by simp, hgrammatical.2⟩
  | element dimensions h ih =>
    rw [Grammatical] at hgrammatical ⊢
    rw [h.admits_eq]
    exact ⟨hgrammatical.1, hgrammatical.2.1, ih hgrammatical.2.2⟩
  | split outer innermost h ih =>
    obtain ⟨first, inner, -, hsplit⟩ := exists_split_eq outer.isEmpty innermost
    apply ih
    rw [Grammatical, grammaticalSegments_iff] at hgrammatical ⊢
    simp only [List.forall_mem_append, List.forall_mem_singleton] at hgrammatical ⊢
    refine ⟨by simp [hsplit], hgrammatical.2.1, ?_⟩
    exact (grammaticalSegments_iff _).mp (hgrammatical.2.2.split outer.isEmpty)
  | segment outer name arguments annotations inner =>
    rw [Grammatical, grammaticalSegments_iff] at hgrammatical ⊢
    simp only [List.forall_mem_append, List.forall_mem_cons] at hgrammatical ⊢
    exact ⟨by simp, hgrammatical.2⟩
  | argument outer name before after annotations inner h ih =>
    rw [Grammatical, grammaticalSegments_iff] at hgrammatical ⊢
    simp only [List.forall_mem_append, List.forall_mem_cons, ClassSegment.GrammaticalArguments,
      grammaticalTypes_iff] at hgrammatical ⊢
    obtain ⟨-, houter, ⟨hbefore, ⟨hplace, hargument⟩, hafter⟩, hinner⟩ := hgrammatical
    rw [h.admits_eq]
    exact ⟨by simp, houter, ⟨hbefore, ⟨hplace, ih hargument⟩, hafter⟩, hinner⟩

/-! ### Levels -/

theorem levelsOfTypes_append (types types' : List (JavaType α)) :
    levelsOfTypes (types ++ types') = max (levelsOfTypes types) (levelsOfTypes types') := by
  induction types with
  | nil => simp [levelsOfTypes]
  | cons type rest ih => rw [List.cons_append, levelsOfTypes, ih, levelsOfTypes, Nat.max_assoc]

theorem levelsOfSegments_append (segments segments' : List (ClassSegment α)) :
    levelsOfSegments (segments ++ segments')
      = max (levelsOfSegments segments) (levelsOfSegments segments') := by
  induction segments with
  | nil => simp [levelsOfSegments]
  | cons segment rest ih =>
    rw [List.cons_append, levelsOfSegments, ih, levelsOfSegments, Nat.max_assoc]

theorem levelsOfSegments_argumentsOnLast_le (arguments : List (JavaType α)) (names : List String) :
    levelsOfSegments (argumentsOnLast arguments names) ≤ levelsOfTypes arguments := by
  fun_induction argumentsOnLast arguments names with
  | case1 => exact Nat.zero_le _
  | case2 name => simp [levelsOfSegments, ClassSegment.levelsOfArguments]
  | case3 name names _ ih =>
    simpa [levelsOfSegments, ClassSegment.levelsOfArguments, levelsOfTypes] using ih

theorem levelsOfSegments_split_le (outermost : Bool) (segment : ClassSegment α) :
    levelsOfSegments (segment.split outermost) ≤ segment.levelsOfArguments := by
  obtain ⟨first, inner, hsegments, hsplit⟩ := exists_split_eq outermost segment
  obtain ⟨name, arguments, annotations⟩ := segment
  have hlevels := levelsOfSegments_argumentsOnLast_le arguments (nestedNames outermost name)
  rw [hsplit]
  rw [hsegments] at hlevels
  cases first
  exact hlevels

/-- A type that gains annotations is nested no deeper. -/
theorem JavaType.Gains.levels_le {added : List α} {type type' : JavaType α}
    (h : Gains added type type') : type'.levels ≤ type.levels := by
  induction h with
  | bound side annotations h ih => exact ih
  | element dimensions h ih => exact Nat.succ_le_succ ih
  | split outer innermost h ih =>
    have hsplit := levelsOfSegments_split_le outer.isEmpty innermost
    simp only [levels, levelsOfSegments_append, levelsOfSegments] at ih ⊢
    omega
  | segment outer name arguments annotations inner =>
    simp only [levels, levelsOfSegments_append, levelsOfSegments, ClassSegment.levelsOfArguments]
    exact le_rfl
  | argument outer name before after annotations inner h ih =>
    simp only [levels, levelsOfSegments_append, levelsOfSegments, ClassSegment.levelsOfArguments,
      levelsOfTypes_append, levelsOfTypes]
    omega
  | _ => exact le_rfl

/-! ### Without annotations -/

mutual

/-- The names do not depend on the annotations. -/
theorem JavaType.segmentNames_bare : (type : JavaType α) →
    type.bare.segmentNames = type.segmentNames
  | .primitive _ _ => rfl
  | .ofClass segments => namesOfSegments_bareSegments true segments
  | .array element _ => element.segmentNames_bare
  | .typeVariable _ _ => rfl
  | .wildcard _ => rfl
  | .bounded _ bound _ => bound.segmentNames_bare
termination_by structural type => type

theorem namesOfSegments_bareSegments : (outermost : Bool) → (segments : List (ClassSegment α)) →
    namesOfSegments outermost (bareSegments segments) = namesOfSegments outermost segments
  | _, [] => rfl
  | _, ⟨_, arguments, _⟩ :: rest => by
    rw [bareSegments, ClassSegment.bare, namesOfSegments, namesOfSegments,
      namesOfSegments_bareSegments false rest, ClassSegment.namesOfArguments,
      namesOfTypes_bareTypes arguments, ClassSegment.namesOfArguments]
termination_by structural _ segments => segments

theorem namesOfTypes_bareTypes : (types : List (JavaType α)) →
    namesOfTypes (bareTypes types) = namesOfTypes types
  | [] => rfl
  | type :: rest => by
    rw [bareTypes, namesOfTypes, type.segmentNames_bare, namesOfTypes_bareTypes rest,
      namesOfTypes]
termination_by structural types => types

end

end ClassAtlas
