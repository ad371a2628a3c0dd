import ClassAtlas.ClassFile.Placement
import ClassAtlas.Proofs.Signature.SegmentNames
import Mathlib.Algebra.Order.Group.Multiset
import Mathlib.Tactic.Abel

namespace ClassAtlas

/-!
# All annotations in a signature

Attaching an annotation adds it once to those a tree carries, or does not add it and says so;
those carried before are carried still, whichever classes were split.

* `JavaType.notes`, `TypeParameter.notes`, `MethodSignature.notes`, `ClassSignature.notes` — the
  annotations anywhere in a tree;
* `JavaType.coe_notes_attach`, `MethodSignature.coe_notes_attach`,
  `ClassSignature.coe_notes_attach` — what attaching does to them;
* `JavaType.coe_notes_placeAll`, `MethodSignature.coe_notes_placeAll`,
  `ClassSignature.coe_notes_placeAll` — where each annotation of an attribute is placed.
-/

variable {α : Type}

/-! ### In a type -/

mutual

/-- The annotations anywhere in the type. -/
def JavaType.notes : JavaType α → List α
  | .primitive _ annotations => annotations
  | .ofClass segments => notesOfSegments segments
  | .array element dimensions => dimensions.flatten ++ element.notes
  | .typeVariable _ annotations => annotations
  | .wildcard annotations => annotations
  | .bounded _ bound annotations => annotations ++ bound.notes
termination_by structural type => type

/-- The annotations on classes and in their arguments. -/
def notesOfSegments : List (ClassSegment α) → List α
  | [] => []
  | segment :: rest => segment.notes ++ notesOfSegments rest
termination_by structural segments => segments

/-- The annotations on one class and in its arguments. -/
def ClassSegment.notes : ClassSegment α → List α
  | ⟨_, arguments, annotations⟩ => annotations ++ notesOfTypes arguments
termination_by structural segment => segment

/-- The annotations in each of the types. -/
def notesOfTypes : List (JavaType α) → List α
  | [] => []
  | type :: rest => type.notes ++ notesOfTypes rest
termination_by structural types => types

end

theorem notesOfTypes_eq_flatMap (types : List (JavaType α)) :
    notesOfTypes types = types.flatMap (·.notes) := by
  induction types with
  | nil => rfl
  | cons type rest ih => rw [notesOfTypes, ih, List.flatMap_cons]

theorem notesOfTypes_append (types types' : List (JavaType α)) :
    notesOfTypes (types ++ types') = notesOfTypes types ++ notesOfTypes types' := by
  simp only [notesOfTypes_eq_flatMap, List.flatMap_append]

theorem notesOfSegments_append (segments segments' : List (ClassSegment α)) :
    notesOfSegments (segments ++ segments')
      = notesOfSegments segments ++ notesOfSegments segments' := by
  induction segments with
  | nil => rfl
  | cons segment rest ih =>
    rw [List.cons_append, notesOfSegments, ih, notesOfSegments, List.append_assoc]

theorem notesOfSegments_argumentsOnLast (arguments : List (JavaType α)) (first : String)
    (inner : List String) :
    notesOfSegments (argumentsOnLast arguments (first :: inner)) = notesOfTypes arguments := by
  induction inner generalizing first with
  | nil => simp [argumentsOnLast, notesOfSegments, ClassSegment.notes]
  | cons next inner ih =>
    rw [argumentsOnLast, notesOfSegments, ih]
    · rfl
    · simp

theorem annotations_of_mem_argumentsOnLast {arguments : List (JavaType α)} {names : List String}
    {segment : ClassSegment α} (h : segment ∈ argumentsOnLast arguments names) :
    segment.annotations = [] := by
  fun_induction argumentsOnLast arguments names with
  | case1 => cases h
  | case2 name => rw [List.mem_singleton.mp h]
  | case3 name names _ ih =>
    rcases List.mem_cons.mp h with rfl | hrest
    · rfl
    · exact ih hrest

/-- A class that is split keeps its annotations and those in its arguments. -/
theorem notesOfSegments_split (outermost : Bool) (segment : ClassSegment α) :
    notesOfSegments (segment.split outermost) = segment.notes := by
  obtain ⟨first, inner, -, hnames⟩ := exists_nestedNames_eq outermost segment.name
  obtain ⟨segment', inner', hsegments, hsplit⟩ := exists_split_eq outermost segment
  have hall : notesOfSegments (segment' :: inner') = notesOfTypes segment.arguments := by
    rw [← hsegments, hnames, notesOfSegments_argumentsOnLast]
  have hnone : segment'.annotations = [] :=
    annotations_of_mem_argumentsOnLast (hsegments ▸ List.mem_cons_self)
  obtain ⟨name, arguments, annotations⟩ := segment
  obtain ⟨name', arguments', annotations'⟩ := segment'
  dsimp only at hnone
  rw [hnone, notesOfSegments, ClassSegment.notes, List.nil_append] at hall
  rw [hsplit, notesOfSegments, ClassSegment.notes, ClassSegment.notes, List.append_assoc, hall]

/-- What gains annotations has them besides those it had. -/
theorem JavaType.Gains.coe_notes {added : List α} {type type' : JavaType α}
    (h : Gains added type type') :
    (type'.notes : Multiset α) = added + (type.notes : Multiset α) := by
  induction h with
  | nothing type hnone => simp [hnone]
  | primitive | typeVariable | wildcard =>
    simp only [notes, ← Multiset.coe_add]
    abel
  | bounded side bound annotations =>
    simp only [notes, ← Multiset.coe_add]
    abel
  | bound side annotations h ih =>
    simp only [notes, ← Multiset.coe_add, ih]
    abel
  | dimension element outer annotations inner =>
    simp only [notes, List.flatten_append, List.flatten_cons, ← Multiset.coe_add]
    abel
  | element dimensions h ih =>
    simp only [notes, ← Multiset.coe_add, ih]
    abel
  | split outer innermost h ih =>
    -- Splitting moves annotations and arguments to other classes and leaves none behind.
    rw [ih]
    simp only [notes, notesOfSegments_append, notesOfSegments_split, notesOfSegments,
      List.append_nil]
  | segment outer name arguments annotations inner =>
    simp only [notes, notesOfSegments_append, notesOfSegments, ClassSegment.notes,
      ← Multiset.coe_add]
    abel
  | argument outer name before after annotations inner h ih =>
    simp only [notes, notesOfSegments_append, notesOfSegments, ClassSegment.notes,
      notesOfTypes_append, notesOfTypes, ← Multiset.coe_add, ih]
    abel

mutual

/-- A type without its annotations has none. -/
theorem JavaType.notes_bare : (type : JavaType α) → type.bare.notes = []
  | .primitive _ _ => rfl
  | .ofClass segments => notesOfSegments_bareSegments segments
  | .array element dimensions => by
    simp [JavaType.bare, JavaType.arrayOf, JavaType.notes, element.notes_bare]
  | .typeVariable _ _ => rfl
  | .wildcard _ => rfl
  | .bounded _ bound _ => by rw [JavaType.bare, JavaType.notes, bound.notes_bare]; rfl
termination_by structural type => type

theorem notesOfSegments_bareSegments : (segments : List (ClassSegment α)) →
    notesOfSegments (bareSegments segments) = []
  | [] => rfl
  | ⟨_, arguments, _⟩ :: rest => by
    rw [bareSegments, ClassSegment.bare, notesOfSegments, ClassSegment.notes,
      notesOfTypes_bareTypes arguments, notesOfSegments_bareSegments rest]
    rfl
termination_by structural segments => segments

theorem notesOfTypes_bareTypes : (types : List (JavaType α)) →
    notesOfTypes (bareTypes types) = []
  | [] => rfl
  | type :: rest => by
    rw [bareTypes, notesOfTypes, type.notes_bare, notesOfTypes_bareTypes rest]
    rfl
termination_by structural types => types

end

/-! ### In a declaration -/

/-- The annotations on a declared type variable and in its bounds. -/
def TypeParameter.notes (parameter : TypeParameter α) : List α :=
  parameter.annotations ++ notesOfTypes parameter.bounds

/-- The annotations anywhere in a method's types. -/
def MethodSignature.notes (signature : MethodSignature α) : List α :=
  signature.typeParameters.flatMap (·.notes) ++ notesOfTypes signature.parameters
    ++ signature.result.notes ++ notesOfTypes signature.throws
    ++ notesOfTypes signature.receiver.toList

/-- The annotations anywhere in a class's type variables and supertypes. -/
def ClassSignature.notes (signature : ClassSignature α) : List α :=
  signature.typeParameters.flatMap (·.notes)
    ++ signature.superclass.toList.flatMap notesOfSegments
    ++ signature.interfaces.flatMap notesOfSegments

theorem TypeParameter.notes_bare (parameter : TypeParameter α) : parameter.bare.notes = [] := by
  obtain ⟨name, classBound, interfaceBounds, annotations⟩ := parameter
  cases classBound <;>
    simp [notes, bare, bounds, notesOfTypes_eq_flatMap, List.flatMap_map, JavaType.notes_bare]

theorem MethodSignature.notes_bare (signature : MethodSignature α) :
    signature.bare.notes = [] := by
  simp [notes, bare, notesOfTypes_eq_flatMap, List.flatMap_map, TypeParameter.notes_bare,
    JavaType.notes_bare]

theorem ClassSignature.notes_bare (signature : ClassSignature α) : signature.bare.notes = [] := by
  obtain ⟨typeParameters, superclass, interfaces⟩ := signature
  cases superclass <;>
    simp [notes, bare, ClassType.bare, List.flatMap_map, TypeParameter.notes_bare,
      notesOfSegments_bareSegments]

/-! ### Attaching -/

section Attaching

variable [ToString α]

theorem JavaType.coe_notes_attach (note : α) (path : TypePath) (type : JavaType α) :
    ((type.attach note path).tree.notes : Multiset α)
      = ((type.attach note path).added note : Multiset α) + type.notes :=
  (type.gains_attach note path).coe_notes

theorem ClassType.coe_notes_attach (note : α) (path : TypePath) (segments : ClassType α) :
    (notesOfSegments (ClassType.attach note path segments).tree : Multiset α)
      = ((ClassType.attach note path segments).added note : Multiset α)
        + notesOfSegments segments :=
  (ClassType.gains_attach note path segments).coe_notes

theorem coe_notes_attachInTypes (note : α) (path : TypePath) (index : Nat)
    (types : List (JavaType α)) :
    (notesOfTypes (attachInTypes note path index types).tree : Multiset α)
      = ((attachInTypes note path index types).added note : Multiset α) + notesOfTypes types := by
  rw [attachInTypes]
  split
  · simp
  · rename_i type htype
    obtain ⟨before, after, htypes, hset⟩ := exists_set_eq htype
    rw [Edit.tree_map, Edit.added_map, hset, htypes]
    simp only [notesOfTypes_append, notesOfTypes, ← Multiset.coe_add, JavaType.coe_notes_attach]
    abel

theorem TypeParameter.coe_notes_attach (note : α) (path : TypePath) (place : VariablePlace)
    (parameter : TypeParameter α) :
    ((parameter.attach note path place).tree.notes : Multiset α)
      = ((parameter.attach note path place).added note : Multiset α) + parameter.notes := by
  obtain ⟨name, classBound, interfaceBounds, annotations⟩ := parameter
  cases place with
  | declaration =>
    simp only [attach, Edit.tree_done, Edit.added_done, notes, bounds, ← Multiset.coe_add]
    abel
  | bound index =>
    cases index with
    | zero =>
      cases classBound with
      | none => simp [attach, attachInOptional]
      | some bound =>
        simp only [attach, attachInOptional, Edit.tree_map, Edit.added_map, notes, bounds,
          Option.toList_some, List.singleton_append, notesOfTypes, ← Multiset.coe_add,
          JavaType.coe_notes_attach]
        abel
    | succ index =>
      simp only [attach, Edit.tree_map, Edit.added_map, notes, bounds, notesOfTypes_append,
        ← Multiset.coe_add, coe_notes_attachInTypes]
      abel

theorem coe_notes_attachInVariables (note : α) (path : TypePath) (index : Nat)
    (place : VariablePlace) (parameters : List (TypeParameter α)) :
    ((attachInVariables note path index place parameters).tree.flatMap (·.notes) : Multiset α)
      = ((attachInVariables note path index place parameters).added note : Multiset α)
        + parameters.flatMap (·.notes) := by
  rw [attachInVariables]
  split
  · simp
  · rename_i parameter hparameter
    obtain ⟨before, after, hparameters, hset⟩ := exists_set_eq hparameter
    rw [Edit.tree_map, Edit.added_map, hset, hparameters]
    simp only [List.flatMap_append, List.flatMap_cons, ← Multiset.coe_add,
      TypeParameter.coe_notes_attach]
    abel

theorem MethodSignature.coe_notes_attach (note : α) (path : TypePath) (place : MethodPlace)
    (signature : MethodSignature α) :
    ((signature.attach note path place).tree.notes : Multiset α)
      = ((signature.attach note path place).added note : Multiset α) + signature.notes := by
  cases place with
  | typeParameter index place =>
    simp only [attach, Edit.tree_map, Edit.added_map, notes, ← Multiset.coe_add,
      coe_notes_attachInVariables]
    abel
  | parameter index =>
    simp only [attach, Edit.tree_map, Edit.added_map, notes, ← Multiset.coe_add,
      coe_notes_attachInTypes]
    abel
  | result =>
    simp only [attach, Edit.tree_map, Edit.added_map, notes, ← Multiset.coe_add,
      JavaType.coe_notes_attach]
    abel
  | thrown index =>
    simp only [attach, Edit.tree_map, Edit.added_map, notes, ← Multiset.coe_add,
      coe_notes_attachInTypes]
    abel
  | receiver className =>
    -- A receiver made for the annotation has none of its own.
    have hmade : notesOfTypes signature.receiver.toList
        = (signature.receiver.getD (.ofClass (ClassType.ofName className))).notes := by
      cases signature.receiver <;>
        simp [notesOfTypes, JavaType.notes, notesOfSegments, ClassType.ofName, ClassSegment.notes]
    simp only [attach, Edit.tree_map, Edit.added_map, notes, Option.toList_some, notesOfTypes,
      List.append_nil, ← Multiset.coe_add, JavaType.coe_notes_attach, hmade]
    abel

theorem ClassSignature.coe_notes_attach (note : α) (path : TypePath) (place : ClassPlace)
    (signature : ClassSignature α) :
    ((signature.attach note path place).tree.notes : Multiset α)
      = ((signature.attach note path place).added note : Multiset α) + signature.notes := by
  cases place with
  | typeParameter index place =>
    simp only [attach, Edit.tree_map, Edit.added_map, notes, ← Multiset.coe_add,
      coe_notes_attachInVariables]
    abel
  | superclass =>
    rw [attach]
    split
    · simp
    · rename_i segments hsuperclass
      simp only [Edit.tree_map, Edit.added_map, notes, hsuperclass, Option.toList_some,
        List.flatMap_singleton, ← Multiset.coe_add, ClassType.coe_notes_attach]
      abel
  | implemented index =>
    rw [attach]
    split
    · simp
    · rename_i segments hsegments
      obtain ⟨before, after, hinterfaces, hset⟩ := exists_set_eq hsegments
      rw [Edit.tree_map, Edit.added_map, hset]
      simp only [notes, hinterfaces, List.flatMap_append, List.flatMap_cons, ← Multiset.coe_add,
        ClassType.coe_notes_attach]
      abel

end Attaching

/-! ### Placing the annotations of an attribute -/

/-- What an annotation leaves in a signature: itself, unless it is inside a method body. -/
def TypeUse.deposit (use : TypeUse) : List AnnotationUse :=
  if use.target = .code then [] else [use.note]

theorem flatMap_deposit (uses : List TypeUse) :
    uses.flatMap (·.deposit) = (uses.filter (·.target ≠ .code)).map (·.note) := by
  induction uses with
  | nil => rfl
  | cons use rest ih =>
    rw [List.flatMap_cons, ih, TypeUse.deposit]
    by_cases hcode : use.target = .code <;> simp [hcode]

/-- A step that was taken has added its deposit. -/
theorem coe_notes_of_toExcept {τ : Type} (notes : τ → List AnnotationUse) {use : TypeUse}
    {tree tree' : τ} {edit : Edit τ} {missing : Error}
    (hedit : (notes edit.tree : Multiset AnnotationUse)
      = (edit.added use.note : Multiset AnnotationUse) + notes tree)
    (hplace : edit.toExcept missing = .ok tree') (hcode : use.target ≠ .code) :
    (notes tree' : Multiset AnnotationUse)
      = (use.deposit : Multiset AnnotationUse) + notes tree := by
  obtain ⟨htree, hadded⟩ := Edit.of_toExcept_eq_ok hplace use.note
  rw [TypeUse.deposit, if_neg hcode, ← hadded, ← htree]
  exact hedit

/-- An annotation inside a method body leaves nothing. -/
theorem coe_notes_of_code {τ : Type} {notes : τ → List AnnotationUse} {use : TypeUse} {tree : τ}
    (hcode : use.target = .code) :
    (notes tree : Multiset AnnotationUse)
      = (use.deposit : Multiset AnnotationUse) + notes tree := by
  rw [TypeUse.deposit, if_pos hcode]
  exact (zero_add _).symm

theorem JavaType.coe_notes_place {field : String} {type type' : AnnotatedType} {use : TypeUse}
    (h : type.place field use = .ok type') :
    (type'.notes : Multiset AnnotationUse)
      = (use.deposit : Multiset AnnotationUse) + type.notes := by
  unfold place at h
  split at h
  · rename_i htarget
    exact coe_notes_of_toExcept notes (coe_notes_attach _ _ _) h (by simp [htarget])
  · rename_i htarget
    cases h
    exact coe_notes_of_code htarget
  · cases h

theorem MethodSignature.coe_notes_place {className method : String}
    {signature signature' : MethodSignature AnnotationUse} {use : TypeUse}
    (h : signature.place className method use = .ok signature') :
    (signature'.notes : Multiset AnnotationUse)
      = (use.deposit : Multiset AnnotationUse) + signature.notes := by
  unfold place at h
  cases htarget : use.target <;> rw [htarget] at h
  case code =>
    cases h
    exact coe_notes_of_code htarget
  case classTypeParameter | classTypeParameterBound | supertype | field => cases h
  all_goals exact coe_notes_of_toExcept notes (coe_notes_attach _ _ _ _) h (by simp [htarget])

theorem ClassSignature.coe_notes_place {signature signature' : ClassSignature AnnotationUse}
    {use : TypeUse} (h : signature.place use = .ok signature') :
    (signature'.notes : Multiset AnnotationUse)
      = (use.deposit : Multiset AnnotationUse) + signature.notes := by
  unfold place at h
  cases htarget : use.target <;> rw [htarget] at h
  case supertype index =>
    dsimp only at h
    split at h
    · exact coe_notes_of_toExcept notes (coe_notes_attach _ _ _ _) h (by simp [htarget])
    · exact coe_notes_of_toExcept notes (coe_notes_attach _ _ _ _) h (by simp [htarget])
  case code =>
    cases h
    exact coe_notes_of_code htarget
  case classTypeParameter | classTypeParameterBound =>
    exact coe_notes_of_toExcept notes (coe_notes_attach _ _ _ _) h (by simp [htarget])
  all_goals cases h

/-- Steps that were all taken have added all their deposits. -/
theorem coe_notes_foldlM {τ : Type} {notes : τ → List AnnotationUse}
    {place : τ → TypeUse → Except Error τ}
    (hplace : ∀ {tree tree' use}, place tree use = .ok tree' →
      (notes tree' : Multiset AnnotationUse)
        = (use.deposit : Multiset AnnotationUse) + notes tree)
    {uses : List TypeUse} {tree tree' : τ} (h : uses.foldlM place tree = .ok tree') :
    (notes tree' : Multiset AnnotationUse)
      = (uses.flatMap (·.deposit) : Multiset AnnotationUse) + notes tree := by
  induction uses generalizing tree with
  | nil =>
    cases h
    exact (zero_add _).symm
  | cons use rest ih =>
    rw [List.foldlM_cons] at h
    cases hfirst : place tree use with
    | error error =>
      rw [hfirst] at h
      cases h
    | ok middle =>
      rw [hfirst] at h
      rw [ih h, hplace hfirst, List.flatMap_cons, ← Multiset.coe_add]
      abel

theorem JavaType.coe_notes_placeAll {field : String} {type type' : AnnotatedType}
    {uses : List TypeUse} (h : type.placeAll field uses = .ok type') :
    (type'.notes : Multiset AnnotationUse)
      = (uses.flatMap (·.deposit) : Multiset AnnotationUse) + type.notes :=
  coe_notes_foldlM coe_notes_place h

theorem MethodSignature.coe_notes_placeAll {className method : String}
    {signature signature' : MethodSignature AnnotationUse} {uses : List TypeUse}
    (h : signature.placeAll className method uses = .ok signature') :
    (signature'.notes : Multiset AnnotationUse)
      = (uses.flatMap (·.deposit) : Multiset AnnotationUse) + signature.notes :=
  coe_notes_foldlM coe_notes_place h

theorem ClassSignature.coe_notes_placeAll {signature signature' : ClassSignature AnnotationUse}
    {uses : List TypeUse} (h : signature.placeAll uses = .ok signature') :
    (signature'.notes : Multiset AnnotationUse)
      = (uses.flatMap (·.deposit) : Multiset AnnotationUse) + signature.notes :=
  coe_notes_foldlM coe_notes_place h

end ClassAtlas
