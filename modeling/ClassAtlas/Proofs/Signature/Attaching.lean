import ClassAtlas.Signature.Attach
import Mathlib.Data.List.Basic

namespace ClassAtlas

/-!
# What attaching can do to a type

Attaching walks along a path, may split classes on its way, and appends an annotation to one list
of annotations or to none.

* `Edit.added` — what an edit has appended;
* `JavaType.Gains` — all the ways in which a type can gain annotations, one rule for each place;
* `JavaType.gains_attach`, `ClassType.gains_attach` — attaching goes by these rules.
-/

variable {α τ σ : Type}

/-! ### What an edit appends -/

/-- The annotations an edit has attached: the one it was asked to, unless it was refused. -/
def Edit.added (note : α) (edit : Edit τ) : List α :=
  match edit.refusal with
  | none => [note]
  | some _ => []

@[simp] theorem Edit.added_done (note : α) (tree : τ) : (Edit.done tree).added note = [note] := rfl

@[simp] theorem Edit.added_refused (note : α) (tree : τ) (cause : Malformation) :
    (Edit.refused tree cause).added note = [] := rfl

@[simp] theorem Edit.added_nowhere (note : α) (tree : τ) :
    (Edit.nowhere tree).added note = [] := rfl

@[simp] theorem Edit.added_map (note : α) (whole : τ → σ) (edit : Edit τ) :
    (edit.map whole).added note = edit.added note := rfl

@[simp] theorem Edit.tree_done (tree : τ) : (Edit.done tree).tree = tree := rfl

@[simp] theorem Edit.tree_refused (tree : τ) (cause : Malformation) :
    (Edit.refused tree cause).tree = tree := rfl

@[simp] theorem Edit.tree_nowhere (tree : τ) : (Edit.nowhere tree).tree = tree := rfl

@[simp] theorem Edit.tree_map (whole : τ → σ) (edit : Edit τ) :
    (edit.map whole).tree = whole edit.tree := rfl

/-- An edit that went well has attached the annotation. -/
theorem Edit.of_toExcept_eq_ok {missing : Error} {edit : Edit τ} {tree : τ}
    (h : edit.toExcept missing = .ok tree) (note : α) :
    edit.tree = tree ∧ edit.added note = [note] := by
  unfold Edit.toExcept at h
  split at h
  · rename_i hrefusal
    rw [Edit.added, hrefusal]
    exact ⟨Except.ok.inj h, rfl⟩
  · cases h
  · cases h

/-! ### The rules -/

/-- How a type becomes another one by gaining annotations at one place, with classes split on the
    way there. -/
inductive JavaType.Gains (added : List α) : JavaType α → JavaType α → Prop
  /-- Nothing is gained. -/
  | nothing (type : JavaType α) (h : added = []) : Gains added type type
  | primitive (kind : Primitive) (annotations : List α) :
    Gains added (.primitive kind annotations) (.primitive kind (annotations ++ added))
  | typeVariable (name : String) (annotations : List α) :
    Gains added (.typeVariable name annotations) (.typeVariable name (annotations ++ added))
  | wildcard (annotations : List α) :
    Gains added (.wildcard annotations) (.wildcard (annotations ++ added))
  | bounded (side : BoundSide) (bound : JavaType α) (annotations : List α) :
    Gains added (.bounded side bound annotations) (.bounded side bound (annotations ++ added))
  /-- Inside the bound of a wildcard. -/
  | bound (side : BoundSide) (annotations : List α) {bound bound' : JavaType α}
    (h : Gains added bound bound') :
    Gains added (.bounded side bound annotations) (.bounded side bound' annotations)
  | dimension (element : JavaType α) (outer : List (List α)) (annotations : List α)
    (inner : List (List α)) :
    Gains added (.array element (outer ++ annotations :: inner))
      (.array element (outer ++ (annotations ++ added) :: inner))
  /-- Inside the element of an array. -/
  | element (dimensions : List (List α)) {element element' : JavaType α}
    (h : Gains added element element') :
    Gains added (.array element dimensions) (.array element' dimensions)
  /-- After the innermost class is split. -/
  | split (outer : ClassType α) (innermost : ClassSegment α) {type : JavaType α}
    (h : Gains added (.ofClass (outer ++ innermost.split outer.isEmpty)) type) :
    Gains added (.ofClass (outer ++ [innermost])) type
  | segment (outer : ClassType α) (name : String) (arguments : List (JavaType α))
    (annotations : List α) (inner : ClassType α) :
    Gains added (.ofClass (outer ++ ⟨name, arguments, annotations⟩ :: inner))
      (.ofClass (outer ++ ⟨name, arguments, annotations ++ added⟩ :: inner))
  /-- Inside an argument of a class. -/
  | argument (outer : ClassType α) (name : String) (before after : List (JavaType α))
    (annotations : List α) (inner : ClassType α) {argument argument' : JavaType α}
    (h : Gains added argument argument') :
    Gains added (.ofClass (outer ++ ⟨name, before ++ argument :: after, annotations⟩ :: inner))
      (.ofClass (outer ++ ⟨name, before ++ argument' :: after, annotations⟩ :: inner))

/-! ### Attaching goes by the rules -/

/-- An entry of a list and what it is set to stand between the same entries. -/
theorem exists_set_eq {β : Type} {items : List β} {index : Nat} {item : β}
    (h : items[index]? = some item) :
    ∃ before after, items = before ++ item :: after
      ∧ ∀ item', items.set index item' = before ++ item' :: after := by
  obtain ⟨hindex, rfl⟩ := List.getElem?_eq_some_iff.mp h
  refine ⟨items.take index, items.drop (index + 1), ?_, fun item' => ?_⟩
  · rw [List.getElem_cons_drop, List.take_append_drop]
  · exact List.set_eq_take_append_cons_drop.trans (if_pos hindex)

theorem ClassType.splitInnermost_concat (outer : ClassType α) (innermost : ClassSegment α) :
    splitInnermost (outer ++ [innermost]) = outer ++ innermost.split outer.isEmpty := by
  have hsingle : decide ((outer ++ [innermost]).length = 1) = outer.isEmpty := by
    cases outer <;> simp
  rw [splitInnermost, List.getLast?_concat]
  simp only [List.dropLast_concat, hsingle]

/-- The classes that a path leads into are those written, or the split ones where it goes deeper. -/
theorem JavaType.Gains.shaped {added : List α} {segments : ClassType α} {type : JavaType α}
    (depth : Nat)
    (h : Gains added
      (.ofClass (if depth < segments.length then segments else segments.splitInnermost)) type) :
    Gains added (.ofClass segments) type := by
  split at h
  · exact h
  · rcases List.eq_nil_or_concat segments with rfl | ⟨outer, innermost, rfl⟩
    · exact h
    · rw [List.concat_eq_append, ClassType.splitInnermost_concat] at h
      rw [List.concat_eq_append]
      exact .split outer innermost h

variable [ToString α]

-- By recursion on the path and then on the type, as attaching itself.
mutual

theorem JavaType.gains_attach (note : α) (path : TypePath) (type : JavaType α) :
    type.Gains ((type.attach note path).added note) (type.attach note path).tree := by
  cases type with
  | primitive kind annotations =>
    rw [JavaType.attach]
    split
    · exact .primitive kind annotations
    · exact .nothing _ rfl
  | typeVariable name annotations =>
    rw [JavaType.attach]
    split
    · exact .typeVariable name annotations
    · exact .nothing _ rfl
  | ofClass segments =>
    rw [JavaType.attach]
    exact ClassType.gains_attach note path segments
  | array element dimensions =>
    rw [JavaType.attach]
    split
    · rename_i hinside
      split
      · obtain ⟨outer, annotations, inner, hdimensions, -, hmodify⟩ :=
          List.exists_of_modify (· ++ [note]) hinside
        rw [hmodify, hdimensions]
        exact .dimension element outer annotations inner
      · exact .nothing _ rfl
    · exact .element dimensions (JavaType.gains_attach note (path.drop dimensions.length) element)
  | wildcard annotations =>
    rw [JavaType.attach.eq_def]
    dsimp only
    split
    · exact .wildcard annotations
    · exact .nothing _ rfl
    · exact .nothing _ rfl
  | bounded side bound annotations =>
    rw [JavaType.attach.eq_def]
    dsimp only
    split
    · exact .bounded side bound annotations
    · rename_i rest
      exact .bound side annotations (JavaType.gains_attach note rest bound)
    · exact .nothing _ rfl
termination_by (path.length, sizeOf type)
decreasing_by
  · exact Prod.Lex.right _ (by simp only [JavaType.ofClass.sizeOf_spec]; omega)
  · exact Prod.Lex.right' _ (by simp) (by simp only [JavaType.array.sizeOf_spec]; omega)
  · rename_i hpath
    exact Prod.Lex.left _ _ (by simp [hpath])

theorem ClassType.gains_attach (note : α) (path : TypePath) (segments : ClassType α) :
    (JavaType.ofClass segments).Gains ((ClassType.attach note path segments).added note)
      (.ofClass (ClassType.attach note path segments).tree) := by
  rw [ClassType.attach]
  split
  · exact .shaped _ (.nothing _ rfl)
  · rename_i segment hsegment
    obtain ⟨outer, inner, hshaped, hset⟩ := exists_set_eq hsegment
    obtain ⟨name, arguments, annotations⟩ := segment
    split
    · -- The path ends at a class, which is there or comes of splitting the innermost one.
      refine .shaped (path.leading .nested) ?_
      rw [Edit.tree_done, Edit.added_done, hset, hshaped]
      exact .segment outer name arguments annotations inner
    · rename_i index rest hentered
      split
      · exact .shaped _ (.nothing _ rfl)
      · rename_i argument hargument
        obtain ⟨before, after, harguments, hsetArgument⟩ := exists_set_eq hargument
        have hshorter : rest.length < path.length := by
          have hlength := congrArg List.length hentered
          simp only [List.length_drop, List.length_cons] at hlength
          omega
        refine .shaped (path.leading .nested) ?_
        obtain rfl : arguments = before ++ argument :: after := harguments
        rw [Edit.tree_map, Edit.added_map, hset, hshaped, hsetArgument]
        exact .argument outer name before after annotations inner
          (JavaType.gains_attach note rest argument)
    · exact .shaped _ (.nothing _ rfl)
termination_by (path.length, sizeOf segments)
decreasing_by exact Prod.Lex.left _ _ (by assumption)

end

end ClassAtlas
