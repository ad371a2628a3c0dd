import ClassAtlas.Proofs.Signature.Following

namespace ClassAtlas

/-!
# Attachments at different places

Two annotations that are attached along different paths end up in the same places in either order,
wherever both orders are possible.  One of them may split a class that the other one meets.

* `CommutesOn` — two edits that come to the same in either order;
* `editAt` — the edit of one entry of a list, with `commutesOn_editAt`;
* `ClassSegment.attach?`, `ClassType.done?_attach` — attaching to a class type as such an edit;
* `ClassType.splitInnermost_of_editAt` — a split after an edit is an edit after the split;
* `JavaType.attach_comm` — attachments commute.
-/

/-! ### Edits that commute -/

section Edits

variable {β : Type}

/-- Wherever both edits go well in either order, they come to the same. -/
def CommutesOn (edit edit' : β → Option β) (item : β) : Prop :=
  ∀ item₁ item₁₂ item₂ item₂₁, edit item = some item₁ → edit' item₁ = some item₁₂ →
    edit' item = some item₂ → edit item₂ = some item₂₁ → item₁₂ = item₂₁

theorem CommutesOn.symm {edit edit' : β → Option β} {item : β} (h : CommutesOn edit edit' item) :
    CommutesOn edit' edit item :=
  fun _ _ _ _ h₁ h₁₂ h₂ h₂₁ => (h _ _ _ _ h₂ h₂₁ h₁ h₁₂).symm

/-- The edit of one entry of a list. -/
def editAt (index : Nat) (edit : β → Option β) (items : List β) : Option (List β) :=
  items[index]?.bind fun item => (edit item).map (items.set index ·)

variable {index index' : Nat} {edit edit' : β → Option β} {items items' : List β}

theorem editAt_eq_some : editAt index edit items = some items'
    ↔ ∃ item item', items[index]? = some item ∧ edit item = some item'
      ∧ items' = items.set index item' := by
  rw [editAt, Option.bind_eq_some_iff]
  simp only [Option.map_eq_some_iff]
  constructor
  · rintro ⟨item, hitem, item', hitem', rfl⟩
    exact ⟨item, item', hitem, hitem', rfl⟩
  · rintro ⟨item, item', hitem, hitem', rfl⟩
    exact ⟨item, hitem, item', hitem', rfl⟩

theorem length_of_editAt (h : editAt index edit items = some items') :
    index < items.length ∧ items'.length = items.length := by
  obtain ⟨item, item', hitem, -, rfl⟩ := editAt_eq_some.mp h
  exact ⟨(List.getElem?_eq_some_iff.mp hitem).1, List.length_set⟩

/-- An edit elsewhere does not change what an edit finds. -/
theorem editAt_set_of_ne (hne : index ≠ index') (item : β) :
    editAt index edit (items.set index' item)
      = (editAt index edit items).map (·.set index' item) := by
  rw [editAt, editAt, List.getElem?_set_ne (Ne.symm hne)]
  cases items[index]? with
  | none => rfl
  | some found =>
    rw [Option.bind_some, Option.bind_some]
    cases edit found with
    | none => rfl
    | some found' => exact congrArg some (List.set_comm _ _ (Ne.symm hne))

theorem commutesOn_editAt (h : ∀ item, items[index]? = some item → index = index' →
    CommutesOn edit edit' item) : CommutesOn (editAt index edit) (editAt index' edit') items := by
  intro items₁ items₁₂ items₂ items₂₁ h₁ h₁₂ h₂ h₂₁
  obtain ⟨item, item₁, hitem, hedit, rfl⟩ := editAt_eq_some.mp h₁
  obtain ⟨item', item₂, hitem', hedit', rfl⟩ := editAt_eq_some.mp h₂
  by_cases heq : index = index'
  · subst heq
    have hbound := (List.getElem?_eq_some_iff.mp hitem).1
    obtain rfl : item = item' := Option.some.inj (hitem.symm.trans hitem')
    obtain ⟨_, item₁₂, hfound, hedit₁₂, rfl⟩ := editAt_eq_some.mp h₁₂
    obtain ⟨_, item₂₁, hfound', hedit₂₁, rfl⟩ := editAt_eq_some.mp h₂₁
    rw [List.getElem?_set_self hbound] at hfound hfound'
    cases hfound
    cases hfound'
    rw [List.set_set, List.set_set, h item hitem rfl _ _ _ _ hedit hedit₁₂ hedit' hedit₂₁]
  · -- Both entries are as they were, whichever is set first.
    rw [editAt_set_of_ne (Ne.symm heq), h₂] at h₁₂
    rw [editAt_set_of_ne heq, h₁] at h₂₁
    cases h₁₂
    cases h₂₁
    exact List.set_comm _ _ (Ne.symm heq)

end Edits

variable {α : Type}

/-- The tree, if the edit went well. -/
def Edit.done? {τ : Type} (edit : Edit τ) : Option τ :=
  match edit.refusal with
  | none => some edit.tree
  | some _ => none

@[simp] theorem Edit.done?_done {τ : Type} (tree : τ) : (Edit.done tree).done? = some tree := rfl

@[simp] theorem Edit.done?_refused {τ : Type} (tree : τ) (cause : Malformation) :
    (Edit.refused tree cause).done? = none := rfl

@[simp] theorem Edit.done?_map {τ σ : Type} (whole : τ → σ) (edit : Edit τ) :
    (edit.map whole).done? = edit.done?.map whole := by
  obtain ⟨tree, refusal⟩ := edit
  cases refusal <;> rfl

variable [ToString α]

/-- The type with the annotation attached, if it can be. -/
def JavaType.attach? (note : α) (path : TypePath) (type : JavaType α) : Option (JavaType α) :=
  (type.attach note path).done?

/-- The class with the annotation attached to itself or inside an argument, if it can be. -/
def ClassSegment.attach? (note : α) (path : TypePath) (segment : ClassSegment α) :
    Option (ClassSegment α) :=
  match path with
  | [] => some { segment with annotations := segment.annotations ++ [note] }
  | .argument index :: rest =>
    (editAt index.toNat (JavaType.attach? note rest) segment.arguments).map fun arguments =>
      { segment with arguments := arguments }
  | _ => none

/-- Attaching to a class type is an edit of one of its classes, or of those it is split into. -/
theorem ClassType.done?_attach (note : α) (path : TypePath) (segments : ClassType α) :
    (ClassType.attach note path segments).done?
      = editAt (path.leading .nested)
        (ClassSegment.attach? note (path.drop (path.leading .nested)))
        (segments.shapedFor (path.leading .nested)) := by
  rw [ClassType.attach, ← shapedFor, editAt]
  cases (segments.shapedFor (path.leading .nested))[path.leading .nested]? with
  | none => rfl
  | some segment =>
    dsimp only [Option.bind_some]
    split
    · rename_i hentered
      rw [hentered]
      rfl
    · rename_i index rest hentered
      rw [hentered, ClassSegment.attach?, editAt]
      cases segment.arguments[index.toNat]? with
      | none => rfl
      | some argument =>
        dsimp only [Option.bind_some]
        rw [Edit.done?_map, Option.map_map, Option.map_map]
        rfl
    · rename_i hempty hargument
      rw [ClassSegment.attach?.eq_3 _ _ _ hempty hargument]
      rfl

/-! ### Splitting and editing -/

/-- A class that stands for several ones has its annotations on the first of them, which cannot be
    entered further. -/
theorem ClassSegment.split_of_attach? {note : α} {path : TypePath} {outermost : Bool}
    {segment segment' first first' : ClassSegment α} {inner : ClassType α}
    (hsplit : segment.split outermost = first :: inner) (hinner : inner ≠ [])
    (h : segment.attach? note path = some segment')
    (hfirst : first.attach? note path = some first') :
    segment'.split outermost = first' :: inner := by
  obtain ⟨part, inner', hparts, hsplit'⟩ := exists_split_eq outermost segment
  obtain ⟨rfl, rfl⟩ := List.cons.inj (hsplit'.symm.trans hsplit)
  have harguments : part.arguments = [] := by
    obtain ⟨name, middle, -, hnames⟩ := exists_nestedNames_eq outermost segment.name
    rw [hnames] at hparts
    cases middle with
    | nil =>
      rw [List.map_nil, argumentsOnLast] at hparts
      exact absurd (List.cons.inj hparts).2.symm hinner
    | cons next middle =>
      rw [List.map_cons, argumentsOnLast] at hparts
      · rw [← (List.cons.inj hparts).1]
      · simp
  unfold attach? at h hfirst
  split at h
  · cases h
    cases hfirst
    rw [split, hparts]
  · rw [harguments] at hfirst
    cases hfirst
  · cases h

/-- A split after an edit is an edit after the split. -/
theorem ClassType.splitInnermost_of_editAt {note : α} {path : TypePath} {depth : Nat}
    {segments segments' parts parts' : ClassType α} (hparts : segments.splitInnermost = parts)
    (hlonger : segments.length < parts.length)
    (h : editAt depth (ClassSegment.attach? note path) segments = some segments')
    (hedit : editAt depth (ClassSegment.attach? note path) parts = some parts') :
    segments'.splitInnermost = parts' := by
  obtain ⟨segment, segment', hsegment, hattach, rfl⟩ := editAt_eq_some.mp h
  obtain ⟨part, part', hpart, hattach', rfl⟩ := editAt_eq_some.mp hedit
  have hdepth := (List.getElem?_eq_some_iff.mp hsegment).1
  rcases List.eq_nil_or_concat segments with rfl | ⟨outer, innermost, rfl⟩
  · exact absurd hdepth (Nat.not_lt_zero _)
  · rw [List.concat_eq_append] at *
    rw [splitInnermost_concat] at hparts
    subst hparts
    by_cases houter : depth < outer.length
    · -- The edited class is in front of the one that is split.
      rw [List.getElem?_append_left houter] at hsegment hpart
      cases hsegment.symm.trans hpart
      cases hattach.symm.trans hattach'
      rw [List.set_append_left _ _ houter, List.set_append_left _ _ houter, splitInnermost_concat]
      have hempty : (outer.set depth segment').isEmpty = outer.isEmpty := by
        cases outer <;> cases depth <;> rfl
      rw [hempty]
    · -- It is the one that is split.
      have heq : depth = outer.length := by
        rw [List.length_append, List.length_singleton] at hdepth
        omega
      subst heq
      obtain ⟨first, inner, -, hsplit⟩ := exists_split_eq outer.isEmpty innermost
      have hinner : inner ≠ [] := by
        rintro rfl
        rw [hsplit] at hlonger
        simp at hlonger
      rw [List.getElem?_append_right le_rfl, Nat.sub_self] at hsegment hpart
      rw [hsplit] at hpart ⊢
      cases hsegment
      cases hpart
      rw [List.set_append_right _ _ le_rfl, List.set_append_right _ _ le_rfl, Nat.sub_self,
        List.set_cons_zero, List.set_cons_zero, splitInnermost_concat,
        ClassSegment.split_of_attach? hsplit hinner hattach hattach']

/-! ### In a class type -/

section Shapes

variable {depth depth' : Nat} {edit edit' : ClassSegment α → Option (ClassSegment α)}
  {segments shaped : ClassType α}

omit [ToString α] in
/-- Edits of the same classes commute if those of the entries of a list do. -/
theorem commutesOn_shaped (hdepth : segments.shapedFor depth = shaped)
    (hdepth' : segments.shapedFor depth' = shaped)
    (h : CommutesOn (editAt depth edit) (editAt depth' edit') shaped) :
    CommutesOn (fun segments : ClassType α => editAt depth edit (segments.shapedFor depth))
      (fun segments : ClassType α => editAt depth' edit' (segments.shapedFor depth')) segments := by
  intro segments₁ segments₁₂ segments₂ segments₂₁ h₁ h₁₂ h₂ h₂₁
  dsimp only at h₁ h₁₂ h₂ h₂₁
  rw [hdepth] at h₁
  rw [hdepth'] at h₂
  -- After the one edit the other one finds a class at its depth, so nothing is split any more.
  have hbound := length_of_editAt h₁
  have hbound' := length_of_editAt h₂
  rw [ClassType.shapedFor_of_lt (by omega)] at h₁₂ h₂₁
  exact h _ _ _ _ h₁ h₁₂ h₂ h₂₁

/-- So do an annotation on a class that is written and the edit of one that comes of a split. -/
theorem commutesOn_split {note : α} {path : TypePath} (hdepth : depth < segments.length)
    (hdepth' : segments.length ≤ depth') :
    CommutesOn (fun segments : ClassType α =>
        editAt depth (ClassSegment.attach? note path) (segments.shapedFor depth))
      (fun segments : ClassType α => editAt depth' edit' (segments.shapedFor depth'))
      segments := by
  intro segments₁ segments₁₂ segments₂ segments₂₁ h₁ h₁₂ h₂ h₂₁
  dsimp only at h₁ h₁₂ h₂ h₂₁
  rw [ClassType.shapedFor_of_lt hdepth] at h₁
  rw [ClassType.shapedFor, if_neg (by omega)] at h₂
  have hbound := length_of_editAt h₁
  have hbound' := length_of_editAt h₂
  rw [ClassType.shapedFor, if_neg (by omega)] at h₁₂
  rw [ClassType.shapedFor_of_lt (by omega)] at h₂₁
  -- The first edit goes well on the split classes too, whether the second one was made or not.
  obtain ⟨parts', hparts'⟩ : ∃ parts', editAt depth (ClassSegment.attach? note path)
      segments.splitInnermost = some parts' := by
    obtain ⟨part, part', -, -, rfl⟩ := editAt_eq_some.mp h₂
    rw [editAt_set_of_ne (by omega), Option.map_eq_some_iff] at h₂₁
    obtain ⟨parts', hparts', -⟩ := h₂₁
    exact ⟨parts', hparts'⟩
  rw [ClassType.splitInnermost_of_editAt rfl (by omega) h₁ hparts'] at h₁₂
  have hne : depth ≠ depth' := by omega
  exact commutesOn_editAt (fun _ _ heq => absurd heq hne) _ _ _ _ hparts' h₁₂ h₂ h₂₁

end Shapes

variable {note note' : α} {path path' : TypePath}

/-- Attachments to one class commute if those to its arguments do. -/
theorem ClassSegment.commutesOn_attach? (hne : path ≠ path')
    (h : ∀ index rest rest' argument, path = .argument index :: rest →
      path' = .argument index :: rest' →
      CommutesOn (JavaType.attach? note rest) (JavaType.attach? note' rest') argument)
    (segment : ClassSegment α) :
    CommutesOn (ClassSegment.attach? note path) (ClassSegment.attach? note' path') segment := by
  intro segment₁ segment₁₂ segment₂ segment₂₁ h₁ h₁₂ h₂ h₂₁
  unfold attach? at h₁ h₁₂ h₂ h₂₁
  split at h₁
  · split at h₁₂
    · exact absurd rfl hne
    · cases h₁
      obtain ⟨arguments, harguments, rfl⟩ := Option.map_eq_some_iff.mp h₁₂
      obtain ⟨arguments', harguments', rfl⟩ := Option.map_eq_some_iff.mp h₂
      cases h₂₁
      cases harguments.symm.trans harguments'
      rfl
    · cases h₁₂
  · rename_i index rest
    obtain ⟨arguments, harguments, rfl⟩ := Option.map_eq_some_iff.mp h₁
    split at h₁₂
    · cases h₁₂
      cases h₂
      obtain ⟨arguments', harguments', rfl⟩ := Option.map_eq_some_iff.mp h₂₁
      cases harguments.symm.trans harguments'
      rfl
    · rename_i index' rest'
      obtain ⟨arguments₁₂, harguments₁₂, rfl⟩ := Option.map_eq_some_iff.mp h₁₂
      obtain ⟨arguments₂, harguments₂, rfl⟩ := Option.map_eq_some_iff.mp h₂
      obtain ⟨arguments₂₁, harguments₂₁, rfl⟩ := Option.map_eq_some_iff.mp h₂₁
      have hcommute : CommutesOn (editAt index.toNat (JavaType.attach? note rest))
          (editAt index'.toNat (JavaType.attach? note' rest')) segment.arguments := by
        refine commutesOn_editAt fun argument _ heq => ?_
        obtain rfl := UInt8.toNat_inj.mp heq
        exact h index rest rest' argument rfl rfl
      rw [hcommute _ _ _ _ harguments harguments₁₂ harguments₂ harguments₂₁]
    · cases h₁₂
  · cases h₁

/-- Attachments to a class type commute if those to the arguments of its classes do. -/
theorem ClassType.commutesOn_attach (hne : path ≠ path')
    (h : ∀ rest rest' argument, rest ≠ rest' → rest.length < path.length →
      CommutesOn (JavaType.attach? note rest) (JavaType.attach? note' rest') argument)
    (segments : ClassType α) :
    CommutesOn (fun segments => (ClassType.attach note path segments).done?)
      (fun segments => (ClassType.attach note' path' segments).done?) segments := by
  simp only [done?_attach]
  have hpath := path.replicate_leading_append .nested
  have hpath' := path'.replicate_leading_append .nested
  -- At one depth, the paths differ behind it.
  have hitems : ∀ items : ClassType α, CommutesOn
      (editAt (path.leading .nested) (ClassSegment.attach? note (path.drop (path.leading .nested))))
      (editAt (path'.leading .nested)
        (ClassSegment.attach? note' (path'.drop (path'.leading .nested)))) items := by
    refine fun items => commutesOn_editAt fun segment _ hdepth => ?_
    rw [hdepth] at hpath ⊢
    refine ClassSegment.commutesOn_attach? ?_ ?_ segment
    · rintro heq
      exact hne (hpath.symm.trans (heq ▸ hpath'))
    · intro index rest rest' argument hrest hrest'
      rw [hrest] at hpath
      rw [hrest'] at hpath'
      refine h rest rest' argument ?_ ?_
      · rintro rfl
        exact hne (hpath.symm.trans hpath')
      · rw [← hpath, List.length_append, List.length_cons]
        omega
  by_cases hdepth : path.leading .nested < segments.length
  · by_cases hdepth' : path'.leading .nested < segments.length
    · exact commutesOn_shaped (shapedFor_of_lt hdepth) (shapedFor_of_lt hdepth') (hitems segments)
    · exact commutesOn_split hdepth (Nat.not_lt.mp hdepth')
  · by_cases hdepth' : path'.leading .nested < segments.length
    · exact (commutesOn_split hdepth' (Nat.not_lt.mp hdepth)).symm
    · exact commutesOn_shaped (if_neg hdepth) (if_neg hdepth') (hitems segments.splitInnermost)

/-! ### In a type -/

/-- The edit of a part of a tree commutes with another one if they commute on the part. -/
theorem commutesOn_map {τ σ : Type} {whole : τ → σ} {edit edit' : σ → Option σ}
    {inside inside' : τ → Option τ} (hedit : ∀ part, edit (whole part) = (inside part).map whole)
    (hedit' : ∀ part, edit' (whole part) = (inside' part).map whole) {part : τ}
    (h : CommutesOn inside inside' part) : CommutesOn edit edit' (whole part) := by
  intro tree₁ tree₁₂ tree₂ tree₂₁ h₁ h₁₂ h₂ h₂₁
  rw [hedit] at h₁
  rw [hedit'] at h₂
  obtain ⟨part₁, hpart₁, rfl⟩ := Option.map_eq_some_iff.mp h₁
  obtain ⟨part₂, hpart₂, rfl⟩ := Option.map_eq_some_iff.mp h₂
  rw [hedit'] at h₁₂
  rw [hedit] at h₂₁
  obtain ⟨part₁₂, hpart₁₂, rfl⟩ := Option.map_eq_some_iff.mp h₁₂
  obtain ⟨part₂₁, hpart₂₁, rfl⟩ := Option.map_eq_some_iff.mp h₂₁
  rw [h _ _ _ _ hpart₁ hpart₁₂ hpart₂ hpart₂₁]

namespace JavaType

theorem attach?_ofClass (note : α) (path : TypePath) (segments : ClassType α) :
    (JavaType.ofClass segments).attach? note path
      = (ClassType.attach note path segments).done?.map .ofClass := by
  rw [attach?, JavaType.attach, Edit.done?_map]

/-- Attaching to an array: at one of its dimensions or inside its element. -/
theorem attach?_array (note : α) (path : TypePath) (element : JavaType α)
    (dimensions : List (List α)) :
    (JavaType.array element dimensions).attach? note path
      = if path.leading .element < dimensions.length then
          if path.leading .element = path.length then
            some (.array element (dimensions.modify (path.leading .element) (· ++ [note])))
          else none
        else (element.attach? note (path.drop dimensions.length)).map (.array · dimensions) := by
  rw [attach?, JavaType.attach]
  split
  · split <;> rfl
  · exact Edit.done?_map _ _

/-- A path that ends in front of the element is made of steps to dimensions. -/
theorem eq_replicate_of_leading_eq {path : TypePath} (h : path.leading .element = path.length) :
    path = List.replicate (path.leading .element) .element := by
  have hpath := path.replicate_leading_append .element
  rw [h, List.drop_length, List.append_nil, ← h] at hpath
  exact hpath.symm

/-- An annotation on a dimension and one inside the element do not meet. -/
theorem commutesOn_attach?_dimension {element : JavaType α} {dimensions : List (List α)}
    (hinside : path.leading .element < dimensions.length)
    (hbeyond : ¬path'.leading .element < dimensions.length) :
    CommutesOn (attach? note path) (attach? note' path') (.array element dimensions) := by
  intro type₁ type₁₂ type₂ type₂₁ h₁ h₁₂ h₂ h₂₁
  rw [attach?_array, if_pos hinside] at h₁
  rw [attach?_array, if_neg hbeyond] at h₂
  split at h₁
  · rename_i hpath
    cases h₁
    obtain ⟨element', helement', rfl⟩ := Option.map_eq_some_iff.mp h₂
    rw [attach?_array, List.length_modify, if_neg hbeyond, helement'] at h₁₂
    rw [attach?_array, if_pos hinside, if_pos hpath] at h₂₁
    cases h₁₂
    cases h₂₁
    rfl
  · cases h₁

/-- Attachments to an array commute if those to its element do. -/
theorem commutesOn_attach?_array (hne : path ≠ path') (element : JavaType α)
    (dimensions : List (List α))
    (h : path.drop dimensions.length ≠ path'.drop dimensions.length →
      CommutesOn (attach? note (path.drop dimensions.length))
        (attach? note' (path'.drop dimensions.length)) element) :
    CommutesOn (attach? note path) (attach? note' path') (.array element dimensions) := by
  by_cases hinside : path.leading .element < dimensions.length
  · by_cases hinside' : path'.leading .element < dimensions.length
    · -- At two dimensions, which are not the same one.
      intro type₁ type₁₂ type₂ type₂₁ h₁ h₁₂ h₂ h₂₁
      rw [attach?_array, if_pos hinside] at h₁
      rw [attach?_array, if_pos hinside'] at h₂
      split at h₁
      · rename_i hpath
        split at h₂
        · rename_i hpath'
          cases h₁
          cases h₂
          rw [attach?_array, if_pos (by simpa using hinside'), if_pos hpath'] at h₁₂
          rw [attach?_array, if_pos (by simpa using hinside), if_pos hpath] at h₂₁
          cases h₁₂
          cases h₂₁
          have hleading : path.leading .element ≠ path'.leading .element := by
            intro heq
            apply hne
            rw [eq_replicate_of_leading_eq hpath, eq_replicate_of_leading_eq hpath', heq]
          rw [List.modify_modify_ne _ _ _ hleading]
        · cases h₂
      · cases h₁
    · exact commutesOn_attach?_dimension hinside hinside'
  · by_cases hinside' : path'.leading .element < dimensions.length
    · exact (commutesOn_attach?_dimension hinside' hinside).symm
    · -- Both are inside the element.
      have hpath := TypePath.replicate_append_drop (Nat.not_lt.mp hinside)
      have hpath' := TypePath.replicate_append_drop (Nat.not_lt.mp hinside')
      have hdrop : path.drop dimensions.length ≠ path'.drop dimensions.length := fun heq =>
        hne (hpath.symm.trans (heq ▸ hpath'))
      have hwhole : ∀ (note : α) (path : TypePath), ¬path.leading .element < dimensions.length →
          ∀ part : JavaType α, (JavaType.array part dimensions).attach? note path
            = (part.attach? note (path.drop dimensions.length)).map (.array · dimensions) :=
        fun note path hbeyond part => by rw [attach?_array, if_neg hbeyond]
      exact commutesOn_map (hwhole note path hinside) (hwhole note' path' hinside') (h hdrop)

/-- Attaching to a wildcard with a bound: to itself or inside the bound. -/
theorem attach?_bounded (note : α) (path : TypePath) (side : BoundSide) (bound : JavaType α)
    (annotations : List α) :
    (JavaType.bounded side bound annotations).attach? note path
      = match path with
        | [] => some (.bounded side bound (annotations ++ [note]))
        | .bound :: rest => (bound.attach? note rest).map (.bounded side · annotations)
        | _ => none := by
  rw [attach?, JavaType.attach.eq_def]
  cases path with
  | nil => rfl
  | cons step rest =>
    cases step with
    | bound => exact Edit.done?_map _ _
    | element => rfl
    | nested => rfl
    | argument index => rfl

/-- Attachments to a wildcard with a bound commute if those to the bound do. -/
theorem commutesOn_attach?_bounded (hne : path ≠ path') (side : BoundSide) (bound : JavaType α)
    (annotations : List α)
    (h : ∀ rest rest' : TypePath, rest ≠ rest' → rest.length < path.length →
      CommutesOn (attach? note rest) (attach? note' rest') bound) :
    CommutesOn (attach? note path) (attach? note' path') (.bounded side bound annotations) := by
  intro type₁ type₁₂ type₂ type₂₁ h₁ h₁₂ h₂ h₂₁
  rw [attach?_bounded] at h₁ h₂
  split at h₁
  · cases h₁
    split at h₂
    · exact absurd rfl hne
    · obtain ⟨bound', hbound', rfl⟩ := Option.map_eq_some_iff.mp h₂
      rw [attach?_bounded] at h₁₂ h₂₁
      cases h₂₁
      dsimp only at h₁₂
      rw [hbound'] at h₁₂
      cases h₁₂
      rfl
    · cases h₂
  · rename_i rest
    split at h₂
    · obtain ⟨bound', hbound', rfl⟩ := Option.map_eq_some_iff.mp h₁
      cases h₂
      rw [attach?_bounded] at h₁₂ h₂₁
      cases h₁₂
      dsimp only at h₂₁
      rw [hbound'] at h₂₁
      cases h₂₁
      rfl
    · rename_i rest'
      have hrest : rest ≠ rest' := fun heq => hne (heq ▸ rfl)
      have hwhole : ∀ (note : α) (rest : TypePath) (part : JavaType α),
          (JavaType.bounded side part annotations).attach? note (.bound :: rest)
            = (part.attach? note rest).map (.bounded side · annotations) :=
        fun note rest part => attach?_bounded note (.bound :: rest) side part annotations
      rw [← hwhole] at h₁ h₂
      exact commutesOn_map (hwhole note rest) (hwhole note' rest') (h rest rest' hrest (by simp))
        _ _ _ _ h₁ h₁₂ h₂ h₂₁
    · cases h₂
  · cases h₁

/-- A type that only the empty path leads to. -/
theorem commutesOn_attach?_leaf (hne : path ≠ path') {type : JavaType α}
    (h : ∀ (note : α) (path : TypePath), path ≠ [] → type.attach? note path = none) :
    CommutesOn (attach? note path) (attach? note' path') type := by
  intro type₁ type₁₂ type₂ type₂₁ h₁ _ h₂ _
  by_cases hpath : path = []
  · rw [h note' path' (fun hpath' => hne (hpath.trans hpath'.symm))] at h₂
    cases h₂
  · rw [h note path hpath] at h₁
    cases h₁

theorem commutesOn_attach? (note note' : α) {path path' : TypePath} (hne : path ≠ path')
    (type : JavaType α) : CommutesOn (attach? note path) (attach? note' path') type := by
  cases type with
  | primitive kind annotations =>
    refine commutesOn_attach?_leaf hne fun note path hpath => ?_
    rw [attach?, JavaType.attach, if_neg (by simpa using hpath), Edit.done?_refused]
  | typeVariable name annotations =>
    refine commutesOn_attach?_leaf hne fun note path hpath => ?_
    rw [attach?, JavaType.attach, if_neg (by simpa using hpath), Edit.done?_refused]
  | wildcard annotations =>
    refine commutesOn_attach?_leaf hne fun note path hpath => ?_
    rw [attach?, JavaType.attach.eq_def]
    dsimp only
    split
    · exact absurd rfl hpath
    · rfl
    · rfl
  | ofClass segments =>
    exact commutesOn_map (attach?_ofClass note path) (attach?_ofClass note' path')
      (ClassType.commutesOn_attach hne
        (fun rest rest' argument hrest hshorter => commutesOn_attach? note note' hrest argument)
        segments)
  | array element dimensions =>
    exact commutesOn_attach?_array hne element dimensions fun hdrop =>
      commutesOn_attach? note note' hdrop element
  | bounded side bound annotations =>
    exact commutesOn_attach?_bounded hne side bound annotations
      fun rest rest' hrest hshorter => commutesOn_attach? note note' hrest bound
termination_by (path.length, sizeOf type)
decreasing_by
  · exact Prod.Lex.left _ _ hshorter
  · exact Prod.Lex.right' _ (by simp) (by simp only [JavaType.array.sizeOf_spec]; omega)
  · exact Prod.Lex.left _ _ hshorter

/-- **Attachments commute.** Two annotations attached along different paths, in either order, come
    to the same type if both orders are possible. -/
theorem attach_comm {note note' : α} {path path' : TypePath}
    {type type₁ type₁₂ type₂ type₂₁ : JavaType α} (hne : path ≠ path')
    (h₁ : type.attach note path = .done type₁) (h₁₂ : type₁.attach note' path' = .done type₁₂)
    (h₂ : type.attach note' path' = .done type₂) (h₂₁ : type₂.attach note path = .done type₂₁) :
    type₁₂ = type₂₁ := by
  have hdone : ∀ {note : α} {path : TypePath} {type type' : JavaType α},
      type.attach note path = .done type' → type.attach? note path = some type' := by
    intro note path type type' h
    rw [attach?, h, Edit.done?_done]
  exact commutesOn_attach? note note' hne type _ _ _ _ (hdone h₁) (hdone h₁₂) (hdone h₂) (hdone h₂₁)

/-- A class inside another one, written as one class. -/
def writtenAsOne (annotations : List Nat) : JavaType Nat :=
  .ofClass [⟨"p.A$B", [.typeVariable "T" []], annotations⟩]

/-- The same class, written as two. -/
def writtenAsTwo (outer argument : List Nat) : JavaType Nat :=
  .ofClass [⟨"p.A", [], outer⟩, ⟨"B", [.typeVariable "T" argument], []⟩]

/-- The one annotation is on the class before it is split, or on the first of the two after. -/
theorem attach_comm_writtenAsOne : ∃ type₁ type₁₂ type₂ type₂₁ : JavaType Nat,
    (writtenAsOne []).attach 0 [] = .done type₁
      ∧ type₁.attach 1 [.nested, .argument 0] = .done type₁₂
      ∧ (writtenAsOne []).attach 1 [.nested, .argument 0] = .done type₂
      ∧ type₂.attach 0 [] = .done type₂₁
      ∧ type₁₂ = type₂₁ := by
  have h₁ : (writtenAsOne []).attach 0 [] = .done (writtenAsOne [0]) := by cbv
  have h₁₂ : (writtenAsOne [0]).attach 1 [.nested, .argument 0]
      = .done (writtenAsTwo [0] [1]) := by cbv
  have h₂ : (writtenAsOne []).attach 1 [.nested, .argument 0]
      = .done (writtenAsTwo [] [1]) := by cbv
  have h₂₁ : (writtenAsTwo [] [1]).attach 0 [] = .done (writtenAsTwo [0] [1]) := by cbv
  exact ⟨_, _, _, _, h₁, h₁₂, h₂, h₂₁, attach_comm (by decide) h₁ h₁₂ h₂ h₂₁⟩

end JavaType

end ClassAtlas
