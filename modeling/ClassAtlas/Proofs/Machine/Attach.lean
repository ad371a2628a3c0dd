import ClassAtlas.Machine.Attach
import ClassAtlas.Proofs.Machine.Reading
import ClassAtlas.Proofs.Signature.Respelling

namespace ClassAtlas.Machine

/-!
# Attaching by indices

Following a path by slices and cutting names by their bytes comes to the same end as attaching, and
on no path to a fault: a path is never shorter than the steps it starts with, a dot is one byte, and
the names of classes can be addressed.

* `cutAt_byteLength`, `packageEnd_eq` — a name is cut between two characters;
* `splitClass_eq` — the classes that a name stands for;
* `Addressable` — the names whose bytes can be counted, which the classes of a split name are too;
* `attachInType_eq`, `attachInClassType_eq` — along a path;
* `attachInMethod_eq`, `attachInClass_eq` — in declarations.
-/

variable {α : Type}

/-! ### Bytes of a name -/

@[simp] theorem byteLength_nil : byteLength [] = 0 := rfl

@[simp] theorem byteLength_cons (c : Char) (rest : List Char) :
    byteLength (c :: rest) = c.utf8Size + byteLength rest := rfl

@[simp] theorem byteLength_append (first second : List Char) :
    byteLength (first ++ second) = byteLength first + byteLength second := by
  rw [byteLength, List.map_append, List.sum_append]
  rfl

/-- The bytes of a text are counted character by character. -/
theorem length_utf8 (text : String) : (Text.utf8 text).length = byteLength text.toList := by
  rw [Text.utf8_eq_flatMap, List.length_flatMap]
  refine congrArg List.sum (List.map_congr_left fun c _ => ?_)
  exact String.length_utf8EncodeChar c

/-- Behind the bytes of the first characters there is a place to cut. -/
theorem cutAt_byteLength (first second : List Char) :
    cutAt (byteLength first) (first ++ second) = .ok (first, second) := by
  induction first with
  | nil => cases second <;> rfl
  | cons c rest ih =>
    have hsize := c.utf8Size_pos
    obtain ⟨offset, hoffset⟩ := Nat.exists_eq_add_of_lt
      (Nat.lt_of_lt_of_le hsize (Nat.le_add_right c.utf8Size (byteLength rest)))
    rw [Nat.zero_add] at hoffset
    rw [byteLength_cons, List.cons_append, hoffset, cutAt, if_pos (by omega), ← hoffset,
      Nat.add_sub_cancel_left, ih]
    rfl

/-- Where the last mark stands, if there is one. -/
theorem offsetOfLast?_cases (mark : Char) (name : List Char) :
    (offsetOfLast? mark name = none ∧ mark ∉ name)
      ∨ ∃ front back, name = front ++ mark :: back ∧ mark ∉ back
        ∧ offsetOfLast? mark name = some (byteLength front) := by
  induction name with
  | nil => exact .inl ⟨rfl, List.not_mem_nil⟩
  | cons c rest ih =>
    rcases ih with ⟨hnone, hmem⟩ | ⟨front, back, hrest, hback, hsome⟩
    · by_cases hc : c = mark
      · refine .inr ⟨[], rest, by rw [hc]; rfl, hmem, ?_⟩
        rw [offsetOfLast?, hnone, if_pos hc]
        rfl
      · refine .inl ⟨by rw [offsetOfLast?, hnone, if_neg hc], ?_⟩
        rw [List.mem_cons, not_or]
        exact ⟨Ne.symm hc, hmem⟩
    · refine .inr ⟨c :: front, back, by rw [hrest]; rfl, hback, ?_⟩
      rw [offsetOfLast?, hsome]
      rfl

/-- The package ends behind the last dot, which is one byte. -/
theorem packageEnd_eq (outermost : Bool) {name : List Char} (h : byteLength name < wordLimit) :
    packageEnd outermost name = .ok (byteLength (packagePrefix outermost name)) := by
  cases outermost with
  | false => rfl
  | true =>
    rw [packageEnd, if_pos rfl, packagePrefix, if_pos rfl]
    rcases offsetOfLast?_cases '.' name with ⟨hnone, hmem⟩ | ⟨front, back, rfl, hback, hsome⟩
    · have hall : name.rdropWhile (· ≠ '.') = [] := by
        rw [List.rdropWhile_eq_nil_iff]
        rintro c hc
        simpa using fun hdot : c = '.' => hmem (hdot ▸ hc)
      rw [hnone, hall]
      rfl
    · have hbehind : (front ++ '.' :: back).rdropWhile (· ≠ '.') = front ++ ['.'] := by
        rw [List.rdropWhile, List.reverse_append, List.reverse_cons, List.append_assoc,
          List.dropWhile_append_of_pos]
        · simp
        · rintro c hc
          simpa using fun hdot : c = '.' => hback (hdot ▸ List.mem_reverse.mp hc)
      have hone : byteLength (front ++ ['.']) = byteLength front + 1 := byteLength_append _ _
      rw [hsome, hbehind, hone]
      rw [byteLength_append, byteLength_cons] at h
      exact add_eq (by have := '.'.utf8Size_pos; omega)

/-! ### The classes that a name stands for -/

/-- The last class is the one at the last index. -/
theorem argumentsOnLast_eq_mapIdx (arguments : List (JavaType α)) (names : List String) :
    argumentsOnLast arguments names = names.mapIdx fun index name =>
      ⟨name, if index = names.length - 1 then arguments else [], []⟩ := by
  induction names with
  | nil => rfl
  | cons name rest ih =>
    cases rest with
    | nil => rfl
    | cons next rest =>
      rw [argumentsOnLast, ih, List.mapIdx_cons]
      · simp
      · simp

theorem splitClass_eq (outermost : Bool) {segment : ClassSegment α}
    (h : byteLength segment.name.toList < wordLimit) :
    splitClass outermost segment = .ok (segment.split outermost) := by
  obtain ⟨name, arguments, annotations⟩ := segment
  have hcut : cutAt (byteLength (packagePrefix outermost name.toList)) name.toList
      = .ok (packagePrefix outermost name.toList, ownName outermost name.toList) := by
    nth_rewrite 2 [← packagePrefix_append_ownName outermost name.toList]
    exact cutAt_byteLength _ _
  have hrun : splitClass outermost ⟨name, arguments, annotations⟩
      = if '$' ∉ ownName outermost name.toList then .ok [⟨name, arguments, annotations⟩]
        else (do
          let parts := dollarParts (ownName outermost name.toList)
          let innermost ← subtract parts.length 1
          return parts.mapIdx fun index part => {
            name := String.ofList
              (if index = 0 then packagePrefix outermost name.toList ++ part else part)
            arguments := if index = innermost then arguments else []
            annotations := if index = 0 then annotations else [] }) := by
    rw [splitClass, packageEnd_eq outermost h]
    show (cutAt _ name.toList >>= _) = _
    rw [hcut]
    rfl
  rw [hrun, ClassSegment.split]
  split
  · rename_i hown
    rw [nestedNames_eq_singleton hown]
    rfl
  · obtain ⟨first, inner, hparts, hnames⟩ := exists_nestedNames_eq outermost name
    have hmap : ∀ f : Nat → String → ClassSegment α, (inner.map String.ofList).mapIdx f
        = inner.mapIdx fun index part => f index (String.ofList part) := by
      simp [List.mapIdx_eq_zipIdx_map, List.zipIdx_map]
    rw [hparts, hnames, argumentsOnLast_eq_mapIdx, List.mapIdx_cons, hmap]
    dsimp only
    rw [subtract_eq (by simp)]
    show Except.ok _ = _
    simp [List.mapIdx_cons]

/-! ### Names that can be addressed -/

/-- A name whose bytes can be counted. -/
def Addressable (named : Bool × String) : Prop := byteLength named.2.toList < wordLimit

theorem byteLength_le_of_mem_dollarParts {characters part : List Char}
    (h : part ∈ dollarParts characters) : byteLength part ≤ byteLength characters := by
  induction characters generalizing part with
  | nil =>
    rw [dollarParts, List.mem_singleton] at h
    rw [h]
  | cons c rest ih =>
    rw [byteLength_cons]
    by_cases hc : c = '$'
    · rw [hc, dollarParts, List.mem_cons] at h
      rcases h with rfl | h
      · exact Nat.zero_le _
      · exact Nat.le_add_left_of_le (ih h)
    · obtain ⟨first, inner, hrest, hparts⟩ := dollarParts_cons_of_ne hc rest
      rw [hparts, List.mem_cons] at h
      rcases h with rfl | h
      · exact Nat.add_le_add_left (ih (hrest ▸ List.mem_cons_self)) _
      · exact Nat.le_add_left_of_le (ih (hrest ▸ List.mem_cons_of_mem _ h))

/-- The classes that a name stands for have no longer names. -/
theorem splitClosed_addressable : SplitClosed Addressable := by
  have hlength : ∀ outermost (name : String), byteLength name.toList
      = byteLength (packagePrefix outermost name.toList)
        + byteLength (ownName outermost name.toList) := by
    intro outermost name
    rw [← byteLength_append, packagePrefix_append_ownName]
  refine .of_parts (fun outermost name first hname hfirst _ => ?_)
    (fun outermost name part hname hpart _ => ?_)
  · have hle := byteLength_le_of_mem_dollarParts hfirst
    have hname : byteLength name.toList < wordLimit := hname
    have hwhole := hlength outermost name
    rw [Addressable, String.toList_ofList, byteLength_append]
    omega
  · have hle := byteLength_le_of_mem_dollarParts hpart
    have hname : byteLength name.toList < wordLimit := hname
    have hwhole := hlength outermost name
    rw [Addressable, String.toList_ofList]
    omega

/-- Names whose bytes can be counted. -/
def AllAddressable (names : List (Bool × String)) : Prop := ∀ named ∈ names, Addressable named

theorem AllAddressable.gains {added : List α} {type type' : JavaType α}
    (h : AllAddressable type.segmentNames) (hgains : type.Gains added type') :
    AllAddressable type'.segmentNames :=
  hgains.forall_segmentNames splitClosed_addressable h

theorem allAddressable_ofName {name : String} (h : byteLength name.toList < wordLimit) :
    AllAddressable (JavaType.ofClass (ClassType.ofName name) : JavaType α).segmentNames := by
  intro named hnamed
  obtain rfl : named = (true, name) := by
    simpa [JavaType.segmentNames, ClassType.ofName, namesOfSegments,
      ClassSegment.namesOfArguments, namesOfTypes] using hnamed
  exact h

theorem AllAddressable.argument {segments : ClassType α} {segment : ClassSegment α}
    {argument : JavaType α} (h : AllAddressable (JavaType.ofClass segments).segmentNames)
    (hsegment : segment ∈ segments) (hargument : argument ∈ segment.arguments) :
    AllAddressable argument.segmentNames := by
  obtain ⟨outer, inner, rfl⟩ := List.append_of_mem hsegment
  obtain ⟨name, arguments, annotations⟩ := segment
  obtain ⟨before, after, harguments⟩ := List.append_of_mem hargument
  obtain rfl : arguments = before ++ argument :: after := harguments
  simp only [AllAddressable, JavaType.segmentNames, namesOfSegments_append, namesOfSegments,
    ClassSegment.namesOfArguments, namesOfTypes_append, namesOfTypes, List.forall_mem_append,
    List.forall_mem_cons] at h
  exact h.2.2.1.2.1

/-- A method's types in which all names of classes can be addressed, the receiver's too. -/
structure MethodAddressable (signature : MethodSignature α) : Prop where
  written : AllAddressable signature.segmentNames
  receiver : ∀ type ∈ signature.receiver, AllAddressable type.segmentNames

/-- A place in a method that a receiver can be made at. -/
def PlaceAddressable : MethodPlace → Prop
  | .receiver className => byteLength className.toList < wordLimit
  | _ => True

theorem MethodAddressable.receiver_getD {signature : MethodSignature α}
    (h : MethodAddressable signature) {className : String}
    (hname : byteLength className.toList < wordLimit) :
    AllAddressable (signature.receiver.getD (.ofClass (ClassType.ofName className))).segmentNames := by
  cases hreceiver : signature.receiver with
  | none => exact allAddressable_ofName hname
  | some type => exact h.receiver type hreceiver

/-! ### Along a path -/

theorem splitInnermost_eq {segments : ClassType α}
    (h : AllAddressable (JavaType.ofClass segments).segmentNames) :
    splitInnermost segments = .ok segments.splitInnermost := by
  rcases List.eq_nil_or_concat segments with rfl | ⟨outer, innermost, rfl⟩
  · rfl
  · rw [List.concat_eq_append] at h ⊢
    have hname : byteLength innermost.name.toList < wordLimit := by
      simp only [AllAddressable, JavaType.segmentNames, namesOfSegments_append, namesOfSegments,
        List.forall_mem_append, List.forall_mem_cons] at h
      exact h.2.1
    rw [splitInnermost, ClassType.splitInnermost, List.getLast?_concat]
    dsimp only
    rw [splitClass_eq _ hname]
    rfl

theorem splitFor_eq (depth : Nat) {segments : ClassType α}
    (h : AllAddressable (JavaType.ofClass segments).segmentNames) :
    splitFor depth segments
      = .ok (if depth < segments.length then segments else segments.splitInnermost) := by
  unfold splitFor
  split
  · rw [splitInnermost_eq h, if_neg (by omega)]
  · rw [if_pos (by omega)]
    rfl

variable [ToString α]

-- By recursion on the path and then on the type, as attaching itself.
mutual

theorem attachInType_eq (note : α) (path : TypePath) (type : JavaType α)
    (h : AllAddressable type.segmentNames) :
    attachInType note path type = .ok (type.attach note path) := by
  cases type with
  | primitive kind annotations =>
    rw [attachInType, JavaType.attach]
    split <;> rfl
  | typeVariable name annotations =>
    rw [attachInType, JavaType.attach]
    split <;> rfl
  | ofClass segments =>
    rw [attachInType, JavaType.attach, attachInClassType_eq note path segments h]
    rfl
  | array element dimensions =>
    rw [attachInType, JavaType.attach]
    split
    · rename_i hinside
      split
      · rw [entryAt_eq (List.getElem?_eq_getElem hinside), List.modify_eq_set_get _ hinside]
        rfl
      · rfl
    · rename_i hbeyond
      have hle : dimensions.length ≤ path.length :=
        (Nat.not_lt.mp hbeyond).trans (path.leading_le .element)
      split
      · rename_i rest hrest
        cases (tailFrom_eq hle).symm.trans hrest
        rw [attachInType_eq note (path.drop dimensions.length) element h]
        rfl
      · rename_i fault hfault
        cases (tailFrom_eq hle).symm.trans hfault
  | wildcard annotations =>
    rw [attachInType.eq_def, JavaType.attach.eq_def]
    rcases path with _ | ⟨_ | _ | _ | index, rest⟩ <;> rfl
  | bounded side bound annotations =>
    rw [attachInType.eq_def, JavaType.attach.eq_def]
    rcases path with _ | ⟨_ | _ | _ | index, rest⟩
    case cons.bound =>
      dsimp only
      rw [attachInType_eq note rest bound h]
      rfl
    all_goals rfl
termination_by (path.length, sizeOf type)
decreasing_by
  all_goals subst_vars
  · exact Prod.Lex.right _ (by simp only [JavaType.ofClass.sizeOf_spec]; omega)
  · exact Prod.Lex.right' _ (by simp) (by simp only [JavaType.array.sizeOf_spec]; omega)
  · exact Prod.Lex.left _ _ (by simp)

theorem attachInClassType_eq (note : α) (path : TypePath) (segments : ClassType α)
    (h : AllAddressable (JavaType.ofClass segments).segmentNames) :
    attachInClassType note path segments = .ok (ClassType.attach note path segments) := by
  have hshaped := h.gains (.shaped (path.leading .nested) (.nothing _ rfl))
  rw [attachInClassType, ClassType.attach, splitFor_eq _ h]
  generalize (if path.leading .nested < segments.length then segments
    else segments.splitInnermost) = shaped at hshaped ⊢
  have htail := tailFrom_eq (path.leading_le .nested)
  show (match shaped[path.leading .nested]? with | none => _ | some segment => _) = _
  cases hsegment : shaped[path.leading .nested]? with
  | none => rfl
  | some segment =>
    dsimp only
    generalize tailFrom path (path.leading .nested) = tail at htail ⊢
    subst htail
    generalize hentered : path.drop (path.leading .nested) = entered
    rcases entered with _ | ⟨_ | _ | _ | index, rest⟩
    case cons.argument =>
      dsimp only
      cases hargument : segment.arguments[index.toNat]? with
      | none => rfl
      | some argument =>
        have hinside := hshaped.argument (List.mem_of_getElem? hsegment)
          (List.mem_of_getElem? hargument)
        have hshorter : rest.length < path.length := by
          have hlength := congrArg List.length hentered
          simp only [List.length_drop, List.length_cons] at hlength
          omega
        dsimp only
        rw [attachInType_eq note rest argument hinside]
        rfl
    all_goals rfl
termination_by (path.length, sizeOf segments)
decreasing_by exact Prod.Lex.left _ _ (by assumption)

end

/-! ### In declarations -/

theorem attachInTypes_eq (note : α) (path : TypePath) (index : Nat) {types : List (JavaType α)}
    (h : AllAddressable (types.flatMap (·.segmentNames))) :
    attachInTypes note path index types = .ok (ClassAtlas.attachInTypes note path index types) := by
  rw [attachInTypes, ClassAtlas.attachInTypes]
  cases htype : types[index]? with
  | none => rfl
  | some type =>
    have hinside : AllAddressable type.segmentNames := fun named hnamed =>
      h named (List.mem_flatMap_of_mem (List.mem_of_getElem? htype) hnamed)
    dsimp only
    rw [attachInType_eq note path type hinside]
    rfl

theorem attachInVariable_eq (note : α) (path : TypePath) (place : VariablePlace)
    {parameter : TypeParameter α} (h : AllAddressable parameter.segmentNames) :
    attachInVariable note path place parameter = .ok (parameter.attach note path place) := by
  obtain ⟨name, classBound, interfaceBounds, annotations⟩ := parameter
  rw [TypeParameter.segmentNames, TypeParameter.bounds, List.flatMap_append] at h
  obtain ⟨hclass, hinterfaces⟩ := List.forall_mem_append.mp h
  rcases place with _ | (_ | index)
  · rfl
  · cases classBound with
    | none => rfl
    | some bound =>
      have hbound : AllAddressable bound.segmentNames := by
        rwa [Option.toList_some, List.flatMap_singleton] at hclass
      rw [attachInVariable, TypeParameter.attach]
      dsimp only
      rw [if_pos rfl, attachInType_eq note path bound hbound]
      rfl
  · rw [attachInVariable, TypeParameter.attach]
    dsimp only
    rw [if_neg (Nat.succ_ne_zero _), subtract_eq (Nat.le_add_left 1 index)]
    show (attachInTypes note path index interfaceBounds >>= _) = _
    rw [attachInTypes_eq note path index hinterfaces]
    rfl

theorem attachInVariables_eq (note : α) (path : TypePath) (index : Nat) (place : VariablePlace)
    {parameters : List (TypeParameter α)}
    (h : AllAddressable (parameters.flatMap (·.segmentNames))) :
    attachInVariables note path index place parameters
      = .ok (ClassAtlas.attachInVariables note path index place parameters) := by
  rw [attachInVariables, ClassAtlas.attachInVariables]
  cases hparameter : parameters[index]? with
  | none => rfl
  | some parameter =>
    have hinside : AllAddressable parameter.segmentNames := fun named hnamed =>
      h named (List.mem_flatMap_of_mem (List.mem_of_getElem? hparameter) hnamed)
    dsimp only
    rw [attachInVariable_eq note path place hinside]
    rfl

theorem attachInMethod_eq (note : α) (path : TypePath) {place : MethodPlace}
    {signature : MethodSignature α} (h : MethodAddressable signature)
    (hplace : PlaceAddressable place) :
    attachInMethod note path place signature = .ok (signature.attach note path place) := by
  have hwritten := h.written
  simp only [AllAddressable, MethodSignature.segmentNames, List.forall_mem_append] at hwritten
  obtain ⟨hvariables, hparameters, hresult, hthrows⟩ := hwritten
  cases place with
  | typeParameter index place =>
    rw [attachInMethod, attachInVariables_eq note path index place hvariables]
    rfl
  | parameter index =>
    rw [attachInMethod, attachInTypes_eq note path index hparameters]
    rfl
  | result =>
    rw [attachInMethod, attachInType_eq note path signature.result hresult]
    rfl
  | thrown index =>
    rw [attachInMethod, attachInTypes_eq note path index hthrows]
    rfl
  | receiver className =>
    rw [attachInMethod, attachInType_eq note path _ (h.receiver_getD hplace)]
    rfl

/-- What is attached to a method's types leaves no longer names. -/
theorem MethodAddressable.attach {signature : MethodSignature α} (h : MethodAddressable signature)
    (note : α) (path : TypePath) {place : MethodPlace} (hplace : PlaceAddressable place) :
    MethodAddressable (signature.attach note path place).tree where
  written := by
    rcases (Relation.reflGen_iff _ _ _).mp (signature.reflGen_attach note path place) with
      hsame | hattached
    · rw [hsame]
      exact h.written
    · exact MethodSignature.keepsText.forall_segmentNames hattached.kept splitClosed_addressable
        h.written
  receiver := by
    cases place with
    | receiver className =>
      rintro type ⟨⟩
      exact (h.receiver_getD hplace).gains (JavaType.gains_attach note path _)
    | _ => exact h.receiver

theorem attachInClass_eq (note : α) (path : TypePath) (place : ClassPlace)
    {signature : ClassSignature α} (h : AllAddressable signature.segmentNames) :
    attachInClass note path place signature = .ok (signature.attach note path place) := by
  simp only [AllAddressable, ClassSignature.segmentNames, List.forall_mem_append] at h
  obtain ⟨hvariables, hsupertypes⟩ := h
  have hsupertype : ∀ segments ∈ signature.superclass.toList ++ signature.interfaces,
      AllAddressable (JavaType.ofClass segments).segmentNames := fun segments hsegments named hnamed =>
    hsupertypes named (List.mem_flatMap_of_mem (List.mem_map_of_mem hsegments) hnamed)
  cases place with
  | typeParameter index place =>
    rw [attachInClass, attachInVariables_eq note path index place hvariables]
    rfl
  | superclass =>
    rw [attachInClass, ClassSignature.attach]
    cases hsuperclass : signature.superclass with
    | none => rfl
    | some segments =>
      rw [hsuperclass] at hsupertype
      dsimp only
      rw [attachInClassType_eq note path segments (hsupertype segments List.mem_cons_self)]
      rfl
  | implemented index =>
    rw [attachInClass, ClassSignature.attach]
    cases hsegments : signature.interfaces[index]? with
    | none => rfl
    | some segments =>
      have hmem := List.mem_append_right signature.superclass.toList (List.mem_of_getElem? hsegments)
      dsimp only
      rw [attachInClassType_eq note path segments (hsupertype segments hmem)]
      rfl

/-- What is attached to a class's supertypes leaves no longer names. -/
theorem AllAddressable.attachInClass {signature : ClassSignature α}
    (h : AllAddressable signature.segmentNames) (note : α) (path : TypePath) (place : ClassPlace) :
    AllAddressable (signature.attach note path place).tree.segmentNames := by
  rcases (Relation.reflGen_iff _ _ _).mp (signature.reflGen_attach note path place) with
    hsame | hattached
  · rw [hsame]
    exact h
  · exact ClassSignature.keepsText.forall_segmentNames hattached.kept splitClosed_addressable h

end ClassAtlas.Machine
