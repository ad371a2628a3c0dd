import ClassAtlas.Proofs.Machine.Attach

namespace ClassAtlas.Machine

/-!
# The names in what is read from a text

What was read is written byte for byte, so its names are no longer than its text.

* `NamesWithin` — names that are no longer than a text;
* `namesWithin_encode` and its like — those in a type and its written form;
* `allAddressable_parseField` and its like — what is read from a text that can be addressed.
-/

variable {α : Type}

/-! ### Lengths of texts -/

@[simp] theorem byteLength_toList_append (first second : String) :
    byteLength (first ++ second).toList = byteLength first.toList + byteLength second.toList := by
  rw [String.toList_append, byteLength_append]

/-- Each text is a part of them all. -/
theorem byteLength_le_join {texts : List String} {text : String} (h : text ∈ texts) :
    byteLength text.toList ≤ byteLength (String.join texts).toList := by
  obtain ⟨before, after, rfl⟩ := List.append_of_mem h
  rw [← length_utf8, ← length_utf8, Text.utf8_join, List.flatMap_append, List.flatMap_cons]
  simp only [List.length_append]
  omega

/-- One character for another one of as many bytes. -/
theorem byteLength_replaceChar {old new : Char} (h : old.utf8Size = new.utf8Size) (name : String) :
    byteLength (Text.replaceChar old new name).toList = byteLength name.toList := by
  rw [Text.toList_replaceChar, byteLength, List.map_map]
  refine congrArg List.sum (List.map_congr_left fun c _ => ?_)
  show (if c = old then new else c).utf8Size = c.utf8Size
  split
  · rename_i hc
    rw [hc, h]
  · rfl

theorem byteLength_internal (name : String) :
    byteLength (Text.internal name).toList = byteLength name.toList :=
  byteLength_replaceChar (by decide) name

theorem byteLength_dotted (name : String) :
    byteLength (Text.dotted name).toList = byteLength name.toList :=
  byteLength_replaceChar (by decide) name

/-! ### Names and written forms -/

/-- The names are no longer than the text. -/
def NamesWithin (names : List (Bool × String)) (text : String) : Prop :=
  ∀ named ∈ names, byteLength named.2.toList ≤ byteLength text.toList

theorem NamesWithin.part {names : List (Bool × String)} {part text : String}
    (h : NamesWithin names part) (hle : byteLength part.toList ≤ byteLength text.toList) :
    NamesWithin names text :=
  fun named hnamed => (h named hnamed).trans hle

theorem NamesWithin.append {names names' : List (Bool × String)} {text : String}
    (h : NamesWithin names text) (h' : NamesWithin names' text) :
    NamesWithin (names ++ names') text :=
  List.forall_mem_append.mpr ⟨h, h'⟩

theorem byteLength_le_bracketed {β : Type} {items : List β} (h : items ≠ []) (text : String) :
    byteLength text.toList ≤ byteLength (bracketed items text).toList := by
  rw [bracketed, if_neg (by simpa using h)]
  simp only [byteLength_toList_append]
  omega

mutual

theorem namesWithin_encode : (type : JavaType α) → NamesWithin type.segmentNames type.encode
  | .primitive _ _ => List.forall_mem_nil _
  | .ofClass segments => by
    have hsegments := namesWithin_encodeOutermost segments
    rw [JavaType.segmentNames, JavaType.encode]
    refine hsegments.part ?_
    simp only [byteLength_toList_append]
    omega
  | .array element dimensions => by
    have helement := namesWithin_encode element
    rw [JavaType.segmentNames, JavaType.encode]
    refine helement.part ?_
    rw [byteLength_toList_append]
    exact Nat.le_add_left ..
  | .typeVariable _ _ => List.forall_mem_nil _
  | .wildcard _ => List.forall_mem_nil _
  | .bounded side bound _ => by
    have hbound := namesWithin_encode bound
    rw [JavaType.segmentNames, JavaType.encode]
    refine hbound.part ?_
    rw [byteLength_toList_append]
    exact Nat.le_add_left ..
termination_by structural type => type

theorem namesWithin_encodeOutermost : (segments : List (ClassSegment α)) →
    NamesWithin (namesOfSegments true segments) (encodeOutermost segments)
  | [] => List.forall_mem_nil _
  | segment :: rest => by
    have hinternal := byteLength_internal segment.name
    have harguments := namesWithin_encodeArguments segment
    have hrest := namesWithin_encodeInner rest
    rw [namesOfSegments, encodeOutermost]
    refine List.forall_mem_cons.mpr ⟨?_, (harguments.part ?_).append (hrest.part ?_)⟩
    all_goals
      simp only [byteLength_toList_append]
      omega
termination_by structural segments => segments

theorem namesWithin_encodeInner : (segments : List (ClassSegment α)) →
    NamesWithin (namesOfSegments false segments) (encodeInner segments)
  | [] => List.forall_mem_nil _
  | segment :: rest => by
    have harguments := namesWithin_encodeArguments segment
    have hrest := namesWithin_encodeInner rest
    rw [namesOfSegments, encodeInner]
    refine List.forall_mem_cons.mpr ⟨?_, (harguments.part ?_).append (hrest.part ?_)⟩
    all_goals
      simp only [byteLength_toList_append]
      omega
termination_by structural segments => segments

theorem namesWithin_encodeArguments : (segment : ClassSegment α) →
    NamesWithin segment.namesOfArguments segment.encodeArguments
  | ⟨_, arguments, _⟩ => by
    have harguments := namesWithin_encodeTypes arguments
    rw [ClassSegment.namesOfArguments, ClassSegment.encodeArguments]
    by_cases hne : arguments = []
    · subst hne
      exact List.forall_mem_nil _
    · exact harguments.part (byteLength_le_bracketed hne _)
termination_by structural segment => segment

theorem namesWithin_encodeTypes : (types : List (JavaType α)) →
    NamesWithin (namesOfTypes types) (encodeTypes types)
  | [] => List.forall_mem_nil _
  | type :: rest => by
    have htype := namesWithin_encode type
    have hrest := namesWithin_encodeTypes rest
    rw [namesOfTypes, encodeTypes]
    refine (htype.part ?_).append (hrest.part ?_)
    all_goals
      rw [byteLength_toList_append]
      omega
termination_by structural types => types

end

theorem namesWithin_flatMap {β : Type} {items : List β} {names : β → List (Bool × String)}
    {encode : β → String} (h : ∀ item ∈ items, NamesWithin (names item) (encode item)) :
    NamesWithin (items.flatMap names) (String.join (items.map encode)) := by
  intro named hnamed
  obtain ⟨item, hitem, hnamed⟩ := List.mem_flatMap.mp hnamed
  exact (h item hitem named hnamed).trans (byteLength_le_join (List.mem_map_of_mem hitem))

theorem namesWithin_typeParameter (parameter : TypeParameter α) :
    NamesWithin parameter.segmentNames parameter.encode := by
  obtain ⟨name, classBound, interfaceBounds, annotations⟩ := parameter
  have hinterfaces : NamesWithin (interfaceBounds.flatMap (·.segmentNames))
      (String.join (interfaceBounds.map fun bound => ":" ++ bound.encode)) :=
    namesWithin_flatMap fun bound _ => (namesWithin_encode bound).part (by
      rw [byteLength_toList_append]
      exact Nat.le_add_left ..)
  have hclass : NamesWithin (classBound.toList.flatMap (·.segmentNames))
      ((classBound.map (·.encode)).getD "") := by
    cases classBound with
    | none => exact List.forall_mem_nil _
    | some bound =>
      rw [Option.toList_some, List.flatMap_singleton]
      exact namesWithin_encode bound
  rw [TypeParameter.segmentNames, TypeParameter.bounds, List.flatMap_append, TypeParameter.encode]
  refine (hclass.part ?_).append (hinterfaces.part ?_)
  all_goals
    simp only [byteLength_toList_append]
    omega

theorem namesWithin_encodeTypeParameters (parameters : List (TypeParameter α)) :
    NamesWithin (parameters.flatMap (·.segmentNames)) (encodeTypeParameters parameters) := by
  by_cases hne : parameters = []
  · subst hne
    exact List.forall_mem_nil _
  · exact (namesWithin_flatMap fun parameter _ => namesWithin_typeParameter parameter).part
      (byteLength_le_bracketed hne _)

theorem namesWithin_method (signature : MethodSignature α) :
    NamesWithin signature.segmentNames signature.encode := by
  have hvariables := namesWithin_encodeTypeParameters signature.typeParameters
  have hparameters : NamesWithin (signature.parameters.flatMap (·.segmentNames))
      (String.join (signature.parameters.map (·.encode))) :=
    namesWithin_flatMap fun type _ => namesWithin_encode type
  have hresult := namesWithin_encode signature.result
  have hthrows : NamesWithin (signature.throws.flatMap (·.segmentNames))
      (String.join (signature.throws.map fun thrown => "^" ++ thrown.encode)) :=
    namesWithin_flatMap fun thrown _ => (namesWithin_encode thrown).part (by
      rw [byteLength_toList_append]
      exact Nat.le_add_left ..)
  rw [MethodSignature.segmentNames, MethodSignature.encode]
  refine (hvariables.part ?_).append ((hparameters.part ?_).append
    ((hresult.part ?_).append (hthrows.part ?_)))
  all_goals
    simp only [byteLength_toList_append]
    omega

/-- The signature of a class that has a superclass, as every signature that is read. -/
theorem namesWithin_class {signature : ClassSignature α} (h : signature.superclass.isSome) :
    NamesWithin signature.segmentNames signature.encode := by
  obtain ⟨typeParameters, superclass, interfaces⟩ := signature
  obtain ⟨superclass, rfl⟩ := Option.isSome_iff_exists.mp h
  have hvariables := namesWithin_encodeTypeParameters typeParameters
  have hsuperclass := namesWithin_encode (.ofClass superclass)
  have hinterfaces : NamesWithin (interfaces.flatMap fun type => (JavaType.ofClass type).segmentNames)
      (String.join (interfaces.map ClassType.encode)) :=
    namesWithin_flatMap fun type _ => namesWithin_encode (.ofClass type)
  rw [ClassSignature.segmentNames, ClassSignature.supertypes, List.flatMap_map]
  show NamesWithin (_ ++ ((JavaType.ofClass superclass).segmentNames ++ _))
    (_ ++ (JavaType.ofClass superclass).encode ++ _)
  refine (hvariables.part ?_).append ((hsuperclass.part ?_).append (hinterfaces.part ?_))
  all_goals
    simp only [byteLength_toList_append]
    omega

/-! ### From texts -/

section

variable {text : String} (htext : (Text.utf8 text).length < wordLimit)

include htext

/-- Names in a written form that is the text. -/
theorem NamesWithin.allAddressable {names : List (Bool × String)} {written : String}
    (h : NamesWithin names written) (hsame : Text.utf8 written = Text.utf8 text) :
    AllAddressable names := by
  intro named hnamed
  have hle := h named hnamed
  rw [← length_utf8 written, hsame] at hle
  exact hle.trans_lt htext

theorem allAddressable_parseField {type : JavaType α} (h : JavaType.parseField text = .ok type) :
    AllAddressable type.segmentNames :=
  (namesWithin_encode type).allAddressable htext (JavaType.readsExactly_readField.encode_eq h).1

theorem methodAddressable_parse {signature : MethodSignature α}
    (h : MethodSignature.parse text = .ok signature) : MethodAddressable signature where
  written := (namesWithin_method signature).allAddressable htext
    (MethodSignature.readsExactly_read.encode_eq h).1
  receiver := by
    -- The text has no place for a receiver.
    have hnone := congrArg MethodSignature.receiver
      ((MethodSignature.readsExactly_read.ok_iff _ _).mp h).2.1
    intro type htype
    rw [← hnone] at htype
    cases htype

theorem allAddressable_parseClass {signature : ClassSignature α}
    (h : ClassSignature.parse text = .ok signature) : AllAddressable signature.segmentNames := by
  have hwf := ((ClassSignature.readsExactly_read.ok_iff _ _).mp h).2.2.1
  exact (namesWithin_class (signature.wellFormed_iff.mp hwf).2.1).allAddressable htext
    (ClassSignature.readsExactly_read.encode_eq h).1

end

end ClassAtlas.Machine
