import ClassAtlas.Proofs.Text.Ascii
import ClassAtlas.Signature.Encode

namespace ClassAtlas

/-!
# Well-formed signatures

Not every tree is one that a text can spell.  A tree is well-formed if its names do not contain
the characters that end them and its types stand only where the grammar has them.  A well-formed
tree can still be nested too deeply to be read.

* `TypePlace.admits` — which types may stand where;
* `JavaType.WellFormed`, `MethodSignature.WellFormed`, `ClassSignature.WellFormed` — the trees;
* `JavaType.levels` and its like — how many levels are open at once while the tree is read;
* `JavaType.bare` and its like — the tree without its annotations and its receiver.
-/

variable {α : Type}

/-! ### Places -/

/-- The places where a type can stand. -/
inductive TypePlace where
  /-- The result of a method. -/
  | result
  /-- A field or a parameter. -/
  | field
  /-- The element of an array. -/
  | element
  /-- A type argument. -/
  | argument
  /-- A bound of a type variable or a wildcard. -/
  | bound
  /-- A thrown type. -/
  | thrown
  deriving DecidableEq, Repr

/-- Whether a type may stand at a place: `void` only as a result, other primitive types also as
    fields and elements, arrays neither as elements of arrays nor thrown, and wildcards only as
    type arguments. -/
def TypePlace.admits (place : TypePlace) : JavaType α → Bool
  | .primitive kind _ => place = result || kind ≠ .void && (place = field || place = element)
  | .ofClass _ => true
  | .array _ _ => place ≠ element && place ≠ thrown
  | .typeVariable _ _ => true
  | .wildcard _ => place = argument
  | .bounded _ _ _ => place = argument

/-! ### Types -/

/-- A name, with none of the characters that would end it. -/
def NameWithout (ends : List Char) (name : String) : Prop :=
  name ≠ "" ∧ ∀ c ∈ name.toList, c ∉ ends

/-- Respelling a name gives one that does without the old character, and with the new one. -/
theorem NameWithout.replaceChar {ends ends' : List Char} {name : String}
    (h : NameWithout ends name) {old new : Char} (hnew : new ∉ ends')
    (hends : ∀ c ∈ ends', c = old ∨ c ∈ ends) :
    NameWithout ends' (Text.replaceChar old new name) := by
  refine ⟨?_, fun c hc hmark => ?_⟩
  · rw [Ne, Text.replaceChar_eq_empty_iff]
    exact h.1
  · have hother : c ≠ new := by
      rintro rfl
      exact hnew hmark
    rw [Text.mem_replaceChar hother] at hc
    rcases hends c hmark with hold | hmem
    · exact hc.2 hold
    · exact h.2 c hc.1 hmem

/-- What the name of the outermost class of a class type is without.  The dots in it are written
    as slashes. -/
def outermostEnds : List Char := [';', '<', '/']

/-- What the name of an inner class of a class type is without. -/
def innerEnds : List Char := [';', '<', '.']

mutual

/-- Whether the names in a type can be read back, and the types inside it may stand where they
    stand. -/
def JavaType.WellFormed : JavaType α → Prop
  | .primitive _ _ => True
  | .ofClass segments => segments ≠ [] ∧ WellFormedSegments outermostEnds segments
  | .array element dimensions =>
    dimensions ≠ [] ∧ TypePlace.element.admits element ∧ element.WellFormed
  | .typeVariable name _ => NameWithout [';'] name
  | .wildcard _ => True
  | .bounded _ bound _ => TypePlace.bound.admits bound ∧ bound.WellFormed
termination_by structural type => type

/-- The classes of a class type, the first of which is without the characters given. -/
def WellFormedSegments : List Char → List (ClassSegment α) → Prop
  | _, [] => True
  | ends, segment :: rest =>
    NameWithout ends segment.name ∧ segment.WellFormedArguments
      ∧ WellFormedSegments innerEnds rest
termination_by structural _ segments => segments

/-- The arguments of one class. -/
def ClassSegment.WellFormedArguments : ClassSegment α → Prop
  | ⟨_, arguments, _⟩ => WellFormedTypes arguments
termination_by structural segment => segment

/-- Each of the types as a type argument. -/
def WellFormedTypes : List (JavaType α) → Prop
  | [] => True
  | type :: rest => (TypePlace.argument.admits type ∧ type.WellFormed) ∧ WellFormedTypes rest
termination_by structural types => types

end

/-- A well-formed type at a place where it may stand. -/
def JavaType.WellFormedAt (place : TypePlace) (type : JavaType α) : Prop :=
  place.admits type ∧ type.WellFormed

/-- A well-formed class type. -/
def ClassType.WellFormed (segments : ClassType α) : Prop := (JavaType.ofClass segments).WellFormed

theorem wellFormedTypes_iff (types : List (JavaType α)) :
    WellFormedTypes types ↔ ∀ type ∈ types, type.WellFormedAt .argument := by
  induction types with
  | nil => simp [WellFormedTypes]
  | cons type rest ih => rw [WellFormedTypes, ih, List.forall_mem_cons, JavaType.WellFormedAt]

/-! ### Declarations -/

/-- Whether a declared type variable can be told from the end of the list it stands in, and its
    bounds are well-formed. -/
structure TypeParameter.WellFormed (parameter : TypeParameter α) : Prop where
  /-- The name is without colons. -/
  name : NameWithout [':'] parameter.name
  /-- It does not begin like the end of the list. -/
  head : parameter.name.toList.head? ≠ some '>'
  /-- Only types that are not primitive are bounds. -/
  bounds : ∀ bound ∈ parameter.bounds, bound.WellFormedAt .bound

/-- The characters with which a type begins that is not primitive. -/
def referenceMarks : List Char := ['L', 'T', '[']

theorem referenceMarks_ascii : ∀ c ∈ referenceMarks, c.toNat < 128 := by simp [referenceMarks]

/-- The name of a type variable behind one without bounds must not be taken for a bound. -/
def TypeParameter.Separate (parameter next : TypeParameter α) : Prop :=
  parameter.bounds = [] → ∀ c ∈ next.name.toList.head?, c ∉ referenceMarks

/-- A list of declared type variables. -/
def WellFormedParameters (parameters : List (TypeParameter α)) : Prop :=
  (∀ parameter ∈ parameters, parameter.WellFormed)
    ∧ parameters.IsChain TypeParameter.Separate

/-- Whether all parts of a method's signature are well-formed. -/
structure MethodSignature.WellFormed (signature : MethodSignature α) : Prop where
  typeParameters : WellFormedParameters signature.typeParameters
  parameters : ∀ type ∈ signature.parameters, type.WellFormedAt .field
  result : signature.result.WellFormedAt .result
  throws : ∀ type ∈ signature.throws, type.WellFormedAt .thrown

/-- Whether all parts of a class's signature are well-formed, and there is a superclass. -/
structure ClassSignature.WellFormed (signature : ClassSignature α) : Prop where
  typeParameters : WellFormedParameters signature.typeParameters
  superclass : ∃ superclass, signature.superclass = some superclass ∧ superclass.WellFormed
  interfaces : ∀ interface ∈ signature.interfaces, interface.WellFormed

/-! ### The first character -/

/-- The character that the written form of a type begins with. -/
def JavaType.mark : JavaType α → Char
  | .primitive kind _ => kind.descriptor
  | .ofClass _ => 'L'
  | .array _ _ => '['
  | .typeVariable _ _ => 'T'
  | .wildcard _ => '*'
  | .bounded .upper _ _ => '+'
  | .bounded .lower _ _ => '-'

theorem Primitive.descriptor_ascii (kind : Primitive) : kind.descriptor.toNat < 128 := by
  cases kind <;> decide

theorem JavaType.mark_ascii (type : JavaType α) : type.mark.toNat < 128 := by
  cases type with
  | primitive kind _ => exact kind.descriptor_ascii
  | bounded side _ _ => cases side <;> simp [mark]
  | _ => simp [mark]

/-- The types that can be bounds are told by their first character. -/
theorem JavaType.mark_mem_referenceMarks (type : JavaType α) :
    type.mark ∈ referenceMarks ↔ TypePlace.bound.admits type = true := by
  cases type with
  | primitive kind _ =>
    cases kind <;> simp [mark, referenceMarks, TypePlace.admits, Primitive.descriptor]
  | bounded side _ _ => cases side <;> simp [mark, referenceMarks, TypePlace.admits]
  | _ => simp [mark, referenceMarks, TypePlace.admits]

/-- The written form begins with the mark. -/
theorem JavaType.head?_encode {type : JavaType α} (h : type.WellFormed) :
    (Text.utf8 type.encode).head? = some (.ofNat type.mark.toNat) := by
  cases type with
  | primitive kind _ => rw [encode, Text.utf8_toString kind.descriptor_ascii]; rfl
  | ofClass segments => rw [encode, Text.utf8_append, Text.utf8_append]; rfl
  | array element dimensions =>
    -- There is a first bracket because there is a dimension.
    rw [WellFormed] at h
    have hpos := List.length_pos_iff.mpr h.1
    rw [encode, Text.utf8_append, Text.utf8_replicate (by decide), List.head?_append_of_ne_nil]
    · rw [List.head?_replicate, if_neg (Nat.ne_of_gt hpos)]
      rfl
    · rw [Ne, List.replicate_eq_nil_iff]
      exact Nat.ne_of_gt hpos
  | typeVariable name _ => rw [encode, Text.utf8_append, Text.utf8_append]; rfl
  | wildcard _ => rw [encode]; rfl
  | bounded side bound _ =>
    rw [encode, Text.utf8_append]
    cases side <;> rfl

/-- The first byte of a type, seen from the cursor in front of it. -/
theorem JavaType.latin1_mark (type : JavaType α) :
    Text.latin1 (.ofNat type.mark.toNat) = type.mark := Text.latin1_ofNat type.mark_ascii

theorem JavaType.utf8_encode_ne_nil {type : JavaType α} (h : type.WellFormed) :
    Text.utf8 type.encode ≠ [] := by
  intro hnil
  have hhead := head?_encode h
  rw [hnil] at hhead
  cases hhead

/-! ### Levels -/

mutual

/-- How many levels are open at once while the type is read: one for the type, and those of the
    types inside it.  A wildcard opens none of its own. -/
def JavaType.levels : JavaType α → Nat
  | .primitive _ _ => 1
  | .ofClass segments => levelsOfSegments segments + 1
  | .array element _ => element.levels + 1
  | .typeVariable _ _ => 1
  | .wildcard _ => 0
  | .bounded _ bound _ => bound.levels
termination_by structural type => type

/-- The levels of the types inside the classes of a class type. -/
def levelsOfSegments : List (ClassSegment α) → Nat
  | [] => 0
  | segment :: rest => max segment.levelsOfArguments (levelsOfSegments rest)
termination_by structural segments => segments

/-- The levels of the arguments of one class. -/
def ClassSegment.levelsOfArguments : ClassSegment α → Nat
  | ⟨_, arguments, _⟩ => levelsOfTypes arguments
termination_by structural segment => segment

/-- The levels of the type with the most. -/
def levelsOfTypes : List (JavaType α) → Nat
  | [] => 0
  | type :: rest => max type.levels (levelsOfTypes rest)
termination_by structural types => types

end

theorem levelsOfTypes_le_iff (types : List (JavaType α)) (room : Nat) :
    levelsOfTypes types ≤ room ↔ ∀ type ∈ types, type.levels ≤ room := by
  induction types with
  | nil => simp [levelsOfTypes]
  | cons type rest ih => rw [levelsOfTypes, Nat.max_le, ih, List.forall_mem_cons]

theorem levelsOfSegments_le_iff (segments : List (ClassSegment α)) (room : Nat) :
    levelsOfSegments segments ≤ room ↔ ∀ segment ∈ segments, segment.levelsOfArguments ≤ room := by
  induction segments with
  | nil => simp [levelsOfSegments]
  | cons segment rest ih => rw [levelsOfSegments, Nat.max_le, ih, List.forall_mem_cons]

/-- Class types fit one by one. -/
theorem levelsOfSegments_flatten_le_iff (types : List (ClassType α)) (room : Nat) :
    levelsOfSegments types.flatten ≤ room ↔ ∀ type ∈ types, levelsOfSegments type ≤ room := by
  simp only [levelsOfSegments_le_iff, List.mem_flatten]
  constructor
  · exact fun h type ht segment hs => h segment ⟨type, ht, hs⟩
  · rintro h segment ⟨type, ht, hs⟩
    exact h type ht segment hs

/-- The levels of the bounds of type variables. -/
def levelsOfParameters (parameters : List (TypeParameter α)) : Nat :=
  levelsOfTypes (parameters.flatMap (·.bounds))

/-- The most levels open at once while a method's signature is read.  A thrown type opens none of
    its own. -/
def MethodSignature.levels (signature : MethodSignature α) : Nat :=
  max (levelsOfParameters signature.typeParameters)
    (max (levelsOfTypes (signature.parameters ++ [signature.result]))
      (levelsOfTypes signature.throws - 1))

/-- The most levels open at once while a class's signature is read.  A superclass or interface
    opens none of its own. -/
def ClassSignature.levels (signature : ClassSignature α) : Nat :=
  max (levelsOfParameters signature.typeParameters)
    (levelsOfSegments (signature.superclass.toList ++ signature.interfaces).flatten)

/-! ### Trees without annotations -/

mutual

/-- The type without its annotations. -/
def JavaType.bare : JavaType α → JavaType α
  | .primitive kind _ => .primitive kind []
  | .ofClass segments => .ofClass (bareSegments segments)
  | .array element dimensions => .arrayOf element.bare dimensions.length
  | .typeVariable name _ => .typeVariable name []
  | .wildcard _ => .wildcard []
  | .bounded side bound _ => .bounded side bound.bare []
termination_by structural type => type

/-- The classes without annotations. -/
def bareSegments : List (ClassSegment α) → List (ClassSegment α)
  | [] => []
  | segment :: rest => segment.bare :: bareSegments rest
termination_by structural segments => segments

/-- One class without annotations. -/
def ClassSegment.bare : ClassSegment α → ClassSegment α
  | ⟨name, arguments, _⟩ => ⟨name, bareTypes arguments, []⟩
termination_by structural segment => segment

/-- The types without annotations. -/
def bareTypes : List (JavaType α) → List (JavaType α)
  | [] => []
  | type :: rest => type.bare :: bareTypes rest
termination_by structural types => types

end

theorem bareTypes_eq_map (types : List (JavaType α)) : bareTypes types = types.map (·.bare) := by
  induction types with
  | nil => rfl
  | cons type rest ih => rw [bareTypes, ih, List.map_cons]

/-- The class type without its annotations. -/
def ClassType.bare (segments : ClassType α) : ClassType α := bareSegments segments

/-- The declared type variable without annotations. -/
def TypeParameter.bare (parameter : TypeParameter α) : TypeParameter α where
  name := parameter.name
  classBound := parameter.classBound.map (·.bare)
  interfaceBounds := parameter.interfaceBounds.map (·.bare)
  annotations := []

/-- The method's types without annotations and receiver. -/
def MethodSignature.bare (signature : MethodSignature α) : MethodSignature α where
  typeParameters := signature.typeParameters.map (·.bare)
  parameters := signature.parameters.map (·.bare)
  result := signature.result.bare
  throws := signature.throws.map (·.bare)
  receiver := none

/-- The class's type variables and supertypes without annotations. -/
def ClassSignature.bare (signature : ClassSignature α) : ClassSignature α where
  typeParameters := signature.typeParameters.map (·.bare)
  superclass := signature.superclass.map (·.bare)
  interfaces := signature.interfaces.map (·.bare)

end ClassAtlas
