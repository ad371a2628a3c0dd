namespace ClassAtlas

/-!
# Types as they stand in signatures

A signature is a tree of types, and each place a type is used can carry annotations.  The trees
are generic in what an annotation is (`α`), so a tree that cannot carry any is `BareType`.

* `Primitive`, `BoundSide` — the closed vocabularies;
* `JavaType` and `ClassSegment` — the trees;
* `TypeParameter`, `MethodSignature`, `ClassSignature` — what is declared with them.
-/

/-- The primitive types, and `void`. -/
inductive Primitive where
  | boolean | byte | char | short | int | long | float | double | void
  deriving DecidableEq, Repr

namespace Primitive

/-- Every primitive, in the order of declaration. -/
def all : List Primitive := [boolean, byte, char, short, int, long, float, double, void]

/-- The keyword. -/
def keyword : Primitive → String
  | boolean => "boolean"
  | byte => "byte"
  | char => "char"
  | short => "short"
  | int => "int"
  | long => "long"
  | float => "float"
  | double => "double"
  | void => "void"

/-- The character that stands for the primitive in a descriptor. -/
def descriptor : Primitive → Char
  | boolean => 'Z'
  | byte => 'B'
  | char => 'C'
  | short => 'S'
  | int => 'I'
  | long => 'J'
  | float => 'F'
  | double => 'D'
  | void => 'V'

/-- The primitive that a descriptor character stands for. -/
def ofDescriptor? (c : Char) : Option Primitive := all.find? (·.descriptor = c)

/-- Descriptor characters are read back. -/
@[simp] theorem ofDescriptor?_descriptor (kind : Primitive) :
    ofDescriptor? kind.descriptor = some kind := by
  cases kind <;> rfl

end Primitive

/-- The side on which a wildcard is bounded: `extends` is an upper bound, `super` a lower one. -/
inductive BoundSide where
  | upper | lower
  deriving DecidableEq, Repr

/-! ### Type trees -/

mutual

/-- A use of a type. -/
inductive JavaType (α : Type) where
  /-- A primitive type or `void`. -/
  | primitive (kind : Primitive) (annotations : List α)
  /-- A class type, from the outermost class inwards. -/
  | ofClass (segments : List (ClassSegment α))
  /-- An array; the annotations of each dimension, the outermost dimension first. -/
  | array (element : JavaType α) (dimensions : List (List α))
  /-- A type variable. -/
  | typeVariable (name : String) (annotations : List α)
  /-- A wildcard without bound. -/
  | wildcard (annotations : List α)
  /-- A wildcard with a bound. -/
  | bounded (side : BoundSide) (bound : JavaType α) (annotations : List α)

/-- One class of a class type.  The name of the outermost one has the package in front. -/
structure ClassSegment (α : Type) where
  /-- The name. -/
  name : String
  /-- The type arguments. -/
  arguments : List (JavaType α)
  /-- The annotations. -/
  annotations : List α

end

/-- A class type: its classes from the outermost one inwards. -/
abbrev ClassType (α : Type) := List (ClassSegment α)

/-- A type no use of which can be annotated. -/
abbrev BareType := JavaType Empty

/-- The class type of one class without arguments. -/
def ClassType.ofName {α : Type} (name : String) : ClassType α := [⟨name, [], []⟩]

/-- The binary name: the classes joined by dollar signs. -/
def ClassType.name {α : Type} (segments : ClassType α) : String :=
  String.intercalate "$" (segments.map (·.name))

namespace JavaType

variable {α : Type}

/-- An array of `element` with so many dimensions. -/
def arrayOf (element : JavaType α) (dimensions : Nat) : JavaType α :=
  .array element (List.replicate dimensions [])

/-- Whether the type is `void`. -/
def isVoid : JavaType α → Bool
  | .primitive .void _ => true
  | _ => false

/-- The binary name of a class type. -/
def className? : JavaType α → Option String
  | .ofClass segments => some (ClassType.name segments)
  | _ => none

/-- The annotations on the type itself: those of the innermost class of a class type, and of
    the outermost dimension of an array. -/
def annotations : JavaType α → List α
  | .primitive _ annotations => annotations
  | .ofClass segments => (segments.getLast?.map (·.annotations)).getD []
  | .array _ dimensions => dimensions.head?.getD []
  | .typeVariable _ annotations => annotations
  | .wildcard annotations => annotations
  | .bounded _ _ annotations => annotations

/-- The type arguments of the innermost class of a class type. -/
def arguments? : JavaType α → Option (List (JavaType α))
  | .ofClass segments => some ((segments.getLast?.map (·.arguments)).getD [])
  | _ => none

end JavaType

/-! ### The class names in a type -/

mutual

/-- The binary names of all class types in the type, from left to right, each before those in
    its arguments. -/
def JavaType.classNames {α : Type} : JavaType α → List String
  | .primitive _ _ => []
  | .ofClass segments => ClassType.name segments :: argumentNamesOfSegments segments
  | .array element _ => element.classNames
  | .typeVariable _ _ => []
  | .wildcard _ => []
  | .bounded _ bound _ => bound.classNames
termination_by structural type => type

/-- The class names in the arguments of each class. -/
def argumentNamesOfSegments {α : Type} : List (ClassSegment α) → List String
  | [] => []
  | segment :: rest => argumentNames segment ++ argumentNamesOfSegments rest
termination_by structural segments => segments

/-- The class names in the arguments of one class. -/
def argumentNames {α : Type} : ClassSegment α → List String
  | ⟨_, arguments, _⟩ => classNamesOfTypes arguments
termination_by structural segment => segment

/-- The class names in each of the types. -/
def classNamesOfTypes {α : Type} : List (JavaType α) → List String
  | [] => []
  | type :: rest => type.classNames ++ classNamesOfTypes rest
termination_by structural types => types

end

/-- The class names in a class type. -/
def ClassType.classNames {α : Type} (segments : ClassType α) : List String :=
  (JavaType.ofClass segments).classNames

/-! ### Equality of trees -/

mutual

/-- Whether two trees are equal, annotations included. -/
def JavaType.beq {α : Type} [BEq α] : JavaType α → JavaType α → Bool
  | .primitive kind annotations, other =>
    match other with
    | .primitive kind₂ annotations₂ => kind == kind₂ && annotations == annotations₂
    | _ => false
  | .ofClass segments, other =>
    match other with
    | .ofClass segments₂ => beqSegments segments segments₂
    | _ => false
  | .array element dimensions, other =>
    match other with
    | .array element₂ dimensions₂ => element.beq element₂ && dimensions == dimensions₂
    | _ => false
  | .typeVariable name annotations, other =>
    match other with
    | .typeVariable name₂ annotations₂ => name == name₂ && annotations == annotations₂
    | _ => false
  | .wildcard annotations, other =>
    match other with
    | .wildcard annotations₂ => annotations == annotations₂
    | _ => false
  | .bounded side bound annotations, other =>
    match other with
    | .bounded side₂ bound₂ annotations₂ =>
      side == side₂ && bound.beq bound₂ && annotations == annotations₂
    | _ => false
termination_by structural type => type

/-- Whether two lists of classes are equal. -/
def beqSegments {α : Type} [BEq α] : List (ClassSegment α) → List (ClassSegment α) → Bool
  | [], others => others.isEmpty
  | segment :: rest, others =>
    match others with
    | segment₂ :: rest₂ => segment.beq segment₂ && beqSegments rest rest₂
    | [] => false
termination_by structural segments => segments

/-- Whether two classes of class types are equal. -/
def ClassSegment.beq {α : Type} [BEq α] : ClassSegment α → ClassSegment α → Bool
  | ⟨name, arguments, annotations⟩, other =>
    name == other.name && beqTypes arguments other.arguments && annotations == other.annotations
termination_by structural segment => segment

/-- Whether two lists of types are equal. -/
def beqTypes {α : Type} [BEq α] : List (JavaType α) → List (JavaType α) → Bool
  | [], others => others.isEmpty
  | type :: rest, others =>
    match others with
    | type₂ :: rest₂ => type.beq type₂ && beqTypes rest rest₂
    | [] => false
termination_by structural types => types

end

instance {α : Type} [BEq α] : BEq (JavaType α) := ⟨JavaType.beq⟩
instance {α : Type} [BEq α] : BEq (ClassSegment α) := ⟨ClassSegment.beq⟩

/-! ### Declarations -/

/-- A declared type variable with its bounds. -/
structure TypeParameter (α : Type) where
  /-- The name of the variable. -/
  name : String
  /-- The class bound, which may be left out. -/
  classBound : Option (JavaType α)
  /-- The interface bounds. -/
  interfaceBounds : List (JavaType α)
  /-- The annotations on the declaration. -/
  annotations : List α
  deriving BEq

/-- The types of a method. -/
structure MethodSignature (α : Type) where
  /-- The type variables the method declares. -/
  typeParameters : List (TypeParameter α)
  /-- The types of the formal parameters. -/
  parameters : List (JavaType α)
  /-- The result type. -/
  result : JavaType α
  /-- The types the method declares to throw. -/
  throws : List (JavaType α)
  /-- The type of the receiver, present once something annotates it. -/
  receiver : Option (JavaType α)
  deriving BEq

/-- The supertypes of a class. -/
structure ClassSignature (α : Type) where
  /-- The type variables the class declares. -/
  typeParameters : List (TypeParameter α)
  /-- The superclass, if there is one. -/
  superclass : Option (ClassType α)
  /-- The interfaces. -/
  interfaces : List (ClassType α)
  deriving BEq

/-- All bounds of a type variable, the class bound first. -/
def TypeParameter.bounds {α : Type} (parameter : TypeParameter α) : List (JavaType α) :=
  parameter.classBound.toList ++ parameter.interfaceBounds

/-- The class names in the bounds. -/
def TypeParameter.classNames {α : Type} (parameter : TypeParameter α) : List String :=
  parameter.bounds.flatMap (·.classNames)

/-- The class names in a method's types; the receiver names only the class itself and is left
    out. -/
def MethodSignature.classNames {α : Type} (signature : MethodSignature α) : List String :=
  signature.typeParameters.flatMap (·.classNames)
    ++ (signature.parameters ++ signature.throws).flatMap (·.classNames)
    ++ signature.result.classNames

/-- The class names in a class's type variables and supertypes. -/
def ClassSignature.classNames {α : Type} (signature : ClassSignature α) : List String :=
  signature.typeParameters.flatMap (·.classNames)
    ++ (signature.superclass.toList ++ signature.interfaces).flatMap ClassType.classNames

end ClassAtlas
