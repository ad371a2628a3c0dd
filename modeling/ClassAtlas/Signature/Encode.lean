import ClassAtlas.Signature.Basic
import ClassAtlas.Text.ClassName

namespace ClassAtlas

/-!
# The written form of signatures

The form in which a class file holds signatures.  Annotations and receivers have no place in it.

* `JavaType.encode`, `ClassType.encode` — a type;
* `MethodSignature.encode`, `ClassSignature.encode` — the signature of a member or class.
-/

/-- The character in front of a wildcard's bound. -/
def BoundSide.indicator : BoundSide → String
  | .upper => "+"
  | .lower => "-"

/-- Something in angle brackets, or nothing if the list it came from is empty. -/
def bracketed {β : Type} (items : List β) (text : String) : String :=
  if items.isEmpty then "" else "<" ++ text ++ ">"

/-! ### Types -/

mutual

/-- The written form of a type. -/
def JavaType.encode {α : Type} : JavaType α → String
  | .primitive kind _ => kind.descriptor.toString
  | .ofClass segments => "L" ++ encodeOutermost segments ++ ";"
  | .array element dimensions =>
    String.ofList (List.replicate dimensions.length '[') ++ element.encode
  | .typeVariable name _ => "T" ++ name ++ ";"
  | .wildcard _ => "*"
  | .bounded side bound _ => side.indicator ++ bound.encode
termination_by structural type => type

/-- The classes of a class type.  Only the outermost name is written in the internal form. -/
def encodeOutermost {α : Type} : List (ClassSegment α) → String
  | [] => ""
  | segment :: rest =>
    Text.internal segment.name ++ segment.encodeArguments ++ encodeInner rest
termination_by structural segments => segments

/-- The classes inside the outermost one, each behind a dot. -/
def encodeInner {α : Type} : List (ClassSegment α) → String
  | [] => ""
  | segment :: rest => "." ++ segment.name ++ segment.encodeArguments ++ encodeInner rest
termination_by structural segments => segments

/-- The arguments of one class. -/
def ClassSegment.encodeArguments {α : Type} : ClassSegment α → String
  | ⟨_, arguments, _⟩ => bracketed arguments (encodeTypes arguments)
termination_by structural segment => segment

/-- Types one after the other. -/
def encodeTypes {α : Type} : List (JavaType α) → String
  | [] => ""
  | type :: rest => type.encode ++ encodeTypes rest
termination_by structural types => types

end

variable {α : Type}

/-- The written form of a class type. -/
def ClassType.encode (segments : ClassType α) : String := (JavaType.ofClass segments).encode

/-! ### Declarations -/

/-- A declared type variable: its name, then each bound behind a colon.  The colon of the class
    bound is written even where that bound is left out. -/
def TypeParameter.encode (parameter : TypeParameter α) : String :=
  parameter.name ++ ":" ++ (parameter.classBound.map (·.encode)).getD ""
    ++ String.join (parameter.interfaceBounds.map fun bound => ":" ++ bound.encode)

/-- Declared type variables. -/
def encodeTypeParameters (parameters : List (TypeParameter α)) : String :=
  bracketed parameters (String.join (parameters.map (·.encode)))

/-- The signature of a method. -/
def MethodSignature.encode (signature : MethodSignature α) : String :=
  encodeTypeParameters signature.typeParameters
    ++ "(" ++ String.join (signature.parameters.map (·.encode)) ++ ")"
    ++ signature.result.encode
    ++ String.join (signature.throws.map fun thrown => "^" ++ thrown.encode)

/-- The signature of a class.  A class without superclass is written with the root class. -/
def ClassSignature.encode (signature : ClassSignature α) : String :=
  encodeTypeParameters signature.typeParameters
    ++ (signature.superclass.map ClassType.encode).getD "Ljava/lang/Object;"
    ++ String.join (signature.interfaces.map ClassType.encode)

end ClassAtlas
