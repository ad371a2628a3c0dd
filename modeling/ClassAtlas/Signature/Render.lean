import ClassAtlas.Signature.Basic

namespace ClassAtlas

/-!
# Signatures as a reader would write them

* `JavaType.render`, `ClassType.render` — a type, with its annotations in front of what they
  annotate;
* `TypeParameter.render`, `MethodSignature.render`, `ClassSignature.render` — declarations.
-/

/-- There is no annotation to write where none can stand. -/
instance instToStringEmpty : ToString Empty := ⟨fun nothing => nomatch nothing⟩

/-- Texts with a comma between them. -/
def commaList (texts : List String) : String := String.intercalate ", " texts

/-- Annotations in front of what they annotate. -/
def annotationsBefore {α : Type} [ToString α] (annotations : List α) : String :=
  String.join (annotations.map fun note => toString note ++ " ")

/-- One array dimension.  Its annotations stand between the element type and the brackets. -/
def renderDimension {α : Type} [ToString α] (annotations : List α) : String :=
  if annotations.isEmpty then "[]" else " " ++ annotationsBefore annotations ++ "[]"

/-- Type arguments in angle brackets, or nothing where there are none. -/
def angleList (texts : List String) : String :=
  if texts.isEmpty then "" else "<" ++ commaList texts ++ ">"

/-- The keyword of a wildcard's bound. -/
def BoundSide.keyword : BoundSide → String
  | .upper => "extends"
  | .lower => "super"

/-! ### Types -/

mutual

/-- The text of a type. -/
def JavaType.render {α : Type} [ToString α] : JavaType α → String
  | .primitive kind annotations => annotationsBefore annotations ++ kind.keyword
  | .ofClass segments => String.intercalate "." (renderSegments segments)
  | .array element dimensions => element.render ++ String.join (dimensions.map renderDimension)
  | .typeVariable name annotations => annotationsBefore annotations ++ name
  | .wildcard annotations => annotationsBefore annotations ++ "?"
  | .bounded side bound annotations =>
    annotationsBefore annotations ++ "? " ++ side.keyword ++ " " ++ bound.render
termination_by structural type => type

/-- The texts of the classes of a class type. -/
def renderSegments {α : Type} [ToString α] : List (ClassSegment α) → List String
  | [] => []
  | segment :: rest => segment.render :: renderSegments rest
termination_by structural segments => segments

/-- One class of a class type with its arguments. -/
def ClassSegment.render {α : Type} [ToString α] : ClassSegment α → String
  | ⟨name, arguments, annotations⟩ =>
    annotationsBefore annotations ++ name ++ angleList (renderTypes arguments)
termination_by structural segment => segment

/-- The texts of some types. -/
def renderTypes {α : Type} [ToString α] : List (JavaType α) → List String
  | [] => []
  | type :: rest => type.render :: renderTypes rest
termination_by structural types => types

end

variable {α : Type} [ToString α]

/-- The text of a class type. -/
def ClassType.render (segments : ClassType α) : String := (JavaType.ofClass segments).render

/-! ### Declarations -/

/-- Whether the type is `java.lang.Object` without annotations. -/
def JavaType.isPlainObject : JavaType α → Bool
  | .ofClass [segment] => segment.name = "java.lang.Object" && segment.annotations.isEmpty
  | _ => false

/-- The bounds that are written: a class bound that is only the default is left out. -/
def TypeParameter.writtenBounds (parameter : TypeParameter α) : List (JavaType α) :=
  match parameter.classBound with
  | some bound =>
    if parameter.interfaceBounds.isEmpty && bound.isPlainObject then []
    else bound :: parameter.interfaceBounds
  | none => parameter.interfaceBounds

/-- The text of a declared type variable. -/
def TypeParameter.render (parameter : TypeParameter α) : String :=
  let bounds := parameter.writtenBounds
  annotationsBefore parameter.annotations ++ parameter.name
    ++ (if bounds.isEmpty then ""
        else " extends " ++ String.intercalate " & " (bounds.map (·.render)))

/-- Declared type variables in angle brackets, or nothing where there are none. -/
def renderTypeParameters (parameters : List (TypeParameter α)) : String :=
  angleList (parameters.map (·.render))

/-- The text of a method's types: type variables, result, parameters with the receiver first,
    and what it throws. -/
def MethodSignature.render (signature : MethodSignature α) : String :=
  let receiver := signature.receiver.toList.map fun type => type.render ++ " this"
  (if signature.typeParameters.isEmpty then ""
    else renderTypeParameters signature.typeParameters ++ " ")
    ++ signature.result.render ++ " ("
    ++ commaList (receiver ++ signature.parameters.map (·.render)) ++ ")"
    ++ (if signature.throws.isEmpty then ""
        else " throws " ++ commaList (signature.throws.map (·.render)))

/-- The text of a class's type variables and supertypes, with blanks between the parts that are
    present. -/
def ClassSignature.render (signature : ClassSignature α) : String :=
  let typeParameters :=
    if signature.typeParameters.isEmpty then []
    else [renderTypeParameters signature.typeParameters]
  let superclass := signature.superclass.toList.map fun type => "extends " ++ type.render
  let interfaces :=
    if signature.interfaces.isEmpty then []
    else ["implements " ++ commaList (signature.interfaces.map (·.render))]
  String.intercalate " "
    (typeParameters ++ superclass ++ interfaces)

end ClassAtlas
