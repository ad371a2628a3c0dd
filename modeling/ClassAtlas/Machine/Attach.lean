import ClassAtlas.ClassFile.Placement
import ClassAtlas.Machine.Reading

namespace ClassAtlas.Machine

/-!
# Attaching annotations by indices

The path of an annotation is followed by slices of it, and what it leads to is found by indices.

* `packageEnd`, `splitClass` — the classes that a name stands for, by cuts of the name;
* `attachInType`, `attachInClassType` — along a path into a type;
* `attachInMethod`, `attachInClass` — at a place in a declaration;
* `placeInField`, `placeInMethod`, `placeInClass` — at the place a target names.
-/

variable {α : Type}

/-! ### Nested classes in one name -/

/-- How many bytes of a class's name are the package and its dot.  Only the name of an outermost
    class has a package. -/
def packageEnd (outermost : Bool) (name : List Char) : Guarded Nat :=
  if outermost then
    match offsetOfLast? '.' name with
    | some offset => add offset 1
    | none => return 0
  else return 0

/-- One class as the classes its name stands for: the outermost keeps the annotations, the
    innermost the arguments. -/
def splitClass (outermost : Bool) (segment : ClassSegment α) : Guarded (ClassType α) := do
  let name := segment.name.toList
  let start ← packageEnd outermost name
  let (_, own) ← cutAt start name
  if '$' ∉ own then return [segment]
  else
    let (package, own) ← cutAt start name
    let parts := dollarParts own
    let innermost ← subtract parts.length 1
    return parts.mapIdx fun index part => {
      name := String.ofList (if index = 0 then package ++ part else part)
      arguments := if index = innermost then segment.arguments else []
      annotations := if index = 0 then segment.annotations else [] }

/-- The class type with the innermost class split into the classes its name stands for. -/
def splitInnermost (segments : ClassType α) : Guarded (ClassType α) :=
  match segments.getLast? with
  | some last => (segments.dropLast ++ ·) <$> splitClass (segments.length = 1) last
  | none => return segments

/-- The classes that a path leads into, the innermost of which is split where the path steps into
    more classes than there are. -/
def splitFor (depth : Nat) (segments : ClassType α) : Guarded (ClassType α) :=
  if segments.length ≤ depth then splitInnermost segments else return segments

/-! ### Along a path -/

variable [ToString α]

mutual

/-- Attaches an annotation along a path. -/
def attachInType (note : α) (path : TypePath) (type : JavaType α) : Guarded (Edit (JavaType α)) :=
  match type with
  | .primitive kind annotations =>
    if path.isEmpty then return .done (.primitive kind (annotations ++ [note]))
    else return .refused type (.noSuchNode path type.render)
  | .typeVariable name annotations =>
    if path.isEmpty then return .done (.typeVariable name (annotations ++ [note]))
    else return .refused type (.noSuchNode path type.render)
  | .ofClass segments => return (← attachInClassType note path segments).map .ofClass
  | .array element dimensions =>
    let entered := path.leading .element
    if entered < dimensions.length then
      if entered = path.length then do
        let annotations ← entryAt dimensions entered
        return .done (.array element (dimensions.set entered (annotations ++ [note])))
      else return .refused type (.leavesArray path)
    else
      match _inside : tailFrom path dimensions.length with
      | .ok rest => return (← attachInType note rest element).map (.array · dimensions)
      | .error fault => .error fault
  | .wildcard annotations =>
    match path with
    | [] => return .done (.wildcard (annotations ++ [note]))
    | .bound :: _ => return .refused type (.unboundedBound path)
    | _ => return .refused type (.noSuchNode path type.render)
  | .bounded side bound annotations =>
    match path with
    | [] => return .done (.bounded side bound (annotations ++ [note]))
    | .bound :: rest =>
      return (← attachInType note rest bound).map (.bounded side · annotations)
    | _ => return .refused type (.noSuchNode path type.render)
termination_by (path.length, sizeOf type)
decreasing_by
  · exact Prod.Lex.right _ (by simp only [JavaType.ofClass.sizeOf_spec]; omega)
  · have := length_of_tailFrom _inside
    exact Prod.Lex.right' _ (by omega) (by simp only [JavaType.array.sizeOf_spec]; omega)
  · exact Prod.Lex.left _ _ (by simp)

/-- Attaches an annotation along a path into a class type. -/
def attachInClassType (note : α) (path : TypePath) (segments : ClassType α) :
    Guarded (Edit (ClassType α)) := do
  let depth := path.leading .nested
  let shaped ← splitFor depth segments
  match shaped[depth]? with
  | none => return .refused shaped (.noSuchNode path (ClassType.render shaped))
  | some segment =>
    match _entered : tailFrom path depth with
    | .error fault => .error fault
    | .ok [] =>
      return .done
        (shaped.set depth { segment with annotations := segment.annotations ++ [note] })
    | .ok (.argument index :: rest) =>
      match segment.arguments[index.toNat]? with
      | none => return .refused shaped (.noSuchArgument path index segment.name)
      | some argument =>
        return (← attachInType note rest argument).map fun argument =>
          shaped.set depth
            { segment with arguments := segment.arguments.set index.toNat argument }
    | .ok _ => return .refused shaped (.noSuchNode path (ClassType.render shaped))
termination_by (path.length, sizeOf segments)
decreasing_by
  have := length_of_tailFrom _entered
  rw [List.length_cons] at this
  exact Prod.Lex.left _ _ (by omega)

end

/-! ### In declarations -/

/-- Attaches an annotation inside one of some types. -/
def attachInTypes (note : α) (path : TypePath) (index : Nat) (types : List (JavaType α)) :
    Guarded (Edit (List (JavaType α))) :=
  match types[index]? with
  | none => return .nowhere types
  | some type => return (← attachInType note path type).map (types.set index ·)

/-- Attaches an annotation at a place in a declared type variable.  The interface bounds are counted
    behind the class bound. -/
def attachInVariable (note : α) (path : TypePath) (place : VariablePlace)
    (parameter : TypeParameter α) : Guarded (Edit (TypeParameter α)) :=
  match place with
  | .declaration => return .done { parameter with annotations := parameter.annotations ++ [note] }
  | .bound index =>
    if index = 0 then
      match parameter.classBound with
      | none => return .nowhere parameter
      | some bound =>
        return (← attachInType note path bound).map fun bound =>
          { parameter with classBound := some bound }
    else do
      let behind ← subtract index 1
      return (← attachInTypes note path behind parameter.interfaceBounds).map fun bounds =>
        { parameter with interfaceBounds := bounds }

/-- Attaches an annotation at a place in one of some type variables. -/
def attachInVariables (note : α) (path : TypePath) (index : Nat) (place : VariablePlace)
    (parameters : List (TypeParameter α)) : Guarded (Edit (List (TypeParameter α))) :=
  match parameters[index]? with
  | none => return .nowhere parameters
  | some parameter =>
    return (← attachInVariable note path place parameter).map (parameters.set index ·)

/-- Attaches an annotation at a place in a method's types.  The receiver is made if it is not
    there yet. -/
def attachInMethod (note : α) (path : TypePath) (place : MethodPlace)
    (signature : MethodSignature α) : Guarded (Edit (MethodSignature α)) :=
  match place with
  | .typeParameter index place =>
    return (← attachInVariables note path index place signature.typeParameters).map
      fun parameters => { signature with typeParameters := parameters }
  | .parameter index =>
    return (← attachInTypes note path index signature.parameters).map
      fun parameters => { signature with parameters := parameters }
  | .result =>
    return (← attachInType note path signature.result).map
      fun type => { signature with result := type }
  | .thrown index =>
    return (← attachInTypes note path index signature.throws).map
      fun types => { signature with throws := types }
  | .receiver className =>
    let type := signature.receiver.getD (.ofClass (ClassType.ofName className))
    return (← attachInType note path type).map fun type => { signature with receiver := some type }

/-- Attaches an annotation at a place in a class's supertypes. -/
def attachInClass (note : α) (path : TypePath) (place : ClassPlace)
    (signature : ClassSignature α) : Guarded (Edit (ClassSignature α)) :=
  match place with
  | .typeParameter index place =>
    return (← attachInVariables note path index place signature.typeParameters).map
      fun parameters => { signature with typeParameters := parameters }
  | .superclass =>
    match signature.superclass with
    | none => return .nowhere signature
    | some segments =>
      return (← attachInClassType note path segments).map
        fun segments => { signature with superclass := some segments }
  | .implemented index =>
    match signature.interfaces[index]? with
    | none => return .nowhere signature
    | some segments =>
      return (← attachInClassType note path segments).map
        fun segments => { signature with interfaces := signature.interfaces.set index segments }

/-! ### At the place a target names -/

/-- Places an annotation in the type of a field. -/
def placeInField (field : String) (type : AnnotatedType) (use : TypeUse) :
    Checked AnnotatedType := do
  let notOnField : Error := .malformed (.targetNotOnField use.target field)
  match use.target with
  | .field => (← attachInType use.note use.path type).toExcept notOnField
  | .code => return type
  | _ => throw notOnField

/-- Places an annotation in a method's types. -/
def placeInMethod (className method : String) (signature : MethodSignature AnnotationUse)
    (use : TypeUse) : Checked (MethodSignature AnnotationUse) := do
  let notOnMethod : Error := .malformed (.targetNotOnMethod use.target method)
  let missing (part : SignaturePart) : Error := .malformed (.missingPart part method)
  let put (place : MethodPlace) (missing : Error) : Checked (MethodSignature AnnotationUse) := do
    (← attachInMethod use.note use.path place signature).toExcept missing
  match use.target with
  | .methodTypeParameter index =>
    put (.typeParameter index.toNat .declaration) (missing (.typeParameter index))
  | .methodTypeParameterBound parameter bound =>
    put (.typeParameter parameter.toNat (.bound bound.toNat)) (missing (.methodBound bound))
  | .result => put .result notOnMethod
  | .receiver => put (.receiver className) notOnMethod
  | .formalParameter index => put (.parameter index.toNat) (missing (.formalParameter index))
  | .throws index => put (.thrown index.toNat) (missing (.thrown index))
  | .code => return signature
  | _ => throw notOnMethod

/-- Places an annotation in a class's supertypes. -/
def placeInClass (signature : ClassSignature AnnotationUse) (use : TypeUse) :
    Checked (ClassSignature AnnotationUse) := do
  let missing (part : SignaturePart) (owner : String) : Error :=
    .malformed (.missingPart part owner)
  let put (place : ClassPlace) (missing : Error) : Checked (ClassSignature AnnotationUse) := do
    (← attachInClass use.note use.path place signature).toExcept missing
  match use.target with
  | .classTypeParameter index =>
    put (.typeParameter index.toNat .declaration) (missing (.typeParameter index) "class")
  | .classTypeParameterBound parameter bound =>
    put (.typeParameter parameter.toNat (.bound bound.toNat))
      (missing (.classBound bound) "class type parameter")
  | .supertype index =>
    if index = AnnotationTarget.superclassIndex then
      put .superclass (missing .superclass "class")
    else put (.implemented index.toNat) (missing (.implemented index) "class")
  | .code => return signature
  | target => throw (.malformed (.targetNotOnClass target))

end ClassAtlas.Machine
