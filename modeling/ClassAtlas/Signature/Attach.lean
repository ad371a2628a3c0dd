import ClassAtlas.Error
import ClassAtlas.Signature.Render
import ClassAtlas.Text.ClassName

namespace ClassAtlas

/-!
# Attaching annotations inside types

A type-use annotation is appended to the annotations of the node its path leads to.

* `Edit` — a tree after an edit, and why the edit was refused, if it was;
* `ClassType.splitInnermost` — the classes a dollar sign in a name stands for;
* `JavaType.attach`, `ClassType.attach` — along a path into a type;
* `MethodSignature.attach`, `ClassSignature.attach` — at a place in a declaration.

A refused edit attaches nothing, but the classes it split stay split, and a receiver it made
stays.
-/

/-- Why an edit was refused. -/
inductive Refusal where
  /-- The declaration has no such place. -/
  | noSuchPlace
  /-- The path leads nowhere in the type at that place. -/
  | badPath (cause : Malformation)
  deriving DecidableEq

/-- A tree after an edit. -/
structure Edit (τ : Type) where
  /-- The tree. -/
  tree : τ
  /-- Why the edit was refused, if it was. -/
  refusal : Option Refusal

namespace Edit

variable {τ σ : Type}

/-- An edit that went well. -/
def done (tree : τ) : Edit τ := ⟨tree, none⟩

/-- An edit that was refused because of its path. -/
def refused (tree : τ) (cause : Malformation) : Edit τ := ⟨tree, some (.badPath cause)⟩

/-- An edit at a place that is not there. -/
def nowhere (tree : τ) : Edit τ := ⟨tree, some .noSuchPlace⟩

/-- The edit of a part, as an edit of the whole. -/
def map (whole : τ → σ) (edit : Edit τ) : Edit σ := ⟨whole edit.tree, edit.refusal⟩

/-- The tree, if the edit went well; `missing` is the error for a place that is not there. -/
def toExcept (missing : Error) (edit : Edit τ) : Except Error τ :=
  match edit.refusal with
  | none => .ok edit.tree
  | some .noSuchPlace => .error missing
  | some (.badPath cause) => .error (.malformed cause)

end Edit

variable {α : Type}

/-! ### Nested classes in one name -/

/-- The parts of a text between the dollar signs. -/
def dollarParts : List Char → List (List Char)
  | [] => [[]]
  | '$' :: rest => [] :: dollarParts rest
  | c :: rest =>
    match dollarParts rest with
    | part :: parts => (c :: part) :: parts
    | [] => [[c]]

/-- The names of the classes that one name stands for.  A dollar sign in the package, which only
    the name of an outermost class has in front, does not separate classes. -/
def nestedNames (outermost : Bool) (name : String) : List String :=
  let simple := Text.afterLast '.' name.toList
  let package := name.toList.take (name.toList.length - simple.length)
  let (package, simple) := if outermost then (package, simple) else ([], name.toList)
  match dollarParts simple with
  | first :: inner => String.ofList (package ++ first) :: inner.map String.ofList
  | [] => [name]

/-- The last class takes the arguments. -/
def argumentsOnLast (arguments : List (JavaType α)) : List String → ClassType α
  | [] => []
  | [name] => [⟨name, arguments, []⟩]
  | name :: names => ⟨name, [], []⟩ :: argumentsOnLast arguments names

/-- One class as the classes its name stands for: the outermost keeps the annotations, the
    innermost the arguments. -/
def ClassSegment.split (outermost : Bool) (segment : ClassSegment α) : ClassType α :=
  match argumentsOnLast segment.arguments (nestedNames outermost segment.name) with
  | first :: inner => { first with annotations := segment.annotations } :: inner
  | [] => [segment]

/-- The class type with the innermost class split into the classes its name stands for. -/
def ClassType.splitInnermost (segments : ClassType α) : ClassType α :=
  match segments.getLast? with
  | some last => segments.dropLast ++ last.split (segments.length = 1)
  | none => segments

/-! ### Along a path -/

variable [ToString α]

mutual

/-- Attaches an annotation along a path.  The steps into an array count its dimensions first; a
    path that runs out inside them names one of them. -/
def JavaType.attach (note : α) (path : TypePath) (type : JavaType α) : Edit (JavaType α) :=
  match type with
  | .primitive kind annotations =>
    if path.isEmpty then .done (.primitive kind (annotations ++ [note]))
    else .refused type (.noSuchNode path type.render)
  | .typeVariable name annotations =>
    if path.isEmpty then .done (.typeVariable name (annotations ++ [note]))
    else .refused type (.noSuchNode path type.render)
  | .ofClass segments => (ClassType.attach note path segments).map .ofClass
  | .array element dimensions =>
    let entered := path.leading .element
    if entered < dimensions.length then
      if entered = path.length then
        .done (.array element (dimensions.modify entered (· ++ [note])))
      else .refused type (.leavesArray path)
    else (element.attach note (path.drop dimensions.length)).map (.array · dimensions)
  | .wildcard annotations =>
    match path with
    | [] => .done (.wildcard (annotations ++ [note]))
    | .bound :: _ => .refused type (.unboundedBound path)
    | _ => .refused type (.noSuchNode path type.render)
  | .bounded side bound annotations =>
    match path with
    | [] => .done (.bounded side bound (annotations ++ [note]))
    | .bound :: rest => (bound.attach note rest).map (.bounded side · annotations)
    | _ => .refused type (.noSuchNode path type.render)
termination_by (path.length, sizeOf type)
decreasing_by
  · exact Prod.Lex.right _ (by simp only [JavaType.ofClass.sizeOf_spec]; omega)
  · exact Prod.Lex.right' _ (by simp) (by simp only [JavaType.array.sizeOf_spec]; omega)
  · exact Prod.Lex.left _ _ (by simp)

/-- Attaches an annotation along a path into a class type.  A path that steps into more nested
    classes than are written splits the innermost one first. -/
def ClassType.attach (note : α) (path : TypePath) (segments : ClassType α) :
    Edit (ClassType α) :=
  let depth := path.leading .nested
  let shaped := if depth < segments.length then segments else segments.splitInnermost
  match shaped[depth]? with
  | none => .refused shaped (.noSuchNode path (ClassType.render shaped))
  | some segment =>
    match _entered : path.drop depth with
    | [] =>
      .done (shaped.set depth { segment with annotations := segment.annotations ++ [note] })
    | .argument index :: rest =>
      match segment.arguments[index.toNat]? with
      | none => .refused shaped (.noSuchArgument path index segment.name)
      | some argument =>
        (argument.attach note rest).map fun argument =>
          shaped.set depth
            { segment with arguments := segment.arguments.set index.toNat argument }
    | _ => .refused shaped (.noSuchNode path (ClassType.render shaped))
termination_by (path.length, sizeOf segments)
decreasing_by
  have := congrArg List.length _entered
  simp only [List.length_drop, List.length_cons] at this
  exact Prod.Lex.left _ _ (by omega)

end

/-! ### In a list of types -/

/-- Attaches an annotation inside one of some types. -/
def attachInTypes (note : α) (path : TypePath) (index : Nat)
    (types : List (JavaType α)) : Edit (List (JavaType α)) :=
  match types[index]? with
  | none => .nowhere types
  | some type => (type.attach note path).map (types.set index ·)

/-- Attaches an annotation inside an optional type. -/
def attachInOptional (note : α) (path : TypePath) :
    Option (JavaType α) → Edit (Option (JavaType α))
  | none => .nowhere none
  | some type => (type.attach note path).map some

/-! ### In type variables -/

/-- A place in a declared type variable. -/
inductive VariablePlace where
  /-- The declaration itself, which a path does not lead into. -/
  | declaration
  /-- A bound; the class bound has the index 0. -/
  | bound (index : Nat)
  deriving DecidableEq, Repr

/-- Attaches an annotation at a place in a declared type variable. -/
def TypeParameter.attach (note : α) (path : TypePath)
    (place : VariablePlace) (parameter : TypeParameter α) : Edit (TypeParameter α) :=
  match place with
  | .declaration => .done { parameter with annotations := parameter.annotations ++ [note] }
  | .bound 0 =>
    (attachInOptional note path parameter.classBound).map fun bound =>
      { parameter with classBound := bound }
  | .bound (index + 1) =>
    (attachInTypes note path index parameter.interfaceBounds).map fun bounds =>
      { parameter with interfaceBounds := bounds }

/-- Attaches an annotation at a place in one of some type variables. -/
def attachInVariables (note : α) (path : TypePath) (index : Nat)
    (place : VariablePlace) (parameters : List (TypeParameter α)) :
    Edit (List (TypeParameter α)) :=
  match parameters[index]? with
  | none => .nowhere parameters
  | some parameter =>
    (parameter.attach note path place).map (parameters.set index ·)

/-! ### In declarations -/

/-- A place in a method's types. -/
inductive MethodPlace where
  | typeParameter (index : Nat) (place : VariablePlace)
  | parameter (index : Nat)
  | result
  | thrown (index : Nat)
  /-- The receiver, which is of the class of that name. -/
  | receiver (className : String)
  deriving DecidableEq, Repr

/-- Attaches an annotation at a place in a method's types.  The receiver is made if it is not
    there yet. -/
def MethodSignature.attach (note : α) (path : TypePath)
    (place : MethodPlace) (signature : MethodSignature α) : Edit (MethodSignature α) :=
  match place with
  | .typeParameter index place =>
    (attachInVariables note path index place signature.typeParameters).map
      fun parameters => { signature with typeParameters := parameters }
  | .parameter index =>
    (attachInTypes note path index signature.parameters).map
      fun parameters => { signature with parameters := parameters }
  | .result =>
    (signature.result.attach note path).map fun type => { signature with result := type }
  | .thrown index =>
    (attachInTypes note path index signature.throws).map
      fun types => { signature with throws := types }
  | .receiver className =>
    let type := signature.receiver.getD (.ofClass (ClassType.ofName className))
    (type.attach note path).map fun type => { signature with receiver := some type }

/-- A place in a class's supertypes. -/
inductive ClassPlace where
  | typeParameter (index : Nat) (place : VariablePlace)
  | superclass
  | implemented (index : Nat)
  deriving DecidableEq, Repr

/-- Attaches an annotation at a place in a class's supertypes. -/
def ClassSignature.attach (note : α) (path : TypePath)
    (place : ClassPlace) (signature : ClassSignature α) : Edit (ClassSignature α) :=
  match place with
  | .typeParameter index place =>
    (attachInVariables note path index place signature.typeParameters).map
      fun parameters => { signature with typeParameters := parameters }
  | .superclass =>
    match signature.superclass with
    | none => .nowhere signature
    | some segments =>
      (ClassType.attach note path segments).map
        fun segments => { signature with superclass := some segments }
  | .implemented index =>
    match signature.interfaces[index]? with
    | none => .nowhere signature
    | some segments =>
      (ClassType.attach note path segments).map
        fun segments => { signature with interfaces := signature.interfaces.set index segments }

end ClassAtlas
