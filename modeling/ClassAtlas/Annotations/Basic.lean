import ClassAtlas.Constant
import ClassAtlas.Signature.Render

namespace ClassAtlas

/-!
# Annotations

* `AnnotationUse`, `AnnotationElement`, `AnnotationValue` — an annotation with its element values;
* `AnnotationUse.value?` — the value of an element;
* `AnnotationUse.classNames` — the classes an annotation mentions;
* `AnnotationUse.render`, `AnnotationValue.render` — as they would be written.

The class literals in an annotation are types that nothing annotates.
-/

mutual

/-- An annotation. -/
structure AnnotationUse where
  /-- The binary name of the annotation type. -/
  name : String
  /-- The element values, in file order. -/
  elements : List AnnotationElement

/-- A named value of an annotation. -/
structure AnnotationElement where
  /-- The name of the element. -/
  name : String
  /-- Its value. -/
  value : AnnotationValue

/-- A value of an annotation element. -/
inductive AnnotationValue where
  /-- A primitive value or a string. -/
  | constant (value : Constant)
  /-- A constant of an enum class. -/
  | enumConstant (typeName constantName : String)
  /-- A class literal. -/
  | classLiteral (type : BareType)
  /-- An annotation. -/
  | nested (value : AnnotationUse)
  /-- An array of values. -/
  | array (values : List AnnotationValue)

end

instance : Inhabited AnnotationUse := ⟨⟨"", []⟩⟩
instance : Inhabited AnnotationValue := ⟨.array []⟩

/-- A type whose uses can be annotated. -/
abbrev AnnotatedType := JavaType AnnotationUse

namespace AnnotationUse

/-- An annotation without element values. -/
def ofName (name : String) : AnnotationUse := ⟨name, []⟩

/-- The value of an element; the first one, should a name occur twice. -/
def value? (note : AnnotationUse) (name : String) : Option AnnotationValue :=
  (note.elements.find? (·.name = name)).map (·.value)

end AnnotationUse

namespace AnnotationValue

/-- The constant, if the value is one. -/
def constant? : AnnotationValue → Option Constant
  | .constant value => some value
  | _ => none

/-- The text, if the value is a string. -/
def string? (value : AnnotationValue) : Option String := value.constant?.bind (·.string?)

/-- The values, if the value is an array. -/
def array? : AnnotationValue → Option (List AnnotationValue)
  | .array values => some values
  | _ => none

end AnnotationValue

/-! ### The class names in an annotation -/

mutual

/-- The annotation type, then the names in its values. -/
def AnnotationUse.classNames : AnnotationUse → List String
  | ⟨name, elements⟩ => name :: classNamesOfElements elements
termination_by structural whole => whole

/-- The names in some element values. -/
def classNamesOfElements : List AnnotationElement → List String
  | [] => []
  | element :: rest => element.classNames ++ classNamesOfElements rest
termination_by structural elements => elements

/-- The names in one element value. -/
def AnnotationElement.classNames : AnnotationElement → List String
  | ⟨_, value⟩ => value.classNames
termination_by structural element => element

/-- The names in a value: of an enum constant its class, of a class literal those in the type. -/
def AnnotationValue.classNames : AnnotationValue → List String
  | .constant _ => []
  | .enumConstant typeName _ => [typeName]
  | .classLiteral type => type.classNames
  | .nested value => value.classNames
  | .array values => classNamesOfValues values
termination_by structural value => value

/-- The names in some values. -/
def classNamesOfValues : List AnnotationValue → List String
  | [] => []
  | value :: rest => value.classNames ++ classNamesOfValues rest
termination_by structural values => values

end

/-! ### The text of an annotation -/

mutual

/-- The annotation, with its element values in parentheses if it has any. -/
def AnnotationUse.render : AnnotationUse → String
  | ⟨name, elements⟩ =>
    "@" ++ name
      ++ (if elements.isEmpty then "" else "(" ++ commaList (renderElements elements) ++ ")")
termination_by structural whole => whole

/-- The texts of some element values. -/
def renderElements : List AnnotationElement → List String
  | [] => []
  | element :: rest => element.render :: renderElements rest
termination_by structural elements => elements

/-- The name and the value of an element. -/
def AnnotationElement.render : AnnotationElement → String
  | ⟨name, value⟩ => name ++ "=" ++ value.render
termination_by structural element => element

/-- A value. -/
def AnnotationValue.render : AnnotationValue → String
  | .constant value => value.render
  | .enumConstant typeName constantName => typeName ++ "." ++ constantName
  | .classLiteral type => type.render ++ ".class"
  | .nested value => value.render
  | .array values => "\x7b" ++ commaList (renderValues values) ++ "\x7d"
termination_by structural value => value

/-- The texts of some values. -/
def renderValues : List AnnotationValue → List String
  | [] => []
  | value :: rest => value.render :: renderValues rest
termination_by structural values => values

end

instance : ToString AnnotationUse := ⟨AnnotationUse.render⟩

/-! ### Equality -/

mutual

/-- Whether two annotations are equal. -/
def AnnotationUse.beq : AnnotationUse → AnnotationUse → Bool
  | ⟨name, elements⟩, other => name == other.name && beqElements elements other.elements
termination_by structural whole => whole

/-- Whether two lists of element values are equal. -/
def beqElements : List AnnotationElement → List AnnotationElement → Bool
  | [], others => others.isEmpty
  | element :: rest, others =>
    match others with
    | element₂ :: rest₂ => element.beq element₂ && beqElements rest rest₂
    | [] => false
termination_by structural elements => elements

/-- Whether two element values are equal. -/
def AnnotationElement.beq : AnnotationElement → AnnotationElement → Bool
  | ⟨name, value⟩, other => name == other.name && value.beq other.value
termination_by structural element => element

/-- Whether two values are equal. -/
def AnnotationValue.beq : AnnotationValue → AnnotationValue → Bool
  | .constant value, other =>
    match other with
    | .constant value₂ => value == value₂
    | _ => false
  | .enumConstant typeName constantName, other =>
    match other with
    | .enumConstant typeName₂ constantName₂ =>
      typeName == typeName₂ && constantName == constantName₂
    | _ => false
  | .classLiteral type, other =>
    match other with
    | .classLiteral type₂ => type == type₂
    | _ => false
  | .nested value, other =>
    match other with
    | .nested value₂ => value.beq value₂
    | _ => false
  | .array values, other =>
    match other with
    | .array values₂ => beqValues values values₂
    | _ => false
termination_by structural value => value

/-- Whether two lists of values are equal. -/
def beqValues : List AnnotationValue → List AnnotationValue → Bool
  | [], others => others.isEmpty
  | value :: rest, others =>
    match others with
    | value₂ :: rest₂ => value.beq value₂ && beqValues rest rest₂
    | [] => false
termination_by structural values => values

end

instance : BEq AnnotationUse := ⟨AnnotationUse.beq⟩

end ClassAtlas
