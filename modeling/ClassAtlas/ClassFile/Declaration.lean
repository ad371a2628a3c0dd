import ClassAtlas.Annotations.Basic
import ClassAtlas.ClassFile.Modifiers
import ClassAtlas.Text.ClassName

namespace ClassAtlas

/-!
# Declarations

What a class file declares, with all names in binary form.

* `FieldDecl`, `MethodDecl`, `ClassDecl` — the declarations;
* `FieldDecl.render` and its like — a declaration on one line;
* `ClassDecl.field?`, `ClassDecl.methodsNamed` — members by name;
* `annotationNamed?` — an annotation by name.
-/

/-- The first annotation of a type. -/
def annotationNamed? (annotations : List AnnotationUse) (name : String) : Option AnnotationUse :=
  annotations.find? (·.name = name)

/-- A text with a blank behind it, unless it is empty. -/
def spaced (text : String) : String := if text.isEmpty then "" else text ++ " "

/-! ### Fields -/

/-- A field. -/
structure FieldDecl where
  /-- The name. -/
  name : String
  /-- The modifiers. -/
  modifiers : FieldModifiers
  /-- The descriptor, as it stands in the file. -/
  descriptor : String
  /-- The type, with everything known about it. -/
  type : AnnotatedType
  /-- Whether the type comes from a signature rather than from the descriptor. -/
  isGeneric : Bool
  /-- The annotations on the field. -/
  annotations : List AnnotationUse
  /-- The constant that initialises a final field. -/
  constant : Option Constant

/-- The field on one line. -/
def FieldDecl.render (field : FieldDecl) : String :=
  spaced field.modifiers.render ++ field.type.render ++ " " ++ field.name
    ++ (field.constant.map fun value => " = " ++ value.render).getD ""

/-! ### Methods -/

/-- A method. -/
structure MethodDecl where
  /-- The name. -/
  name : String
  /-- The modifiers. -/
  modifiers : MethodModifiers
  /-- The descriptor, as it stands in the file. -/
  descriptor : String
  /-- The types, with everything known about them. -/
  signature : MethodSignature AnnotationUse
  /-- Whether the types come from a signature rather than from the descriptor. -/
  isGeneric : Bool
  /-- The annotations on the method. -/
  annotations : List AnnotationUse
  /-- The annotations on each parameter. -/
  parameterAnnotations : List (List AnnotationUse)
  /-- The names of the parameters, where they have one. -/
  parameterNames : List (Option String)
  /-- The default value of an annotation element. -/
  default : Option AnnotationValue
  /-- The classes in the list of exceptions. -/
  exceptions : List String

/-- The name of constructors. -/
def constructorName : String := "<init>"

/-- Whether the method is a constructor. -/
def MethodDecl.isConstructor (method : MethodDecl) : Bool := method.name = constructorName

/-- The annotations on a parameter; none on one that is not there. -/
def MethodDecl.annotationsOfParameter (method : MethodDecl) (index : Nat) : List AnnotationUse :=
  (method.parameterAnnotations[index]?).getD []

/-- The method on one line. -/
def MethodDecl.render (method : MethodDecl) : String :=
  let signature := method.signature
  spaced method.modifiers.render ++ spaced (renderTypeParameters signature.typeParameters)
    ++ signature.result.render ++ " " ++ method.name
    ++ "(" ++ commaList (signature.parameters.map (·.render)) ++ ")"
    ++ (if signature.throws.isEmpty then ""
        else " throws " ++ commaList (signature.throws.map (·.render)))

/-! ### Classes -/

/-- The method a local class is declared in, or the class if it is in no method. -/
structure EnclosingMethod where
  /-- The class. -/
  className : String
  /-- The name and the descriptor of the method. -/
  method : Option (String × String)
  deriving DecidableEq

/-- Where a class comes from. -/
structure Origin where
  /-- The label of the source. -/
  source : String
  /-- The place of the source among all sources. -/
  index : Nat
  deriving DecidableEq

/-- The version of a class file. -/
structure FileVersion where
  /-- The major version. -/
  major : UInt16
  /-- The minor version. -/
  minor : UInt16
  deriving DecidableEq

/-- A class. -/
structure ClassDecl where
  /-- The name. -/
  name : String
  /-- The sort of class. -/
  kind : ClassKind
  /-- The modifiers; of a member class those it was declared with. -/
  modifiers : ClassModifiers
  /-- The version of the file. -/
  version : FileVersion
  /-- The superclass, which interfaces do not have. -/
  superclass : Option String
  /-- The interfaces. -/
  interfaces : List String
  /-- The type variables and supertypes, if more than their names is known. -/
  signature : Option (ClassSignature AnnotationUse)
  /-- The annotations on the class. -/
  annotations : List AnnotationUse
  /-- The class it is declared in. -/
  outerClass : Option String
  /-- The member classes. -/
  innerClasses : List String
  /-- The method it is declared in. -/
  enclosingMethod : Option EnclosingMethod
  /-- The name of the source file. -/
  sourceFile : Option String
  /-- The fields, in file order. -/
  fields : List FieldDecl
  /-- The methods, in file order. -/
  methods : List MethodDecl
  /-- Every other class mentioned, sorted by name. -/
  referenced : List String
  /-- Where the class comes from. -/
  origin : Origin

namespace ClassDecl

/-- Whether the class is an interface or an annotation type. -/
def isInterface (decl : ClassDecl) : Bool := decl.kind.isInterface

/-- Whether the class is an annotation type. -/
def isAnnotationType (decl : ClassDecl) : Bool := decl.kind = .annotationType

/-- The package. -/
def package (decl : ClassDecl) : String := Text.packageOf decl.name

/-- The name without the package and the outer classes. -/
def simpleName (decl : ClassDecl) : String := Text.simpleOf decl.name

/-- The first field of a name. -/
def field? (decl : ClassDecl) (name : String) : Option FieldDecl :=
  decl.fields.find? (·.name = name)

/-- All methods of a name. -/
def methodsNamed (decl : ClassDecl) (name : String) : List MethodDecl :=
  decl.methods.filter (·.name = name)

/-- The class on one line. -/
def render (decl : ClassDecl) : String :=
  spaced decl.modifiers.render ++ decl.kind.keyword ++ " " ++ decl.name

end ClassDecl

end ClassAtlas
