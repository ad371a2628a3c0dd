import ClassAtlas.Annotations.TypeUse
import ClassAtlas.Signature.Attach

namespace ClassAtlas

/-!
# Type-use annotations in their places

A type-use annotation is moved from the table of its attribute to the place in the declaration
that its target names:

* `JavaType.place`, `MethodSignature.place`, `ClassSignature.place` — one annotation;
* the same with `All` — one after the other.

Targets inside method bodies have no place in a declaration and are passed over.
-/

/-! ### Fields -/

/-- Places an annotation in the type of a field. -/
def JavaType.place (field : String) (type : AnnotatedType) (use : TypeUse) :
    Except Error AnnotatedType :=
  let notOnField : Error := .malformed (.targetNotOnField use.target field)
  match use.target with
  | .field => (type.attach use.note use.path).toExcept notOnField
  | .code => .ok type
  | _ => .error notOnField

/-- Places annotations in the type of a field. -/
def JavaType.placeAll (field : String) (type : AnnotatedType) (uses : List TypeUse) :
    Except Error AnnotatedType :=
  uses.foldlM (JavaType.place field) type

/-! ### Methods -/

/-- Places an annotation in a method's types. -/
def MethodSignature.place (className method : String) (signature : MethodSignature AnnotationUse)
    (use : TypeUse) : Except Error (MethodSignature AnnotationUse) :=
  let notOnMethod : Error := .malformed (.targetNotOnMethod use.target method)
  let missing (part : SignaturePart) : Error := .malformed (.missingPart part method)
  let put (place : MethodPlace) (missing : Error) :=
    (signature.attach use.note use.path place).toExcept missing
  match use.target with
  | .methodTypeParameter index =>
    put (.typeParameter index.toNat .declaration) (missing (.typeParameter index))
  | .methodTypeParameterBound parameter bound =>
    put (.typeParameter parameter.toNat (.bound bound.toNat)) (missing (.methodBound bound))
  | .result => put .result notOnMethod
  | .receiver => put (.receiver className) notOnMethod
  | .formalParameter index => put (.parameter index.toNat) (missing (.formalParameter index))
  | .throws index => put (.thrown index.toNat) (missing (.thrown index))
  | .code => .ok signature
  | _ => .error notOnMethod

/-- Places annotations in a method's types. -/
def MethodSignature.placeAll (className method : String)
    (signature : MethodSignature AnnotationUse) (uses : List TypeUse) :
    Except Error (MethodSignature AnnotationUse) :=
  uses.foldlM (MethodSignature.place className method) signature

/-! ### Classes -/

/-- Places an annotation in a class's supertypes. -/
def ClassSignature.place (signature : ClassSignature AnnotationUse) (use : TypeUse) :
    Except Error (ClassSignature AnnotationUse) :=
  let missing (part : SignaturePart) (owner : String) : Error :=
    .malformed (.missingPart part owner)
  let put (place : ClassPlace) (missing : Error) :=
    (signature.attach use.note use.path place).toExcept missing
  match use.target with
  | .classTypeParameter index =>
    put (.typeParameter index.toNat .declaration) (missing (.typeParameter index) "class")
  | .classTypeParameterBound parameter bound =>
    put (.typeParameter parameter.toNat (.bound bound.toNat))
      (missing (.classBound bound) "class type parameter")
  | .supertype index =>
    if index = AnnotationTarget.superclassIndex then
      put .superclass (missing .superclass "class")
    else put (.implemented index.toNat) (missing (.implemented index) "class")
  | .code => .ok signature
  | target => .error (.malformed (.targetNotOnClass target))

/-- Places annotations in a class's supertypes. -/
def ClassSignature.placeAll (signature : ClassSignature AnnotationUse) (uses : List TypeUse) :
    Except Error (ClassSignature AnnotationUse) :=
  uses.foldlM ClassSignature.place signature

end ClassAtlas
