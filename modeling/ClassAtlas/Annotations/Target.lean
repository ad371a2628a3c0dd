namespace ClassAtlas

/-!
# What a type-use annotation is on

* `AnnotationTarget` — the place of the annotated type in a declaration;
* `AnnotationTarget.render` — the target in a message;
* `SignaturePart` — the part of a signature that a target asks for.
-/

/-- The place of an annotated type. -/
inductive AnnotationTarget where
  /-- The declaration of a class's type variable. -/
  | classTypeParameter (index : UInt8)
  /-- The declaration of a method's type variable. -/
  | methodTypeParameter (index : UInt8)
  /-- The superclass, if the index is the largest one, or an interface. -/
  | supertype (index : UInt16)
  /-- A bound of a class's type variable. -/
  | classTypeParameterBound (parameter bound : UInt8)
  /-- A bound of a method's type variable. -/
  | methodTypeParameterBound (parameter bound : UInt8)
  /-- The type of a field. -/
  | field
  /-- The result type of a method. -/
  | result
  /-- The receiver type of a method. -/
  | receiver
  /-- The type of a formal parameter. -/
  | formalParameter (index : UInt8)
  /-- A type in the `throws` clause. -/
  | throws (index : UInt16)
  /-- A type inside a method body, which no signature shows. -/
  | code
  deriving DecidableEq, Repr

/-- The index by which the superclass is meant. -/
def AnnotationTarget.superclassIndex : UInt16 := 0xFFFF

/-- The target in a message. -/
def AnnotationTarget.render : AnnotationTarget → String
  | .classTypeParameter index => s!"ClassTypeParameter({index})"
  | .methodTypeParameter index => s!"MethodTypeParameter({index})"
  | .supertype index => s!"Supertype({index})"
  | .classTypeParameterBound parameter bound =>
    s!"ClassTypeParameterBound \x7b parameter: {parameter}, bound: {bound} \x7d"
  | .methodTypeParameterBound parameter bound =>
    s!"MethodTypeParameterBound \x7b parameter: {parameter}, bound: {bound} \x7d"
  | .field => "Field"
  | .result => "Return"
  | .receiver => "Receiver"
  | .formalParameter index => s!"FormalParameter({index})"
  | .throws index => s!"Throws({index})"
  | .code => "Code"

/-- A part of a signature that need not be there. -/
inductive SignaturePart where
  | typeParameter (index : UInt8)
  | classBound (index : UInt8)
  | methodBound (index : UInt8)
  | superclass
  | implemented (index : UInt16)
  | formalParameter (index : UInt8)
  | thrown (index : UInt16)
  deriving DecidableEq, Repr

/-- The part in a message, with its index where it has one. -/
def SignaturePart.render : SignaturePart → String
  | .typeParameter index => s!"type parameter {index}"
  | .classBound index => s!"bound {index}"
  | .methodBound index => s!"type parameter bound {index}"
  | .superclass => "superclass "
  | .implemented index => s!"interface {index}"
  | .formalParameter index => s!"formal parameter {index}"
  | .thrown index => s!"thrown type {index}"

end ClassAtlas
