import ClassAtlas.Annotations.TypeUse
import ClassAtlas.ClassFile.Declaration

namespace ClassAtlas

/-!
# Attributes

A declaration carries a table of named attributes.  The table is read as a whole; then each
attribute that means something on that declaration is read, in order, and adds to what is known.
All others are left unread, whatever they hold.

* `DecodeOptions` — what the reader of a class file may choose;
* `RawAttribute.readTable` — the table;
* `FieldAttributes`, `MethodAttributes`, `ClassAttributes` — what is known of a declaration
  from its attributes, with `add` for one more attribute and `ofTable` for all.
-/

open Reader

/-- The choices in reading class files. -/
structure DecodeOptions where
  /-- Whether annotations that are kept from the running program are read too. -/
  invisible : Bool := true
  /-- The newest version accepted. -/
  maxMajor : UInt16 := 70
  deriving DecidableEq, Repr

/-! ### The table -/

/-- An attribute whose bytes are not read yet. -/
structure RawAttribute where
  /-- The name. -/
  name : String
  /-- The bytes. -/
  body : List UInt8
  deriving DecidableEq

/-- An attribute: its name, the number of its bytes, and the bytes. -/
def RawAttribute.read (pool : Pool) : Reader RawAttribute := do
  let name ← pool.utf8 (← u16)
  let length ← u32
  return ⟨name, ← bytes length.toNat⟩

/-- Attributes behind their count. -/
def RawAttribute.readTable (pool : Pool) : Reader (List RawAttribute) := do
  times (← u16).toNat (RawAttribute.read pool)

/-- What some reader finds at the front of the attribute's bytes. -/
def RawAttribute.contents {α : Type} (item : RawAttribute) (reader : Reader α) :
    Except Error α :=
  reader.value item.body

/-- A text that an index stands for. -/
def readUtf8 (pool : Pool) : Reader String := do
  pool.utf8 (← u16)

/-! ### Annotations -/

/-- The annotations on a declaration and on the types in it. -/
structure Annotated where
  /-- Those on the declaration. -/
  declared : List AnnotationUse := []
  /-- Those on the uses of types. -/
  typeUses : List TypeUse := []

/-- Adds the annotations an attribute holds.  Other attributes add nothing. -/
def Annotated.add (pool : Pool) (options : DecodeOptions) (known : Annotated)
    (item : RawAttribute) : Except Error Annotated := do
  let declared : Except Error Annotated := do
    let more ← item.contents (AnnotationUse.readList pool)
    return { known with declared := known.declared ++ more }
  let typeUses : Except Error Annotated := do
    let more ← item.contents (TypeUse.readList pool)
    return { known with typeUses := known.typeUses ++ more }
  match item.name with
  | "RuntimeVisibleAnnotations" => declared
  | "RuntimeInvisibleAnnotations" => if options.invisible then declared else return known
  | "RuntimeVisibleTypeAnnotations" => typeUses
  | "RuntimeInvisibleTypeAnnotations" => if options.invisible then typeUses else return known
  | _ => return known

/-! ### Fields -/

/-- What is known of a field from its attributes. -/
structure FieldAttributes where
  /-- The text of the signature. -/
  signature : Option String := none
  /-- The slot of the constant. -/
  constant : Option UInt16 := none
  /-- The annotations. -/
  annotated : Annotated := {}

/-- Adds one attribute. -/
def FieldAttributes.add (pool : Pool) (options : DecodeOptions) (known : FieldAttributes)
    (item : RawAttribute) : Except Error FieldAttributes := do
  match item.name with
  | "Signature" => return { known with signature := ← item.contents (readUtf8 pool) }
  | "ConstantValue" => return { known with constant := ← item.contents u16 }
  | _ => return { known with annotated := ← known.annotated.add pool options item }

/-- Adds all attributes of a table. -/
def FieldAttributes.ofTable (pool : Pool) (options : DecodeOptions)
    (table : List RawAttribute) : Except Error FieldAttributes :=
  table.foldlM (FieldAttributes.add pool options) {}

/-! ### Methods -/

/-- What is known of a method from its attributes. -/
structure MethodAttributes where
  /-- The text of the signature. -/
  signature : Option String := none
  /-- The classes in the list of exceptions. -/
  exceptions : List String := []
  /-- The annotations on each parameter. -/
  parameterAnnotations : List (List AnnotationUse) := []
  /-- The names of the parameters. -/
  parameterNames : List (Option String) := []
  /-- The default value. -/
  default : Option AnnotationValue := none
  /-- The annotations. -/
  annotated : Annotated := {}

/-- Two lists of annotations per parameter as one.  The longer one decides for how many. -/
def mergeParameters {α : Type} : List (List α) → List (List α) → List (List α)
  | [], more => more
  | known, [] => known
  | first :: known, second :: more => (first ++ second) :: mergeParameters known more

/-- The name of a parameter, and its flags, which are read over.  Index 0 stands for no name. -/
def readParameterName (pool : Pool) : Reader (Option String) := do
  let index ← u16
  skip 2
  if index = 0 then return none else return some (← pool.utf8 index)

/-- Adds one attribute. -/
def MethodAttributes.add (pool : Pool) (options : DecodeOptions) (known : MethodAttributes)
    (item : RawAttribute) : Except Error MethodAttributes := do
  let parameters : Except Error MethodAttributes := do
    let more ← item.contents (AnnotationUse.readParameters pool)
    return { known with parameterAnnotations := mergeParameters known.parameterAnnotations more }
  match item.name with
  | "Signature" => return { known with signature := ← item.contents (readUtf8 pool) }
  | "Exceptions" =>
    let more ← item.contents do
      times (← u16).toNat do
        pool.className (← u16)
    return { known with exceptions := known.exceptions ++ more }
  | "RuntimeVisibleParameterAnnotations" => parameters
  | "RuntimeInvisibleParameterAnnotations" =>
    if options.invisible then parameters else return known
  | "AnnotationDefault" =>
    return { known with default := ← item.contents (AnnotationValue.read pool) }
  | "MethodParameters" =>
    let more ← item.contents do
      times (← u8).toNat (readParameterName pool)
    return { known with parameterNames := known.parameterNames ++ more }
  | _ => return { known with annotated := ← known.annotated.add pool options item }

/-- Adds all attributes of a table. -/
def MethodAttributes.ofTable (pool : Pool) (options : DecodeOptions)
    (table : List RawAttribute) : Except Error MethodAttributes :=
  table.foldlM (MethodAttributes.add pool options) {}

/-! ### Classes -/

/-- A row of the table of member classes. -/
structure InnerClass where
  /-- The class. -/
  name : String
  /-- The class it is a member of. -/
  outer : Option String
  /-- The flags it was declared with. -/
  flags : UInt16
  deriving DecidableEq

/-- A row: the class, the outer class, the simple name, which is read over, and the flags. -/
def InnerClass.read (pool : Pool) : Reader InnerClass := do
  let name ← pool.className (← u16)
  let outer ← pool.optionalClassName (← u16)
  skip 2
  return ⟨name, outer, ← u16⟩

/-- The enclosing class, and the enclosing method unless its index is 0. -/
def EnclosingMethod.read (pool : Pool) : Reader EnclosingMethod := do
  let className ← pool.className (← u16)
  let method ← u16
  if method = 0 then return ⟨className, none⟩
  else return ⟨className, some (← pool.nameAndType method)⟩

/-- What is known of a class from its attributes. -/
structure ClassAttributes where
  /-- The text of the signature. -/
  signature : Option String := none
  /-- The flags the class was declared with as a member. -/
  innerFlags : Option UInt16 := none
  /-- The class it is a member of. -/
  outerClass : Option String := none
  /-- Its member classes. -/
  innerClasses : List String := []
  /-- The method it is declared in. -/
  enclosingMethod : Option EnclosingMethod := none
  /-- The name of the source file. -/
  sourceFile : Option String := none
  /-- The annotations. -/
  annotated : Annotated := {}

/-- Adds a row of the table of member classes: the class itself, a member of it, or neither.  A
    row without outer class does not take away one already known. -/
def ClassAttributes.addInner (self : String) (known : ClassAttributes) (row : InnerClass) :
    ClassAttributes :=
  if row.name = self then
    { known with innerFlags := some row.flags, outerClass := row.outer <|> known.outerClass }
  else if row.outer = some self ∧ row.name ∉ known.innerClasses then
    { known with innerClasses := known.innerClasses ++ [row.name] }
  else known

/-- Adds one attribute. -/
def ClassAttributes.add (pool : Pool) (options : DecodeOptions) (self : String)
    (known : ClassAttributes) (item : RawAttribute) : Except Error ClassAttributes := do
  match item.name with
  | "Signature" => return { known with signature := ← item.contents (readUtf8 pool) }
  | "InnerClasses" =>
    let rows ← item.contents do
      times (← u16).toNat (InnerClass.read pool)
    return rows.foldl (ClassAttributes.addInner self) known
  | "EnclosingMethod" =>
    return { known with enclosingMethod := ← item.contents (EnclosingMethod.read pool) }
  | "SourceFile" => return { known with sourceFile := ← item.contents (readUtf8 pool) }
  | _ => return { known with annotated := ← known.annotated.add pool options item }

/-- Adds all attributes of a table. -/
def ClassAttributes.ofTable (pool : Pool) (options : DecodeOptions) (self : String)
    (table : List RawAttribute) : Except Error ClassAttributes :=
  table.foldlM (ClassAttributes.add pool options self) {}

end ClassAtlas
