import ClassAtlas.ClassFile.Attribute
import ClassAtlas.Machine.Annotations

namespace ClassAtlas.Machine

/-!
# Reading attributes by a position

* `readAttributeTable` — the table of a declaration;
* `contents` — what stands in the bytes of one attribute, read by a position of their own;
* `fieldAttributes`, `methodAttributes`, `classAttributes` — what is known of a declaration from
  its attributes.
-/

variable {α : Type}

/-! ### The table -/

/-- An attribute: its name, the number of its bytes, and the bytes. -/
def readAttribute (pool : Pool) : Step RawAttribute := do
  let name ← pool.utf8 (← u16)
  let length ← u32
  return ⟨name, ← bytes length.toNat⟩

/-- Attributes behind their count. -/
def readAttributeTable (pool : Pool) : Step (List RawAttribute) := do
  times (← u16).toNat (readAttribute pool)

/-- What some step finds at the front of the attribute's bytes. -/
def contents (item : RawAttribute) (step : Step α) : Checked α := step.value item.body

/-- A text that an index stands for. -/
def readUtf8 (pool : Pool) : Step String := do
  pool.utf8 (← u16)

/-- The name of the class that an index stands for. -/
def readClassName (pool : Pool) : Step String := do
  pool.className (← u16)

/-! ### Annotations -/

/-- Adds the annotations an attribute holds.  Other attributes add nothing. -/
def addAnnotated (pool : Pool) (options : DecodeOptions) (known : Annotated)
    (item : RawAttribute) : Checked Annotated := do
  let declared : Checked Annotated := do
    let more ← contents item (readAnnotations pool)
    return { known with declared := known.declared ++ more }
  let typeUses : Checked Annotated := do
    let more ← contents item (readTypeUses pool)
    return { known with typeUses := known.typeUses ++ more }
  match item.name with
  | "RuntimeVisibleAnnotations" => declared
  | "RuntimeInvisibleAnnotations" => if options.invisible then declared else return known
  | "RuntimeVisibleTypeAnnotations" => typeUses
  | "RuntimeInvisibleTypeAnnotations" => if options.invisible then typeUses else return known
  | _ => return known

/-! ### Fields -/

/-- Adds one attribute of a field. -/
def addToField (pool : Pool) (options : DecodeOptions) (known : FieldAttributes)
    (item : RawAttribute) : Checked FieldAttributes := do
  match item.name with
  | "Signature" =>
    let text ← contents item (readUtf8 pool)
    return { known with signature := text }
  | "ConstantValue" =>
    let index ← contents item u16
    return { known with constant := index }
  | _ =>
    let annotated ← addAnnotated pool options known.annotated item
    return { known with annotated }

/-- What is known of a field from its attributes. -/
def fieldAttributes (pool : Pool) (options : DecodeOptions) (table : List RawAttribute) :
    Checked FieldAttributes :=
  table.foldlM (addToField pool options) {}

/-! ### Methods -/

/-- The name of a parameter, and its flags, which are read over.  Index 0 stands for no name. -/
def readParameterName (pool : Pool) : Step (Option String) := do
  let index ← u16
  let _ ← u16
  if index = 0 then return none else return some (← pool.utf8 index)

/-- Adds one attribute of a method. -/
def addToMethod (pool : Pool) (options : DecodeOptions) (known : MethodAttributes)
    (item : RawAttribute) : Checked MethodAttributes := do
  let parameters : Checked MethodAttributes := do
    let more ← contents item (readParameterAnnotations pool)
    return { known with parameterAnnotations := mergeParameters known.parameterAnnotations more }
  match item.name with
  | "Signature" =>
    let text ← contents item (readUtf8 pool)
    return { known with signature := text }
  | "Exceptions" =>
    let more ← contents item do
      times (← u16).toNat (readClassName pool)
    return { known with exceptions := known.exceptions ++ more }
  | "RuntimeVisibleParameterAnnotations" => parameters
  | "RuntimeInvisibleParameterAnnotations" =>
    if options.invisible then parameters else return known
  | "AnnotationDefault" =>
    let value ← contents item (readValue pool)
    return { known with default := value }
  | "MethodParameters" =>
    let more ← contents item do
      times (← u8).toNat (readParameterName pool)
    return { known with parameterNames := known.parameterNames ++ more }
  | _ =>
    let annotated ← addAnnotated pool options known.annotated item
    return { known with annotated }

/-- What is known of a method from its attributes. -/
def methodAttributes (pool : Pool) (options : DecodeOptions) (table : List RawAttribute) :
    Checked MethodAttributes :=
  table.foldlM (addToMethod pool options) {}

/-! ### Classes -/

/-- A row of the table of member classes: the class, the outer class, the simple name, which is read
    over, and the flags. -/
def readInnerClass (pool : Pool) : Step InnerClass := do
  let name ← pool.className (← u16)
  let outer ← pool.optionalClassName (← u16)
  let _ ← u16
  return ⟨name, outer, ← u16⟩

/-- The enclosing class, and the enclosing method unless its index is 0. -/
def readEnclosingMethod (pool : Pool) : Step EnclosingMethod := do
  let className ← pool.className (← u16)
  let method ← u16
  if method = 0 then return ⟨className, none⟩
  else return ⟨className, some (← pool.nameAndType method)⟩

/-- Adds one attribute of a class. -/
def addToClass (pool : Pool) (options : DecodeOptions) (self : String) (known : ClassAttributes)
    (item : RawAttribute) : Checked ClassAttributes := do
  match item.name with
  | "Signature" =>
    let text ← contents item (readUtf8 pool)
    return { known with signature := text }
  | "InnerClasses" =>
    let rows ← contents item do
      times (← u16).toNat (readInnerClass pool)
    return rows.foldl (ClassAttributes.addInner self) known
  | "EnclosingMethod" =>
    let method ← contents item (readEnclosingMethod pool)
    return { known with enclosingMethod := method }
  | "SourceFile" =>
    let text ← contents item (readUtf8 pool)
    return { known with sourceFile := text }
  | _ =>
    let annotated ← addAnnotated pool options known.annotated item
    return { known with annotated }

/-- What is known of a class from its attributes. -/
def classAttributes (pool : Pool) (options : DecodeOptions) (self : String)
    (table : List RawAttribute) : Checked ClassAttributes :=
  table.foldlM (addToClass pool options self) {}

end ClassAtlas.Machine
