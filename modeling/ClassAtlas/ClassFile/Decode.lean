import ClassAtlas.ClassFile.Attribute
import ClassAtlas.ClassFile.Placement

namespace ClassAtlas

/-!
# Reading class files

* `FieldDecl.read`, `MethodDecl.read` — the members;
* `ClassDecl.read` — everything behind the constant pool;
* `Decoder` — the reader that is kept from one class file to the next, with `Decoder.decode`.

A class file is used up to its last byte.
-/

open Reader

/-! ### Fields -/

/-- The field that the descriptor and the attributes describe.  A constant counts only on a final
    field. -/
def FieldDecl.ofAttributes (pool : Pool) (name descriptor : String) (modifiers : FieldModifiers)
    (attributes : FieldAttributes) : Except Error FieldDecl := do
  let type ← JavaType.parseField (attributes.signature.getD descriptor)
  let type ← type.placeAll name attributes.annotated.typeUses
  let constant ←
    match attributes.constant with
    | some index =>
      if modifiers.has finalFlag then some <$> pool.constant index descriptor else pure none
    | none => pure none
  return {
    name, modifiers, descriptor, type, constant
    isGeneric := attributes.signature.isSome
    annotations := attributes.annotated.declared }

/-- A field: its flags, its name, its descriptor and its attributes. -/
def FieldDecl.read (pool : Pool) (options : DecodeOptions) : Reader FieldDecl := do
  let modifiers := FieldModifiers.ofBits (← u16)
  let name ← pool.utf8 (← u16)
  let descriptor ← pool.utf8 (← u16)
  let table ← RawAttribute.readTable pool
  let attributes ← FieldAttributes.ofTable pool options table
  FieldDecl.ofAttributes pool name descriptor modifiers attributes

/-! ### Methods -/

/-- A method, and the annotations on parameters whose places are not known before the class's
    attributes are. -/
structure OpenMethod where
  /-- The method without those annotations. -/
  method : MethodDecl
  /-- Those annotations. -/
  pending : List TypeUse

/-- Whether the annotation is on a formal parameter. -/
def TypeUse.isOnParameter (use : TypeUse) : Bool :=
  match use.target with
  | .formalParameter _ => true
  | _ => false

/-- The method that the descriptor and the attributes describe.  The list of exceptions stands in
    for a `throws` clause that the signature leaves out.  The descriptor of a constructor has
    parameters that were not written, so annotations on its parameters have to wait. -/
def OpenMethod.ofAttributes (className name descriptor : String) (modifiers : MethodModifiers)
    (attributes : MethodAttributes) : Except Error OpenMethod := do
  let signature ← MethodSignature.parse (attributes.signature.getD descriptor)
  let signature : MethodSignature AnnotationUse :=
    if signature.throws.isEmpty then
      { signature with
        throws := attributes.exceptions.map fun name => .ofClass (ClassType.ofName name) }
    else signature
  let waits := attributes.signature.isNone && name = constructorName
  let (pending, ready) :=
    attributes.annotated.typeUses.partition fun use => waits && use.isOnParameter
  let signature ← signature.placeAll className name ready
  return {
    pending
    method := {
      name, modifiers, descriptor, signature
      isGeneric := attributes.signature.isSome
      annotations := attributes.annotated.declared
      parameterAnnotations := attributes.parameterAnnotations
      parameterNames := attributes.parameterNames
      default := attributes.default
      exceptions := attributes.exceptions } }

/-- A method: its flags, its name, its descriptor and its attributes. -/
def OpenMethod.read (pool : Pool) (options : DecodeOptions) (className : String) :
    Reader OpenMethod := do
  let modifiers := MethodModifiers.ofBits (← u16)
  let name ← pool.utf8 (← u16)
  let descriptor ← pool.utf8 (← u16)
  let table ← RawAttribute.readTable pool
  let attributes ← MethodAttributes.ofTable pool options table
  OpenMethod.ofAttributes className name descriptor modifiers attributes

/-- The number of parameters in front of the written ones: name and ordinal in an enum, the
    enclosing instance in a member class that is not static. -/
def syntheticParameters (modifiers : ClassModifiers) (attributes : ClassAttributes) : UInt8 :=
  if modifiers.has enumFlag then 2
  else
    match attributes.innerFlags, attributes.outerClass with
    | some flags, some _ => if flags &&& staticFlag = 0 then 1 else 0
    | _, _ => 0

/-- The annotation with its parameter counted from the first one in the descriptor. -/
def TypeUse.shift (synthetic : UInt8) (use : TypeUse) : Except Error TypeUse :=
  match use.target with
  | .formalParameter index =>
    if index.toNat + synthetic.toNat < 256 then
      .ok { use with target := .formalParameter (index + synthetic) }
    else .error (.malformed (.parameterOverflow index))
  | _ => .ok use

/-- The method with the annotations that had to wait. -/
def OpenMethod.close (className : String) (synthetic : UInt8) (method : OpenMethod) :
    Except Error MethodDecl := do
  let signature ← method.pending.foldlM
    (fun signature use => do signature.place className method.method.name (← use.shift synthetic))
    method.method.signature
  return { method.method with signature }

/-! ### Classes -/

/-- The supertypes by their names alone. -/
def ClassSignature.ofNames (superclass : Option String) (interfaces : List String) :
    ClassSignature AnnotationUse :=
  ⟨[], superclass.map ClassType.ofName, interfaces.map ClassType.ofName⟩

/-- The type variables and supertypes: those of the signature; without one, the names alone, and
    these only if there is an annotation to place. -/
def classSignature (superclass : Option String) (interfaces : List String)
    (attributes : ClassAttributes) : Except Error (Option (ClassSignature AnnotationUse)) := do
  let signature ← attributes.signature.mapM ClassSignature.parse
  let uses := attributes.annotated.typeUses.filter (·.target ≠ .code)
  if uses.isEmpty then return signature
  else
    let signature := signature.getD (ClassSignature.ofNames superclass interfaces)
    return some (← signature.placeAll uses)

/-- The classes a field mentions. -/
def FieldDecl.classNames (field : FieldDecl) : List String :=
  field.type.classNames ++ field.annotations.flatMap (·.classNames)

/-- The classes a method mentions. -/
def MethodDecl.classNames (method : MethodDecl) : List String :=
  method.signature.classNames
    ++ (method.annotations ++ method.parameterAnnotations.flatten).flatMap (·.classNames)

/-- Names in order, each once, without one of them. -/
def sortedWithout (self : String) (names : List String) : List String :=
  (names.mergeSort (fun a b => decide (a ≤ b))).eraseReps.filter (· ≠ self)

/-- A class from what stands in its file and what its attributes say. -/
def ClassDecl.ofParts (pool : Pool) (origin : Origin) (version : FileVersion)
    (fileModifiers : ClassModifiers) (name : String) (superclass : Option String)
    (interfaces : List String) (fields : List FieldDecl) (attributes : ClassAttributes)
    (methods : List MethodDecl) (signature : Option (ClassSignature AnnotationUse)) : ClassDecl :=
  let kind := ClassKind.ofModifiers fileModifiers
  let annotations := attributes.annotated.declared
  let mentioned := pool.classNames
    ++ (signature.map (·.classNames)).getD [] ++ annotations.flatMap (·.classNames)
    ++ fields.flatMap (·.classNames) ++ methods.flatMap (·.classNames)
  { name, kind, version, interfaces, signature, annotations, fields, methods, origin
    modifiers :=
      match attributes.innerFlags with
      | some flags =>
        ⟨(ClassModifiers.ofBits flags).bits ||| (fileModifiers.bits &&& superFlag)⟩
      | none => fileModifiers
    superclass := if kind.isInterface then none else superclass
    outerClass := attributes.outerClass <|> attributes.enclosingMethod.map (·.className)
    innerClasses := attributes.innerClasses
    enclosingMethod := attributes.enclosingMethod
    sourceFile := attributes.sourceFile
    referenced := sortedWithout name mentioned }

/-- Everything behind the name of a class that is no module: names of the supertypes, fields,
    methods, attributes, and nothing after them. -/
def ClassDecl.readBody (pool : Pool) (options : DecodeOptions) (origin : Origin)
    (version : FileVersion) (fileModifiers : ClassModifiers) (name : String) :
    Reader ClassDecl := do
  let superclass ← pool.optionalClassName (← u16)
  if superclass.isNone ∧ name ≠ "java.lang.Object" then
    malformed (.noSuperclass name)
  let interfaces ← times (← u16).toNat do
    pool.className (← u16)
  let fields ← times (← u16).toNat (FieldDecl.read pool options)
  let openMethods ← times (← u16).toNat (OpenMethod.read pool options name)
  let table ← RawAttribute.readTable pool
  let attributes ← ClassAttributes.ofTable pool options name table
  let synthetic := syntheticParameters fileModifiers attributes
  let methods ← openMethods.mapM fun method =>
    (method.close name synthetic : Except Error MethodDecl)
  let left := (← get).rest.length
  if left ≠ 0 then malformed (.trailingBytes left name)
  let signature ← classSignature superclass interfaces attributes
  return .ofParts pool origin version fileModifiers name superclass interfaces fields attributes
    methods signature

/-- Everything behind the constant pool: flags, names of the class and its supertypes, fields,
    methods, attributes, and nothing after them.  A module descriptor is refused as soon as its
    name is known. -/
def ClassDecl.read (pool : Pool) (options : DecodeOptions) (origin : Origin)
    (version : FileVersion) : Reader ClassDecl := do
  let fileModifiers := ClassModifiers.ofBits (← u16)
  let name ← pool.className (← u16)
  if fileModifiers.has moduleFlag then
    throw (.notSupported s!"module descriptor '{name}'")
  readBody pool options origin version fileModifiers name

/-! ### Class files -/

/-- The number every class file starts with. -/
def classFileMagic : UInt32 := 0xCAFEBABE

/-- The oldest version accepted. -/
def oldestMajor : UInt16 := 45

/-- What stands in front of the constant pool: the magic number and the version. -/
def FileVersion.read (options : DecodeOptions) : Reader FileVersion := do
  let magic ← u32
  if magic ≠ classFileMagic then malformed (.badMagic magic)
  let minor ← u16
  let major ← u16
  if oldestMajor ≤ major ∧ major ≤ options.maxMajor then return ⟨major, minor⟩
  else malformed (.badVersion major minor)

/-- The reader of class files.  It keeps the constant pool of the last one and counts the class
    files it could read. -/
structure Decoder where
  /-- The pool. -/
  pool : Pool
  /-- How many class files were read. -/
  decoded : Nat

namespace Decoder

/-- A reader that has read nothing. -/
def new : Decoder := ⟨Pool.empty, 0⟩

/-- The reader without what the last class file left behind. -/
def reset (decoder : Decoder) : Decoder := { decoder with pool := decoder.pool.clear }

/-- The reader without the memory for its pool. -/
def releaseBuffers (decoder : Decoder) : Decoder := { decoder with pool := Pool.empty }

/-- Reads a class file. -/
def decode (decoder : Decoder) (origin : Origin) (data : List UInt8) (options : DecodeOptions) :
    Decoder × Except Error ClassDecl :=
  match FileVersion.read options (.ofBytes data) with
  | .error error _ => (decoder, .error error)
  | .ok version cursor =>
    let loaded := decoder.pool.load cursor
    let decoder := { decoder with pool := loaded.pool }
    match loaded.outcome with
    | .error error _ => (decoder, .error error)
    | .ok () cursor =>
      match ClassDecl.read decoder.pool options origin version cursor with
      | .error error _ => (decoder, .error error)
      | .ok decl _ => ({ decoder with decoded := decoder.decoded + 1 }, .ok decl)

end Decoder

end ClassAtlas
