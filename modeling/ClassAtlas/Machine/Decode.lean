import ClassAtlas.ClassFile.Decode
import ClassAtlas.Machine.Attach
import ClassAtlas.Machine.Attribute
import ClassAtlas.Machine.Pool

namespace ClassAtlas.Machine

/-!
# Decoding class files by a position

* `readField`, `readMethod` — the members;
* `waitingFrom`, `closeAll` — annotations that had to wait, put into the methods they belong to by index;
* `readClass` — everything behind the constant pool;
* `decode` — a class file.
-/

/-! ### Fields -/

/-- The field that the descriptor and the attributes describe. -/
def fieldOfAttributes (pool : Pool) (name descriptor : String) (modifiers : FieldModifiers)
    (attributes : FieldAttributes) : Checked FieldDecl := do
  let type ← parseFieldType (attributes.signature.getD descriptor)
  let type ← attributes.annotated.typeUses.foldlM (placeInField name) type
  let constant ← (match attributes.constant with
    | some index =>
      if modifiers.has finalFlag then some <$> pool.constant index descriptor else pure none
    | none => pure none : Except Error (Option Constant))
  return {
    name, modifiers, descriptor, type, constant
    isGeneric := attributes.signature.isSome
    annotations := attributes.annotated.declared }

/-- A field: its flags, its name, its descriptor and its attributes. -/
def readField (pool : Pool) (options : DecodeOptions) : Step FieldDecl := do
  let modifiers := FieldModifiers.ofBits (← u16)
  let name ← pool.utf8 (← u16)
  let descriptor ← pool.utf8 (← u16)
  let table ← readAttributeTable pool
  let attributes ← fieldAttributes pool options table
  fieldOfAttributes pool name descriptor modifiers attributes

/-! ### Methods -/

/-- The method that the descriptor and the attributes describe, and the annotations that have to
    wait. -/
def openMethodOfAttributes (className name descriptor : String) (modifiers : MethodModifiers)
    (attributes : MethodAttributes) : Checked OpenMethod := do
  let signature ← parseMethodSignature (attributes.signature.getD descriptor)
  let signature : MethodSignature AnnotationUse :=
    if signature.throws.isEmpty then
      { signature with
        throws := attributes.exceptions.map fun name => .ofClass (ClassType.ofName name) }
    else signature
  let waits := attributes.signature.isNone && name = constructorName
  let (pending, ready) :=
    attributes.annotated.typeUses.partition fun use => waits && use.isOnParameter
  let signature ← ready.foldlM (placeInMethod className name) signature
  return {
    pending
    method := {
      name, modifiers, descriptor, signature
      isGeneric := attributes.signature.isSome
      annotations := attributes.annotated.declared
      parameterAnnotations := attributes.parameterAnnotations
      parameterNames := attributes.parameterNames
      default := attributes.default
      exceptions := attributes.exceptions } }

/-- A method: its flags, its name, its descriptor and its attributes. -/
def readMethod (pool : Pool) (options : DecodeOptions) (className : String) : Step OpenMethod := do
  let modifiers := MethodModifiers.ofBits (← u16)
  let name ← pool.utf8 (← u16)
  let descriptor ← pool.utf8 (← u16)
  let table ← readAttributeTable pool
  let attributes ← methodAttributes pool options table
  openMethodOfAttributes className name descriptor modifiers attributes

/-! ### Annotations that had to wait -/

/-- The annotations that have to wait, with the indices of their methods, the first of which is
    given. -/
def waitingFrom : (index : Nat) → List OpenMethod → List (Nat × List TypeUse)
  | _, [] => []
  | index, method :: rest =>
    if method.pending.isEmpty then waitingFrom (index + 1) rest
    else (index, method.pending) :: waitingFrom (index + 1) rest

/-- Puts annotations that had to wait into their method. -/
def closeOne (className : String) (synthetic : UInt8) (methods : List MethodDecl)
    (late : Nat × List TypeUse) : Checked (List MethodDecl) := do
  let (index, uses) := late
  let method ← (entryAt methods index : Guarded MethodDecl)
  let signature ← uses.foldlM
    (fun signature use => do placeInMethod className method.name signature (← use.shift synthetic))
    method.signature
  return methods.set index { method with signature }

/-- The methods with all annotations that had to wait. -/
def closeAll (className : String) (synthetic : UInt8) (openMethods : List OpenMethod) :
    Checked (List MethodDecl) :=
  (waitingFrom 0 openMethods).foldlM (closeOne className synthetic) (openMethods.map (·.method))

/-! ### Classes -/

/-- The type variables and supertypes. -/
def classSignature (superclass : Option String) (interfaces : List String)
    (attributes : ClassAttributes) : Checked (Option (ClassSignature AnnotationUse)) := do
  let signature ← attributes.signature.mapM parseClassSignature
  let uses := attributes.annotated.typeUses.filter (·.target ≠ .code)
  if uses.isEmpty then return signature
  else
    let signature := signature.getD (ClassSignature.ofNames superclass interfaces)
    return some (← uses.foldlM placeInClass signature)

/-- Everything behind the name of a class that is no module. -/
def readBody (pool : Pool) (options : DecodeOptions) (origin : Origin) (version : FileVersion)
    (fileModifiers : ClassModifiers) (name : String) : Step ClassDecl := do
  let superclass ← pool.optionalClassName (← u16)
  if superclass.isNone ∧ name ≠ "java.lang.Object" then
    malformed (.noSuperclass name)
  let interfaces ← times (← u16).toNat (readClassName pool)
  let fields ← times (← u16).toNat (readField pool options)
  let openMethods ← times (← u16).toNat (readMethod pool options name)
  let table ← readAttributeTable pool
  let attributes ← classAttributes pool options name table
  let methods ← closeAll name (syntheticParameters fileModifiers attributes) openMethods
  if ← hasMore then malformed (.trailingBytes (← remaining) name)
  let signature ← classSignature superclass interfaces attributes
  return .ofParts pool origin version fileModifiers name superclass interfaces fields attributes
    methods signature

/-- Everything behind the constant pool. -/
def readClass (pool : Pool) (options : DecodeOptions) (origin : Origin) (version : FileVersion) :
    Step ClassDecl := do
  let fileModifiers := ClassModifiers.ofBits (← u16)
  let name ← pool.className (← u16)
  if fileModifiers.has moduleFlag then
    throw (.notSupported s!"module descriptor '{name}'")
  readBody pool options origin version fileModifiers name

/-! ### Class files -/

/-- What stands in front of the constant pool. -/
def readVersion (options : DecodeOptions) : Step FileVersion := do
  let magic ← u32
  if magic ≠ classFileMagic then malformed (.badMagic magic)
  let minor ← u16
  let major ← u16
  if oldestMajor ≤ major ∧ major ≤ options.maxMajor then return ⟨major, minor⟩
  else malformed (.badVersion major minor)

/-- Reads a class file, and counts it. -/
def decode (decoder : Decoder) (origin : Origin) (data : List UInt8) (options : DecodeOptions) :
    Guarded (Decoder × Except Error ClassDecl) := do
  match ← (readVersion options).run.run (.ofBytes data) with
  | (.error error, _) => return (decoder, .error error)
  | (.ok version, place) =>
    let loaded ← load decoder.pool place
    let decoder := { decoder with pool := loaded.pool }
    match loaded.outcome with
    | .error error => return (decoder, .error error)
    | .ok () =>
      match ← (readClass decoder.pool options origin version).run.run loaded.place with
      | (.error error, _) => return (decoder, .error error)
      | (.ok decl, _) =>
        return ({ decoder with decoded := ← add decoder.decoded 1 }, .ok decl)

end ClassAtlas.Machine
