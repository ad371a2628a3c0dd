import ClassAtlas.Annotations.Target
import ClassAtlas.Pool.Entry
import ClassAtlas.Signature.Path
import ClassAtlas.Text.Bytes

namespace ClassAtlas

/-!
# What can go wrong

Every failure is a cause, not a text:

* `Malformation` — the ways in which bytes can fail to be a class file or a part of one;
* `Misuse` — the ways in which a pool of instances can be misused;
* `Error` — all failures, with `Error.isFormatError` for those that the bytes are to blame for.

`Malformation.message`, `Misuse.message` and `Error.message` are the only places where a failure
gets its wording.
-/

/-- Why some bytes are malformed. -/
inductive Malformation where
  /-- A text made up elsewhere. -/
  | described (text : String)
  -- Bytes
  | unexpectedByte (expected found : UInt8) (offset : Nat)
  | badTextLead (byte : UInt8) (offset : Nat)
  | badTextContinuation (byte : UInt8) (offset : Nat)
  | truncatedText
  | unpairedSurrogate
  -- Constant pools
  | emptyPoolCount
  | badPoolTag (tag : UInt8) (index : Nat)
  | wideOverflow (index : Nat)
  | badPoolIndex (index : UInt16) (size : Nat)
  | wrongKind (index : UInt16) (expected found : EntryKind)
  | badConstant (index : UInt16) (found : EntryKind) (descriptor : String)
  -- Signatures
  | trailingSignature (offset : Nat)
  | emptyIdentifier (offset : Nat)
  | invalidIdentifier (offset : Nat)
  | misplacedVoid (offset : Nat)
  | unexpectedType (found : UInt8) (offset : Nat)
  | expectedReference (found : UInt8) (offset : Nat)
  | badSegmentEnd (found : UInt8) (offset : Nat)
  | noTypeArguments
  | noTypeParameters
  | badThrows (found : UInt8)
  -- Annotations and their places
  | badElementTag (tag : UInt8) (offset : Nat)
  | notClassDescriptor (index : UInt16) (found : String)
  | badTargetType (byte : UInt8)
  | badPathStep (kind argument : UInt8)
  | noSuchNode (path : TypePath) (type : String)
  | leavesArray (path : TypePath)
  | unboundedBound (path : TypePath)
  | noSuchArgument (path : TypePath) (index : UInt8) (owner : String)
  | missingPart (part : SignaturePart) (owner : String)
  | targetNotOnField (target : AnnotationTarget) (field : String)
  | targetNotOnClass (target : AnnotationTarget)
  | targetNotOnMethod (target : AnnotationTarget) (method : String)
  -- Class files
  | badMagic (magic : UInt32)
  | badVersion (major minor : UInt16)
  | noSuperclass (name : String)
  | parameterOverflow (index : UInt8)
  | trailingBytes (count : Nat) (name : String)
  deriving DecidableEq

/-- Why a pool of instances refuses a request. -/
inductive Misuse where
  /-- A text made up elsewhere. -/
  | described (text : String)
  | acquireAfterClose
  | foreignInstance (id : Nat)
  | releaseAfterClose (id : Nat)
  | notCheckedOut (id : Nat)
  deriving DecidableEq

/-- A failure. -/
inductive Error where
  /-- The bytes are damaged. -/
  | malformed (cause : Malformation)
  /-- The bytes end too early. -/
  | outOfBounds
  /-- A structure is nested too deeply. -/
  | recursionLimit (limit : Nat)
  /-- The bytes are valid, but hold something that is not modelled. -/
  | notSupported (what : String)
  /-- A source of bytes cannot be read. -/
  | unreadable (reason : String)
  /-- A class name is not in the graph. -/
  | referenceNotFound (name : String)
  /-- A pool of instances was misused. -/
  | misused (cause : Misuse)
  /-- No workers can be had. -/
  | workersUnavailable (reason : String)
  /-- Anything else. -/
  | other (text : String)
  deriving DecidableEq

/-! ### Wording -/

/-- The wording of a malformation. -/
def Malformation.message : Malformation → String
  | .described text => text
  | .unexpectedByte expected found offset =>
    s!"Expected '{Text.latin1 expected}' at offset {offset} - found '{Text.latin1 found}'"
  | .badTextLead byte offset =>
    s!"Invalid modified UTF-8 lead byte 0x{Text.hex 2 byte.toNat} at {offset}"
  | .badTextContinuation byte offset =>
    s!"Invalid modified UTF-8 continuation byte 0x{Text.hex 2 byte.toNat} at {offset}"
  | .truncatedText => "Truncated modified UTF-8 sequence"
  | .unpairedSurrogate => "Unpaired surrogate in Utf8 constant"
  | .emptyPoolCount => "Constant pool count must be at least 1"
  | .badPoolTag tag index => s!"Invalid constant pool tag {tag} at index {index}"
  | .wideOverflow index => s!"8-byte constant at index {index} overflows the pool"
  | .badPoolIndex index size => s!"Invalid constant pool index {index} (pool size {size})"
  | .wrongKind index expected found =>
    s!"Constant pool index {index} - expected {expected.name}, found {found.name}"
  | .badConstant index found descriptor =>
    s!"Constant pool index {index} ({found.name}) cannot initialize a value of type {descriptor}"
  | .trailingSignature offset => s!"Trailing data in signature at offset {offset}"
  | .emptyIdentifier offset => s!"Empty identifier in signature at offset {offset}"
  | .invalidIdentifier offset => s!"Invalid identifier in signature at offset {offset}"
  | .misplacedVoid offset => s!"'void' is not a valid type at offset {offset}"
  | .unexpectedType found offset =>
    s!"Unexpected '{Text.latin1 found}' in signature at offset {offset}"
  | .expectedReference found offset =>
    s!"Expected reference type at offset {offset} - found '{Text.latin1 found}'"
  | .badSegmentEnd found offset =>
    s!"Unexpected '{Text.latin1 found}' after class type segment at offset {offset}"
  | .noTypeArguments => "Empty type argument list"
  | .noTypeParameters => "Empty type parameter list"
  | .badThrows found => s!"Invalid throws signature starting with '{Text.latin1 found}'"
  | .badElementTag tag offset =>
    s!"Invalid element value tag '{Text.latin1 tag}' at offset {offset}"
  | .notClassDescriptor index found =>
    s!"Expected a class descriptor at constant pool index {index} - found '{found}'"
  | .badTargetType byte => s!"Invalid type annotation target type 0x{Text.hex 2 byte.toNat}"
  | .badPathStep kind argument =>
    s!"Invalid type path step - kind {kind}, argument {argument}"
  | .noSuchNode path type => s!"Type path {path.render} does not name a node of type {type}"
  | .leavesArray path =>
    s!"Type path {path.render} leaves an array before reaching its element"
  | .unboundedBound path =>
    s!"Type path {path.render} names the bound of an unbounded wildcard"
  | .noSuchArgument path index owner =>
    s!"Type path {path.render} names missing type argument {index} of {owner}"
  | .missingPart part owner => s!"Type annotation names missing {part.render} of {owner}"
  | .targetNotOnField target field =>
    s!"Type annotation target {target.render} is not valid on field {field}"
  | .targetNotOnClass target =>
    s!"Type annotation target {target.render} is not valid on a class"
  | .targetNotOnMethod target method =>
    s!"Type annotation target {target.render} is not valid on method {method}"
  | .badMagic magic => s!"Invalid magic 0x{Text.hex 8 magic.toNat}"
  | .badVersion major minor => s!"Unsupported class file version {major}.{minor}"
  | .noSuperclass name => s!"Class {name} has no superclass"
  | .parameterOverflow index => s!"Formal parameter index {index} overflows"
  | .trailingBytes count name => s!"{count} trailing bytes after class {name}"

/-- The wording of a misuse. -/
def Misuse.message : Misuse → String
  | .described text => text
  | .acquireAfterClose => "acquire from a closed recycler"
  | .foreignInstance id => s!"instance {id} belongs to another recycler"
  | .releaseAfterClose id => s!"release of instance {id} after close"
  | .notCheckedOut id => s!"instance {id} is not checked out"

/-- The wording of a failure. -/
def Error.message : Error → String
  | .malformed cause => s!"Malformed - {cause.message}"
  | .outOfBounds => "Out of Bound read would have occurred!"
  | .recursionLimit limit => s!"Reach the maximum recursion level allowed - {limit}"
  | .notSupported what => s!"This class file type is not supported - {what}"
  | .unreadable reason => reason
  | .referenceNotFound name => s!"Failed to resolve class reference - {name}"
  | .misused cause => s!"Concurrency invariant violated - {cause.message}"
  | .workersUnavailable reason => s!"Failed to build worker pool - {reason}"
  | .other text => text

/-! ### Families -/

/-- Whether the bytes of a class are to blame.  Such a failure is the end of that class and of
    nothing else. -/
def Error.isFormatError : Error → Bool
  | .malformed _ => true
  | .outOfBounds => true
  | .recursionLimit _ => true
  | _ => false

end ClassAtlas
