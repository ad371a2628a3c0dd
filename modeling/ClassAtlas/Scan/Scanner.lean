import ClassAtlas.ClassFile.Decode
import ClassAtlas.Graph.Registry
import ClassAtlas.Scan.Config
import ClassAtlas.Scan.Recycler
import ClassAtlas.Scan.Source

namespace ClassAtlas

/-!
# Scanning

A scan reads its sources in order, registers the class of each, and makes the graph of all.  A
source that cannot be read, or whose bytes are no class file, gives a diagnostic and nothing
more.

* `ScanState` — what is known while the sources are read;
* `ScanState.process` — one source;
* `Scanner.scan` — all sources;
* `ScanResult` — the outcome.
-/

instance : Recyclable Decoder := ⟨Decoder.reset, Decoder.releaseBuffers⟩

/-- What is known while the sources are read. -/
structure ScanState where
  /-- Whether the scan is to stop. -/
  token : CancellationToken
  /-- The readers of class files. -/
  decoders : Recycler Decoder
  /-- The classes. -/
  registry : Registry
  /-- The diagnostics. -/
  diagnostics : Diagnostics

/-- A step of a scan.  An error ends the scan. -/
abbrev Scan := EStateM Error ScanState

namespace Scan

/-- Adds a diagnostic. -/
def report (entry : Diagnostic) : Scan Unit :=
  modify fun state => { state with diagnostics := state.diagnostics.push entry }

/-- Reads the bytes of a source. -/
def readBytes (source : ByteSource) : Scan (Except Error (List UInt8)) := do
  let state ← get
  let (token, bytes) := source.read state.token
  set { state with token }
  return bytes

/-- Takes a reader of class files. -/
def acquire : Scan Handle := do
  let state ← get
  let (decoders, handle) := state.decoders.acquire
  set { state with decoders }
  match handle with
  | .ok handle => return handle
  | .error error => throw error

/-- Gives a reader of class files back. -/
def release (handle : Handle) : Scan Unit := do
  let state ← get
  let (decoders, outcome) := state.decoders.release handle
  set { state with decoders }
  match outcome with
  | .ok () => return ()
  | .error error => throw error

/-- Reads a class file with a reader that was taken. -/
def decodeWith (handle : Handle) (origin : Origin) (bytes : List UInt8)
    (options : DecodeOptions) : Scan (Except Error ClassDecl) := do
  let state ← get
  let decoder := (state.decoders.instance? handle).getD Decoder.new
  let (decoder, decl) := decoder.decode origin bytes options
  set { state with decoders := state.decoders.update handle.id fun _ => decoder }
  return decl

/-- Reads a class file with a reader that is taken and given back. -/
def decode (origin : Origin) (bytes : List UInt8) (options : DecodeOptions) :
    Scan (Except Error ClassDecl) := do
  let handle ← acquire
  let decl ← decodeWith handle origin bytes options
  release handle
  return decl

/-- The diagnostic of a class whose name is taken. -/
def duplicateClass (existing : ClassDecl) (rejectedSource : String) : Diagnostic where
  severity := .warning
  category := .collision
  message := s!"Duplicate class {existing.name} already registered from {existing.origin.source}"
  source := some rejectedSource
  className := some existing.name

/-- Registers a class. -/
def register (decl : ClassDecl) : Scan Unit := do
  let state ← get
  let (registry, outcome) := state.registry.register decl
  set { state with registry }
  match outcome with
  | .inserted _ => return ()
  | .collision existing rejectedSource => report (duplicateClass existing rejectedSource)

/-- The diagnostic of a source whose bytes cannot be had. -/
def unreadableSource (label : String) (error : Error) : Diagnostic where
  severity := .error
  category := .io
  message := s!"Failed to read class bytes: {error.message}"
  source := some label

/-- The diagnostic of bytes that are no class to be modelled. -/
def undecodableSource (label : String) (error : Error) : Diagnostic :=
  match error with
  | .notSupported what =>
    { severity := .info, category := .unsupported
      message := s!"Skipped unsupported {what}", source := some label }
  | error =>
    { severity := .error, category := if error.isFormatError then .format else .general
      message := error.message, source := some label }

/-- One source, with its place among all. -/
def process (options : DecodeOptions) (index : Nat) (source : ByteSource) : Scan Unit := do
  match ← readBytes source with
  | .error error => report (unreadableSource source.label error)
  | .ok bytes =>
    match ← decode ⟨source.label, index⟩ bytes options with
    | .ok decl => register decl
    | .error (.misused cause) => throw (.misused cause)
    | .error error => report (undecodableSource source.label error)

/-- One source, unless the scan is to stop. -/
def processUnlessCancelled (options : DecodeOptions) (index : Nat) (source : ByteSource) :
    Scan Unit := do
  if !(← get).token.cancelled then process options index source

/-- All sources, the first of them at a place. -/
def processAll (options : DecodeOptions) : (index : Nat) → List ByteSource → Scan Unit
  | _, [] => return ()
  | index, source :: rest => do
    processUnlessCancelled options index source
    processAll options (index + 1) rest

/-- The diagnostic of readers that were not given back. -/
def outstandingDecoders (count : Nat) : Diagnostic where
  severity := .warning
  category := .resource
  message := s!"{count} decoders were not returned to the pool"

end Scan

/-! ### The whole scan -/

/-- The outcome of a scan. -/
structure ScanResult where
  /-- The classes. -/
  graph : ClassGraph
  /-- The diagnostics. -/
  diagnostics : Diagnostics
  /-- The readers of class files. -/
  decoders : Recycler Decoder
  /-- Whether the scan was asked to stop. -/
  cancelled : Bool

/-- How many readers of class files were made. -/
def ScanResult.decodersCreated (result : ScanResult) : Nat := result.decoders.created

/-- What is left when the readers of class files are given up. -/
def ScanResult.close (result : ScanResult) : ScanResult :=
  { result with decoders := result.decoders.forceClose.1 }

/-- What a scan is made with. -/
structure Scanner where
  /-- The choices. -/
  config : ScanConfig
  /-- Whether scans are to stop. -/
  token : CancellationToken

namespace Scanner

/-- A scanner that nothing stops. -/
def new (config : ScanConfig) : Scanner := ⟨config, .new⟩

/-- Where a scan starts. -/
def start (scanner : Scanner) : ScanState where
  token := scanner.token
  decoders := .new 0 fun _ => .ok .new
  registry := .empty
  diagnostics := .empty

/-- The outcome when all sources were read. -/
def finish (scanner : Scanner) (state : ScanState) : ScanResult :=
  let outstanding := state.decoders.checkedOut.length
  let diagnostics :=
    if 0 < outstanding then state.diagnostics.push (Scan.outstandingDecoders outstanding)
    else state.diagnostics
  let (graph, diagnostics) := state.registry.toGraph diagnostics scanner.config.reportUnresolved
  ⟨graph, diagnostics, state.decoders, state.token.cancelled⟩

/-- Scans sources.  The scanner afterwards knows whether it was asked to stop meanwhile. -/
def scan (scanner : Scanner) (sources : List ByteSource) : Scanner × Except Error ScanResult :=
  match Scan.processAll scanner.config.decodeOptions 0 sources scanner.start with
  | .ok () state => ({ scanner with token := state.token }, .ok (scanner.finish state))
  | .error error state => ({ scanner with token := state.token }, .error error)

end Scanner

end ClassAtlas
