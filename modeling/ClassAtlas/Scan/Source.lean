import ClassAtlas.Scan.Cancellation

namespace ClassAtlas

/-!
# Where class files come from

* `ByteSource` — a label, and how to get the bytes; getting them can fail, and whoever provides
  them can cancel the scan meanwhile;
* `ClassBytes` — bytes at hand;
* `ClassPathEntry` — the bytes of a file.
-/

/-- A supplier of the bytes of one class. -/
structure ByteSource where
  /-- The label in diagnostics. -/
  label : String
  /-- Gets the bytes. -/
  read : CancellationToken → CancellationToken × Except Error (List UInt8)

/-- The bytes of a class, at hand. -/
structure ClassBytes where
  /-- The label. -/
  label : String
  /-- The bytes. -/
  data : List UInt8
  deriving DecidableEq, Repr

/-- How many bytes there are. -/
def ClassBytes.size (bytes : ClassBytes) : Nat := bytes.data.length

/-- A source that gives the bytes. -/
def ClassBytes.toSource (bytes : ClassBytes) : ByteSource :=
  ⟨bytes.label, fun token => (token, .ok bytes.data)⟩

/-- A class file on disk. -/
structure ClassPathEntry where
  /-- The label. -/
  label : String
  /-- Where the file is. -/
  path : String
  deriving DecidableEq, Repr

/-- An entry whose label is the path. -/
def ClassPathEntry.ofPath (path : String) : ClassPathEntry := ⟨path, path⟩

/-- What the system says of a file that is not there. -/
def fileNotFound : Error := .unreadable "No such file or directory (os error 2)"

/-- A source that gives the contents of the file, as a file system knows them. -/
def ClassPathEntry.toSource (contents : String → Except Error (List UInt8))
    (entry : ClassPathEntry) : ByteSource :=
  ⟨entry.label, fun token => (token, contents entry.path)⟩

end ClassAtlas
