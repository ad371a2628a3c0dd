namespace ClassAtlas

/-!
# Diagnostics

What a scan has to say about its sources.

* `Severity`, `Category` — the vocabularies;
* `Diagnostic` — one entry, with `Diagnostic.render` for its line;
* `Diagnostics` — the entries in the order they were made, with `Diagnostics.summary`.
-/

/-- How bad it is. -/
inductive Severity where
  | info | warning | error
  deriving DecidableEq, Repr

/-- The label of a severity. -/
def Severity.label : Severity → String
  | .info => "INFO"
  | .warning => "WARN"
  | .error => "ERROR"

/-- What it is about. -/
inductive Category where
  | format | reference | collision | io | unsupported | resource | general
  deriving DecidableEq, Repr

namespace Category

/-- Every category. -/
def all : List Category :=
  [format, reference, collision, io, unsupported, resource, general]

/-- The label of a category. -/
def label : Category → String
  | format => "Format"
  | reference => "Reference"
  | collision => "Collision"
  | io => "Io"
  | unsupported => "Unsupported"
  | resource => "Resource"
  | general => "General"

/-- The category of a label. -/
def ofLabel? (text : String) : Option Category := all.find? (·.label = text)

end Category

/-! ### Entries -/

/-- An entry. -/
structure Diagnostic where
  /-- How bad it is. -/
  severity : Severity
  /-- What it is about. -/
  category : Category
  /-- What there is to say. -/
  message : String
  /-- The source it is about. -/
  source : Option String := none
  /-- The class it is about. -/
  className : Option String := none
  deriving DecidableEq, Repr

/-- The entry on one line. -/
def Diagnostic.render (entry : Diagnostic) : String :=
  "[" ++ entry.severity.label ++ "] " ++ entry.category.label ++ ": " ++ entry.message
    ++ (entry.className.map fun name => " (class: " ++ name ++ ")").getD ""
    ++ (entry.source.map fun label => " (source: " ++ label ++ ")").getD ""

/-- Entries in the order they were made. -/
structure Diagnostics where
  /-- The entries. -/
  entries : Array Diagnostic
  deriving DecidableEq, Repr

namespace Diagnostics

/-- No entries. -/
def empty : Diagnostics := ⟨#[]⟩

/-- The entries, the first one first. -/
def toList (diagnostics : Diagnostics) : List Diagnostic := diagnostics.entries.toList

/-- One entry more. -/
def push (diagnostics : Diagnostics) (entry : Diagnostic) : Diagnostics :=
  ⟨diagnostics.entries.push entry⟩

/-- Some entries more. -/
def append (diagnostics : Diagnostics) (entries : List Diagnostic) : Diagnostics :=
  entries.foldl push diagnostics

/-- How many entries there are. -/
def count (diagnostics : Diagnostics) : Nat := diagnostics.entries.size

/-- The entries of a severity. -/
def ofSeverity (diagnostics : Diagnostics) (severity : Severity) : List Diagnostic :=
  diagnostics.toList.filter (·.severity = severity)

/-- The entries of a category. -/
def ofCategory (diagnostics : Diagnostics) (category : Category) : List Diagnostic :=
  diagnostics.toList.filter (·.category = category)

/-- The entries about a source. -/
def ofSource (diagnostics : Diagnostics) (source : String) : List Diagnostic :=
  diagnostics.toList.filter (·.source = some source)

/-- How many entries of a severity there are. -/
def countOf (diagnostics : Diagnostics) (severity : Severity) : Nat :=
  (diagnostics.ofSeverity severity).length

/-- The entries of a severity under a heading; nothing at all if there are none. -/
def listing (diagnostics : Diagnostics) (severity : Severity) : String :=
  let entries := diagnostics.ofSeverity severity
  if entries.isEmpty then ""
  else
    "\n" ++ severity.label ++ ":\n"
      ++ String.join (entries.map fun entry => "  " ++ entry.render ++ "\n")

/-- The counts, then the errors and the warnings. -/
def summary (diagnostics : Diagnostics) : String :=
  let errors := diagnostics.countOf .error
  let warnings := diagnostics.countOf .warning
  let infos := diagnostics.countOf .info
  s!"Diagnostics: {errors} error(s), {warnings} warning(s), {infos} info(s)\n"
    ++ diagnostics.listing .error ++ diagnostics.listing .warning

/-! ### The entries as a list -/

@[simp] theorem toList_empty : empty.toList = [] := rfl

@[simp] theorem toList_push (diagnostics : Diagnostics) (entry : Diagnostic) :
    (diagnostics.push entry).toList = diagnostics.toList ++ [entry] := by
  simp [push, toList]

@[simp] theorem toList_append (diagnostics : Diagnostics) (entries : List Diagnostic) :
    (diagnostics.append entries).toList = diagnostics.toList ++ entries := by
  unfold append
  induction entries generalizing diagnostics with
  | nil => simp
  | cons entry rest ih => simp [ih]

end Diagnostics

end ClassAtlas
