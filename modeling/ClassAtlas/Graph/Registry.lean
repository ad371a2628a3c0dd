import ClassAtlas.Graph.Basic

namespace ClassAtlas

/-!
# Collecting classes

* `Registry` — the classes known so far, one for each name;
* `Registry.register` — one class more; of two classes of a name the first one stays;
* `Registry.toGraph` — the graph of the classes.
-/

/-- The classes known so far. -/
structure Registry where
  /-- The classes, in the order in which they came. -/
  classes : List ClassDecl

/-- What became of a class. -/
inductive Registration where
  /-- The class is known now. -/
  | inserted (decl : ClassDecl)
  /-- Another class has the name. -/
  | collision (existing : ClassDecl) (rejectedSource : String)

namespace Registry

/-- No classes. -/
def empty : Registry := ⟨[]⟩

/-- The class of a name. -/
def get? (registry : Registry) (name : String) : Option ClassDecl :=
  registry.classes.find? (·.name = name)

/-- Whether there is a class of a name. -/
def contains (registry : Registry) (name : String) : Bool := (registry.get? name).isSome

/-- How many classes there are. -/
def size (registry : Registry) : Nat := registry.classes.length

/-- One class more, if its name is new. -/
def register (registry : Registry) (decl : ClassDecl) : Registry × Registration :=
  match registry.get? decl.name with
  | some existing => (registry, .collision existing decl.origin.source)
  | none => (⟨registry.classes ++ [decl]⟩, .inserted decl)

/-- The graph of the classes, and the diagnostics with the reports of what is missing, if these
    are wanted. -/
def toGraph (registry : Registry) (diagnostics : Diagnostics) (report : Bool) :
    ClassGraph × Diagnostics :=
  ClassGraph.build registry.classes diagnostics report

end Registry

end ClassAtlas
