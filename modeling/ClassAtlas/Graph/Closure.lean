namespace ClassAtlas

/-!
# Reachability, layer by layer

* `Step` — a step from a node, which may report the node it leads to or only pass through it;
* `layers` — the nodes reached from some nodes, in the layers of a breadth-first search;
* `reports` — the nodes that the steps from those layers report;
* `closure` — the nodes reported on the way from a seed.
-/

/-- A class in a graph, by its place. -/
abbrev NodeId := Nat

/-- The short name of a node. -/
def NodeId.label (id : NodeId) : String := s!"n{id}"

/-- The node in a message. -/
def NodeId.describe (id : NodeId) : String := s!"NodeId({id})"

/-- A step from a node to another one. -/
structure Step where
  /-- The node it leads to. -/
  target : NodeId
  /-- Whether that node is an answer, or only on the way to answers. -/
  isReport : Bool
  deriving DecidableEq, Repr

/-- A step to an answer. -/
def Step.report (target : NodeId) : Step := ⟨target, true⟩

/-- A step on the way to answers. -/
def Step.traverse (target : NodeId) : Step := ⟨target, false⟩

/-- The nodes that the steps from a layer lead to for the first time, in the order of the
    steps. -/
def nextLayer (steps : NodeId → List Step) (visited layer : List NodeId) : List NodeId :=
  (((layer.flatMap steps).map (·.target)).filter (· ∉ visited)).eraseDups

/-- The layers from a given one on, at most `bound` of them.  Every layer has nodes that no
    earlier one has, so the number of nodes bounds the number of layers. -/
def layers (steps : NodeId → List Step) :
    (bound : Nat) → (visited layer : List NodeId) → List (List NodeId)
  | 0, _, _ => []
  | bound + 1, visited, layer =>
    if layer.isEmpty then []
    else
      let next := nextLayer steps visited layer
      layer :: layers steps bound (visited ++ next) next

/-- The nodes that the steps from some nodes report. -/
def reportsOf (steps : NodeId → List Step) (nodes : List NodeId) : List NodeId :=
  ((nodes.flatMap steps).filter (·.isReport)).map (·.target)

/-- The nodes that the steps from some layers report, each once, with whether the first layer
    reports it. -/
def reports (steps : NodeId → List Step) : List (List NodeId) → List (NodeId × Bool)
  | [] => []
  | first :: rest =>
    let direct := (reportsOf steps first).eraseDups
    let indirect := (reportsOf steps rest.flatten).filter (· ∉ direct)
    direct.map (·, true) ++ indirect.eraseDups.map (·, false)

/-- The nodes reported on the way from a seed, nearest first, each with whether a step from the
    seed itself reports it.  The seed is an answer only if some step reports it. -/
def closure (size : Nat) (seed : NodeId) (steps : NodeId → List Step) : List (NodeId × Bool) :=
  if seed < size then reports steps (layers steps size [seed] [seed]) else []

end ClassAtlas
