import ClassAtlas.Graph.Closure

namespace ClassAtlas

/-!
# A search that marks nodes

The closure is found layer by layer, with a mark on each node that was visited and one on each node
that was reported.  The steps from a node are asked for in some monad, so that it can be seen which
nodes they are asked for.

* `Marks` — one mark for each node of a graph;
* `Search` — what is known between two steps, with `Search.take` for one step more;
* `Search.expand` — all steps from the nodes of a layer;
* `Search.run` — one layer after another until there are no nodes left;
* `searchFrom` — the whole search from a seed.
-/

/-! ### Marks -/

/-- One mark for each node of a graph. -/
structure Marks where
  /-- Whether the node at each place is marked. -/
  bits : Array Bool

namespace Marks

/-- No node of a graph of so many is marked. -/
def clear (size : Nat) : Marks := ⟨Array.replicate size false⟩

/-- Whether a node is marked.  Places outside the graph count as marked. -/
def has (marks : Marks) (id : NodeId) : Bool := marks.bits.getD id true

/-- One node more is marked. -/
def set (marks : Marks) (id : NodeId) : Marks := ⟨marks.bits.setIfInBounds id true⟩

end Marks

/-! ### One step more -/

/-- What a search knows. -/
structure Search where
  /-- The nodes that some step led to, and the seed. -/
  visited : Marks
  /-- The nodes that some step reported. -/
  reported : Marks
  /-- The reported nodes in order, each with whether the first layer reported it. -/
  found : List (NodeId × Bool)
  /-- The nodes of the next layer in order. -/
  next : List NodeId

namespace Search

/-- Before the first step. -/
def start (size : Nat) (seed : NodeId) : Search :=
  ⟨(Marks.clear size).set seed, Marks.clear size, [], []⟩

/-- A node that is reported for the first time is found. -/
def report (direct : Bool) (step : Step) (search : Search) : Search :=
  if step.isReport && !search.reported.has step.target then
    { search with
      reported := search.reported.set step.target
      found := search.found ++ [(step.target, direct)] }
  else search

/-- A node that a step leads to for the first time is in the next layer. -/
def visit (step : Step) (search : Search) : Search :=
  if search.visited.has step.target then search
  else
    { search with
      visited := search.visited.set step.target
      next := search.next ++ [step.target] }

/-- One step more. -/
def take (direct : Bool) (search : Search) (step : Step) : Search :=
  (search.report direct step).visit step

/-! ### One layer more -/

variable {m : Type → Type} [Monad m]

/-- All steps from the nodes of a layer, node by node. -/
def expand (ask : NodeId → m (List Step)) (direct : Bool) (layer : List NodeId)
    (search : Search) : m Search :=
  layer.foldlM (fun search id => do return (← ask id).foldl (take direct) search) search

/-- One layer after another, until there are no nodes left or `rounds` layers are done.  Only what
    the first layer reports is direct. -/
def run (ask : NodeId → m (List Step)) :
    (rounds : Nat) → (direct : Bool) → (layer : List NodeId) → Search → m Search
  | 0, _, _, search => return search
  | rounds + 1, direct, layer, search => do
    if layer.isEmpty then return search
    else
      let search ← search.expand ask direct layer
      run ask rounds false search.next { search with next := [] }

end Search

/-- The nodes reported on the way from a seed, each with whether the seed itself reports it, after
    so many rounds at the most.  A seed that is not in the graph leads nowhere. -/
def searchFrom {m : Type → Type} [Monad m] (rounds size : Nat) (seed : NodeId)
    (ask : NodeId → m (List Step)) : m (List (NodeId × Bool)) :=
  if size ≤ seed then return []
  else do
    let search ← Search.run ask rounds true [seed] (Search.start size seed)
    return search.found

/-- The steps from a node, with a note of the node that they were asked for. -/
def noteAsked (steps : NodeId → List Step) (id : NodeId) : StateM (List NodeId) (List Step) := do
  modify (· ++ [id])
  return steps id

end ClassAtlas
