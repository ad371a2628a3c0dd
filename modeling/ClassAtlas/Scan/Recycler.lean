import ClassAtlas.Error

namespace ClassAtlas

/-!
# Recycling instances

A recycler hands out instances and takes them back for further use.

* `Recyclable` — what is done to an instance when it is taken back and when it is given up;
* `Handle` — what the receiver of an instance holds;
* `Recycler` — the instances, with `acquire`, `release` and `forceClose`.

An instance is known by the order in which it was made.  A refused request changes no instance;
one that fails in the making counts as a request all the same.
-/

/-- Something that can be used again. -/
class Recyclable (τ : Type) where
  /-- Makes an instance as good as new. -/
  reset : τ → τ
  /-- Gives an instance up. -/
  close : τ → τ

/-- An instance that was handed out. -/
structure Handle where
  /-- The recycler it belongs to. -/
  owner : Nat
  /-- Its number. -/
  id : Nat
  deriving DecidableEq, Repr

/-- The handle in a message. -/
def Handle.render (handle : Handle) : String :=
  s!"Recycled \x7b id: {handle.id}, .. \x7d"

/-- Instances in use and for use. -/
structure Recycler (τ : Type) where
  /-- Tells recyclers apart. -/
  identity : Nat
  /-- Makes an instance, told how often it was asked before. -/
  make : Nat → Except Error τ
  /-- How often an instance was asked for. -/
  calls : Nat
  /-- All instances made, by number. -/
  instances : Array τ
  /-- The numbers of those handed out. -/
  checkedOut : List Nat
  /-- The numbers of those for use. -/
  available : List Nat
  /-- Whether it is closed. -/
  closed : Bool

namespace Recycler

variable {τ : Type}

/-- A recycler without instances. -/
def new (identity : Nat) (make : Nat → Except Error τ) : Recycler τ :=
  ⟨identity, make, 0, #[], [], [], false⟩

/-- How many instances were made. -/
def created (recycler : Recycler τ) : Nat := recycler.instances.size

/-- The instance of a handle. -/
def instance? (recycler : Recycler τ) (handle : Handle) : Option τ :=
  recycler.instances[handle.id]?

/-- Changes an instance. -/
def update (recycler : Recycler τ) (id : Nat) (change : τ → τ) : Recycler τ :=
  { recycler with instances := recycler.instances.modify id change }

/-- The handle of an instance. -/
def handle (recycler : Recycler τ) (id : Nat) : Handle := ⟨recycler.identity, id⟩

/-- Hands out the available instance with the least number, or a new one if there is none. -/
def acquire (recycler : Recycler τ) : Recycler τ × Except Error Handle :=
  if recycler.closed then (recycler, .error (.misused .acquireAfterClose))
  else
    match recycler.available.min? with
    | some id =>
      ({ recycler with
          available := recycler.available.erase id
          checkedOut := id :: recycler.checkedOut },
        .ok (recycler.handle id))
    | none =>
      let asked := { recycler with calls := recycler.calls + 1 }
      match recycler.make recycler.calls with
      | .error error => (asked, .error error)
      | .ok made =>
        let id := recycler.created
        ({ asked with
            instances := recycler.instances.push made
            checkedOut := id :: recycler.checkedOut },
          .ok (recycler.handle id))

variable [Recyclable τ]

/-- Takes an instance back.  It has to be one of its own that is handed out. -/
def release (recycler : Recycler τ) (handle : Handle) : Recycler τ × Except Error Unit :=
  if handle.owner ≠ recycler.identity then
    (recycler, .error (.misused (.foreignInstance handle.id)))
  else if handle.id ∈ recycler.checkedOut then
    let recycler := recycler.update handle.id Recyclable.reset
    ({ recycler with
        checkedOut := recycler.checkedOut.erase handle.id
        available := handle.id :: recycler.available },
      .ok ())
  else if recycler.closed then (recycler, .error (.misused (.releaseAfterClose handle.id)))
  else (recycler, .error (.misused (.notCheckedOut handle.id)))

/-- Gives up all instances for good, also those handed out, and says how many these were. -/
def forceClose (recycler : Recycler τ) : Recycler τ × Nat :=
  let closeAll := (recycler.checkedOut ++ recycler.available).foldl
    (fun (recycler : Recycler τ) id => recycler.update id Recyclable.close) recycler
  ({ closeAll with checkedOut := [], available := [], closed := true },
    recycler.checkedOut.length)

omit [Recyclable τ] in
/-- The recycler in a message. -/
def render (recycler : Recycler τ) : String :=
  s!"Recycler \x7b available: {recycler.available.length}, " ++
    s!"checked_out: {recycler.checkedOut.length}, closed: {recycler.closed}, .. \x7d"

end Recycler

end ClassAtlas
