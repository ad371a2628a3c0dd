namespace ClassAtlas

/-!
# Paths into a type

A type-use annotation says where in a type it belongs by a path of steps:

* `PathStep` — one step, with `PathStep.ofRaw?` for the pair a class file holds;
* `TypePath` — the steps, with `TypePath.render` for messages;
* `TypePath.leading` — how many steps of one sort the path starts with.
-/

/-- A step towards a part of a type. -/
inductive PathStep where
  /-- Into the element of an array, by one dimension. -/
  | element
  /-- Into the class nested in the current one. -/
  | nested
  /-- Into the bound of a wildcard. -/
  | bound
  /-- Into a type argument. -/
  | argument (index : UInt8)
  deriving DecidableEq, Repr

/-- The step of a kind byte and an argument byte.  Only steps of kind 3 have an argument. -/
def PathStep.ofRaw? (kind argument : UInt8) : Option PathStep :=
  if kind = 3 then some (.argument argument)
  else if argument ≠ 0 then none
  else if kind = 0 then some .element
  else if kind = 1 then some .nested
  else if kind = 2 then some .bound
  else none

/-- A step in a message. -/
def PathStep.render : PathStep → String
  | .element => "[]"
  | .nested => "."
  | .bound => "*"
  | .argument index => toString index.toNat

/-- The steps to a part of a type, from the outside inwards. -/
abbrev TypePath := List PathStep

/-- A path in a message. -/
def TypePath.render (path : TypePath) : String :=
  "[" ++ String.intercalate ", " (path.map PathStep.render) ++ "]"

/-- How many copies of one step the path starts with. -/
def TypePath.leading (step : PathStep) (path : TypePath) : Nat :=
  (path.takeWhile (· = step)).length

/-! ### Small facts -/

/-- The leading steps are steps of the path. -/
theorem TypePath.leading_le (step : PathStep) (path : TypePath) :
    path.leading step ≤ path.length :=
  (List.takeWhile_prefix _).length_le

end ClassAtlas
