namespace ClassAtlas.Text

/-!
# The two spellings of a class name

The class file writes the package separator as a slash (the internal form), readers write it
as a dot (the binary form):

* `dotted` — internal to binary;
* `internal` — binary to internal.

A binary name is a package, a dot and the class, whose own name has those of its outer classes
in front, each with a dollar sign behind it:

* `packageOf` — the package;
* `simpleOf` — the class without its outer classes.
-/

/-- The text with every `old` character replaced by `new`. -/
def replaceChar (old new : Char) (text : String) : String :=
  String.ofList (text.toList.map fun c => if c = old then new else c)

/-- The binary name of an internal name. -/
def dotted (name : String) : String := replaceChar '/' '.' name

/-- The internal name of a binary name. -/
def internal (name : String) : String := replaceChar '.' '/' name

/-! ### Parts of a binary name -/

/-- What stands behind the last `mark`; everything if there is none. -/
def afterLast (mark : Char) (characters : List Char) : List Char :=
  (characters.reverse.takeWhile (· ≠ mark)).reverse

/-- The package of a class; empty for a class without one. -/
def packageOf (name : String) : String :=
  let characters := name.toList
  String.ofList (characters.take (characters.length - (afterLast '.' characters).length - 1))

/-- The name of a class without its package and its outer classes. -/
def simpleOf (name : String) : String :=
  String.ofList (afterLast '$' (afterLast '.' name.toList))

/-! ### Between the spellings -/

/-- Replacing a character and replacing it back gives the text again where the new character
    did not occur. -/
theorem replaceChar_replaceChar {old new : Char} {text : String} (fresh : new ∉ text.toList) :
    replaceChar new old (replaceChar old new text) = text := by
  have h : ∀ cs : List Char, new ∉ cs →
      (cs.map fun c => if c = old then new else c).map (fun c => if c = new then old else c)
        = cs := by
    intro cs
    induction cs with
    | nil => intro _; rfl
    | cons c cs ih =>
      intro hc
      rw [List.mem_cons, not_or] at hc
      simp only [List.map_cons, ih hc.2]
      by_cases hcold : c = old
      · simp [hcold]
      · simp [hcold, Ne.symm hc.1]
  simp [replaceChar, h text.toList fresh]

/-- An internal name without dots comes back from its binary spelling. -/
theorem internal_dotted {name : String} (fresh : '.' ∉ name.toList) :
    internal (dotted name) = name :=
  replaceChar_replaceChar fresh

end ClassAtlas.Text
