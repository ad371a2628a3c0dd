namespace ClassAtlas

/-!
# Modifiers

Classes, fields and methods each know some of the sixteen access flags, and the same bit can
mean different things on them.

* `ClassModifiers`, `FieldModifiers`, `MethodModifiers` — the known flags of a declaration, with
  `ofBits` to drop the others and `render` for the keywords;
* `ClassKind` — what sort of class the flags say.
-/

/-! ### Flags -/

/-- Whether all bits of a flag are set. -/
def hasFlag (bits flag : UInt16) : Bool := bits &&& flag = flag

/-- The keywords of the flags that are set, in the order of a table. -/
def keywords (table : List (UInt16 × String)) (bits : UInt16) : String :=
  String.intercalate " " ((table.filter fun row => hasFlag bits row.1).map (·.2))

/-- All of some flags together. -/
def allFlags (flags : List UInt16) : UInt16 := flags.foldl (· ||| ·) 0

/-- The flag of a static member. -/
def staticFlag : UInt16 := 0x0008

/-- The flag of a final declaration. -/
def finalFlag : UInt16 := 0x0010

/-- The flag of a class whose calls to its superclass are treated specially. -/
def superFlag : UInt16 := 0x0020

/-- The flag of an interface. -/
def interfaceFlag : UInt16 := 0x0200

/-- The flag of an abstract declaration. -/
def abstractFlag : UInt16 := 0x0400

/-- The flag of an annotation type. -/
def annotationFlag : UInt16 := 0x2000

/-- The flag of an enum class or an enum constant. -/
def enumFlag : UInt16 := 0x4000

/-- The flag of a module descriptor. -/
def moduleFlag : UInt16 := 0x8000

/-! ### Classes -/

/-- The modifiers of a class. -/
structure ClassModifiers where
  /-- The flags. -/
  bits : UInt16
  deriving DecidableEq, Repr

namespace ClassModifiers

/-- The flags a class knows. -/
def known : UInt16 :=
  allFlags [0x0001, 0x0002, 0x0004, staticFlag, finalFlag, superFlag, interfaceFlag,
    abstractFlag, 0x1000, annotationFlag, enumFlag, moduleFlag]

/-- The known ones of some flags. -/
def ofBits (bits : UInt16) : ClassModifiers := ⟨bits &&& known⟩

/-- Whether a flag is set. -/
def has (modifiers : ClassModifiers) (flag : UInt16) : Bool := hasFlag modifiers.bits flag

/-- The keywords.  An interface is always abstract, so that is not written. -/
def render (modifiers : ClassModifiers) : String :=
  let bits :=
    if modifiers.has interfaceFlag then modifiers.bits &&& ~~~abstractFlag else modifiers.bits
  keywords
    [(0x0001, "public"), (0x0004, "protected"), (0x0002, "private"),
      (abstractFlag, "abstract"), (staticFlag, "static"), (finalFlag, "final"),
      (0x1000, "synthetic")] bits

end ClassModifiers

/-! ### Fields -/

/-- The modifiers of a field. -/
structure FieldModifiers where
  /-- The flags. -/
  bits : UInt16
  deriving DecidableEq, Repr

namespace FieldModifiers

/-- The flags a field knows. -/
def known : UInt16 :=
  allFlags [0x0001, 0x0002, 0x0004, staticFlag, finalFlag, 0x0040, 0x0080, 0x1000, enumFlag]

/-- The known ones of some flags. -/
def ofBits (bits : UInt16) : FieldModifiers := ⟨bits &&& known⟩

/-- Whether a flag is set. -/
def has (modifiers : FieldModifiers) (flag : UInt16) : Bool := hasFlag modifiers.bits flag

/-- The keywords. -/
def render (modifiers : FieldModifiers) : String :=
  keywords
    [(0x0001, "public"), (0x0004, "protected"), (0x0002, "private"), (staticFlag, "static"),
      (finalFlag, "final"), (0x0080, "transient"), (0x0040, "volatile"),
      (0x1000, "synthetic")] modifiers.bits

end FieldModifiers

/-! ### Methods -/

/-- The modifiers of a method. -/
structure MethodModifiers where
  /-- The flags. -/
  bits : UInt16
  deriving DecidableEq, Repr

namespace MethodModifiers

/-- The flags a method knows. -/
def known : UInt16 :=
  allFlags [0x0001, 0x0002, 0x0004, staticFlag, finalFlag, 0x0020, 0x0040, 0x0080, 0x0100,
    abstractFlag, 0x0800, 0x1000]

/-- The known ones of some flags. -/
def ofBits (bits : UInt16) : MethodModifiers := ⟨bits &&& known⟩

/-- The keywords. -/
def render (modifiers : MethodModifiers) : String :=
  keywords
    [(0x0001, "public"), (0x0004, "protected"), (0x0002, "private"),
      (abstractFlag, "abstract"), (staticFlag, "static"), (finalFlag, "final"),
      (0x0020, "synchronized"), (0x0100, "native"), (0x0800, "strictfp"),
      (0x1000, "synthetic"), (0x0040, "bridge")] modifiers.bits

end MethodModifiers

/-! ### Sorts of classes -/

/-- What sort of class a class is. -/
inductive ClassKind where
  | ordinary | interface | annotationType | enumeration
  deriving DecidableEq, Repr

namespace ClassKind

/-- What the flags say: an annotation type before an interface, an interface before an enum. -/
def ofModifiers (modifiers : ClassModifiers) : ClassKind :=
  if modifiers.has annotationFlag then annotationType
  else if modifiers.has interfaceFlag then interface
  else if modifiers.has enumFlag then enumeration
  else ordinary

/-- Whether the class is an interface.  Annotation types are interfaces too. -/
def isInterface : ClassKind → Bool
  | interface => true
  | annotationType => true
  | ordinary => false
  | enumeration => false

/-- The keyword. -/
def keyword : ClassKind → String
  | ordinary => "class"
  | interface => "interface"
  | annotationType => "@interface"
  | enumeration => "enum"

end ClassKind

end ClassAtlas
