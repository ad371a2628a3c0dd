import ClassAtlas.Constant
import ClassAtlas.Pool.ModifiedUtf8
import ClassAtlas.Reading.Cursor
import ClassAtlas.Text.ClassName

namespace ClassAtlas

/-!
# The constant pool

* `Entry.read` — one entry;
* `Pool` — the slots, with `Pool.load` to read them; the entries in front of a damaged one are
  kept;
* `Pool.get`, `Pool.utf8`, `Pool.className` and their like — what an index stands for;
* `Pool.constant` — the constant that initialises a value of a type;
* `Pool.classNames` — every class the pool mentions.
-/

/-! ### Reading -/

/-- The entry whose first byte is its tag; `index` is its slot. -/
def Entry.read (index : Nat) : Reader Entry := do
  match ← Reader.u8 with
  | 1 =>
    let length ← Reader.u16
    let bytes ← Reader.bytes length.toNat
    match ModifiedUtf8.decode bytes with
    | .ok text => return .utf8 text
    | .error cause => Reader.malformed cause
  | 3 => return .integer (← Reader.i32)
  | 4 => return .float (← Reader.u32)
  | 5 => return .long (← Reader.i64)
  | 6 => return .double (← Reader.u64)
  | 7 => return .classRef (← Reader.u16)
  | 8 => return .string (← Reader.u16)
  | 9 => return .fieldRef (← Reader.u16) (← Reader.u16)
  | 10 => return .methodRef (← Reader.u16) (← Reader.u16)
  | 11 => return .interfaceMethodRef (← Reader.u16) (← Reader.u16)
  | 12 => return .nameAndType (← Reader.u16) (← Reader.u16)
  | 15 => return .methodHandle (← Reader.u8) (← Reader.u16)
  | 16 => return .methodType (← Reader.u16)
  | 17 => return .dynamic (← Reader.u16) (← Reader.u16)
  | 18 => return .invokeDynamic (← Reader.u16) (← Reader.u16)
  | 19 => return .moduleRef (← Reader.u16)
  | 20 => return .packageRef (← Reader.u16)
  | tag => Reader.malformed (.badPoolTag tag index)

/-- The slots of a constant pool.  Slot 0 and the slot behind a wide entry are reserved. -/
structure Pool where
  /-- The slots, by index. -/
  entries : Array Entry
  deriving DecidableEq

namespace Pool

/-- A pool without slots. -/
def empty : Pool := ⟨#[]⟩

/-- A pool, and how reading it ended. -/
structure Loaded where
  /-- What was read. -/
  pool : Pool
  /-- The end of the reading. -/
  outcome : EStateM.Result Error Cursor Unit

/-- Reads entries until there are `count` slots.  Each entry fills a slot, so `count` steps are
    enough.  A wide entry in the last slot is kept and refused. -/
def fill (count : Nat) : (steps : Nat) → Array Entry → Cursor → Loaded
  | 0, entries, cursor => ⟨⟨entries⟩, .ok () cursor⟩
  | steps + 1, entries, cursor =>
    if entries.size < count then
      match Entry.read entries.size cursor with
      | .error error cursor => ⟨⟨entries⟩, .error error cursor⟩
      | .ok entry cursor =>
        if entry.isWide then
          if entries.size + 1 < count then
            fill count steps ((entries.push entry).push .reserved) cursor
          else
            ⟨⟨entries.push entry⟩, .error (.malformed (.wideOverflow entries.size)) cursor⟩
        else fill count steps (entries.push entry) cursor
    else ⟨⟨entries⟩, .ok () cursor⟩

/-- A pool with its slots taken away. -/
def clear (pool : Pool) : Pool := { pool with entries := #[] }

/-- Reads the slot count and the entries into a pool, which is cleared first. -/
def load (pool : Pool) (cursor : Cursor) : Loaded :=
  let pool := pool.clear
  match Reader.u16 cursor with
  | .error error cursor => ⟨pool, .error error cursor⟩
  | .ok count cursor =>
    if count = 0 then ⟨pool, .error (.malformed .emptyPoolCount) cursor⟩
    else fill count.toNat count.toNat (pool.entries.push .reserved) cursor

/-! ### What an index stands for -/

/-- The entry in a slot. -/
def get (pool : Pool) (index : UInt16) : Except Error Entry :=
  match pool.entries[index.toNat]? with
  | some .reserved | none => .error (.malformed (.badPoolIndex index pool.entries.size))
  | some entry => .ok entry

/-- The refusal of an entry of another kind. -/
def wrongKind {α : Type} (index : UInt16) (expected : EntryKind) (found : Entry) :
    Except Error α :=
  .error (.malformed (.wrongKind index expected found.kind))

/-- The text in a slot. -/
def utf8 (pool : Pool) (index : UInt16) : Except Error String := do
  match ← pool.get index with
  | .utf8 text => return text
  | found => wrongKind index .utf8 found

/-- The internal name of the class in a slot. -/
def internalName (pool : Pool) (index : UInt16) : Except Error String := do
  match ← pool.get index with
  | .classRef name => pool.utf8 name
  | found => wrongKind index .classRef found

/-- The binary name of the class in a slot. -/
def className (pool : Pool) (index : UInt16) : Except Error String :=
  return Text.dotted (← pool.internalName index)

/-- The binary name of the class in a slot; index 0 stands for no class. -/
def optionalClassName (pool : Pool) (index : UInt16) : Except Error (Option String) :=
  if index = 0 then return none else return some (← pool.className index)

/-- The text of the string constant in a slot. -/
def string (pool : Pool) (index : UInt16) : Except Error String := do
  match ← pool.get index with
  | .string text => pool.utf8 text
  | found => wrongKind index .string found

/-- The name and the descriptor in a slot. -/
def nameAndType (pool : Pool) (index : UInt16) : Except Error (String × String) := do
  match ← pool.get index with
  | .nameAndType name descriptor => return (← pool.utf8 name, ← pool.utf8 descriptor)
  | found => wrongKind index .nameAndType found

/-- The constant that initialises a value of the described type.  The small types are held as
    integers and cut to their width. -/
def constant (pool : Pool) (index : UInt16) (descriptor : String) : Except Error Constant := do
  let entry ← pool.get index
  match descriptor, entry with
  | "Z", .integer value => return .boolean (value ≠ 0)
  | "B", .integer value => return .byte value.toInt8
  | "C", .integer value => return .ofUnit value.toUInt32.toUInt16
  | "S", .integer value => return .short value.toInt16
  | "I", .integer value => return .int value
  | "J", .long value => return .long value
  | "F", .float bits => return .float bits
  | "D", .double bits => return .double bits
  | "Ljava/lang/String;", .string text => return .string (← pool.utf8 text)
  | _, _ => throw (.malformed (.badConstant index entry.kind descriptor))

/-! ### Every class mentioned -/

/-- The internal name between the first and the last character of a class descriptor. -/
def describedClass? (descriptor : List Char) : Option String :=
  match descriptor with
  | 'L' :: rest =>
    if rest.getLast? = some ';' then some (String.ofList rest.dropLast) else none
  | _ => none

/-- The class an internal name mentions: of an array its element class, if that is one. -/
def mentionedClass? (name : String) : Option String :=
  let element := name.toList.dropWhile (· = '[')
  if element.length = name.toList.length then some (Text.dotted name)
  else (describedClass? element).map Text.dotted

/-- The binary names of the classes in the pool, slot by slot. -/
def classNames (pool : Pool) : List String :=
  pool.entries.toList.filterMap fun
    | .classRef name =>
      match pool.utf8 name with
      | .ok text => mentionedClass? text
      | .error _ => none
    | _ => none

end Pool

end ClassAtlas
