import ClassAtlas.Machine.Reading
import ClassAtlas.Pool.Table

namespace ClassAtlas.Machine

/-!
# Reading a constant pool by a position

* `unitsFrom`, `decodeText` — modified UTF-8 by indices into its bytes;
* `readEntry` — one entry;
* `fill`, `load` — the slots, which are there even if the reading fails.
-/

/-! ### Modified UTF-8 -/

/-- The continuation byte at an index. -/
def continuation (bytes : List UInt8) (index : Nat) : Except Error UInt8 :=
  match bytes[index]? with
  | some byte =>
    if ModifiedUtf8.isContinuation byte then .ok byte
    else .error (.malformed (.badTextContinuation byte index))
  | none => .error (.malformed .truncatedText)

/-- The units from an index on, behind the units already read, which are given last first. -/
def unitsFrom (bytes : List UInt8) :
    (bound : Nat) → (index : Nat) → (read : List UInt16) → Checked (List UInt16)
  | 0, _, _ => liftM (.error .endless : Guarded (List UInt16))
  | bound + 1, index, read => do
    if index < bytes.length then
      let lead ← (entryAt bytes index : Guarded UInt8)
      if 0x01 ≤ lead ∧ lead ≤ 0x7F then
        unitsFrom bytes bound (← add index 1) (lead.toUInt16 :: read)
      else if 0xC0 ≤ lead ∧ lead ≤ 0xDF then
        let low ← continuation bytes (← add index 1)
        unitsFrom bytes bound (← add index 2) (ModifiedUtf8.unitOfTwo lead low :: read)
      else if 0xE0 ≤ lead ∧ lead ≤ 0xEF then
        let middle ← continuation bytes (← add index 1)
        let low ← continuation bytes (← add index 2)
        unitsFrom bytes bound (← add index 3) (ModifiedUtf8.unitOfThree lead middle low :: read)
      else throw (.malformed (.badTextLead lead index))
    else return read.reverse

/-- The text of some bytes.  Plain ASCII needs no units. -/
def decodeText (bytes : List UInt8) : Checked String := do
  if bytes.all ModifiedUtf8.isPlain then return String.ofList (bytes.map Text.latin1)
  else
    let units ← unitsFrom bytes (bytes.length + 1) 0 []
    match ModifiedUtf8.charactersAfter units [] with
    | some characters => return String.ofList characters
    | none => throw (.malformed .unpairedSurrogate)

/-! ### Entries -/

/-- What stands behind the tag of an entry; `index` is its slot. -/
def readBehindTag (index : Nat) (tag : UInt8) : Step Entry := do
  match tag with
  | 1 =>
    let length ← u16
    let bytes ← bytes length.toNat
    return .utf8 (← decodeText bytes)
  | 3 => return .integer (← i32)
  | 4 => return .float (← u32)
  | 5 => return .long (← i64)
  | 6 => return .double (← u64)
  | 7 => return .classRef (← u16)
  | 8 => return .string (← u16)
  | 9 => return .fieldRef (← u16) (← u16)
  | 10 => return .methodRef (← u16) (← u16)
  | 11 => return .interfaceMethodRef (← u16) (← u16)
  | 12 => return .nameAndType (← u16) (← u16)
  | 15 => return .methodHandle (← u8) (← u16)
  | 16 => return .methodType (← u16)
  | 17 => return .dynamic (← u16) (← u16)
  | 18 => return .invokeDynamic (← u16) (← u16)
  | 19 => return .moduleRef (← u16)
  | 20 => return .packageRef (← u16)
  | tag => malformed (.badPoolTag tag index)

/-- The entry whose first byte is its tag. -/
def readEntry (index : Nat) : Step Entry := do
  readBehindTag index (← u8)

/-! ### Slots -/

/-- The slots that were read, and how the reading ended. -/
structure Loaded where
  /-- What was read. -/
  pool : Pool
  /-- Whether it is all that the pool should hold. -/
  outcome : Except Error Unit
  /-- Where the reading ended. -/
  place : Place

/-- Reads entries until there are `count` slots. -/
def fill (count : Nat) : (bound : Nat) → Array Entry → Place → Guarded Loaded
  | 0, _, _ => .error .endless
  | bound + 1, entries, place => do
    if entries.size < count then
      match ← (readEntry entries.size).run.run place with
      | (.error error, place) => return ⟨⟨entries⟩, .error error, place⟩
      | (.ok entry, place) =>
        if entry.isWide then
          if count ≤ (entries.push entry).size then
            return ⟨⟨entries.push entry⟩, .error (.malformed (.wideOverflow entries.size)), place⟩
          else fill count bound ((entries.push entry).push .reserved) place
        else fill count bound (entries.push entry) place
    else return ⟨⟨entries⟩, .ok (), place⟩

/-- Reads the slot count and the entries into a pool, which is cleared first. -/
def load (pool : Pool) (place : Place) : Guarded Loaded := do
  let pool := pool.clear
  match ← u16.run.run place with
  | (.error error, place) => return ⟨pool, .error error, place⟩
  | (.ok count, place) =>
    if count = 0 then return ⟨pool, .error (.malformed .emptyPoolCount), place⟩
    else fill count.toNat (count.toNat + 1) (pool.entries.push .reserved) place

end ClassAtlas.Machine
