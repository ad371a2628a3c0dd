namespace ClassAtlas

/-!
# Entries of a constant pool

* `Entry` — one slot, with the indices and bits the class file holds;
* `EntryKind` — the sorts of entries, with the names messages use;
* `Entry.isWide` — the entries that take two slots.
-/

/-- The sorts of entries. -/
inductive EntryKind where
  | reserved | utf8 | integer | float | long | double | classRef | string | fieldRef
  | methodRef | interfaceMethodRef | nameAndType | methodHandle | methodType | dynamic
  | invokeDynamic | moduleRef | packageRef
  deriving DecidableEq, Repr

/-- The name of a sort of entries. -/
def EntryKind.name : EntryKind → String
  | .reserved => "Reserved"
  | .utf8 => "Utf8"
  | .integer => "Integer"
  | .float => "Float"
  | .long => "Long"
  | .double => "Double"
  | .classRef => "Class"
  | .string => "String"
  | .fieldRef => "Fieldref"
  | .methodRef => "Methodref"
  | .interfaceMethodRef => "InterfaceMethodref"
  | .nameAndType => "NameAndType"
  | .methodHandle => "MethodHandle"
  | .methodType => "MethodType"
  | .dynamic => "Dynamic"
  | .invokeDynamic => "InvokeDynamic"
  | .moduleRef => "Module"
  | .packageRef => "Package"

/-- One slot of a constant pool.  Numbers `UInt16` are indices of other slots; floats are held
    as bits. -/
inductive Entry where
  /-- A slot no index may name. -/
  | reserved
  | utf8 (text : String)
  | integer (value : Int32)
  | float (bits : UInt32)
  | long (value : Int64)
  | double (bits : UInt64)
  | classRef (name : UInt16)
  | string (text : UInt16)
  | fieldRef (owner nameAndType : UInt16)
  | methodRef (owner nameAndType : UInt16)
  | interfaceMethodRef (owner nameAndType : UInt16)
  | nameAndType (name descriptor : UInt16)
  | methodHandle (kind : UInt8) (reference : UInt16)
  | methodType (descriptor : UInt16)
  | dynamic (bootstrap nameAndType : UInt16)
  | invokeDynamic (bootstrap nameAndType : UInt16)
  | moduleRef (name : UInt16)
  | packageRef (name : UInt16)
  deriving DecidableEq

namespace Entry

/-- The sort of an entry. -/
def kind : Entry → EntryKind
  | reserved => .reserved
  | utf8 _ => .utf8
  | integer _ => .integer
  | float _ => .float
  | long _ => .long
  | double _ => .double
  | classRef _ => .classRef
  | string _ => .string
  | fieldRef _ _ => .fieldRef
  | methodRef _ _ => .methodRef
  | interfaceMethodRef _ _ => .interfaceMethodRef
  | nameAndType _ _ => .nameAndType
  | methodHandle _ _ => .methodHandle
  | methodType _ => .methodType
  | dynamic _ _ => .dynamic
  | invokeDynamic _ _ => .invokeDynamic
  | moduleRef _ => .moduleRef
  | packageRef _ => .packageRef

/-- Whether the entry takes two slots. -/
def isWide : Entry → Bool
  | long _ => true
  | double _ => true
  | _ => false

end Entry

end ClassAtlas
