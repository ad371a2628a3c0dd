import ClassAtlas.Proofs.ClassFile.Reuse
import ClassAtlas.Proofs.Reading.Sequential

namespace ClassAtlas

open Reader

/-!
# No class file is the beginning of another one

Every structure of a class file says how long it is before it goes on, so each of them is read
sequentially, and the class itself uses up all the bytes.

* `Entry.sequential_read`, `Pool.sequential_read` — the constant pool;
* `RawAttribute.sequential_readTable`, `FieldDecl.sequential_read`, `OpenMethod.sequential_read` —
  attributes and members;
* `ClassDecl.usesUp_read` — everything behind the pool;
* `decode_of_prefix_or_append` — what a decoder answers to less and to more.
-/

/-! ### The constant pool -/

theorem Entry.sequential_read (index : Nat) : (Entry.read index).Sequential := by
  have pair : ∀ make : UInt16 → UInt16 → Entry,
      (do return make (← u16) (← u16) : Reader Entry).Sequential := fun make =>
    sequential_u16.bind fun _ => sequential_u16.bind fun _ => sequential_pure _
  unfold Entry.read
  refine sequential_u8.bind fun tag => ?_
  -- By the tag, in the order of the tags.
  split
  · refine sequential_u16.bind fun length => (sequential_bytes _).bind fun bytes => ?_
    split
    · exact sequential_pure _
    · exact sequential_malformed _
  · exact sequential_i32.bind fun _ => sequential_pure _
  · exact sequential_u32.bind fun _ => sequential_pure _
  · exact sequential_i64.bind fun _ => sequential_pure _
  · exact sequential_u64.bind fun _ => sequential_pure _
  · exact sequential_u16.bind fun _ => sequential_pure _
  · exact sequential_u16.bind fun _ => sequential_pure _
  · exact pair .fieldRef
  · exact pair .methodRef
  · exact pair .interfaceMethodRef
  · exact pair .nameAndType
  · exact sequential_u8.bind fun _ => sequential_u16.bind fun _ => sequential_pure _
  · exact sequential_u16.bind fun _ => sequential_pure _
  · exact pair .dynamic
  · exact pair .invokeDynamic
  · exact sequential_u16.bind fun _ => sequential_pure _
  · exact sequential_u16.bind fun _ => sequential_pure _
  · exact sequential_malformed _

/-- Filling a pool, as a reader. -/
def Pool.filler (count steps : Nat) (entries : Array Entry) : Reader Pool :=
  fun cursor => (Pool.fill count steps entries cursor).result

theorem Pool.filler_succ (count steps : Nat) (entries : Array Entry) :
    Pool.filler count (steps + 1) entries =
      if entries.size < count then do
        let entry ← Entry.read entries.size
        if entry.isWide then
          if entries.size + 1 < count then
            Pool.filler count steps ((entries.push entry).push .reserved)
          else malformed (.wideOverflow entries.size)
        else Pool.filler count steps (entries.push entry)
      else pure ⟨entries⟩ := by
  funext cursor
  show (Pool.fill count (steps + 1) entries cursor).result = _
  rw [Pool.fill]
  by_cases hmore : entries.size < count
  · rw [if_pos hmore, if_pos hmore, bind_apply]
    cases Entry.read entries.size cursor with
    | error error place => rfl
    | ok entry place =>
      dsimp only
      by_cases hwide : entry.isWide = true
      · rw [if_pos hwide, if_pos hwide]
        split <;> rfl
      · rw [if_neg hwide, if_neg hwide]
        rfl
  · rw [if_neg hmore, if_neg hmore]
    rfl

theorem Pool.sequential_filler (count steps : Nat) (entries : Array Entry) :
    (Pool.filler count steps entries).Sequential := by
  -- On the steps, of which there are as many as slots: each round fills one or two of them.
  induction steps generalizing entries with
  | zero => exact sequential_pure _
  | succ steps ih =>
    rw [Pool.filler_succ]
    refine sequential_ite ((Entry.sequential_read _).bind fun entry => ?_) (sequential_pure _)
    exact sequential_ite (sequential_ite (ih _) (sequential_malformed _)) (ih _)

theorem Pool.read_eq : Pool.read = (do
    let count ← u16
    if count = 0 then malformed .emptyPoolCount
    else Pool.filler count.toNat count.toNat #[.reserved]) := by
  funext cursor
  rw [bind_apply]
  unfold Pool.read Pool.load
  cases u16 cursor with
  | error error place => rfl
  | ok count place =>
    dsimp only
    split <;> rfl

theorem Pool.sequential_read : Pool.read.Sequential := by
  rw [Pool.read_eq]
  exact sequential_u16.bind fun count =>
    sequential_ite (sequential_malformed _) (Pool.sequential_filler _ _ _)

/-- A pool that is read from some bytes and leaves none takes all of them. -/
theorem Pool.takes_of_read {bytes : List UInt8} {pool : Pool} {position depth : Nat}
    (h : Pool.read (.ofBytes bytes) = .ok pool ⟨[], position, depth⟩) :
    Pool.read.Takes bytes pool := by
  obtain ⟨taken, hpass, htakes⟩ := Pool.sequential_read h
  obtain rfl : bytes = taken := hpass.rest_eq.trans (List.append_nil _)
  exact htakes

/-! ### Attributes and members -/

theorem RawAttribute.sequential_readTable (pool : Pool) :
    (RawAttribute.readTable pool).Sequential := by
  refine sequential_u16.bind fun count => sequential_times ?_ _
  refine sequential_u16.bind fun name => (sequential_lift _).bind fun name => ?_
  exact sequential_u32.bind fun length => (sequential_bytes _).bind fun body => sequential_pure _

/-- Fields and methods have the same parts in the same order. -/
theorem sequential_member {β : Type} (pool : Pool)
    {next : UInt16 → String → String → List RawAttribute → Reader β}
    (hnext : ∀ flags name descriptor table, (next flags name descriptor table).Sequential) :
    (do
      let flags ← u16
      let name ← pool.utf8 (← u16)
      let descriptor ← pool.utf8 (← u16)
      let table ← RawAttribute.readTable pool
      next flags name descriptor table : Reader β).Sequential := by
  refine sequential_u16.bind fun flags => ?_
  refine sequential_u16.bind fun name => (sequential_lift _).bind fun name => ?_
  refine sequential_u16.bind fun descriptor => (sequential_lift _).bind fun descriptor => ?_
  exact (RawAttribute.sequential_readTable pool).bind fun table => hnext _ _ _ _

theorem FieldDecl.sequential_read (pool : Pool) (options : DecodeOptions) :
    (FieldDecl.read pool options).Sequential :=
  sequential_member pool fun _ _ _ _ => (sequential_lift _).bind fun _ => sequential_lift _

theorem OpenMethod.sequential_read (pool : Pool) (options : DecodeOptions) (className : String) :
    (OpenMethod.read pool options className).Sequential :=
  sequential_member pool fun _ _ _ _ => (sequential_lift _).bind fun _ => sequential_lift _

/-! ### Classes -/

theorem FileVersion.sequential_read (options : DecodeOptions) :
    (FileVersion.read options).Sequential := by
  refine sequential_u32.bind fun magic => sequential_ite ?_ ?_
  · exact (sequential_malformed _).bind fun _ => sequential_u16.bind fun _ =>
      sequential_u16.bind fun _ => sequential_ite (sequential_pure _) (sequential_malformed _)
  · exact sequential_u16.bind fun _ =>
      sequential_u16.bind fun _ => sequential_ite (sequential_pure _) (sequential_malformed _)

/-- How bytes behind a class are refused. -/
def ClassDecl.trailing (count : Nat) (decl : ClassDecl) : Malformation :=
  .trailingBytes count decl.name

theorem ClassDecl.usesUp_read (pool : Pool) (options : DecodeOptions) (origin : Origin)
    (version : FileVersion) :
    (ClassDecl.read pool options origin version).UsesUp ClassDecl.trailing := by
  refine .bind sequential_u16 fun flags => ?_
  refine .bind sequential_u16 fun name => .bind (sequential_lift _) fun name => ?_
  -- A module is refused here, so there is no value to speak of.
  refine .ite (fun _ _ _ hread => ?_) ?_
  · obtain ⟨_, _, hfailure, -⟩ := bind_eq_ok.mp hread
    cases hfailure
  refine .bind sequential_u16 fun superclass => .bind (sequential_lift _) fun superclass => ?_
  refine .ite (fun _ _ _ => malformed_bind_ne_ok) ?_
  refine .bind sequential_u16 fun interfaces => .bind (sequential_times ?_ _) fun interfaces => ?_
  · exact sequential_u16.bind fun _ => sequential_lift _
  refine .bind sequential_u16 fun fields =>
    .bind (sequential_times (FieldDecl.sequential_read pool options) _) fun fields => ?_
  refine .bind sequential_u16 fun methods =>
    .bind (sequential_times (OpenMethod.sequential_read pool options name) _) fun methods => ?_
  refine .bind (RawAttribute.sequential_readTable pool) fun table => ?_
  refine .bind (sequential_lift _) fun attributes => ?_
  refine .bind (sequential_mapM (fun _ => sequential_lift _) _) fun methods => ?_
  -- What comes next looks whether this is the end, and only there gives a class.
  intro start decl stop hread
  rw [bind_apply, get_apply] at hread
  dsimp only at hread
  split at hread
  · exact absurd hread malformed_bind_ne_ok
  rename_i hend
  obtain ⟨signature, place, -, hdecl⟩ := bind_eq_ok.mp hread
  obtain ⟨rfl, -⟩ := pure_eq_ok.mp hdecl
  have hnone : start.rest = [] := List.length_eq_zero_iff.mp (not_not.mp hend)
  rw [hnone]
  constructor
  · intro cut hprefix hne
    exact absurd (List.prefix_nil.mp hprefix) hne
  · intro longer more hmore hrest
    rw [bind_apply, get_apply]
    dsimp only
    rw [hrest, List.nil_append, if_pos (mt List.length_eq_zero_iff.mp hmore)]
    exact ⟨longer, rfl⟩

/-! ### Whole files -/

/-- What a decoder answers is decided by what the reader does with the bytes. -/
theorem Decoder.decode_eq_error {decoder : Decoder} {origin : Origin} {data : List UInt8}
    {options : DecodeOptions} {error : Error} {place : Cursor}
    (h : ClassDecl.readFile origin options (.ofBytes data) = .error error place) :
    (decoder.decode origin data options).2 = .error error := by
  rw [(Decoder.decode_spec ..).1, Reader.value, h]

/-- **Class files are prefix-free.** Where a decoder reads a class from some bytes, bytes are
    missing for it in every proper beginning of them, and whatever follows them is refused as so
    many bytes behind the class. -/
theorem decode_of_prefix_or_append {decoder : Decoder} {origin : Origin} {data : List UInt8}
    {options : DecodeOptions} {decl : ClassDecl}
    (h : (decoder.decode origin data options).2 = .ok decl) :
    (∀ cut, cut <+: data → cut ≠ data →
      (decoder.decode origin cut options).2 = .error .outOfBounds)
    ∧ ∀ more, more ≠ [] → (decoder.decode origin (data ++ more) options).2
      = .error (.malformed (.trailingBytes more.length decl.name)) := by
  rw [(Decoder.decode_spec ..).1] at h
  obtain ⟨stop, hread⟩ := Reader.value_eq_ok.mp h
  have huses : (ClassDecl.readFile origin options).UsesUp ClassDecl.trailing :=
    .bind (FileVersion.sequential_read options) fun version =>
      .bind Pool.sequential_read fun pool => ClassDecl.usesUp_read pool options origin version
  obtain ⟨hcut, hlonger⟩ := huses hread
  constructor
  · intro cut hprefix hne
    obtain ⟨place, hplace⟩ := hcut (.ofBytes cut) hprefix hne
    exact Decoder.decode_eq_error hplace
  · intro more hmore
    obtain ⟨place, hplace⟩ := hlonger (.ofBytes (data ++ more)) more hmore rfl
    exact Decoder.decode_eq_error hplace

/-- An empty class that is its own superclass. -/
def ouroborosBytes : List UInt8 :=
  [0xCA, 0xFE, 0xBA, 0xBE, 0, 0, 0, 52, 0, 3, 1, 0, 1, 65, 7, 0, 1,
    0, 0x21, 0, 2, 0, 2, 0, 0, 0, 0, 0, 0, 0, 0]

/-- Its bytes, all but the last of them, and the same twice. -/
theorem decode_of_prefix_or_append_ouroboros :
    ∃ decl, (Decoder.new.decode ⟨"A.class", 0⟩ ouroborosBytes {}).2 = .ok decl
      ∧ (Decoder.new.decode ⟨"A.class", 0⟩ ouroborosBytes.dropLast {}).2 = .error .outOfBounds
      ∧ (Decoder.new.decode ⟨"A.class", 0⟩ (ouroborosBytes ++ ouroborosBytes) {}).2
        = .error (.malformed (.trailingBytes 31 decl.name)) := by
  have hok : (Decoder.new.decode ⟨"A.class", 0⟩ ouroborosBytes {}).2.isOk = true := by cbv
  cases hdecl : (Decoder.new.decode ⟨"A.class", 0⟩ ouroborosBytes {}).2 with
  | error error =>
    rw [hdecl] at hok
    cases hok
  | ok decl =>
    obtain ⟨hcut, hlonger⟩ := decode_of_prefix_or_append hdecl
    refine ⟨decl, rfl, hcut _ (List.dropLast_prefix _) ?_, hlonger ouroborosBytes ?_⟩
    · decide
    · decide

end ClassAtlas
