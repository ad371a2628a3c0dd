import ClassAtlas.Proofs.Signature.DeclarationCompleteness

namespace ClassAtlas

open Reader

/-!
# Signatures and their texts

Reading and writing undo each other.  Whatever is read is written as it was, and exactly the
well-formed trees without annotations come back from their texts, as long as fewer than
`Reader.nestingLimit` levels are open at once.

* `ReadsExactly` — what a reader of whole texts gives, and what it refuses for its nesting;
* `encode_of_value_eq_ok` — what was read is written byte for byte;
* `signatures_readExactly` — the trees that come back.
-/

/-- The reader of a whole text gives exactly the bare and well-formed values with few enough
    levels, each from its text, and refuses a well-formed value only for its levels. -/
structure ReadsExactly {β : Type} (reader : Reader β) (encode : β → String) (bare : β → β)
    (WellFormed : β → Prop) (levels : β → Nat) : Prop where
  /-- Every text that is read is that of the value, and the value is one that can be given. -/
  ok_iff : ∀ bytes value, reader.value bytes = .ok value ↔
    Text.utf8 (encode value) = bytes
      ∧ bare value = value ∧ WellFormed value ∧ levels value < nestingLimit
  /-- The text of a well-formed value gives it without its annotations unless it is too deep. -/
  back : ∀ value, WellFormed value → reader.value (Text.utf8 (encode value))
    = if levels value < nestingLimit then .ok (bare value)
      else .error (.recursionLimit nestingLimit)

variable {α β : Type}

theorem ReadsExactly.of_accounts_answers {reader : Reader β} {encode : β → String}
    {bare : β → β} {WellFormed : β → Prop} {levels : β → Nat} {Readable : β → Prop}
    (haccounts : Accounts reader 0 (fun value => Text.utf8 (encode value))
      fun value after => after = [] ∧ Readable value)
    (hreadable : ∀ value, Readable value →
      bare value = value ∧ WellFormed value ∧ levels value ≤ nestingLimit - 1)
    (hanswers : ∀ value, WellFormed value → Answers reader (Text.utf8 (encode value)) [] 0
      (bare value) (levels value ≤ nestingLimit - 1)) :
    ReadsExactly reader encode bare WellFormed levels := by
  have hfits : ∀ value, levels value ≤ nestingLimit - 1 ↔ levels value < nestingLimit := by
    intro value
    unfold nestingLimit
    omega
  have hback : ∀ value, WellFormed value → reader.value (Text.utf8 (encode value))
      = if levels value < nestingLimit then .ok (bare value)
        else .error (.recursionLimit nestingLimit) := by
    intro value hwf
    have hread := hanswers value hwf
    by_cases hdeep : levels value < nestingLimit
    · have hrun := hread.ok ((hfits value).mpr hdeep) 0
      rw [List.append_nil] at hrun
      rw [if_pos hdeep, Reader.value, Cursor.ofBytes, hrun]
    · obtain ⟨stop, hrun⟩ := hread.tooDeep (mt (hfits value).mp hdeep) 0
      rw [List.append_nil] at hrun
      rw [if_neg hdeep, Reader.value, Cursor.ofBytes, hrun]
  refine ⟨fun bytes value => ⟨fun hread => ?_, ?_⟩, hback⟩
  · obtain ⟨hbytes, hvalue⟩ := haccounts.value_eq_ok hread
    obtain ⟨hbare, hwf, hlevels⟩ := hreadable value hvalue
    exact ⟨hbytes, hbare, hwf, (hfits value).mp hlevels⟩
  · rintro ⟨rfl, hbare, hwf, hlevels⟩
    rw [hback value hwf, if_pos hlevels, hbare]

/-- What was read is written byte for byte, and so it is read again. -/
theorem ReadsExactly.encode_eq {reader : Reader β} {encode : β → String} {bare : β → β}
    {WellFormed : β → Prop} {levels : β → Nat}
    (h : ReadsExactly reader encode bare WellFormed levels) {bytes : List UInt8} {value : β}
    (hread : reader.value bytes = .ok value) :
    Text.utf8 (encode value) = bytes
      ∧ reader.value (Text.utf8 (encode value)) = .ok value := by
  have hbytes := ((h.ok_iff bytes value).mp hread).1
  exact ⟨hbytes, hbytes ▸ hread⟩

/-! ### The four kinds of texts -/

theorem JavaType.readsExactly_readField :
    ReadsExactly (readField : Reader (JavaType α)) encode bare (WellFormedAt .field) levels :=
  .of_accounts_answers (accounts_readWhole false)
    (fun _ h => ⟨h.bare_eq, h.wellFormed, h.levels_le⟩) fun _ hwf => answers_readWhole hwf

theorem JavaType.readsExactly_readReturn :
    ReadsExactly (readReturn : Reader (JavaType α)) encode bare (WellFormedAt .result) levels :=
  .of_accounts_answers (accounts_readWhole true)
    (fun _ h => ⟨h.bare_eq, h.wellFormed, h.levels_le⟩) fun _ hwf => answers_readWhole hwf

theorem MethodSignature.readsExactly_read :
    ReadsExactly (read : Reader (MethodSignature α)) encode bare WellFormed levels :=
  .of_accounts_answers accounts_read (fun _ h => ⟨h.bare_eq, h.wellFormed, h.levels_le⟩)
    fun _ hwf => answers_read hwf

theorem ClassSignature.readsExactly_read :
    ReadsExactly (read : Reader (ClassSignature α)) encode bare WellFormed levels :=
  .of_accounts_answers accounts_read (fun _ h => ⟨h.bare_eq, h.wellFormed, h.levels_le⟩)
    fun _ hwf => answers_read hwf

/-- **Writing undoes reading.** Whatever bytes are read as a field's type, a result type, a
    method's signature or a class's signature, the tree is written as the same bytes, and is read
    from them again. -/
theorem encode_of_value_eq_ok (bytes : List UInt8) :
    (∀ type : JavaType α, JavaType.readField.value bytes = .ok type →
      Text.utf8 type.encode = bytes ∧ JavaType.parseField type.encode = .ok type)
    ∧ (∀ type : JavaType α, JavaType.readReturn.value bytes = .ok type →
      Text.utf8 type.encode = bytes ∧ JavaType.parseReturn type.encode = .ok type)
    ∧ (∀ signature : MethodSignature α, MethodSignature.read.value bytes = .ok signature →
      Text.utf8 signature.encode = bytes
        ∧ MethodSignature.parse signature.encode = .ok signature)
    ∧ (∀ signature : ClassSignature α, ClassSignature.read.value bytes = .ok signature →
      Text.utf8 signature.encode = bytes
        ∧ ClassSignature.parse signature.encode = .ok signature) := by
  refine ⟨fun type hread => ?_, fun type hread => ?_, fun signature hread => ?_,
    fun signature hread => ?_⟩
  · exact JavaType.readsExactly_readField.encode_eq hread
  · exact JavaType.readsExactly_readReturn.encode_eq hread
  · exact MethodSignature.readsExactly_read.encode_eq hread
  · exact ClassSignature.readsExactly_read.encode_eq hread

/-- A text of each kind: the entries of a map, no result, a method with a type variable that it
    also throws, and a class that compares with itself. -/
theorem encode_of_value_eq_ok_each :
    (∃ type : JavaType Unit, JavaType.readField.value (Text.utf8 "La/Map<TK;*>.Entry;") = .ok type
      ∧ Text.utf8 type.encode = Text.utf8 "La/Map<TK;*>.Entry;")
    ∧ (∃ type : JavaType Unit, JavaType.readReturn.value (Text.utf8 "V") = .ok type
      ∧ Text.utf8 type.encode = Text.utf8 "V")
    ∧ (∃ signature : MethodSignature Unit,
      MethodSignature.read.value (Text.utf8 "<T:La/E;>([[I)TT;^TT;") = .ok signature
      ∧ Text.utf8 signature.encode = Text.utf8 "<T:La/E;>([[I)TT;^TT;")
    ∧ (∃ signature : ClassSignature Unit,
      ClassSignature.read.value (Text.utf8 "<T::La/C<TT;>;>La/O;La/C<TT;>;") = .ok signature
      ∧ Text.utf8 signature.encode = Text.utf8 "<T::La/C<TT;>;>La/O;La/C<TT;>;") := by
  have hfield : JavaType.readField.value (Text.utf8 "La/Map<TK;*>.Entry;")
      = .ok (.ofClass [⟨"a.Map", [.typeVariable "K" [], .wildcard []], []⟩, ⟨"Entry", [], []⟩]
        : JavaType Unit) := by
    cbv
  have hreturn : JavaType.readReturn.value (Text.utf8 "V")
      = .ok (.primitive .void [] : JavaType Unit) := by
    cbv
  have hmethod : MethodSignature.read.value (Text.utf8 "<T:La/E;>([[I)TT;^TT;")
      = .ok (⟨[⟨"T", some (.ofClass [⟨"a.E", [], []⟩]), [], []⟩],
        [.array (.primitive .int []) [[], []]], .typeVariable "T" [], [.typeVariable "T" []], none⟩
        : MethodSignature Unit) := by
    cbv
  have hclass : ClassSignature.read.value (Text.utf8 "<T::La/C<TT;>;>La/O;La/C<TT;>;")
      = .ok (⟨[⟨"T", none, [.ofClass [⟨"a.C", [.typeVariable "T" []], []⟩]], []⟩],
        some [⟨"a.O", [], []⟩], [[⟨"a.C", [.typeVariable "T" []], []⟩]]⟩
        : ClassSignature Unit) := by
    cbv
  exact ⟨⟨_, hfield, ((encode_of_value_eq_ok _).1 _ hfield).1⟩,
    ⟨_, hreturn, ((encode_of_value_eq_ok _).2.1 _ hreturn).1⟩,
    ⟨_, hmethod, ((encode_of_value_eq_ok _).2.2.1 _ hmethod).1⟩,
    ⟨_, hclass, ((encode_of_value_eq_ok _).2.2.2 _ hclass).1⟩⟩

/-- **Reading undoes writing.** Of all trees, exactly those without annotations that are
    well-formed and open fewer than `nestingLimit` levels are read, each from its own text alone;
    a well-formed tree that opens more is refused as too deeply nested. -/
theorem signatures_readExactly :
    ReadsExactly (JavaType.readField : Reader (JavaType α)) JavaType.encode JavaType.bare
      (JavaType.WellFormedAt .field) JavaType.levels
    ∧ ReadsExactly (JavaType.readReturn : Reader (JavaType α)) JavaType.encode JavaType.bare
      (JavaType.WellFormedAt .result) JavaType.levels
    ∧ ReadsExactly (MethodSignature.read : Reader (MethodSignature α)) MethodSignature.encode
      MethodSignature.bare MethodSignature.WellFormed MethodSignature.levels
    ∧ ReadsExactly (ClassSignature.read : Reader (ClassSignature α)) ClassSignature.encode
      ClassSignature.bare ClassSignature.WellFormed ClassSignature.levels :=
  ⟨JavaType.readsExactly_readField, JavaType.readsExactly_readReturn,
    MethodSignature.readsExactly_read, ClassSignature.readsExactly_read⟩

end ClassAtlas
