import ClassAtlas.Proofs.Reading.Spelling

namespace ClassAtlas

/-!
# The reasons for which records mean nothing

Where the bytes of a record stand that means nothing, a reader can only fail, but it could do so
for many reasons: it reads on before it looks at what it has read, or it looks at another record
first.  A reader that reports fails for the reason that the record has.

* `mapM_set_eq_ok`, `mapM_set_eq_error` — many outcomes, one of which is another than before;
* `Reader.Reports` — the reader fails as the record says;
* `Reports.bind`, `Reports.afterLift` — one step after another, each with its own reasons;
* `Reports.table` — of many records, the first one that means nothing gives the reason;
* `Reports.guard`, `reports_end` — conditions on the way, and the end of the bytes.
-/

variable {β γ δ ρ σ : Type}

/-! ### Outcomes -/

/-- A step that can fail fails in its first half or in its second one. -/
theorem except_bind_eq_error {outcome : Except Error β} {next : β → Except Error γ}
    {error : Error} :
    outcome >>= next = .error error
      ↔ outcome = .error error ∨ ∃ middle, outcome = .ok middle ∧ next middle = .error error := by
  cases outcome with
  | error first =>
    constructor
    · intro h
      cases h
      exact .inl rfl
    · rintro (h | ⟨_, h, _⟩)
      · cases h
        rfl
      · cases h
  | ok middle =>
    constructor
    · intro h
      exact .inr ⟨middle, rfl, h⟩
    · rintro (h | ⟨_, h, hnext⟩)
      · cases h
      · cases h
        exact hnext

theorem mapM_cons_eq_ok {step : β → Except Error γ} {item : β} {rest : List β}
    {values : List γ} :
    (item :: rest).mapM step = .ok values
      ↔ ∃ value more, step item = .ok value ∧ rest.mapM step = .ok more
        ∧ value :: more = values := by
  rw [List.mapM_cons, except_bind_eq_ok]
  constructor
  · rintro ⟨value, hvalue, h⟩
    obtain ⟨more, hmore, h⟩ := except_bind_eq_ok.mp h
    exact ⟨value, more, hvalue, hmore, Except.ok.inj h⟩
  · rintro ⟨value, more, hvalue, hmore, rfl⟩
    exact ⟨value, hvalue, except_bind_eq_ok.mpr ⟨more, hmore, rfl⟩⟩

/-- Two steps for each item, one after the other. -/
theorem mapM_bind_eq_ok {first : β → Except Error γ} {second : γ → Except Error δ}
    {items : List β} {middles : List γ} {values : List δ} (h : items.mapM first = .ok middles)
    (h' : middles.mapM second = .ok values) :
    items.mapM (fun item => first item >>= second) = .ok values := by
  induction items generalizing middles values with
  | nil =>
    cases h
    exact h'
  | cons item rest ih =>
    obtain ⟨middle, more, hmiddle, hmore, rfl⟩ := mapM_cons_eq_ok.mp h
    obtain ⟨value, later, hvalue, hlater, rfl⟩ := mapM_cons_eq_ok.mp h'
    exact mapM_cons_eq_ok.mpr
      ⟨value, later, except_bind_eq_ok.mpr ⟨middle, hmiddle, hvalue⟩, ih hmore hlater, rfl⟩

/-- One outcome for each item, of which one is another than before. -/
theorem mapM_set_eq_ok {step : β → Except Error γ} {items : List β} {values : List γ}
    {item : β} {value : γ} (h : items.mapM step = .ok values) (hitem : step item = .ok value)
    (place : Nat) : (items.set place item).mapM step = .ok (values.set place value) := by
  induction items generalizing values place with
  | nil =>
    cases h
    rfl
  | cons first rest ih =>
    obtain ⟨given, more, hgiven, hmore, rfl⟩ := mapM_cons_eq_ok.mp h
    cases place with
    | zero => exact mapM_cons_eq_ok.mpr ⟨value, more, hitem, hmore, rfl⟩
    | succ place => exact mapM_cons_eq_ok.mpr ⟨given, _, hgiven, ih hmore place, rfl⟩

/-- Where there was an outcome for each item, the other item is the reason that there is none. -/
theorem mapM_set_eq_error {step : β → Except Error γ} {items : List β} {values : List γ}
    {item : β} {error : Error} {place : Nat} (h : items.mapM step = .ok values)
    (hitem : step item = .error error) (hplace : place < items.length) :
    (items.set place item).mapM step = .error error := by
  induction items generalizing values place with
  | nil => cases hplace
  | cons first rest ih =>
    obtain ⟨given, more, hgiven, hmore, -⟩ := mapM_cons_eq_ok.mp h
    cases place with
    | zero =>
      rw [List.set_cons_zero, List.mapM_cons, hitem]
      rfl
    | succ place =>
      rw [List.set_cons_succ, List.mapM_cons, hgiven, ih hmore (Nat.lt_of_succ_lt_succ hplace)]
      rfl

/-- The outcome for the item in a place is in the same place. -/
theorem getElem?_of_mapM {step : β → Except Error γ} {items : List β} {values : List γ}
    {place : Nat} {item : β} (h : items.mapM step = .ok values)
    (hitem : items[place]? = some item) :
    ∃ value, values[place]? = some value ∧ step item = .ok value := by
  induction items generalizing values place with
  | nil => cases hitem
  | cons first rest ih =>
    obtain ⟨given, more, hgiven, hmore, rfl⟩ := mapM_cons_eq_ok.mp h
    cases place with
    | zero =>
      cases hitem
      exact ⟨given, rfl, hgiven⟩
    | succ place =>
      rw [List.getElem?_cons_succ] at hitem
      have hrest := ih hmore hitem
      exact hrest

namespace Reader

/-- Where the bytes of a record stand that means nothing, with bytes of this sort behind them, the
    reader fails for the reason that the record has. -/
def Reports (reader : Reader β) (encode : ρ → List UInt8) (meaning : ρ → Except Error β)
    (behind : List UInt8 → Prop) : Prop :=
  ∀ ⦃record start stop error⦄, start.Passes (encode record) stop → behind stop.rest →
    meaning record = .error error → ∃ place, reader start = .error error place

/-- Any bytes at all. -/
def anything : List UInt8 → Prop := fun _ => True

/-- No bytes. -/
def nothing : List UInt8 → Prop := fun rest => rest = []

variable {reader : Reader β} {next : β → Reader γ} {encode : ρ → List UInt8}
  {meaning : ρ → Except Error β} {encode' : σ → List UInt8} {meaning' : β → σ → Except Error γ}
  {behind : List UInt8 → Prop}

/-! ### One step after another -/

/-- Where every record means something there is no reason to give. -/
theorem reports_of_total (h : ∀ record, ∃ value, meaning record = .ok value) :
    reader.Reports encode meaning behind := by
  intro record start stop error _ _ herror
  obtain ⟨value, hvalue⟩ := h record
  rw [hvalue] at herror
  cases herror

theorem reports_u16 : u16.Reports (fun value => spell 2 value.toNat) pure behind :=
  reports_of_total fun value => ⟨value, rfl⟩

/-- Bytes behind their number, which four bytes hold. -/
theorem reports_sized (make : List UInt8 → β) :
    (do return make (← bytes (← u32).toNat) : Reader β).Reports
      (fun body : { body : List UInt8 // body.length < 2 ^ 32 } =>
        spell 4 body.val.length ++ body.val)
      (fun body => pure (make body.val)) behind :=
  reports_of_total fun body => ⟨make body.val, rfl⟩

/-- What is worked out from values already read. -/
theorem reports_lift (outcome : Except Error β) :
    (liftM outcome : Reader β).Reports (fun _ : Unit => []) (fun _ => outcome) behind := by
  intro _ start _ error _ _ herror
  cases herror
  exact ⟨start, rfl⟩

theorem Reports.bind (reads : reader.ReadsAs encode meaning)
    (first : reader.Reports encode meaning anything)
    (second : ∀ value, (next value).Reports encode' (meaning' value) behind) :
    (reader >>= next).Reports (fun record : ρ × σ => encode record.1 ++ encode' record.2)
      (fun record => do meaning' (← meaning record.1) record.2) behind := by
  rintro ⟨record, record'⟩ start stop error hpass hbehind herror
  obtain ⟨middle, hpass, hpass'⟩ := hpass.split
  rw [bind_apply]
  rcases except_bind_eq_error.mp herror with hnone | ⟨value, hvalue, hnone⟩
  · obtain ⟨place, hplace⟩ := first hpass trivial hnone
    rw [hplace]
    exact ⟨place, rfl⟩
  · -- The first record means something, so the reader comes to the second one.
    rw [(reads _ _ _).mpr ⟨record, hpass, hvalue⟩]
    exact second value hpass' hbehind hnone

/-- The same records under other names. -/
theorem Reports.of_fields (h : reader.Reports encode meaning behind) (fields : σ → ρ) :
    reader.Reports (fun record => encode (fields record)) (fun record => meaning (fields record))
      behind :=
  fun record => @h (fields record)

/-- A step that works out something first. -/
theorem Reports.afterLift {outcome : Except Error β}
    (h : ∀ value, (next value).Reports encode' (meaning' value) behind) :
    (liftM outcome >>= next).Reports encode' (fun record => do meaning' (← outcome) record)
      behind := by
  intro record start stop error hpass hbehind herror
  rw [bind_apply]
  rcases except_bind_eq_error.mp herror with hnone | ⟨value, hvalue, hnone⟩
  · rw [hnone]
    exact ⟨start, rfl⟩
  · rw [hvalue]
    exact h value hpass hbehind hnone

/-- A step that reads nothing. -/
theorem Reports.finally (reads : reader.ReadsAs encode meaning)
    (h : reader.Reports encode meaning anything) {outcome : β → Except Error γ}
    (hnext : ∀ value, (next value).Reports (fun _ : Unit => []) (fun _ => outcome value) behind) :
    (reader >>= next).Reports encode (fun record => do outcome (← meaning record)) behind := by
  intro record start stop error hpass hbehind herror
  rw [← List.append_nil (encode record)] at hpass
  have hbind := Reports.bind reads h hnext
  exact @hbind (record, ()) start stop error hpass hbehind herror

/-! ### Records behind their count -/

/-- The reader comes to the first record that means nothing, and not further. -/
theorem reports_timesAfter {item : Reader β} (reads : item.ReadsAs encode meaning)
    (h : item.Reports encode meaning anything) {records : List ρ} {read : List β}
    {start stop : Cursor} {error : Error} (hpass : start.Passes (records.flatMap encode) stop)
    (herror : records.mapM meaning = .error error) :
    ∃ place, timesAfter item records.length read start = .error error place := by
  induction records generalizing read start with
  | nil => cases herror
  | cons record records ih =>
    rw [List.flatMap_cons] at hpass
    obtain ⟨middle, hpass, hpass'⟩ := hpass.split
    rw [List.length_cons, timesAfter, bind_apply]
    rw [List.mapM_cons] at herror
    rcases except_bind_eq_error.mp herror with hnone | ⟨value, hvalue, herror⟩
    · obtain ⟨place, hplace⟩ := h hpass trivial hnone
      rw [hplace]
      exact ⟨place, rfl⟩
    · rw [(reads _ _ _).mpr ⟨record, hpass, hvalue⟩]
      rcases except_bind_eq_error.mp herror with hnone | ⟨more, -, hnone⟩
      · exact ih hpass' hnone
      · cases hnone

theorem Reports.table {item : Reader β} (reads : item.ReadsAs encode meaning)
    (h : item.Reports encode meaning anything) :
    (do times (← u16).toNat item : Reader (List β)).Reports (Table.encode encode)
      (fun table => table.records.mapM meaning) behind := by
  rintro ⟨records, hcount⟩ start stop error hpass - herror
  obtain ⟨middle, hpass, hpass'⟩ := hpass.split
  have hback : (UInt16.ofNat records.length).toNat = records.length :=
    UInt16.toNat_ofNat_of_lt' hcount
  have hread : u16 start = .ok (.ofNat records.length) middle := by
    rw [readsAs_u16 _ _ _]
    refine ⟨_, ?_, rfl⟩
    dsimp only
    rwa [hback]
  rw [bind_apply, hread]
  dsimp only
  rw [hback]
  exact reports_timesAfter reads h hpass' herror

/-- A table, and what comes behind it. -/
theorem Reports.tableThen {item : Reader β} {next : List β → Reader γ}
    {meaning' : List β → σ → Except Error γ} (reads : item.ReadsAs encode meaning)
    (h : item.Reports encode meaning anything)
    (second : ∀ values, (next values).Reports encode' (meaning' values) behind) :
    (u16 >>= fun count => times count.toNat item >>= next).Reports
      (fun record : Table ρ × σ => record.1.encode encode ++ encode' record.2)
      (fun record => do meaning' (← record.1.records.mapM meaning) record.2) behind := by
  rw [← bind_assoc]
  exact .bind reads.table (.table reads h) second

/-! ### Conditions -/

/-- Where the condition holds, it is the reason. -/
theorem Reports.guard (condition : Prop) [Decidable condition] (failure : Reader β)
    (error : Error) (hfailure : ∀ start, failure start = .error error start)
    (h : reader.Reports encode meaning behind) :
    (if condition then failure else reader).Reports encode
      (fun record => if condition then .error error else meaning record) behind := by
  intro record start stop error' hpass hbehind herror
  split at herror
  · rename_i hcondition
    cases herror
    rw [if_pos hcondition]
    exact ⟨start, hfailure start⟩
  · rename_i hother
    rw [if_neg hother]
    exact h hpass hbehind herror

/-- The check that nothing is left finds nothing to complain about at the end. -/
theorem reports_end {failure : Cursor → Reader β} {outcome : Except Error β}
    (h : reader.Reports (fun _ : Unit => []) (fun _ => outcome) nothing) :
    (get >>= fun place : Cursor =>
      if place.rest.length ≠ 0 then failure place else reader).Reports
        (fun _ : Unit => []) (fun _ => outcome) nothing := by
  intro _ start stop error hpass hbehind herror
  have hend : ¬ start.rest.length ≠ 0 := by
    rw [hpass.rest_eq, hbehind]
    simp
  rw [bind_apply, get_apply]
  dsimp only
  rw [if_neg hend]
  exact @h () start stop error hpass hbehind herror

/-- From the start of the bytes to their end. -/
theorem Reports.value_eq_error (h : reader.Reports encode meaning nothing) {record : ρ}
    {error : Error} (herror : meaning record = .error error) :
    reader.value (encode record) = .error error := by
  have hpass : (Cursor.ofBytes (encode record)).Passes (encode record)
      ⟨[], (encode record).length, 0⟩ :=
    ⟨(List.append_nil _).symm, (Nat.zero_add _).symm, rfl⟩
  obtain ⟨place, hplace⟩ := h hpass rfl herror
  rw [Reader.value, hplace]

end Reader

end ClassAtlas
