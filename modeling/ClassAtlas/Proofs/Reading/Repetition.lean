import ClassAtlas.Proofs.Reading.Steps

namespace ClassAtlas.Reader

/-!
# Repetition and nesting, soundly and completely

What holds of the reader of an item carries over to the readers of many items.  Whether an item
can be told from what follows may depend on the later items, so conditions on the items are
stated `InTurn`, each in front of the written forms of the later ones.

* `accounts_nested`, `answers_nested`, `answers_framed` — a level deeper;
* `accounts_untilByte`, `answers_untilByte` — items up to a closing byte;
* `accounts_marked`, `answers_marked` — items behind marks;
* `accounts_untilEnd`, `answers_untilEnd` — items up to the end.
-/

variable {β γ : Type} {item : Reader β} {depth : Nat} {write : β → List UInt8}

/-! ### Nesting -/

/-- A level deeper, and back on both outcomes. -/
theorem nested_apply (body : Reader β) (start : Cursor) :
    nested body start = match body { start with depth := start.depth + 1 } with
      | .ok value stop => .ok value { stop with depth := stop.depth - 1 }
      | .error error stop => .error error { stop with depth := stop.depth - 1 } := by
  simp only [nested, deeper, shallower, bind, EStateM.bind, modify, modifyGet,
    MonadStateOf.modifyGet, EStateM.modifyGet, tryCatch, MonadExcept.tryCatch, tryCatchThe,
    MonadExceptOf.tryCatch, EStateM.tryCatch, pure]
  cases body { start with depth := start.depth + 1 } <;> rfl

/-- A level deeper, and back only with a value. -/
theorem framed_apply (body : Reader β) (start : Cursor) :
    framed body start = match body { start with depth := start.depth + 1 } with
      | .ok value stop => .ok value { stop with depth := stop.depth - 1 }
      | .error error stop => .error error stop := by
  show (body >>= fun value => shallower >>= fun _ => pure value : Reader β)
    { start with depth := start.depth + 1 } = _
  rw [bind_apply]
  cases body { start with depth := start.depth + 1 } <;> rfl

theorem accounts_nested {body : Reader β} {Legal : β → List UInt8 → Prop}
    (h : Accounts body (depth + 1) write Legal) : Accounts (nested body) depth write Legal := by
  intro start value stop hdepth hread
  rw [nested_apply] at hread
  split at hread
  · rename_i inner hinner
    obtain ⟨rfl, rfl⟩ := EStateM.Result.ok.inj hread
    obtain ⟨⟨hrest, hposition, hback⟩, hlegal⟩ := h (congrArg (· + 1) hdepth) hinner
    refine ⟨⟨hrest, hposition, ?_⟩, hlegal⟩
    show inner.depth - 1 = start.depth
    rw [hback, Nat.add_sub_cancel]
  · cases hread

theorem answers_nested {body : Reader β} {bytes rest : List UInt8} {value : β} {Fits : Prop}
    (h : Answers body bytes rest (depth + 1) value Fits) :
    Answers (nested body) bytes rest depth value Fits := by
  constructor
  · intro hfits position
    rw [nested_apply, h.ok hfits]
    rfl
  · intro hfits position
    obtain ⟨stop, hstop⟩ := h.tooDeep hfits position
    rw [nested_apply, hstop]
    exact ⟨_, rfl⟩

theorem answers_framed {body : Reader β} {bytes rest : List UInt8} {value : β} {Fits : Prop}
    (h : Answers body bytes rest (depth + 1) value Fits) :
    Answers (framed body) bytes rest depth value Fits := by
  constructor
  · intro hfits position
    rw [framed_apply, h.ok hfits]
    rfl
  · intro hfits position
    obtain ⟨stop, hstop⟩ := h.tooDeep hfits position
    rw [framed_apply, hstop]
    exact ⟨_, rfl⟩

/-- A level that is one too many is refused whatever follows. -/
theorem answers_tooDeep (bytes rest : List UInt8) (depth : Nat) (value : β) :
    Answers (tooDeep : Reader β) bytes rest depth value False :=
  ⟨fun h => h.elim, fun _ _ => ⟨_, rfl⟩⟩

theorem tooDeep_ne_ok {start stop : Cursor} {value : β} :
    (tooDeep : Reader β) start ≠ .ok value stop := by
  intro h
  cases h

/-! ### Conditions on one item after another -/

/-- Each of the values satisfies the condition in front of the written forms of the later ones. -/
def InTurn (write : β → List UInt8) (Condition : β → List UInt8 → Prop) :
    List β → List UInt8 → Prop
  | [], _ => True
  | value :: later, following =>
    Condition value (later.flatMap write ++ following) ∧ InTurn write Condition later following

theorem InTurn.forall {Condition : β → List UInt8 → Prop} {P : β → Prop} {values : List β}
    {following : List UInt8} (h : InTurn write Condition values following)
    (himp : ∀ value after, Condition value after → P value) : ∀ value ∈ values, P value := by
  induction values with
  | nil => intro _ hmem; cases hmem
  | cons first later ih =>
    intro value hmem
    rcases List.mem_cons.mp hmem with rfl | hlater
    · exact himp _ _ h.1
    · exact ih h.2 value hlater

theorem InTurn.of_forall {Condition : β → List UInt8 → Prop} {values : List β}
    {following : List UInt8} (h : ∀ value ∈ values, ∀ after, Condition value after) :
    InTurn write Condition values following := by
  induction values with
  | nil => trivial
  | cons first later ih =>
    exact ⟨h first (List.mem_cons_self ..) _,
      ih fun value hv => h value (List.mem_cons_of_mem _ hv)⟩

/-- Items with a byte each are at most as many as their bytes. -/
theorem length_le_length_flatMap {values : List β} (hne : ∀ value ∈ values, write value ≠ []) :
    values.length ≤ (values.flatMap write).length := by
  induction values with
  | nil => exact Nat.zero_le _
  | cons first later ih =>
    have hfirst := List.length_pos_iff.mpr (hne first (List.mem_cons_self ..))
    have hlater := ih fun value hv => hne value (List.mem_cons_of_mem _ hv)
    rw [List.flatMap_cons, List.length_append, List.length_cons]
    omega

/-! ### Items up to a closing byte -/

/-- The value does not begin like the closing byte. -/
def Opens (closing : Char) (write : β → List UInt8) (value : β) : Prop :=
  ∃ byte, (write value).head? = some byte ∧ Text.latin1 byte ≠ closing

theorem Opens.ne_nil {closing : Char} {value : β} (h : Opens closing write value) :
    write value ≠ [] := by
  obtain ⟨byte, hhead, -⟩ := h
  intro hnil
  rw [hnil] at hhead
  cases hhead

/-- What was read behind the items already there, and the closing byte. -/
theorem accounts_untilByteAfter {closing : Char} {Legal : β → List UInt8 → Prop}
    (hitem : Accounts item depth write Legal)
    (hne : ∀ value after, Legal value after → write value ≠ []) (bound : Nat) (read : List β)
    {start stop : Cursor} {values : List β} (hdepth : start.depth = depth)
    (hread : untilByteAfter closing item bound read start = .ok values stop) :
    ∃ later, values = read.reverse ++ later
      ∧ start.Passes (later.flatMap write ++ [.ofNat closing.toNat]) stop
      ∧ InTurn write (fun value after => Legal value after ∧ Opens closing write value) later
          (.ofNat closing.toNat :: stop.rest) := by
  -- On the fuel; the items already read and the cursor change with every item.
  induction bound generalizing read start with
  | zero => cases hread
  | succ bound ih =>
    rw [untilByteAfter, bind_eq_ok] at hread
    obtain ⟨byte, middle, hpeek, hread⟩ := hread
    obtain ⟨hhead, rfl⟩ := peek_eq_ok.mp hpeek
    split at hread
    · rename_i hclosing
      obtain ⟨_, after, hskip, hdone⟩ := bind_eq_ok.mp hread
      obtain ⟨rfl, rfl⟩ := pure_eq_ok.mp hdone
      have hpass := passes_of_skip_one hhead hskip
      rw [Text.eq_of_latin1 hclosing] at hpass
      exact ⟨[], (List.append_nil _).symm, hpass, trivial⟩
    · rename_i hopen
      obtain ⟨value, after, hvalue, hmore⟩ := bind_eq_ok.mp hread
      obtain ⟨hpass, hlegal⟩ := hitem hdepth hvalue
      obtain ⟨later, rfl, hpasses, hturn⟩ := ih _ (hpass.depth_eq.trans hdepth) hmore
      have hopens : Opens closing write value :=
        ⟨byte, hpass.head?_eq hhead (hne _ _ hlegal), hopen⟩
      refine ⟨value :: later, by simp, ?_, ⟨?_, hopens⟩, hturn⟩
      · rw [List.flatMap_cons, List.append_assoc]
        exact hpass.trans hpasses
      · -- The item was legal in front of what was left, and that is the form of the later ones.
        have hrest := hpasses.rest_eq
        rw [List.append_assoc, List.singleton_append] at hrest
        exact hrest ▸ hlegal

theorem accounts_untilByte {closing : Char} {Legal : β → List UInt8 → Prop}
    (hitem : Accounts item depth write Legal)
    (hne : ∀ value after, Legal value after → write value ≠ []) :
    Accounts (untilByte closing item) depth
      (fun values => values.flatMap write ++ [.ofNat closing.toNat])
      (fun values following =>
        InTurn write (fun value after => Legal value after ∧ Opens closing write value) values
          (.ofNat closing.toNat :: following)) := by
  intro start values stop hdepth hread
  obtain ⟨_, _, hget, hread⟩ := bind_eq_ok.mp hread
  cases hget
  obtain ⟨later, rfl, hpasses, hturn⟩ := accounts_untilByteAfter hitem hne _ _ hdepth hread
  exact ⟨hpasses, hturn⟩

/-- The fuel is enough for the items and the closing byte. -/
theorem answers_untilByteAfter {closing : Char} (ascii : closing.toNat < 128) {rest : List UInt8}
    {erase : β → γ} {item : Reader γ} {Fits : β → Prop} {values : List β}
    (h : InTurn write (fun value after =>
        Answers item (write value) after depth (erase value) (Fits value)
          ∧ Opens closing write value) values (.ofNat closing.toNat :: rest))
    (bound : Nat) (read : List γ) (hbound : values.length < bound) :
    Answers (untilByteAfter closing item bound read)
      (values.flatMap write ++ [.ofNat closing.toNat]) rest depth
      (read.reverse ++ values.map erase) (∀ value ∈ values, Fits value) := by
  -- On the items, since each uses up one unit of fuel and the closing byte the last one.
  induction values generalizing bound read with
  | nil =>
    obtain ⟨bound, rfl⟩ : ∃ n, bound = n + 1 := Nat.exists_eq_succ_of_ne_zero (Nat.ne_of_gt hbound)
    rw [untilByteAfter]
    refine (Answers.ofPeek (.ofNat closing.toNat) rfl ?_ : Answers _ _ _ _ _ True).congr ?_
    · rw [if_pos (Text.latin1_ofNat ascii), List.map_nil, List.append_nil]
      exact (answers_skip_one _).map fun _ => read.reverse
    · simp
  | cons first later ih =>
    obtain ⟨⟨hfirst, byte, hhead, hopen⟩, hlater⟩ := h
    obtain ⟨bound, rfl⟩ : ∃ n, bound = n + 1 :=
      Nat.exists_eq_succ_of_ne_zero (Nat.ne_of_gt (Nat.zero_lt_of_lt hbound))
    have hmore := ih hlater bound (erase first :: read) (Nat.lt_of_succ_lt_succ hbound)
    rw [untilByteAfter, List.flatMap_cons, List.append_assoc]
    refine (Answers.ofPeek byte ?_ ?_ : Answers _ _ _ _ _
      (Fits first ∧ ∀ value ∈ later, Fits value)).congr ?_
    · rw [List.append_assoc, List.head?_append, hhead]
      rfl
    · rw [if_neg hopen]
      rw [List.reverse_cons, List.append_assoc] at hmore
      refine Answers.bind ?_ hmore
      rwa [List.append_assoc]
    · simp

theorem answers_untilByte {closing : Char} (ascii : closing.toNat < 128) {rest : List UInt8}
    {erase : β → γ} {item : Reader γ} {Fits : β → Prop} {values : List β}
    (h : InTurn write (fun value after =>
        Answers item (write value) after depth (erase value) (Fits value)
          ∧ Opens closing write value) values (.ofNat closing.toNat :: rest)) :
    Answers (untilByte closing item) (values.flatMap write ++ [.ofNat closing.toNat]) rest depth
      (values.map erase) (∀ value ∈ values, Fits value) := by
  refine .ofGet fun cursor hunread => ?_
  -- The fuel is the number of unread bytes, and every item has at least one of them.
  have hlen := length_le_length_flatMap (h.forall fun _ _ hv => hv.2.ne_nil)
  refine answers_untilByteAfter ascii h cursor.rest.length [] ?_
  rw [hunread, List.append_assoc, List.length_append, List.length_append, List.length_singleton]
  omega

/-- Items of which there has to be one. -/
theorem Answers.nonempty {items : Reader (List β)} {bytes rest : List UInt8} {values : List β}
    {Fits : Prop} (h : Answers items bytes rest depth values Fits) (hne : values ≠ [])
    (cause : Malformation) :
    Answers (do
      let values ← items
      if values.isEmpty then malformed cause
      return values) bytes rest depth values Fits := by
  have hsome : ¬ values.isEmpty = true := by simpa using hne
  constructor
  · intro hfits position
    rw [bind_apply, h.ok hfits]
    dsimp only
    rw [if_neg hsome]
    rfl
  · intro hfits position
    obtain ⟨stop, hstop⟩ := h.tooDeep hfits position
    rw [bind_apply, hstop]
    exact ⟨stop, rfl⟩

/-! ### Items behind marks -/

/-- What was read behind the items already there, each with its mark. -/
theorem accounts_markedAfter {mark : Char} {Legal : β → List UInt8 → Prop}
    (hitem : Accounts item depth write Legal) (bound : Nat) (read : List β)
    {start stop : Cursor} {values : List β} (hdepth : start.depth = depth)
    (hread : markedAfter mark item bound read start = .ok values stop) :
    ∃ later, values = read.reverse ++ later
      ∧ start.Passes (later.flatMap fun value => .ofNat mark.toNat :: write value) stop
      ∧ InTurn (fun value => .ofNat mark.toNat :: write value) Legal later stop.rest := by
  induction bound generalizing read start with
  | zero => cases hread
  | succ bound ih =>
    rw [markedAfter, bind_eq_ok] at hread
    obtain ⟨byte, middle, hpeek, hread⟩ := hread
    obtain ⟨hhead, rfl⟩ := peek_eq_ok.mp hpeek
    split at hread
    · rename_i hmark
      obtain ⟨_, behind, hskip, hread⟩ := bind_eq_ok.mp hread
      obtain ⟨value, after, hvalue, hmore⟩ := bind_eq_ok.mp hread
      have hpass := passes_of_skip_one hhead hskip
      rw [Text.eq_of_latin1 hmark] at hpass
      obtain ⟨hpassed, hlegal⟩ := hitem (hpass.depth_eq.trans hdepth) hvalue
      obtain ⟨later, rfl, hpasses, hturn⟩ :=
        ih _ ((hpass.trans hpassed).depth_eq.trans hdepth) hmore
      refine ⟨value :: later, by simp, ?_, hpasses.rest_eq ▸ hlegal, hturn⟩
      rw [List.flatMap_cons]
      exact (hpass.trans hpassed).trans hpasses
    · obtain ⟨rfl, rfl⟩ := pure_eq_ok.mp hread
      exact ⟨[], (List.append_nil _).symm, .refl _, trivial⟩

theorem accounts_marked {mark : Char} {Legal : β → List UInt8 → Prop}
    (hitem : Accounts item depth write Legal) :
    Accounts (marked mark item) depth
      (fun values => values.flatMap fun value => .ofNat mark.toNat :: write value)
      (InTurn (fun value => .ofNat mark.toNat :: write value) Legal) := by
  intro start values stop hdepth hread
  obtain ⟨_, _, hget, hread⟩ := bind_eq_ok.mp hread
  cases hget
  obtain ⟨later, rfl, hpasses, hturn⟩ := accounts_markedAfter hitem _ _ hdepth hread
  exact ⟨hpasses, hturn⟩

/-- The byte behind the items must not look like another mark. -/
theorem answers_markedAfter {mark : Char} (ascii : mark.toNat < 128) {rest : List UInt8}
    {next : UInt8} (hrest : rest.head? = some next) (hnext : Text.latin1 next ≠ mark)
    {erase : β → γ} {item : Reader γ} {Fits : β → Prop} {values : List β}
    (h : ∀ value ∈ values, ∀ after,
      Answers item (write value) after depth (erase value) (Fits value))
    (bound : Nat) (read : List γ) (hbound : values.length < bound) :
    Answers (markedAfter mark item bound read)
      (values.flatMap fun value => .ofNat mark.toNat :: write value) rest depth
      (read.reverse ++ values.map erase) (∀ value ∈ values, Fits value) := by
  induction values generalizing bound read with
  | nil =>
    obtain ⟨bound, rfl⟩ : ∃ n, bound = n + 1 := Nat.exists_eq_succ_of_ne_zero (Nat.ne_of_gt hbound)
    rw [markedAfter]
    refine (Answers.ofPeek next hrest ?_ : Answers _ [] _ _ _ True).congr (by simp)
    rw [if_neg hnext, List.map_nil, List.append_nil]
    exact answers_pure _
  | cons first later ih =>
    obtain ⟨bound, rfl⟩ : ∃ n, bound = n + 1 :=
      Nat.exists_eq_succ_of_ne_zero (Nat.ne_of_gt (Nat.zero_lt_of_lt hbound))
    have hmore := ih (fun value hv => h value (List.mem_cons_of_mem _ hv)) bound
      (erase first :: read) (Nat.lt_of_succ_lt_succ hbound)
    rw [List.reverse_cons, List.append_assoc] at hmore
    rw [markedAfter, List.flatMap_cons]
    refine (Answers.ofPeek (.ofNat mark.toNat) rfl ?_ : Answers _ _ _ _ _
      (Fits first ∧ ∀ value ∈ later, Fits value)).congr (by simp)
    rw [if_pos (Text.latin1_ofNat ascii)]
    have hfirst := h first (List.mem_cons_self ..) (later.flatMap
      (fun value => .ofNat mark.toNat :: write value) ++ rest)
    exact (answers_skip_one (.ofNat mark.toNat)).andThen (hfirst.bind hmore)

theorem answers_marked {mark : Char} (ascii : mark.toNat < 128) {rest : List UInt8}
    {next : UInt8} (hrest : rest.head? = some next) (hnext : Text.latin1 next ≠ mark)
    {erase : β → γ} {item : Reader γ} {Fits : β → Prop} {values : List β}
    (h : ∀ value ∈ values, ∀ after,
      Answers item (write value) after depth (erase value) (Fits value)) :
    Answers (marked mark item) (values.flatMap fun value => .ofNat mark.toNat :: write value)
      rest depth (values.map erase) (∀ value ∈ values, Fits value) := by
  refine .ofGet fun cursor hunread => ?_
  refine answers_markedAfter ascii hrest hnext h cursor.rest.length [] ?_
  have hlen : values.length
      ≤ (values.flatMap fun value => UInt8.ofNat mark.toNat :: write value).length :=
    length_le_length_flatMap fun _ _ => List.cons_ne_nil _ _
  -- The byte behind the items pays for the last look at the mark.
  have hpos : 0 < rest.length := by
    cases rest with
    | nil => cases hrest
    | cons _ _ => exact Nat.zero_lt_succ _
  rw [hunread, List.length_append]
  omega

/-! ### Items up to the end -/

theorem hasMore_eq_ok {start stop : Cursor} {more : Bool} :
    hasMore start = .ok more stop ↔ more = !start.rest.isEmpty ∧ stop = start := by
  show EStateM.Result.ok (!start.rest.isEmpty) start = _ ↔ _
  rw [EStateM.Result.ok.injEq, eq_comm, eq_comm (a := start)]

/-- What was read behind the items already there, and nothing is left. -/
theorem accounts_untilEndAfter {Legal : β → List UInt8 → Prop}
    (hitem : Accounts item depth write Legal)
    (hne : ∀ value after, Legal value after → write value ≠ []) (bound : Nat) (read : List β)
    {start stop : Cursor} {values : List β} (hdepth : start.depth = depth)
    (hbound : start.rest.length ≤ bound)
    (hread : untilEndAfter item bound read start = .ok values stop) :
    ∃ later, values = read.reverse ++ later ∧ start.Passes (later.flatMap write) stop
      ∧ stop.rest = [] ∧ InTurn write Legal later [] := by
  induction bound generalizing read start with
  | zero =>
    -- Without fuel the reader stops, which is right because no bytes are left either.
    obtain ⟨rfl, rfl⟩ := pure_eq_ok.mp hread
    exact ⟨[], (List.append_nil _).symm, .refl _, List.length_eq_zero_iff.mp (by omega), trivial⟩
  | succ bound ih =>
    rw [untilEndAfter, bind_eq_ok] at hread
    obtain ⟨more, middle, hmore, hread⟩ := hread
    obtain ⟨rfl, rfl⟩ := hasMore_eq_ok.mp hmore
    split at hread
    · obtain ⟨value, after, hvalue, hread⟩ := bind_eq_ok.mp hread
      obtain ⟨hpass, hlegal⟩ := hitem hdepth hvalue
      have hshorter : after.rest.length ≤ bound := by
        have hlen := congrArg List.length hpass.rest_eq
        have hpos := List.length_pos_iff.mpr (hne _ _ hlegal)
        rw [List.length_append] at hlen
        omega
      obtain ⟨later, rfl, hpasses, hend, hturn⟩ :=
        ih _ (hpass.depth_eq.trans hdepth) hshorter hread
      refine ⟨value :: later, by simp, ?_, hend, ?_, hturn⟩
      · rw [List.flatMap_cons]
        exact hpass.trans hpasses
      · have hrest := hpasses.rest_eq
        rw [hend] at hrest
        exact hrest ▸ hlegal
    · rename_i hdone
      obtain ⟨rfl, rfl⟩ := pure_eq_ok.mp hread
      exact ⟨[], (List.append_nil _).symm, .refl _, by simpa using hdone, trivial⟩

theorem accounts_untilEnd {Legal : β → List UInt8 → Prop}
    (hitem : Accounts item depth write Legal)
    (hne : ∀ value after, Legal value after → write value ≠ []) :
    Accounts (untilEnd item) depth (fun values => values.flatMap write)
      (fun values following => following = [] ∧ InTurn write Legal values []) := by
  intro start values stop hdepth hread
  obtain ⟨_, _, hget, hread⟩ := bind_eq_ok.mp hread
  cases hget
  obtain ⟨later, rfl, hpasses, hend, hturn⟩ :=
    accounts_untilEndAfter hitem hne _ _ hdepth (Nat.le_refl _) hread
  exact ⟨hpasses, hend, hturn⟩

/-- The end of the bytes can be asked for. -/
theorem Answers.ofHasMore {next : Bool → Reader γ} {bytes rest : List UInt8} {result : γ}
    {Fits : Prop} (h : Answers (next !(bytes ++ rest).isEmpty) bytes rest depth result Fits) :
    Answers (hasMore >>= next) bytes rest depth result Fits :=
  ⟨fun hfits position => h.ok hfits position, fun hfits position => h.tooDeep hfits position⟩

theorem answers_untilEndAfter {erase : β → γ} {item : Reader γ} {Fits : β → Prop}
    {values : List β} (hne : ∀ value ∈ values, write value ≠ [])
    (h : ∀ value ∈ values, ∀ after,
      Answers item (write value) after depth (erase value) (Fits value))
    (bound : Nat) (read : List γ) (hbound : values.length ≤ bound) :
    Answers (untilEndAfter item bound read) (values.flatMap write) [] depth
      (read.reverse ++ values.map erase) (∀ value ∈ values, Fits value) := by
  induction values generalizing bound read with
  | nil =>
    refine (?_ : Answers _ _ _ _ _ True).congr (by simp)
    rw [List.map_nil, List.append_nil]
    cases bound with
    | zero => exact answers_pure _
    | succ bound => exact .ofHasMore (answers_pure _)
  | cons first later ih =>
    obtain ⟨bound, rfl⟩ : ∃ n, bound = n + 1 :=
      Nat.exists_eq_succ_of_ne_zero (Nat.ne_of_gt (Nat.zero_lt_of_lt hbound))
    have hmore := ih (fun value hv => hne value (List.mem_cons_of_mem _ hv))
      (fun value hv => h value (List.mem_cons_of_mem _ hv)) bound (erase first :: read)
      (Nat.le_of_succ_le_succ hbound)
    rw [List.reverse_cons, List.append_assoc] at hmore
    rw [untilEndAfter, List.flatMap_cons]
    refine (Answers.ofHasMore ?_ : Answers _ _ _ _ _
      (Fits first ∧ ∀ value ∈ later, Fits value)).congr (by simp)
    have hfirst := hne first (List.mem_cons_self ..)
    have hmany : (!((write first ++ later.flatMap write) ++ []).isEmpty) = true := by
      simp [hfirst]
    rw [if_pos hmany]
    exact Answers.bind (h first (List.mem_cons_self ..) _) hmore

theorem answers_untilEnd {erase : β → γ} {item : Reader γ} {Fits : β → Prop}
    {values : List β} (hne : ∀ value ∈ values, write value ≠ [])
    (h : ∀ value ∈ values, ∀ after,
      Answers item (write value) after depth (erase value) (Fits value)) :
    Answers (untilEnd item) (values.flatMap write) [] depth (values.map erase)
      (∀ value ∈ values, Fits value) := by
  refine .ofGet fun cursor hunread => ?_
  have hlen := length_le_length_flatMap hne
  refine answers_untilEndAfter hne h cursor.rest.length [] ?_
  rw [hunread, List.append_nil]
  exact hlen

end ClassAtlas.Reader
