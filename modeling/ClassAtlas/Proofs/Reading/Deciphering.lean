import ClassAtlas.Proofs.Reading.Failures
import ClassAtlas.Proofs.Reading.Spelling

namespace ClassAtlas.Reader

/-!
# Records that need not mean anything

What a record means can depend on where it is read, and it may mean nothing at all there.  A reader
deciphers a record if it finds what the record means, and fails where there is nothing to find.

* `Reader.Deciphers` — all that a reader does in front of the bytes of a record;
* `Deciphers.bind`, `deciphers_lift` — one step after another;
* `deciphers_framed`, `deciphers_tooDeep` — nesting;
* `Reader.ReadsNested` — the same from the first level on, and of any bytes behind;
* `deciphers_times`, `deciphers_counted` — many records, and records behind their count;
* `Reader.RefusesAt` — bytes that are refused as malformed;
* `refusesAt_timesAfter`, `refusesAt_counted` — many records, one of which is malformed.
-/

variable {β γ ρ : Type}

/-- In front of `rest`, the reader answers to `bytes` with what they mean, if this fits into the
    levels that are left, and fails if they mean nothing. -/
structure Deciphers (reader : Reader β) (bytes rest : List UInt8) (depth : Nat)
    (Means : β → Prop) (Fits : Prop) : Prop where
  /-- What they mean is found or is too deep. -/
  answers : ∀ {value}, Means value → Answers reader bytes rest depth value Fits
  /-- Nothing else is found. -/
  refused : (∀ value, ¬ Means value) → ∀ position, ∃ error stop,
    reader ⟨bytes ++ rest, position, depth⟩ = .error error stop

variable {reader : Reader β} {next : β → Reader γ} {bytes more rest : List UInt8} {depth : Nat}
  {Means Means' : β → Prop} {MeansNext : β → γ → Prop} {Fits Fits' : Prop}

theorem Deciphers.congr (h : Deciphers reader bytes rest depth Means Fits)
    (hmeans : ∀ value, Means value ↔ Means' value) (hfits : Fits ↔ Fits') :
    Deciphers reader bytes rest depth Means' Fits' := by
  obtain rfl : Means = Means' := funext fun value => propext (hmeans value)
  exact propext hfits ▸ h

/-- Only what the reader does in front of the bytes matters. -/
theorem Deciphers.of_eq {other : Reader β} (h : Deciphers reader bytes rest depth Means Fits)
    (heq : ∀ position,
      other ⟨bytes ++ rest, position, depth⟩ = reader ⟨bytes ++ rest, position, depth⟩) :
    Deciphers other bytes rest depth Means Fits := by
  refine ⟨fun hvalue => ⟨fun hfits position => ?_, fun hfits position => ?_⟩,
    fun hnone position => ?_⟩
  · rw [heq, (h.answers hvalue).ok hfits]
  · rw [heq]
    exact (h.answers hvalue).tooDeep hfits position
  · rw [heq]
    exact h.refused hnone position

/-! ### One step after another -/

theorem Answers.deciphers {value : β} (h : Answers reader bytes rest depth value Fits) :
    Deciphers reader bytes rest depth (value = ·) Fits := by
  refine ⟨?_, fun hnone => absurd rfl (hnone value)⟩
  rintro _ rfl
  exact h

theorem deciphers_pure (value : β) : Deciphers (pure value) [] rest depth (value = ·) True :=
  (answers_pure value).deciphers

/-- What is worked out from values already read. -/
theorem deciphers_lift (outcome : Except Error β) :
    Deciphers (liftM outcome : Reader β) [] rest depth (outcome = .ok ·) True := by
  constructor
  · rintro value rfl
    exact answers_pure value
  · intro hnone position
    cases outcome with
    | error error => exact ⟨error, _, rfl⟩
    | ok value => exact absurd rfl (hnone value)

/-- The bytes of two records stand one behind the other. -/
theorem Deciphers.bind (first : Deciphers reader bytes (more ++ rest) depth Means Fits)
    (second : ∀ value, Means value →
      Deciphers (next value) more rest depth (MeansNext value) Fits') :
    Deciphers (reader >>= next) (bytes ++ more) rest depth
      (fun result => ∃ value, Means value ∧ MeansNext value result) (Fits ∧ Fits') := by
  constructor
  · rintro result ⟨value, hvalue, hresult⟩
    exact (first.answers hvalue).bind ((second value hvalue).answers hresult)
  · intro hnone position
    rw [bind_apply, List.append_assoc]
    by_cases hfirst : ∃ value, Means value
    · -- The first record means something, so it is the second one that does not.
      obtain ⟨value, hvalue⟩ := hfirst
      by_cases hfits : Fits
      · rw [(first.answers hvalue).ok hfits]
        exact (second value hvalue).refused (fun result hresult =>
          hnone result ⟨value, hvalue, hresult⟩) _
      · obtain ⟨stop, hstop⟩ := (first.answers hvalue).tooDeep hfits position
        rw [hstop]
        exact ⟨_, stop, rfl⟩
    · obtain ⟨error, stop, hstop⟩ := first.refused (not_exists.mp hfirst) position
      rw [hstop]
      exact ⟨error, stop, rfl⟩

/-- After a step that works something out. -/
theorem Deciphers.afterLift (outcome : Except Error β)
    (h : ∀ value, Deciphers (next value) bytes rest depth (MeansNext value) Fits) :
    Deciphers (liftM outcome >>= next) bytes rest depth
      (fun result => ∃ value, outcome = .ok value ∧ MeansNext value result) Fits :=
  ((deciphers_lift outcome).bind fun value _ => h value).congr (fun _ => Iff.rfl)
    (iff_of_eq (true_and _))

/-- After a step that only takes bytes. -/
theorem Deciphers.after {value : β} {Meaning : γ → Prop}
    (first : Answers reader bytes (more ++ rest) depth value True)
    (second : Deciphers (next value) more rest depth Meaning Fits) :
    Deciphers (reader >>= next) (bytes ++ more) rest depth Meaning Fits := by
  refine ⟨fun hvalue => first.andThen (second.answers hvalue), fun hnone position => ?_⟩
  rw [bind_apply, List.append_assoc, first.ok trivial]
  exact second.refused hnone _

/-- Before steps that only work something out. -/
theorem Deciphers.last {value : β} {Meaning : γ → Prop}
    (first : Answers reader bytes rest depth value True)
    (second : Deciphers (next value) [] rest depth Meaning Fits) :
    Deciphers (reader >>= next) bytes rest depth Meaning Fits := by
  have h : Deciphers (reader >>= next) (bytes ++ []) rest depth Meaning Fits :=
    .after first second
  rwa [List.append_nil] at h

/-- The meaning put into another form. -/
theorem Deciphers.map (h : Deciphers reader bytes rest depth Means Fits) (f : β → γ) :
    Deciphers (reader >>= fun value => pure (f value)) bytes rest depth
      (fun result => ∃ value, Means value ∧ f value = result) Fits := by
  have hmap : Deciphers (reader >>= fun value => pure (f value)) (bytes ++ []) rest depth
      (fun result => ∃ value, Means value ∧ f value = result) (Fits ∧ True) :=
    h.bind fun value _ => deciphers_pure (f value)
  rw [List.append_nil] at hmap
  exact hmap.congr (fun _ => Iff.rfl) (iff_of_eq (and_true _))

/-- The place in the bytes does not matter to what is read. -/
theorem Deciphers.ofPosition {next : Nat → Reader β}
    (h : ∀ position, Deciphers (next position) bytes rest depth Means Fits) :
    Deciphers (position >>= next) bytes rest depth Means Fits :=
  ⟨fun hvalue => .ofPosition fun position => (h position).answers hvalue,
   fun hnone position => (h position).refused hnone position⟩

/-! ### Nesting -/

theorem deciphers_framed (h : Deciphers reader bytes rest (depth + 1) Means Fits) :
    Deciphers (framed reader) bytes rest depth Means Fits := by
  refine ⟨fun hvalue => answers_framed (h.answers hvalue), fun hnone position => ?_⟩
  obtain ⟨error, stop, hstop⟩ := h.refused hnone position
  rw [framed_apply, hstop]
  exact ⟨error, stop, rfl⟩

theorem deciphers_tooDeep (Means : β → Prop) :
    Deciphers (tooDeep : Reader β) bytes rest depth Means False :=
  ⟨fun _ => answers_tooDeep _ _ _ _, fun _ _ => ⟨_, _, rfl⟩⟩

/-- From the first level on all the room is left. -/
theorem Deciphers.ofRoom {next : Nat → Reader β}
    (h : Deciphers (next (nestingLimit - 1)) bytes rest 0 Means Fits) :
    Deciphers (room >>= next) bytes rest 0 Means Fits :=
  h.of_eq fun _ => rfl

/-- From the first level on nothing changes when levels are counted anew. -/
theorem Deciphers.ofSurface {next : Unit → Reader β}
    (h : Deciphers (next ()) bytes rest 0 Means Fits) :
    Deciphers (surface >>= next) bytes rest 0 Means Fits :=
  h.of_eq fun _ => rfl

/-- What a reader does from the first level on in front of the bytes of a record: it gives what they
    mean and goes just as far, fails because of the nesting if there are too many levels, and blames
    the bytes if they mean nothing. -/
structure ReadsNested (reader : Reader β) (bytes : List UInt8) (Means : β → Prop) (levels : Nat) :
    Prop where
  /-- Whatever stands behind the bytes is left. -/
  ok : ∀ value, Means value → levels < nestingLimit → ∀ rest position,
    reader ⟨bytes ++ rest, position, 0⟩ = .ok value ⟨rest, position + bytes.length, 0⟩
  /-- The limit is not reached. -/
  tooDeep : ∀ value, Means value → nestingLimit ≤ levels → ∀ rest position, ∃ stop,
    reader ⟨bytes ++ rest, position, 0⟩ = .error (.recursionLimit nestingLimit) stop
  /-- Nothing is made up. -/
  refused : (∀ value, ¬ Means value) → ∀ rest position, ∃ error stop,
    reader ⟨bytes ++ rest, position, 0⟩ = .error error stop ∧ error.isFormatError = true

theorem Contained.readsNested (hcontained : reader.Contained) {levels : Nat}
    (h : ∀ rest, Deciphers reader bytes rest 0 Means (levels ≤ nestingLimit - 1)) :
    reader.ReadsNested bytes Means levels where
  ok _ hvalue hfits rest := ((h rest).answers hvalue).ok (Nat.le_pred_of_lt hfits)
  tooDeep _ hvalue hdeep rest :=
    ((h rest).answers hvalue).tooDeep (Nat.not_le_of_lt (Nat.lt_of_lt_of_le (by decide) hdeep))
  refused hnone rest position := by
    obtain ⟨error, stop, hstop⟩ := (h rest).refused hnone position
    exact ⟨error, stop, hstop, hcontained hstop⟩

/-! ### Many records -/

section

variable {encode : ρ → List UInt8} {Means : ρ → β → Prop} {Fits : ρ → Prop} {records : List ρ}

/-- Records that all mean something mean as many things. -/
theorem exists_forall₂ (h : ∀ record ∈ records, ∃ value, Means record value) :
    ∃ values, List.Forall₂ Means records values := by
  induction records with
  | nil => exact ⟨[], .nil⟩
  | cons record records ih =>
    obtain ⟨value, hvalue⟩ := h record (List.mem_cons_self ..)
    obtain ⟨values, hvalues⟩ := ih fun later hmem => h later (List.mem_cons_of_mem _ hmem)
    exact ⟨value :: values, .cons hvalue hvalues⟩

theorem deciphers_timesAfter
    (h : ∀ record ∈ records, ∀ after,
      Deciphers reader (encode record) after depth (Means record) (Fits record))
    (read : List β) :
    Deciphers (timesAfter reader records.length read) (records.flatMap encode) rest depth
      (fun values => ∃ later, List.Forall₂ Means records later ∧ read.reverse ++ later = values)
      (∀ record ∈ records, Fits record) := by
  induction records generalizing read with
  | nil =>
    refine (deciphers_pure read.reverse).congr (fun values => ?_) ?_
    · simp
    · simp
  | cons record records ih =>
    have hfirst := h record (List.mem_cons_self ..) (records.flatMap encode ++ rest)
    have hlater := ih fun record hmem => h record (List.mem_cons_of_mem _ hmem)
    rw [List.length_cons, timesAfter, List.flatMap_cons]
    refine (hfirst.bind fun value _ => hlater (value :: read)).congr (fun values => ?_) ?_
    · constructor
      · rintro ⟨value, hvalue, later, hmore, rfl⟩
        exact ⟨value :: later, .cons hvalue hmore, by simp⟩
      · rintro ⟨_, hall, rfl⟩
        obtain ⟨value, later, hvalue, hmore, rfl⟩ := List.forall₂_cons_left_iff.mp hall
        exact ⟨value, hvalue, later, hmore, by simp⟩
    · exact List.forall_mem_cons.symm

theorem deciphers_times
    (h : ∀ record ∈ records, ∀ after,
      Deciphers reader (encode record) after depth (Means record) (Fits record)) :
    Deciphers (times records.length reader) (records.flatMap encode) rest depth
      (List.Forall₂ Means records) (∀ record ∈ records, Fits record) :=
  (deciphers_timesAfter h []).congr (by simp) Iff.rfl

/-- The number in front says how many records there are. -/
theorem deciphers_counted (rest : List UInt8) {number : Reader γ} {toNat : γ → Nat}
    {head : List UInt8} {count : γ}
    (hnumber : Answers number head (records.flatMap encode ++ rest) depth count True)
    (hcount : toNat count = records.length)
    (h : ∀ record ∈ records, ∀ after,
      Deciphers reader (encode record) after depth (Means record) (Fits record)) :
    Deciphers (number >>= fun value => times (toNat value) reader)
      (head ++ records.flatMap encode) rest depth
      (List.Forall₂ Means records) (∀ record ∈ records, Fits record) := by
  refine .after hnumber ?_
  rw [hcount]
  exact deciphers_times h

end

/-! ### Malformed bytes -/

/-- The bytes are malformed, whatever the place they are at. -/
def RefusesAt (reader : Reader β) (bytes rest : List UInt8) (depth : Nat) : Prop :=
  ∀ position, ∃ cause stop,
    reader ⟨bytes ++ rest, position, depth⟩ = .error (.malformed cause) stop

theorem refusesAt_malformed (cause : Malformation) :
    RefusesAt (malformed cause : Reader β) bytes rest depth :=
  fun _ => ⟨cause, _, rfl⟩

/-- What stands behind them is not reached. -/
theorem RefusesAt.before (h : RefusesAt reader bytes (more ++ rest) depth) :
    RefusesAt (reader >>= next) (bytes ++ more) rest depth := by
  intro position
  obtain ⟨cause, stop, hstop⟩ := h position
  rw [bind_apply, List.append_assoc, hstop]
  exact ⟨cause, stop, rfl⟩

/-- What stands in front of them is read. -/
theorem RefusesAt.behind {value : β} (first : Answers reader bytes (more ++ rest) depth value True)
    (second : RefusesAt (next value) more rest depth) :
    RefusesAt (reader >>= next) (bytes ++ more) rest depth := by
  intro position
  rw [bind_apply, List.append_assoc, first.ok trivial]
  exact second _

/-- One malformed record is enough, if those in front of it are read. -/
theorem refusesAt_timesAfter {encode : ρ → List UInt8} {Sound : ρ → Prop} {records : List ρ}
    (hsound : ∀ record ∈ records, Sound record →
      ∃ value, ∀ after, Answers reader (encode record) after depth value True)
    (hrefused : ∀ record ∈ records, ¬ Sound record →
      ∀ after, RefusesAt reader (encode record) after depth)
    (hsome : ∃ record ∈ records, ¬ Sound record) (read : List β) :
    RefusesAt (timesAfter reader records.length read) (records.flatMap encode) rest depth := by
  induction records generalizing read with
  | nil =>
    obtain ⟨_, hmem, -⟩ := hsome
    cases hmem
  | cons record records ih =>
    rw [List.length_cons, timesAfter, List.flatMap_cons]
    by_cases hrecord : Sound record
    · -- The malformed record is a later one.
      obtain ⟨value, hvalue⟩ := hsound record (List.mem_cons_self ..) hrecord
      refine .behind (hvalue _) (ih (fun later hmem => hsound later (List.mem_cons_of_mem _ hmem))
        (fun later hmem => hrefused later (List.mem_cons_of_mem _ hmem)) ?_ (value :: read))
      obtain ⟨bad, hmem, hbad⟩ := hsome
      rcases List.mem_cons.mp hmem with rfl | hlater
      · exact absurd hrecord hbad
      · exact ⟨bad, hlater, hbad⟩
    · exact .before (hrefused record (List.mem_cons_self ..) hrecord _)

/-- So is one behind the number of the records. -/
theorem refusesAt_counted {encode : ρ → List UInt8} (Sound : ρ → Prop) {records : List ρ}
    {number : Reader γ} {toNat : γ → Nat} {head : List UInt8} {count : γ}
    (hnumber : Answers number head (records.flatMap encode ++ rest) depth count True)
    (hcount : toNat count = records.length)
    (hsound : ∀ record ∈ records, Sound record →
      ∃ value, ∀ after, Answers reader (encode record) after depth value True)
    (hrefused : ∀ record ∈ records, ¬ Sound record →
      ∀ after, RefusesAt reader (encode record) after depth)
    (hsome : ∃ record ∈ records, ¬ Sound record) :
    RefusesAt (number >>= fun value => times (toNat value) reader)
      (head ++ records.flatMap encode) rest depth := by
  refine .behind hnumber ?_
  rw [hcount]
  exact refusesAt_timesAfter hsound hrefused hsome []

end ClassAtlas.Reader
