import ClassAtlas.Proofs.Reading.Outline
import ClassAtlas.Proofs.Reading.Repetition

namespace ClassAtlas.Reader

/-!
# Levels are balanced

While a reader reads, frames are entered and left, one for each level, and the counter is raised and
lowered.  Where the levels are is known from the outline of the reader.

* `Event`, `Outline.trace` — what happens to the frames and to the counter in a run;
* `Tally` — what the counter has to do with the frames;
* `tally_step`, `tally_refused`, `Tally.bind`, `Tally.nest` — single steps, one after another, and a
  level around them;
* `Outline.tally` — whatever the reader is, the counter counts the open frames;
* `Interface` — readers that are asked for one thing after the other, on one cursor.
-/

variable {α β γ : Type} {closing : Closing} {reader : Reader α}

/-! ### Runs -/

/-- What happens to frames and to the counter. -/
inductive Event.Action where
  /-- A frame is entered, and the counter is raised. -/
  | entered
  /-- A step is taken that leaves the counter alone. -/
  | step
  /-- The counter is about to be lowered. -/
  | lowered
  /-- A frame ends with a value. -/
  | completed
  /-- A frame ends without a value. -/
  | abandoned
  deriving DecidableEq

/-- Something that happens in a run. -/
structure Event where
  /-- What it is. -/
  action : Event.Action
  /-- How many frames are open.  The one that the event is about counts among them. -/
  level : Nat
  /-- The counter, as the run finds it. -/
  counter : Nat
  deriving DecidableEq

/-- How often something happens. -/
def Event.count (action : Event.Action) (events : List Event) : Nat :=
  events.countP fun event => decide (event.action = action)

theorem Event.count_append (action : Event.Action) (events more : List Event) :
    count action (events ++ more) = count action events + count action more :=
  List.countP_append ..

theorem Event.count_cons (action : Event.Action) (event : Event) (events : List Event) :
    count action (event :: events)
      = count action events + if event.action = action then 1 else 0 := by
  rw [count, List.countP_cons]
  simp [count]

/-- A frame is entered that is one too many. -/
def Event.Refused (event : Event) : Prop :=
  event.action = .entered ∧ nestingLimit ≤ event.counter

/-- What happens at the end of a frame on this level whose body ended in this way. -/
def Closing.ending (closing : Closing) (level : Nat) :
    EStateM.Result Error Cursor α → List Event
  | .ok _ stop => [⟨.lowered, level, stop.depth⟩, ⟨.completed, level, stop.depth - 1⟩]
  | .error _ stop =>
    match closing with
    | .always => [⟨.lowered, level, stop.depth⟩, ⟨.abandoned, level, stop.depth - 1⟩]
    | .behindValue => [⟨.abandoned, level, stop.depth⟩]

/-- How a level ends whose body ended in this way. -/
def Closing.close (closing : Closing) :
    EStateM.Result Error Cursor α → EStateM.Result Error Cursor α
  | .ok value stop => .ok value { stop with depth := stop.depth - 1 }
  | .error error stop =>
    match closing with
    | .always => .error error { stop with depth := stop.depth - 1 }
    | .behindValue => .error error stop

/-- What happens when the reader is run inside so many open frames. -/
def Outline.trace {closing : Closing} {depth : Nat} {α : Type} {reader : Reader α} :
    Outline closing depth reader → (outer : Nat) → (start : Cursor) → List Event
  | .flat _, outer, start => [⟨.step, outer, start.depth⟩]
  | @Outline.bind _ _ _ _ reader _ first second, outer, start =>
    first.trace outer start ++
      match reader start with
      | .ok value middle => (second value).trace outer middle
      | .error _ _ => []
  | .look second, outer, start =>
    ⟨.step, outer, start.depth⟩ :: (second start.rest start.position).trace outer start
  | @Outline.level _ _ _ body _ inside, outer, start =>
    let raised := { start with depth := start.depth + 1 }
    ⟨.entered, outer + 1, raised.depth⟩ ::
      inside.trace (outer + 1) raised ++ closing.ending (outer + 1) (body raised)
  | .refused _, outer, start =>
    [⟨.entered, outer + 1, start.depth + 1⟩, ⟨.abandoned, outer + 1, start.depth + 1⟩]
  | .congr _ same, outer, start => same.trace outer start

/-! ### What the counter has to do with the frames -/

/-- The counter is right at an event of a run inside `outer` open frames.  Without any open frame it
    would be at `base`. -/
def Event.Counted (base outer : Nat) (event : Event) : Prop :=
  match event.action with
  -- The open frames are counted, and none that was open before.
  | .entered => outer < event.level ∧ event.counter = base + event.level
  -- In a frame no step is taken with the counter at the limit.
  | .step => outer ≤ event.level ∧ event.counter = base + event.level
    ∧ (outer < event.level → event.counter < nestingLimit)
  -- The frame itself has raised the counter, so it is not lowered to less than it was before.
  | .lowered => outer < event.level ∧ base + event.level ≤ event.counter
  | .completed | .abandoned => outer < event.level

/-- Where a run leaves a counter that was at `depth`, if it comes to no value. -/
def Closing.Leaves (closing : Closing) (depth : Nat) (events : List Event)
    (result : EStateM.Result Error Cursor α) : Prop :=
  match closing with
  -- As it was, but for a frame that was one too many.
  | .always => ∀ error stop, result = .error error stop →
    stop.depth = depth ∧ (∀ limit, error ≠ .recursionLimit limit)
      ∨ stop.depth = depth + 1 ∧ error = .recursionLimit nestingLimit
        ∧ ∃ event ∈ events, event.Refused
  -- Raised by the frames that were entered and came to no value.
  | .behindValue => (stopOf result).depth = depth + Event.count .abandoned events

/-- What the counter has to do with the frames of a run. -/
structure Tally (closing : Closing) (base outer : Nat) (events : List Event)
    (result : EStateM.Result Error Cursor α) : Prop where
  /-- Behind a value the counter is as it was. -/
  depth_of_ok : ∀ value stop, result = .ok value stop → stop.depth = base + outer
  /-- Without a value it is left where the closing of levels leaves it. -/
  leaves : closing.Leaves (base + outer) events result
  /-- It is right all the time. -/
  counted : ∀ event ∈ events, event.Counted base outer
  /-- At the end it is as often raised and lowered as the events say. -/
  depth_add_eq : (stopOf result).depth + Event.count .lowered events
    = base + outer + Event.count .entered events
  /-- Every frame that is entered ends. -/
  entered_eq : Event.count .entered events
    = Event.count .completed events + Event.count .abandoned events
  /-- Behind a frame that is one too many nothing more is read. -/
  of_refused : ∀ event ∈ events, event.Refused →
    ∃ stop, result = .error (.recursionLimit nestingLimit) stop

section

variable {base outer : Nat} {events more : List Event} {start : Cursor}
  {result : EStateM.Result Error Cursor α}

/-- What is right inside one more frame that could be opened is right around it. -/
theorem Event.Counted.outwards {event : Event} (h : event.Counted base (outer + 1))
    (fits : base + outer + 1 < nestingLimit) : event.Counted base outer := by
  obtain ⟨action, level, counter⟩ := event
  cases action with
  | entered => exact ⟨Nat.lt_of_succ_lt h.1, h.2⟩
  | step =>
    obtain ⟨hle, heq, hlt⟩ := h
    refine ⟨Nat.le_of_succ_le hle, heq, fun _ => ?_⟩
    obtain hsame | hinside := Nat.eq_or_lt_of_le hle
    · rw [heq, ← hsame]
      exact fits
    · exact hlt hinside
  | lowered => exact ⟨Nat.lt_of_succ_lt h.1, h.2⟩
  | completed => exact Nat.lt_of_succ_lt h
  | abandoned => exact Nat.lt_of_succ_lt h

/-- A run does not close more levels than it opens. -/
theorem Tally.le_depth (h : Tally closing base outer events result) :
    base + outer ≤ (stopOf result).depth := by
  cases closing with
  | always =>
    cases result with
    | ok value stop => exact (h.depth_of_ok value stop rfl).ge
    | error error stop =>
      obtain ⟨hdepth, -⟩ | ⟨hdepth, -⟩ := h.leaves error stop rfl
      · exact hdepth.ge
      · exact hdepth ▸ Nat.le_add_right ..
  | behindValue =>
    have hdepth : (stopOf result).depth = base + outer + Event.count .abandoned events := h.leaves
    exact hdepth ▸ Nat.le_add_right ..

/-- A frame is one too many where so many are open, however many there were before. -/
theorem Tally.le_level_of_refused (h : Tally closing base outer events result) {event : Event}
    (hmem : event ∈ events) (hrefused : event.Refused) : nestingLimit ≤ base + event.level := by
  obtain ⟨action, level, counter⟩ := event
  obtain ⟨rfl, hfull⟩ : action = .entered ∧ nestingLimit ≤ counter := hrefused
  obtain ⟨-, hcounter⟩ := h.counted _ hmem
  exact hfull.trans_eq hcounter

/-! ### Single steps -/

/-- A step that opens no level. -/
theorem tally_step {counter : Nat} (hcounter : counter = base + outer)
    (hdepth : (stopOf result).depth = counter)
    (unlimited : closing = .always → ∀ limit stop,
      result ≠ .error (.recursionLimit limit) stop) :
    Tally closing base outer [⟨.step, outer, counter⟩] result where
  depth_of_ok := by
    rintro value stop rfl
    exact hdepth.trans hcounter
  leaves := by
    have hback := hdepth.trans hcounter
    cases closing with
    | always =>
      rintro error stop rfl
      refine .inl ⟨hback, ?_⟩
      rintro limit rfl
      exact unlimited rfl _ _ rfl
    | behindValue => exact hback
  counted := List.forall_mem_singleton.mpr
    ⟨Nat.le_refl _, hcounter, fun hlt => absurd hlt (Nat.lt_irrefl _)⟩
  depth_add_eq := hdepth.trans hcounter
  entered_eq := rfl
  of_refused := List.forall_mem_singleton.mpr fun h => nomatch h.1

/-- A level that is one too many. -/
theorem tally_refused (hstart : start.depth = base + outer)
    (full : nestingLimit ≤ base + outer + 1) :
    Tally closing base outer
      [⟨.entered, outer + 1, start.depth + 1⟩, ⟨.abandoned, outer + 1, start.depth + 1⟩]
      ((tooDeep : Reader α) start) where
  depth_of_ok := by rintro value stop ⟨⟩
  leaves := by
    cases closing with
    | always =>
      rintro error stop ⟨⟩
      exact .inr ⟨congrArg (· + 1) hstart, rfl, _, List.mem_cons_self .., rfl, hstart ▸ full⟩
    | behindValue => exact congrArg (· + 1) hstart
  counted := List.forall_mem_cons.mpr ⟨⟨Nat.lt_succ_self _, congrArg (· + 1) hstart⟩,
    List.forall_mem_singleton.mpr (Nat.lt_succ_self _)⟩
  depth_add_eq := congrArg (· + 1) hstart
  entered_eq := rfl
  of_refused _ _ _ := ⟨_, rfl⟩

/-! ### One step after another -/

/-- A failure is the same whatever value there could have been. -/
theorem Tally.of_error {error : Error} {stop : Cursor}
    (h : Tally closing base outer events (.error error stop : EStateM.Result Error Cursor α)) :
    Tally closing base outer events (.error error stop : EStateM.Result Error Cursor β) where
  depth_of_ok := by rintro value stop ⟨⟩
  leaves := by
    cases closing with
    | always =>
      rintro _ _ ⟨⟩
      exact h.leaves error stop rfl
    | behindValue => exact h.leaves
  counted := h.counted
  depth_add_eq := h.depth_add_eq
  entered_eq := h.entered_eq
  of_refused event hmem hrefused := by
    obtain ⟨_, ⟨⟩⟩ := h.of_refused event hmem hrefused
    exact ⟨_, rfl⟩

/-- What happens behind a value comes on top. -/
theorem Tally.append {value : α} {middle : Cursor} {result : EStateM.Result Error Cursor β}
    (first : Tally closing base outer events (.ok value middle))
    (second : Tally closing base outer more result) :
    Tally closing base outer (events ++ more) result where
  depth_of_ok := second.depth_of_ok
  leaves := by
    cases closing with
    | always =>
      intro error stop hresult
      obtain hsame | ⟨hdepth, herror, event, hmem, hrefused⟩ := second.leaves error stop hresult
      · exact .inl hsame
      · exact .inr ⟨hdepth, herror, event, List.mem_append_right _ hmem, hrefused⟩
    | behindValue =>
      -- Behind a value no frame is left that came to none.
      have hmiddle := first.depth_of_ok value middle rfl
      have hfirst : middle.depth = base + outer + Event.count .abandoned events := first.leaves
      have hsecond : (stopOf result).depth = base + outer + Event.count .abandoned more :=
        second.leaves
      show (stopOf result).depth = _
      rw [Event.count_append]
      omega
  counted := List.forall_mem_append.mpr ⟨first.counted, second.counted⟩
  depth_add_eq := by
    have hmiddle := first.depth_of_ok value middle rfl
    have hfirst : middle.depth + Event.count .lowered events
      = base + outer + Event.count .entered events := first.depth_add_eq
    have hsecond := second.depth_add_eq
    rw [Event.count_append, Event.count_append]
    omega
  entered_eq := by
    have hfirst := first.entered_eq
    have hsecond := second.entered_eq
    simp only [Event.count_append]
    omega
  of_refused := by
    refine List.forall_mem_append.mpr ⟨fun event hmem hrefused => ?_, second.of_refused⟩
    obtain ⟨_, ⟨⟩⟩ := first.of_refused event hmem hrefused

theorem Tally.bind {next : α → Reader β} {later : α → Cursor → List Event}
    (first : Tally closing base outer events (reader start))
    (second : ∀ value middle, middle.depth = base + outer →
      Tally closing base outer (later value middle) (next value middle)) :
    Tally closing base outer
      (events ++ match reader start with
        | .ok value middle => later value middle
        | .error _ _ => [])
      ((reader >>= next) start) := by
  rw [bind_apply]
  cases hread : reader start with
  | ok value middle =>
    rw [hread] at first
    exact first.append (second value middle (first.depth_of_ok value middle rfl))
  | error error middle =>
    rw [hread] at first
    exact (List.append_nil events).symm ▸ first.of_error

/-! ### A level around a body -/

theorem Closing.around_apply (closing : Closing) (body : Reader α) (start : Cursor) :
    closing.around body start
      = closing.close (body { start with depth := start.depth + 1 }) := by
  cases closing with
  | always =>
    rw [around, nested_apply]
    cases body { start with depth := start.depth + 1 } <;> rfl
  | behindValue =>
    rw [around, framed_apply]
    cases body { start with depth := start.depth + 1 } <;> rfl

theorem Closing.of_mem_ending {level : Nat} {event : Event}
    (h : event ∈ closing.ending level result) :
    event.level = level ∧ (event.action = .lowered ∧ event.counter = (stopOf result).depth
      ∨ event.action = .completed ∨ event.action = .abandoned) := by
  cases result with
  | ok value stop =>
    obtain rfl | hmem := List.mem_cons.mp h
    · exact ⟨rfl, .inl ⟨rfl, rfl⟩⟩
    · obtain rfl := List.mem_singleton.mp hmem
      exact ⟨rfl, .inr (.inl rfl)⟩
  | error error stop =>
    cases closing with
    | always =>
      obtain rfl | hmem := List.mem_cons.mp h
      · exact ⟨rfl, .inl ⟨rfl, rfl⟩⟩
      · obtain rfl := List.mem_singleton.mp hmem
        exact ⟨rfl, .inr (.inr rfl)⟩
    | behindValue =>
      obtain rfl := List.mem_singleton.mp h
      exact ⟨rfl, .inr (.inr rfl)⟩

/-- The counter is lowered from where the body has left it. -/
theorem Closing.counted_ending {level : Nat} (houter : outer < level)
    (hdepth : base + level ≤ (stopOf result).depth) :
    ∀ event ∈ closing.ending level result, event.Counted base outer := by
  intro event hmem
  obtain ⟨hlevel, hend⟩ := of_mem_ending hmem
  obtain ⟨action, level', counter⟩ := event
  obtain rfl : level' = level := hlevel
  obtain ⟨rfl, hcounter⟩ | rfl | rfl := hend
  · exact ⟨houter, hdepth.trans_eq hcounter.symm⟩
  · exact houter
  · exact houter

theorem Closing.not_refused_ending {level : Nat} :
    ∀ event ∈ closing.ending level result, ¬ event.Refused := by
  rintro event hmem ⟨haction, -⟩
  obtain ⟨-, ⟨hend, -⟩ | hend | hend⟩ := of_mem_ending hmem <;> cases haction.symm.trans hend

/-- The end of a frame is no entry, and it is the end of one frame. -/
theorem Closing.count_ending (closing : Closing) (level : Nat)
    (result : EStateM.Result Error Cursor α) :
    Event.count .entered (closing.ending level result) = 0
      ∧ Event.count .completed (closing.ending level result)
        + Event.count .abandoned (closing.ending level result) = 1 := by
  cases result with
  | ok value stop => exact ⟨rfl, rfl⟩
  | error error stop => cases closing <;> exact ⟨rfl, rfl⟩

/-- The end of a frame lowers the counter as often as it says. -/
theorem Closing.depth_close (closing : Closing) (level : Nat)
    {inner : EStateM.Result Error Cursor α} (h : 0 < (stopOf inner).depth) :
    (stopOf (closing.close inner)).depth + Event.count .lowered (closing.ending level inner)
      = (stopOf inner).depth := by
  cases inner with
  | ok value stop => exact Nat.sub_add_cancel h
  | error error stop =>
    cases closing with
    | always => exact Nat.sub_add_cancel h
    | behindValue => rfl

section

variable {inner : EStateM.Result Error Cursor α} {counter : Nat}
  (inside : Tally closing base (outer + 1) events inner)

include inside

theorem Tally.depth_of_close_eq_ok {value : α} {stop : Cursor}
    (h : closing.close inner = .ok value stop) : stop.depth = base + outer := by
  cases inner with
  | ok value' stop' =>
    cases h
    have hdepth := inside.depth_of_ok _ _ rfl
    show stop'.depth - 1 = _
    omega
  | error error stop' => cases closing <;> cases h

/-- A frame that ends without a value has counted itself, and takes this back only where levels are
    always closed. -/
theorem Tally.leaves_close :
    closing.Leaves (base + outer)
      (⟨.entered, outer + 1, counter⟩ :: events ++ closing.ending (outer + 1) inner)
      (closing.close inner) := by
  cases closing with
  | always =>
    intro error stop hresult
    cases inner with
    | ok value stop' => cases hresult
    | error error' stop' =>
      cases hresult
      obtain ⟨hdepth, hother⟩ | ⟨hdepth, hlimit, event, hmem, hrefused⟩ :=
        inside.leaves _ _ rfl
      · refine .inl ⟨?_, hother⟩
        show stop'.depth - 1 = _
        omega
      · refine .inr ⟨?_, hlimit, event, ?_, hrefused⟩
        · show stop'.depth - 1 = _
          omega
        · exact List.mem_append_left _ (List.mem_cons_of_mem _ hmem)
  | behindValue =>
    show (stopOf _).depth = _
    rw [Event.count_append, Event.count_cons]
    cases inner with
    | ok value stop =>
      have hback := inside.depth_of_ok _ _ rfl
      have hinner : stop.depth = base + (outer + 1) + Event.count .abandoned events :=
        inside.leaves
      show stop.depth - 1 = base + outer + (Event.count .abandoned events + 0 + 0)
      omega
    | error error stop =>
      have hinner : stop.depth = base + (outer + 1) + Event.count .abandoned events :=
        inside.leaves
      show stop.depth = base + outer + (Event.count .abandoned events + 0 + 1)
      omega

theorem Tally.nest (hcounter : counter = base + outer + 1)
    (fits : base + outer + 1 < nestingLimit) :
    Tally closing base outer
      (⟨.entered, outer + 1, counter⟩ :: events ++ closing.ending (outer + 1) inner)
      (closing.close inner) where
  depth_of_ok _ _ := inside.depth_of_close_eq_ok
  leaves := inside.leaves_close
  counted := List.forall_mem_append.mpr
    ⟨List.forall_mem_cons.mpr ⟨⟨Nat.lt_succ_self _, hcounter⟩,
      fun event hmem => (inside.counted event hmem).outwards fits⟩,
    Closing.counted_ending (Nat.lt_succ_self _) inside.le_depth⟩
  depth_add_eq := by
    have hle := inside.le_depth
    have hinside := inside.depth_add_eq
    have hend := closing.depth_close (outer + 1) (Nat.lt_of_lt_of_le (Nat.succ_pos _) hle)
    obtain ⟨hnone, -⟩ := closing.count_ending (outer + 1) inner
    simp only [Event.count_append, Event.count_cons, hnone, reduceCtorEq, if_true, if_false]
    omega
  entered_eq := by
    have hinside := inside.entered_eq
    obtain ⟨hnone, hone⟩ := closing.count_ending (outer + 1) inner
    simp only [Event.count_append, Event.count_cons, hnone, reduceCtorEq, if_true, if_false]
    omega
  of_refused := by
    -- The frame itself could be opened, so it is one inside it that was one too many.
    have hentered : ¬ Event.Refused ⟨.entered, outer + 1, counter⟩ := by
      rintro ⟨-, hfull⟩
      exact absurd fits (Nat.not_lt.mpr (hcounter ▸ hfull))
    refine List.forall_mem_append.mpr ⟨List.forall_mem_cons.mpr
      ⟨fun hrefused => absurd hrefused hentered, fun event hmem hrefused => ?_⟩,
      fun event hmem hrefused => absurd hrefused (Closing.not_refused_ending event hmem)⟩
    obtain ⟨stop, rfl⟩ := inside.of_refused event hmem hrefused
    cases closing <;> exact ⟨_, rfl⟩

end

/-- **The counter counts the open frames,** whatever the reader is and whatever it reads.  The
    induction is on the outline, with one lemma for each of the ways to put a reader together. -/
theorem Outline.tally {depth : Nat} (outline : Outline closing depth reader)
    (hdepth : depth = base + outer) (hstart : start.depth = depth) :
    Tally closing base outer (outline.trace outer start) (reader start) := by
  induction outline generalizing outer start with
  | flat h =>
    exact tally_step (hstart.trans hdepth) (h.depth_eq start)
      fun hclosing _ _ hread => h.unlimited hclosing hread
  | bind first second ih ih' =>
    rw [trace]
    exact (ih hdepth hstart).bind fun value middle hmiddle =>
      ih' value hdepth (hmiddle.trans hdepth.symm)
  | look second ih =>
    -- The look itself is a step, and what depends on it begins at the same place.
    obtain rfl := hstart
    have hget : Tally closing base outer [⟨.step, outer, start.depth⟩] (.ok () start) :=
      tally_step hdepth rfl nofun
    exact hget.append (ih start.rest start.position hdepth rfl)
  | level fits inside ih =>
    -- The body begins with one more frame open and with the counter raised by one.
    have hdeeper : _ + 1 = base + (outer + 1) := congrArg (· + 1) hdepth
    have hcounter := (congrArg (· + 1) hstart).trans hdeeper
    rw [trace, closing.around_apply]
    exact (ih hdeeper (congrArg (· + 1) hstart)).nest hcounter (hdepth ▸ fits)
  | refused full => exact tally_refused (hstart.trans hdepth) (hdepth ▸ full)
  | congr h same ih =>
    subst h
    exact ih hdepth hstart

end

/-! ### One call after another -/

/-- What can be asked for, how it is read, and where the levels are in this. -/
structure Interface (closing : Closing) (γ ρ : Type) where
  /-- Reads what is asked for. -/
  read : γ → Reader ρ
  /-- The levels, from a place with any counter. -/
  outline : (call : γ) → (depth : Nat) → Outline closing depth (read call)

/-- The reader fails because it would nest too deeply. -/
def hitsLimit : EStateM.Result Error Cursor α → Bool
  | .error (.recursionLimit _) _ => true
  | _ => false

/-- Where levels are always closed, only a frame that was one too many is left open. -/
theorem Tally.depth_of_always {base outer : Nat} {events : List Event}
    {result : EStateM.Result Error Cursor α} (h : Tally .always base outer events result) :
    (stopOf result).depth = base + outer + if hitsLimit result then 1 else 0 := by
  cases result with
  | ok value stop => exact h.depth_of_ok value stop rfl
  | error error stop =>
    obtain ⟨hdepth, hother⟩ | ⟨hdepth, rfl, -⟩ := h.leaves error stop rfl
    · have hnot : ¬ hitsLimit (.error error stop : EStateM.Result Error Cursor α) = true := by
        cases error with
        | recursionLimit limit => exact absurd rfl (hother limit)
        | _ => exact Bool.false_ne_true
      rw [if_neg hnot]
      exact hdepth
    · exact hdepth

namespace Interface

variable {ρ : Type}

section

variable (interface : Interface closing γ ρ)

/-- What happens to frames and to the counter while a call is answered. -/
def events (start : Cursor) (call : γ) : List Event :=
  (interface.outline call start.depth).trace 0 start

/-- How calls end one after the other.  Behind a failure the next one goes on where it stopped. -/
def results (start : Cursor) : List γ → List (EStateM.Result Error Cursor ρ)
  | [] => []
  | call :: later =>
    interface.read call start :: results (stopOf (interface.read call start)) later

/-- What happens in all of the calls. -/
def allEvents (start : Cursor) : List γ → List Event
  | [] => []
  | call :: later =>
    interface.events start call ++ allEvents (stopOf (interface.read call start)) later

/-- The place behind all of the calls. -/
def after (start : Cursor) : List γ → Cursor
  | [] => start
  | call :: later => after (stopOf (interface.read call start)) later

theorem tally (start : Cursor) (call : γ) :
    Tally closing start.depth 0 (interface.events start call) (interface.read call start) :=
  (interface.outline call start.depth).tally rfl rfl

end

/-- Where levels are always closed, the counter is raised by the calls that nest too deeply. -/
theorem depth_after_always (interface : Interface .always γ ρ) (start : Cursor) (calls : List γ) :
    (interface.after start calls).depth
      = start.depth + (interface.results start calls).countP hitsLimit := by
  induction calls generalizing start with
  | nil => rfl
  | cons call later ih =>
    have hcall := (interface.tally start call).depth_of_always
    have hlater := ih (stopOf (interface.read call start))
    rw [after, results, List.countP_cons]
    omega

/-- Where levels are closed behind values, it is raised by the frames that came to none. -/
theorem depth_after_behindValue (interface : Interface .behindValue γ ρ) (start : Cursor)
    (calls : List γ) :
    (interface.after start calls).depth
      = start.depth + Event.count .abandoned (interface.allEvents start calls) := by
  induction calls generalizing start with
  | nil => rfl
  | cons call later ih =>
    have hcall : (stopOf (interface.read call start)).depth
      = start.depth + Event.count .abandoned (interface.events start call) :=
      (interface.tally start call).leaves
    have hlater := ih (stopOf (interface.read call start))
    rw [after, allEvents, Event.count_append]
    omega

end Interface

end ClassAtlas.Reader
