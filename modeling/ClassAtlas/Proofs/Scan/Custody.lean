import ClassAtlas.Proofs.Scan.Bookkeeping
import ClassAtlas.Scan.Scanner

namespace ClassAtlas

/-!
# Who holds which instance

Several recyclers are in use at a time, and their handles go from hand to hand: they are copied,
and given back to one recycler or another.  What happens is noted event by event.

* `Custody`, `Custody.run` — recyclers and the handles they gave out, and the events of a run;
* `holder?` — who holds an instance, as the events tell;
* `Lawful` — what the events of a run obey: an instance is handed out only if nobody holds it, and
  taken back if somebody does, no matter from whom;
* `ReleasedOnce`, `ReleasedBeforeReuse` — no acquisition ends twice, and no instance is handed out
  again before its acquisition ended;
* `Custody.releasedOnce_run_iff` — so it is exactly if only holders give instances back;
* `Custody.not_releasedOnce_run` — a copy of a handle that was given back ends the acquisition of
  somebody else.
-/

/-! ### Runs -/

/-- A handle in somebody's hands, and the acquisition that it comes from. -/
structure Holding where
  /-- The number of the acquisition. -/
  acquisition : Nat
  handle : Handle

/-- Recyclers, and the handles that they gave out. -/
structure Custody (τ : Type) where
  recyclers : List (Recycler τ)
  /-- The handles that exist, copies included. -/
  holdings : List Holding
  /-- How many acquisitions there were. -/
  acquisitions : Nat

/-- What can be done with recyclers and handles, each given by its place. -/
inductive Action where
  /-- To acquire an instance. -/
  | acquire (recycler : Nat)
  /-- To copy a handle. -/
  | clone (holding : Nat)
  /-- To give a handle back, whose holder does not have it any more, to some recycler. -/
  | release (recycler holding : Nat)
  /-- To close a recycler. -/
  | forceClose (recycler : Nat)

/-- What happens to instances. -/
inductive Event where
  /-- One is handed out. -/
  | acquired (holding : Holding)
  /-- One is given back, or not. -/
  | released (recycler : Nat) (holding : Holding) (outcome : Except Error Unit)
  /-- A recycler is closed. -/
  | closed (recycler : Nat)

namespace Custody

variable {τ : Type}

/-- Recyclers that make their instances in some ways, before anything is done. -/
def new (makes : List (Nat → Except Error τ)) : Custody τ :=
  ⟨makes.mapIdx Recycler.new, [], 0⟩

/-- The recycler at a place becomes another one. -/
def setRecycler (custody : Custody τ) (place : Nat) (next : Recycler τ) : Custody τ :=
  { custody with recyclers := custody.recyclers.set place next }

/-- One more handle is in somebody's hands. -/
def hold (custody : Custody τ) (holding : Holding) : Custody τ :=
  { custody with holdings := custody.holdings ++ [holding] }

variable [Recyclable τ]

/-- What comes of an action, and what happens.  Nothing comes of it if there is no such recycler or
    handle. -/
def act (custody : Custody τ) : Action → Custody τ × Option Event
  | .acquire place =>
    match custody.recyclers[place]? with
    | none => (custody, none)
    | some recycler =>
      match recycler.acquire with
      | (next, .error _) => (custody.setRecycler place next, none)
      | (next, .ok handle) =>
        let holding : Holding := ⟨custody.acquisitions, handle⟩
        ({ (custody.setRecycler place next).hold holding with
            acquisitions := custody.acquisitions + 1 }, some (.acquired holding))
  | .clone place =>
    match custody.holdings[place]? with
    | none => (custody, none)
    | some holding => (custody.hold holding, none)
  | .release place held =>
    match custody.recyclers[place]?, custody.holdings[held]? with
    | some recycler, some holding =>
      let (next, outcome) := recycler.release holding.handle
      ({ custody.setRecycler place next with holdings := custody.holdings.eraseIdx held },
        some (.released place holding outcome))
    | _, _ => (custody, none)
  | .forceClose place =>
    match custody.recyclers[place]? with
    | none => (custody, none)
    | some recycler => (custody.setRecycler place recycler.forceClose.1, some (.closed place))

/-- What comes of actions one after the other, and what happens meanwhile. -/
def run (custody : Custody τ) : List Action → Custody τ × List Event
  | [] => (custody, [])
  | action :: later =>
    let (next, event) := custody.act action
    let (last, events) := next.run later
    (last, event.toList ++ events)

end Custody

/-! ### What the events tell -/

/-- Who holds an instance after an event, by the number of the acquisition. -/
def Event.holderAfter (handle : Handle) (holder : Option Nat) : Event → Option Nat
  | .acquired holding => if holding.handle = handle then some holding.acquisition else holder
  | .released _ holding (.ok ()) => if holding.handle = handle then none else holder
  | _ => holder

/-- Who holds an instance, if somebody does. -/
def holder? (handle : Handle) (events : List Event) : Option Nat :=
  events.foldl (Event.holderAfter handle) none

/-- An instance is handed out. -/
def Event.isAcquisition : Event → Bool
  | .acquired _ => true
  | _ => false

/-- An instance is taken back from an acquisition. -/
def Event.isReturnFrom (acquisition : Nat) : Event → Bool
  | .released _ holding (.ok ()) => holding.acquisition = acquisition
  | _ => false

/-- How many instances were handed out. -/
def acquisitionsIn (events : List Event) : Nat := events.countP (·.isAcquisition)

/-- How often an instance was taken back from an acquisition. -/
def returnsFrom (acquisition : Nat) (events : List Event) : Nat :=
  events.countP (·.isReturnFrom acquisition)

/-- What can happen next. -/
def Allowed (before : List Event) : Event → Prop
  | .acquired holding =>
    holder? holding.handle before = none
      ∧ holding.acquisition = acquisitionsIn before
  | .released place holding outcome =>
    .acquired holding ∈ before
      ∧ (outcome = .ok () ↔ holding.handle.owner = place ∧ .closed place ∉ before
        ∧ (holder? holding.handle before).isSome)
      ∧ ∀ error, outcome = .error error → ∃ cause, error = .misused cause
  | .closed _ => True

/-- Everything that happens can happen then: an instance is handed out only if nobody holds it.  It
    is taken back if it is given to its own open recycler and somebody holds it, and otherwise this
    is refused as a misuse. -/
def Lawful (events : List Event) : Prop :=
  ∀ before event after, events = before ++ event :: after → Allowed before event

/-- From no acquisition the instance is taken back twice. -/
def ReleasedOnce (events : List Event) : Prop :=
  ∀ acquisition, returnsFrom acquisition events ≤ 1

/-- No instance is handed out again before it was taken back from all earlier acquisitions. -/
def ReleasedBeforeReuse (events : List Event) : Prop :=
  ∀ before second after, events = before ++ .acquired second :: after →
    ∀ first, .acquired first ∈ before → first.handle = second.handle →
      ∃ place, .released place first (.ok ()) ∈ before

/-- An instance is taken back only from the acquisition that holds it. -/
def ByHolders (events : List Event) : Prop :=
  ∀ before place holding after, events = before ++ .released place holding (.ok ()) :: after →
    holder? holding.handle before = some holding.acquisition

/-! ### One event more -/

variable {events : List Event}

/-- What holds at every event, with what happened before it, after one event more. -/
theorem forall_split_concat {P : List Event → Event → Prop} (events : List Event) (last : Event) :
    (∀ before event after, events ++ [last] = before ++ event :: after → P before event)
      ↔ (∀ before event after, events = before ++ event :: after → P before event)
        ∧ P events last := by
  constructor
  · intro h
    refine ⟨fun before event after hsplit => h before event (after ++ [last]) ?_,
      h events last [] rfl⟩
    rw [hsplit, List.append_assoc, List.cons_append]
  · rintro ⟨hbefore, hlast⟩ before event after hsplit
    rcases List.eq_nil_or_concat after with rfl | ⟨middle, final, rfl⟩
    · obtain ⟨rfl, hevent⟩ := List.append_inj' hsplit rfl
      obtain rfl : last = event := by simpa using hevent
      exact hlast
    · -- The event was there before, and the last one is behind it.
      have hassoc : events ++ [last] = (before ++ event :: middle) ++ [final] := by
        simpa using hsplit
      exact hbefore before event middle (List.append_inj' hassoc rfl).1

theorem lawful_concat (last : Event) :
    Lawful (events ++ [last]) ↔ Lawful events ∧ Allowed events last :=
  forall_split_concat events last

theorem byHolders_concat (last : Event) :
    ByHolders (events ++ [last]) ↔ ByHolders events
      ∧ ∀ place holding, last = .released place holding (.ok ()) →
        holder? holding.handle events = some holding.acquisition := by
  have hsplit := forall_split_concat (P := fun before event => ∀ place holding,
    event = .released place holding (.ok ()) →
      holder? holding.handle before = some holding.acquisition) events last
  have hall : ∀ events, ByHolders events ↔ ∀ before event after,
      events = before ++ event :: after → ∀ place holding,
        event = .released place holding (.ok ()) →
          holder? holding.handle before = some holding.acquisition := by
    intro events
    constructor
    · rintro h before _ after hevents place holding rfl
      exact h before place holding after hevents
    · intro h before place holding after hevents
      exact h before _ after hevents place holding rfl
  rw [hall, hsplit, ← hall]

theorem holder?_concat (handle : Handle) (events : List Event) (last : Event) :
    holder? handle (events ++ [last]) = last.holderAfter handle (holder? handle events) := by
  simp [holder?, List.foldl_append]

theorem returnsFrom_concat (acquisition : Nat) (events : List Event) (last : Event) :
    returnsFrom acquisition (events ++ [last])
      = returnsFrom acquisition events + if last.isReturnFrom acquisition then 1 else 0 := by
  simp [returnsFrom, List.countP_append, List.countP_singleton]

theorem acquisitionsIn_concat (events : List Event) (last : Event) :
    acquisitionsIn (events ++ [last])
      = acquisitionsIn events + if last.isAcquisition then 1 else 0 := by
  simp [acquisitionsIn, List.countP_append, List.countP_singleton]

/-! ### Lawful events -/

/-- An acquisition that is given back was made. -/
theorem Lawful.acquired_mem (h : Lawful events) {place : Nat} {holding : Holding}
    {outcome : Except Error Unit} (hmem : .released place holding outcome ∈ events) :
    .acquired holding ∈ events := by
  obtain ⟨before, after, rfl⟩ := List.append_of_mem hmem
  have hallowed : Allowed before (.released place holding outcome) := h before _ after rfl
  exact List.mem_append_left _ hallowed.1

/-- The acquisitions have numbers below their count. -/
theorem Lawful.acquisition_lt (h : Lawful events) {holding : Holding}
    (hmem : .acquired holding ∈ events) :
    holding.acquisition < acquisitionsIn events := by
  obtain ⟨before, after, rfl⟩ := List.append_of_mem hmem
  have hallowed : Allowed before (.acquired holding) := h before _ after rfl
  rw [hallowed.2, acquisitionsIn, acquisitionsIn, List.countP_append, List.countP_cons_of_pos rfl]
  omega

/-- So their numbers tell them apart. -/
theorem Lawful.eq_of_acquisition_eq (h : Lawful events) {holding other : Holding}
    (hmem : .acquired holding ∈ events) (hother : .acquired other ∈ events)
    (heq : holding.acquisition = other.acquisition) : holding = other := by
  induction events using List.reverseRecOn with
  | nil => cases hmem
  | append_singleton events last ih =>
    obtain ⟨hlawful, hlast⟩ := (lawful_concat last).mp h
    rw [List.mem_append, List.mem_singleton] at hmem hother
    -- The last one has a number that none before has.
    rcases hmem with hmem | rfl <;> rcases hother with hother | hother
    · exact ih hlawful hmem hother
    · subst hother
      have hlt := hlawful.acquisition_lt hmem
      have hnew := hlast.2
      omega
    · have hlt := hlawful.acquisition_lt hother
      have hnew := hlast.2
      omega
    · exact (Event.acquired.inj hother).symm

/-- From what was not acquired, nothing is taken back. -/
theorem Lawful.returnsFrom_eq_zero (h : Lawful events) {acquisition : Nat}
    (hle : acquisitionsIn events ≤ acquisition) :
    returnsFrom acquisition events = 0 := by
  rw [returnsFrom, List.countP_eq_zero]
  intro event hevent hreturn
  cases event with
  | released place holding outcome =>
    have hlt := h.acquisition_lt (h.acquired_mem hevent)
    cases outcome with
    | error error => cases hreturn
    | ok value =>
      have hsame : holding.acquisition = acquisition := by simpa [Event.isReturnFrom] using hreturn
      omega
  | acquired holding => cases hreturn
  | closed place => cases hreturn

/-- If only holders give instances back, then every acquisition either holds its instance, or the
    instance was taken back from it, once. -/
theorem Lawful.returnsFrom_eq (h : Lawful events) (hholders : ByHolders events)
    {holding : Holding} (hmem : .acquired holding ∈ events) :
    returnsFrom holding.acquisition events
      = if holder? holding.handle events = some holding.acquisition then 0 else 1 := by
  induction events using List.reverseRecOn with
  | nil => cases hmem
  | append_singleton events last ih =>
    obtain ⟨hlawful, hlast⟩ := (lawful_concat last).mp h
    obtain ⟨hbefore, hholder⟩ := (byHolders_concat last).mp hholders
    rw [List.mem_append, List.mem_singleton] at hmem
    rw [returnsFrom_concat, holder?_concat]
    cases last with
    | closed place =>
      exact ih hlawful hbefore (by simpa using hmem)
    | acquired newer =>
      obtain ⟨hfree, hnumber⟩ := hlast
      rcases hmem with hmem | hmem
      · -- Nobody held the instance, so the older acquisition does not hold it either way.
        have hold := ih hlawful hbefore hmem
        have hlt := hlawful.acquisition_lt hmem
        by_cases hhandle : newer.handle = holding.handle
        · have hne : newer.acquisition ≠ holding.acquisition := by omega
          rw [hhandle] at hfree
          simp [Event.isReturnFrom, Event.holderAfter, hhandle, hne, hold, hfree]
        · simp [Event.isReturnFrom, Event.holderAfter, hhandle, hold]
      · obtain rfl : newer = holding := (Event.acquired.inj hmem).symm
        have hzero := hlawful.returnsFrom_eq_zero hnumber.ge
        simp [Event.isReturnFrom, Event.holderAfter, hzero]
    | released place given outcome =>
      replace hmem : .acquired holding ∈ events := by simpa using hmem
      have hold := ih hlawful hbefore hmem
      cases outcome with
      | error error => exact hold
      | ok value =>
        -- The holder gives the instance back: it is the acquisition asked about, or another one of
        -- the same instance, or one of another instance.
        have hgiven := hholder place given rfl
        by_cases hhandle : given.handle = holding.handle
        · rw [hhandle] at hgiven
          by_cases hsame : given.acquisition = holding.acquisition
          · simp [Event.isReturnFrom, Event.holderAfter, hhandle, hsame, hold, hgiven]
          · simp [Event.isReturnFrom, Event.holderAfter, hhandle, hsame, hold, hgiven]
        · have hne : given.acquisition ≠ holding.acquisition := by
            intro hsame
            exact hhandle (congrArg Holding.handle
              (hlawful.eq_of_acquisition_eq hlast.1 hmem hsame))
          simp [Event.isReturnFrom, Event.holderAfter, hhandle, hne, hold]

/-- What is taken back is taken back from somebody. -/
theorem exists_released_of_returnsFrom_pos {acquisition : Nat}
    (hpos : 0 < returnsFrom acquisition events) :
    ∃ place holding, .released place holding (.ok ()) ∈ events
      ∧ holding.acquisition = acquisition := by
  obtain ⟨event, hevent, hreturn⟩ := List.countP_pos_iff.mp hpos
  cases event with
  | released place holding outcome =>
    cases outcome with
    | error error => cases hreturn
    | ok value => exact ⟨place, holding, hevent, by simpa [Event.isReturnFrom] using hreturn⟩
  | acquired holding => cases hreturn
  | closed place => cases hreturn

/-- No acquisition ends twice exactly if only holders give instances back. -/
theorem Lawful.releasedOnce_iff (h : Lawful events) : ReleasedOnce events ↔ ByHolders events := by
  constructor
  · -- Who is the first to give back what another one holds gave it back before.
    intro honce
    induction events using List.reverseRecOn with
    | nil =>
      intro before place holding after hsplit
      simp at hsplit
    | append_singleton events last ih =>
      obtain ⟨hlawful, hlast⟩ := (lawful_concat last).mp h
      have hbefore : ByHolders events := by
        refine ih hlawful fun acquisition => ?_
        have hle := honce acquisition
        rw [returnsFrom_concat] at hle
        omega
      refine (byHolders_concat last).mpr ⟨hbefore, ?_⟩
      rintro place holding rfl
      by_contra hother
      have hcount := hlawful.returnsFrom_eq hbefore hlast.1
      have hle := honce holding.acquisition
      rw [returnsFrom_concat, hcount, if_neg hother] at hle
      simp [Event.isReturnFrom] at hle
  · intro hholders acquisition
    by_contra hmore
    have hpos : 0 < returnsFrom acquisition events := by omega
    obtain ⟨place, holding, hmem, rfl⟩ := exists_released_of_returnsFrom_pos hpos
    have hcount := h.returnsFrom_eq hholders (h.acquired_mem hmem)
    split at hcount <;> omega

/-- Then no instance is handed out again before it was taken back from all earlier
    acquisitions. -/
theorem Lawful.releasedBeforeReuse (h : Lawful events) (hholders : ByHolders events) :
    ReleasedBeforeReuse events := by
  intro before second after hsplit first hfirst hhandle
  have hallowed : Allowed before (.acquired second) := h before _ after hsplit
  have hbefore : Lawful before := fun earlier event later heq =>
    h earlier event (later ++ .acquired second :: after) (by simp [hsplit, heq])
  have hbyHolders : ByHolders before := fun earlier place holding later heq =>
    hholders earlier place holding (later ++ .acquired second :: after) (by simp [hsplit, heq])
  -- Nobody holds the instance, so it was taken back from this acquisition as well.
  have hcount := hbefore.returnsFrom_eq hbyHolders hfirst
  rw [hhandle, hallowed.1, if_neg (by simp)] at hcount
  have hpos : 0 < returnsFrom first.acquisition before := by omega
  obtain ⟨place, holding, hmem, hsame⟩ := exists_released_of_returnsFrom_pos hpos
  obtain rfl := hbefore.eq_of_acquisition_eq (hbefore.acquired_mem hmem) hfirst hsame
  exact ⟨place, hmem⟩

/-! ### Runs are lawful -/

/-- What the recycler at a place has to do with what happened: it is closed if that happened, and
    as long as it is open, those of its instances are handed out that somebody holds. -/
structure Recycler.Agrees {τ : Type} (recycler : Recycler τ) (place : Nat) (events : List Event) :
    Prop where
  identity_eq : recycler.identity = place
  balanced : recycler.Balanced
  closed_iff : recycler.closed = true ↔ .closed place ∈ events
  mem_checkedOut_iff : recycler.closed = false → ∀ id,
    id ∈ recycler.checkedOut ↔ (holder? ⟨place, id⟩ events).isSome

/-- The place of the recycler that something happens at. -/
def Event.place : Event → Nat
  | .acquired holding => holding.handle.owner
  | .released _ holding (.ok ()) => holding.handle.owner
  | .released place _ (.error _) => place
  | .closed place => place

/-- The instances of other recyclers keep their holders. -/
theorem Event.holderAfter_of_ne {event : Event} {handle : Handle}
    (hplace : event.place ≠ handle.owner)
    (holder : Option Nat) : event.holderAfter handle holder = holder := by
  cases event with
  | acquired holding =>
    exact if_neg fun hsame => hplace (congrArg Handle.owner hsame)
  | released place holding outcome =>
    cases outcome with
    | error error => rfl
    | ok value => exact if_neg fun hsame => hplace (congrArg Handle.owner hsame)
  | closed place => rfl

namespace Recycler

variable {τ : Type} {recycler : Recycler τ} {place : Nat}

/-- What happens to other recyclers does not matter. -/
theorem Agrees.concat_of_ne (h : recycler.Agrees place events) {event : Event}
    (hplace : event.place ≠ place) : recycler.Agrees place (events ++ [event]) where
  identity_eq := h.identity_eq
  balanced := h.balanced
  closed_iff := by
    have hne : Event.closed place ≠ event := by
      rintro rfl
      exact hplace rfl
    simp [h.closed_iff, hne]
  mem_checkedOut_iff hopen id := by
    rw [h.mem_checkedOut_iff hopen id, holder?_concat, Event.holderAfter_of_ne hplace]

/-- A recycler that hands nothing out still agrees. -/
theorem Agrees.acquire_of_eq_error (h : recycler.Agrees place events) {error : Error}
    (houtcome : recycler.acquire.2 = .error error) : recycler.acquire.1.Agrees place events := by
  have hbalanced := h.balanced.acquire
  rw [acquire_fst_of_eq_error houtcome] at hbalanced ⊢
  exact ⟨h.identity_eq, hbalanced, h.closed_iff, h.mem_checkedOut_iff⟩

/-- What was not handed out and now is, nobody held before. -/
theorem Agrees.handOut (h : recycler.Agrees place events) {id : Nat}
    (hid : id ∉ recycler.checkedOut) (hopen : recycler.closed = false) {next : Recycler τ}
    (hbalanced : next.Balanced) (hidentity : next.identity = recycler.identity)
    (hstays : next.closed = false) (hout : next.checkedOut = id :: recycler.checkedOut)
    (acquisition : Nat) :
    holder? ⟨place, id⟩ events = none
      ∧ next.Agrees place (events ++ [.acquired ⟨acquisition, place, id⟩]) := by
  have hfree : holder? ⟨place, id⟩ events = none := by
    simpa using mt (h.mem_checkedOut_iff hopen id).mpr hid
  refine ⟨hfree, hidentity.trans h.identity_eq, hbalanced, ?_, ?_⟩
  · have hnot := h.closed_iff
    simp only [hopen] at hnot
    simpa [hstays] using hnot
  · intro _ other
    have hother := h.mem_checkedOut_iff hopen other
    rw [hout, List.mem_cons, holder?_concat, hother]
    by_cases hsame : other = id
    · simp [hsame, Event.holderAfter]
    · simp [hsame, Ne.symm hsame, Event.holderAfter]

/-- An instance is handed out only if nobody holds it, and is held afterwards. -/
theorem Agrees.acquire_of_eq_ok (h : recycler.Agrees place events) {handle : Handle}
    (houtcome : recycler.acquire.2 = .ok handle) (acquisition : Nat) :
    holder? handle events = none
      ∧ handle.owner = place
      ∧ recycler.acquire.1.Agrees place (events ++ [.acquired ⟨acquisition, handle⟩]) := by
  have hbalanced := h.balanced.acquire
  have hnodup := h.balanced.nodup
  obtain rfl := h.identity_eq
  have hstep := recycler.acquired
  generalize recycler.acquire = next at houtcome hbalanced hstep ⊢
  cases hstep with
  | afterClose hclosed => cases houtcome
  | unmade error hopen hnone hmake => cases houtcome
  | reused id hopen hid =>
    obtain rfl := Except.ok.inj houtcome
    have hout : id ∉ recycler.checkedOut := fun hmem =>
      (List.nodup_append.mp hnodup).2.2 id hmem id hid rfl
    obtain ⟨hfree, hagrees⟩ := h.handOut hout hopen hbalanced rfl hopen rfl acquisition
    exact ⟨hfree, rfl, hagrees⟩
  | made instance' hopen hnone hmake =>
    obtain rfl := Except.ok.inj houtcome
    have hout : recycler.created ∉ recycler.checkedOut := fun hmem =>
      Nat.lt_irrefl _ (h.balanced.lt_created (List.mem_append_left _ hmem))
    obtain ⟨hfree, hagrees⟩ := h.handOut hout hopen hbalanced rfl hopen rfl acquisition
    exact ⟨hfree, rfl, hagrees⟩

variable [Recyclable τ]

/-- An instance is taken back if somebody holds it, and is not held afterwards. -/
theorem Agrees.release (h : recycler.Agrees place events) (holding : Holding) :
    ((recycler.release holding.handle).2 = .ok () ↔ holding.handle.owner = place
        ∧ .closed place ∉ events ∧ (holder? holding.handle events).isSome)
      ∧ (∀ error, (recycler.release holding.handle).2 = .error error →
        ∃ cause, error = .misused cause)
      ∧ (recycler.release holding.handle).1.Agrees place
        (events ++ [.released place holding (recycler.release holding.handle).2]) := by
  obtain ⟨acquisition, owner, id⟩ := holding
  have hbalanced := h.balanced.release ⟨owner, id⟩
  obtain rfl := h.identity_eq
  have hstep := recycler.released ⟨owner, id⟩
  dsimp only at hstep ⊢
  generalize recycler.release ⟨owner, id⟩ = next at hbalanced hstep ⊢
  cases hstep with
  | takenBack howner hout =>
    obtain rfl : owner = recycler.identity := howner
    have hopen : recycler.closed = false := by
      by_contra hclosed
      simp [(h.balanced.lists_of_closed (by simpa using hclosed)).1] at hout
    have hnot : .closed recycler.identity ∉ events := by simp [← h.closed_iff, hopen]
    have hheld := (h.mem_checkedOut_iff hopen id).mp hout
    have hnodup := (List.nodup_append.mp h.balanced.nodup).1
    refine ⟨⟨fun _ => ⟨rfl, hnot, hheld⟩, fun _ => rfl⟩, ?_, rfl, hbalanced, ?_, ?_⟩
    · rintro error ⟨⟩
    · simpa [hopen, update] using hnot
    · intro _ other
      have hother := h.mem_checkedOut_iff hopen other
      rw [holder?_concat, hnodup.mem_erase_iff, hother]
      by_cases hsame : other = id
      · simp [hsame, Event.holderAfter]
      · simp [hsame, Ne.symm hsame, Event.holderAfter]
  | refused cause hnot =>
    refine ⟨⟨?_, ?_⟩, fun error herror => ⟨cause, ?_⟩, rfl, h.balanced, ?_, ?_⟩
    · rintro ⟨⟩
    · rintro ⟨howner, hopen, hheld⟩
      obtain rfl : owner = recycler.identity := howner
      have hclosed : recycler.closed = false := by simpa [← h.closed_iff] using hopen
      exact absurd ⟨rfl, (h.mem_checkedOut_iff hclosed id).mpr hheld⟩ hnot
    · exact (Except.error.inj herror).symm
    · simp [h.closed_iff]
    · intro hopen other
      rw [h.mem_checkedOut_iff hopen other, holder?_concat]
      rfl

theorem Agrees.forceClose (h : recycler.Agrees place events) :
    recycler.forceClose.1.Agrees place (events ++ [.closed place]) where
  identity_eq := by rw [h.balanced.forceClose_eq]; exact h.identity_eq
  balanced := h.balanced.forceClose
  closed_iff := by simp [h.balanced.forceClose_eq]
  mem_checkedOut_iff hopen := by simp [h.balanced.forceClose_eq] at hopen

end Recycler

namespace Custody

variable {τ : Type} {custody : Custody τ}

/-- What is there has to do with what happened. -/
structure Traced (custody : Custody τ) (events : List Event) : Prop where
  lawful : Lawful events
  agrees : ∀ ⦃place : Nat⦄ ⦃recycler : Recycler τ⦄, custody.recyclers[place]? = some recycler →
    recycler.Agrees place events
  acquisitions_eq : custody.acquisitions = acquisitionsIn events
  acquired_mem : ∀ ⦃holding : Holding⦄, holding ∈ custody.holdings → .acquired holding ∈ events

theorem traced_new (makes : List (Nat → Except Error τ)) : (new makes).Traced [] where
  lawful before event after hsplit := by simp at hsplit
  agrees place recycler hrecycler := by
    have hmake : ∃ make, Recycler.new place make = recycler := by
      simp only [new, List.getElem?_mapIdx, Option.map_eq_some_iff] at hrecycler
      obtain ⟨make, -, hnew⟩ := hrecycler
      exact ⟨make, hnew⟩
    obtain ⟨make, rfl⟩ := hmake
    exact ⟨rfl, Recycler.balanced_new place make, by simp [Recycler.new],
      fun _ id => by simp [Recycler.new, holder?]⟩
  acquisitions_eq := rfl
  acquired_mem holding hholding := by simp [new] at hholding

/-- What is so of the other recyclers, and of the one that comes to a place, is so of all. -/
theorem forall_setRecycler {P : Nat → Recycler τ → Prop} {place : Nat} {next : Recycler τ}
    (hnext : P place next)
    (hothers : ∀ other recycler, place ≠ other → custody.recyclers[other]? = some recycler →
      P other recycler) :
    ∀ ⦃other : Nat⦄ ⦃recycler : Recycler τ⦄,
      (custody.setRecycler place next).recyclers[other]? = some recycler → P other recycler := by
  intro other recycler hother
  simp only [setRecycler, List.getElem?_set] at hother
  by_cases hsame : place = other
  · subst hsame
    rw [if_pos rfl] at hother
    split at hother
    · obtain rfl := Option.some.inj hother
      exact hnext
    · cases hother
  · rw [if_neg hsame] at hother
    exact hothers other recycler hsame hother

/-- So if something happens at the one that comes to a place. -/
theorem Traced.agrees_setRecycler (h : custody.Traced events) {place : Nat} {next : Recycler τ}
    {event : Event} (hplace : event.place = place)
    (hnext : next.Agrees place (events ++ [event])) :
    ∀ ⦃other : Nat⦄ ⦃recycler : Recycler τ⦄,
      (custody.setRecycler place next).recyclers[other]? = some recycler →
        recycler.Agrees other (events ++ [event]) :=
  forall_setRecycler hnext fun _ _ hne hother =>
    (h.agrees hother).concat_of_ne (by rwa [hplace])

/-- A handle more, if it comes from an acquisition. -/
theorem Traced.hold (h : custody.Traced events) {holding : Holding}
    (hmem : .acquired holding ∈ events) : (custody.hold holding).Traced events where
  lawful := h.lawful
  agrees := h.agrees
  acquisitions_eq := h.acquisitions_eq
  acquired_mem other hother := by
    rcases List.mem_append.mp hother with hold | hnew
    · exact h.acquired_mem hold
    · rwa [List.mem_singleton.mp hnew]

/-- An instance is asked for, and not handed out. -/
theorem Traced.acquire_of_eq_error (h : custody.Traced events) {place : Nat}
    {recycler : Recycler τ} (hplace : custody.recyclers[place]? = some recycler) {error : Error}
    (houtcome : recycler.acquire.2 = .error error) :
    (custody.setRecycler place recycler.acquire.1).Traced events where
  lawful := h.lawful
  agrees := forall_setRecycler ((h.agrees hplace).acquire_of_eq_error houtcome)
    fun _ _ _ hother => h.agrees hother
  acquisitions_eq := h.acquisitions_eq
  acquired_mem := h.acquired_mem

/-- An instance is asked for, and handed out. -/
theorem Traced.acquire_of_eq_ok (h : custody.Traced events) {place : Nat}
    {recycler : Recycler τ} (hplace : custody.recyclers[place]? = some recycler) {handle : Handle}
    (houtcome : recycler.acquire.2 = .ok handle) :
    ({ (custody.setRecycler place recycler.acquire.1).hold ⟨custody.acquisitions, handle⟩ with
        acquisitions := custody.acquisitions + 1 } : Custody τ).Traced
      (events ++ [.acquired ⟨custody.acquisitions, handle⟩]) := by
  obtain ⟨hfree, howner, hnext⟩ :=
    (h.agrees hplace).acquire_of_eq_ok houtcome custody.acquisitions
  refine ⟨(lawful_concat _).mpr ⟨h.lawful, hfree, h.acquisitions_eq⟩,
    h.agrees_setRecycler howner hnext, ?_, fun holding hholding => ?_⟩
  · rw [acquisitionsIn_concat, ← h.acquisitions_eq]
    rfl
  · rcases List.mem_append.mp hholding with hold | hnew
    · exact List.mem_append_left _ (h.acquired_mem hold)
    · rw [List.mem_singleton.mp hnew]
      simp

variable [Recyclable τ]

/-- A handle is given back, to its own recycler or to another one. -/
theorem Traced.release (h : custody.Traced events) {place held : Nat} {recycler : Recycler τ}
    (hplace : custody.recyclers[place]? = some recycler) {holding : Holding}
    (hheld : custody.holdings[held]? = some holding) :
    ({ custody.setRecycler place (recycler.release holding.handle).1 with
        holdings := custody.holdings.eraseIdx held } : Custody τ).Traced
      (events ++ [.released place holding (recycler.release holding.handle).2]) := by
  obtain ⟨hok, herror, hnext⟩ := (h.agrees hplace).release holding
  have hmem := h.acquired_mem (List.mem_of_getElem? hheld)
  refine ⟨(lawful_concat _).mpr ⟨h.lawful, hmem, hok, herror⟩, h.agrees_setRecycler ?_ hnext, ?_,
    fun other hother => ?_⟩
  · cases houtcome : (recycler.release holding.handle).2 with
    | error error => rfl
    | ok value => exact (hok.mp houtcome).1
  · rw [acquisitionsIn_concat, ← h.acquisitions_eq]
    rfl
  · exact List.mem_append_left _ (h.acquired_mem (List.mem_of_mem_eraseIdx hother))

/-- A recycler is closed. -/
theorem Traced.forceClose (h : custody.Traced events) {place : Nat} {recycler : Recycler τ}
    (hplace : custody.recyclers[place]? = some recycler) :
    (custody.setRecycler place recycler.forceClose.1).Traced (events ++ [.closed place]) where
  lawful := (lawful_concat _).mpr ⟨h.lawful, trivial⟩
  agrees := h.agrees_setRecycler rfl (h.agrees hplace).forceClose
  acquisitions_eq := by
    rw [acquisitionsIn_concat, ← h.acquisitions_eq]
    rfl
  acquired_mem _ hother := List.mem_append_left _ (h.acquired_mem hother)

theorem Traced.act (h : custody.Traced events) (action : Action) :
    (custody.act action).1.Traced (events ++ (custody.act action).2.toList) := by
  have hnothing : custody.Traced (events ++ []) := by rwa [List.append_nil]
  cases action with
  | acquire place =>
    cases hplace : custody.recyclers[place]? with
    | none =>
      simp only [Custody.act, hplace]
      exact hnothing
    | some recycler =>
      cases houtcome : recycler.acquire.2 with
      | error error =>
        have hnext := h.acquire_of_eq_error hplace houtcome
        have hacquire : recycler.acquire = (recycler.acquire.1, .error error) := by
          rw [← houtcome]
        rw [Custody.act, hplace]
        dsimp only
        rw [hacquire, Option.toList_none, List.append_nil]
        exact hnext
      | ok handle =>
        have hnext := h.acquire_of_eq_ok hplace houtcome
        have hacquire : recycler.acquire = (recycler.acquire.1, .ok handle) := by
          rw [← houtcome]
        rw [Custody.act, hplace]
        dsimp only
        rw [hacquire]
        exact hnext
  | clone place =>
    cases hplace : custody.holdings[place]? with
    | none =>
      simp only [Custody.act, hplace]
      exact hnothing
    | some holding =>
      simp only [Custody.act, hplace, Option.toList_none, List.append_nil]
      exact h.hold (h.acquired_mem (List.mem_of_getElem? hplace))
  | release place held =>
    cases hplace : custody.recyclers[place]? with
    | none =>
      simp only [Custody.act, hplace]
      exact hnothing
    | some recycler =>
      cases hheld : custody.holdings[held]? with
      | none =>
        simp only [Custody.act, hplace, hheld]
        exact hnothing
      | some holding =>
        simp only [Custody.act, hplace, hheld]
        exact h.release hplace hheld
  | forceClose place =>
    cases hplace : custody.recyclers[place]? with
    | none =>
      simp only [Custody.act, hplace]
      exact hnothing
    | some recycler =>
      simp only [Custody.act, hplace]
      exact h.forceClose hplace

theorem Traced.run (h : custody.Traced events) (actions : List Action) :
    (custody.run actions).1.Traced (events ++ (custody.run actions).2) := by
  induction actions generalizing custody events with
  | nil => rwa [Custody.run, List.append_nil]
  | cons action later ih =>
    have hnext := ih (h.act action)
    rwa [List.append_assoc] at hnext

/-- **Who may give back.** Whatever is done with recyclers and handles, what happens is lawful, and
    no acquisition ends twice exactly if only holders give instances back.  Then no instance is
    handed out again before all its acquisitions ended. -/
theorem releasedOnce_run_iff (makes : List (Nat → Except Error τ)) (actions : List Action) :
    Lawful ((new makes).run actions).2
      ∧ (ReleasedOnce ((new makes).run actions).2 ↔ ByHolders ((new makes).run actions).2)
      ∧ (ByHolders ((new makes).run actions).2
        → ReleasedBeforeReuse ((new makes).run actions).2) := by
  have hlawful := ((traced_new makes).run actions).lawful
  rw [List.nil_append] at hlawful
  exact ⟨hlawful, hlawful.releasedOnce_iff, hlawful.releasedBeforeReuse⟩

/-- Somebody acquires a reader of class files, copies the handle and gives the reader back.
    Somebody else acquires it, the copy is given back as well, and the reader is acquired again. -/
def staleCopy : List Action :=
  [.acquire 0, .clone 0, .release 0 0, .acquire 0, .release 0 0, .acquire 0]

/-- The first acquisition ends twice, and the second one has not ended when the reader is handed out
    for the third time. -/
theorem not_releasedOnce_run :
    ¬ReleasedOnce ((new [fun _ => .ok Decoder.new]).run staleCopy).2
      ∧ ¬ReleasedBeforeReuse ((new [fun _ => .ok Decoder.new]).run staleCopy).2 := by
  have hevents : ((new [fun _ => .ok Decoder.new]).run staleCopy).2
      = [.acquired ⟨0, 0, 0⟩, .released 0 ⟨0, 0, 0⟩ (.ok ()), .acquired ⟨1, 0, 0⟩,
        .released 0 ⟨0, 0, 0⟩ (.ok ()), .acquired ⟨2, 0, 0⟩] := rfl
  rw [hevents]
  constructor
  · intro honce
    exact absurd (honce 0) (by decide)
  · intro hreuse
    obtain ⟨place, hreleased⟩ := hreuse
      [.acquired ⟨0, 0, 0⟩, .released 0 ⟨0, 0, 0⟩ (.ok ()), .acquired ⟨1, 0, 0⟩,
        .released 0 ⟨0, 0, 0⟩ (.ok ())] ⟨2, 0, 0⟩ [] rfl ⟨1, 0, 0⟩ (by simp) rfl
    simp at hreleased

end Custody

end ClassAtlas
