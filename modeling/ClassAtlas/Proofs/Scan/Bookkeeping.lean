import ClassAtlas.Scan.Recycler
import Mathlib.Data.List.Induction
import Mathlib.Data.List.Infix
import Mathlib.Logic.Function.Iterate
import Mathlib.Order.Bounds.Basic

namespace ClassAtlas

/-!
# The books of a recycler

A recycler keeps the numbers of its instances in two lists: those handed out and those for use.
Whatever is asked of it, and in whatever order, no number is lost or doubled, an instance is made
only when all others are handed out, and each is closed once, when the recycler is.

* `Recycler.Acquired`, `Recycler.Released` — everything that can come of a request;
* `Recycler.Balanced` — the two lists, kept by each request;
* `Recycler.Request`, `Recycler.performAll` — histories of requests and the replies to them;
* `Recycler.Books` — what the lists, the instances and the replies of a history have to do with
  each other;
* `Recycler.books_performAll` — the books of any history.
-/

namespace Recycler

variable {τ : Type} {recycler : Recycler τ}

/-! ### What can come of a request -/

/-- Everything that can come of asking for an instance. -/
inductive Acquired (recycler : Recycler τ) : Recycler τ × Except Error Handle → Prop where
  /-- A closed recycler hands nothing out. -/
  | afterClose (hclosed : recycler.closed = true) :
    Acquired recycler (recycler, .error (.misused .acquireAfterClose))
  /-- One of those for use is handed out. -/
  | reused (id : Nat) (hopen : recycler.closed = false) (hid : id ∈ recycler.available) :
    Acquired recycler
      ({ recycler with
          available := recycler.available.erase id
          checkedOut := id :: recycler.checkedOut }, .ok (recycler.handle id))
  /-- None is for use, and none can be made. -/
  | unmade (error : Error) (hopen : recycler.closed = false) (hnone : recycler.available = [])
      (hmake : recycler.make recycler.calls = .error error) :
    Acquired recycler ({ recycler with calls := recycler.calls + 1 }, .error error)
  /-- None is for use, so one is made. -/
  | made (instance' : τ) (hopen : recycler.closed = false) (hnone : recycler.available = [])
      (hmake : recycler.make recycler.calls = .ok instance') :
    Acquired recycler
      ({ recycler with
          calls := recycler.calls + 1
          instances := recycler.instances.push instance'
          checkedOut := recycler.created :: recycler.checkedOut },
        .ok (recycler.handle recycler.created))

/-- Everything that can come of giving an instance back. -/
inductive Released [Recyclable τ] (recycler : Recycler τ) (handle : Handle) :
    Recycler τ × Except Error Unit → Prop where
  /-- It is handed out at the moment, so it is taken back. -/
  | takenBack (howner : handle.owner = recycler.identity)
      (hout : handle.id ∈ recycler.checkedOut) :
    Released recycler handle
      ({ recycler.update handle.id Recyclable.reset with
          checkedOut := recycler.checkedOut.erase handle.id
          available := handle.id :: recycler.available }, .ok ())
  /-- It is not, or belongs elsewhere. -/
  | refused (cause : Misuse)
      (hnot : ¬(handle.owner = recycler.identity ∧ handle.id ∈ recycler.checkedOut)) :
    Released recycler handle (recycler, .error (.misused cause))

theorem acquired (recycler : Recycler τ) : Acquired recycler recycler.acquire := by
  unfold acquire
  by_cases hclosed : recycler.closed = true
  · rw [if_pos hclosed]
    exact .afterClose hclosed
  · rw [if_neg hclosed]
    have hopen : recycler.closed = false := by simpa using hclosed
    cases hleast : recycler.available.min? with
    | some id => exact .reused id hopen (List.min?_mem hleast)
    | none =>
      have hnone : recycler.available = [] := List.min?_eq_none_iff.mp hleast
      dsimp only
      cases hmake : recycler.make recycler.calls with
      | error error => exact .unmade error hopen hnone hmake
      | ok instance' => exact .made instance' hopen hnone hmake

variable [Recyclable τ]

theorem released (recycler : Recycler τ) (handle : Handle) :
    Released recycler handle (recycler.release handle) := by
  unfold release
  by_cases howner : handle.owner = recycler.identity
  · rw [if_neg (not_not.mpr howner)]
    by_cases hout : handle.id ∈ recycler.checkedOut
    · rw [if_pos hout]
      exact .takenBack howner hout
    · have hnot : ¬(handle.owner = recycler.identity ∧ handle.id ∈ recycler.checkedOut) :=
        fun h => hout h.2
      rw [if_neg hout]
      by_cases hclosed : recycler.closed = true
      · rw [if_pos hclosed]
        exact .refused _ hnot
      · rw [if_neg hclosed]
        exact .refused _ hnot
  · rw [if_pos howner]
    exact .refused _ fun h => howner h.1

/-- Closing some instances, each of them once. -/
theorem foldl_close (ids : List Nat) (hids : ids.Nodup) (recycler : Recycler τ) :
    ids.foldl (fun (recycler : Recycler τ) id => recycler.update id Recyclable.close) recycler
      = { recycler with
          instances := recycler.instances.mapIdx fun id kept =>
            if id ∈ ids then Recyclable.close kept else kept } := by
  induction ids generalizing recycler with
  | nil =>
    have hsame : (recycler.instances.mapIdx fun id kept =>
        if id ∈ ([] : List Nat) then Recyclable.close kept else kept) = recycler.instances := by
      refine Array.ext_getElem? fun id => ?_
      simp [Array.getElem?_mapIdx]
    rw [List.foldl_nil, hsame]
  | cons first rest ih =>
    obtain ⟨hfirst, hrest⟩ := List.nodup_cons.mp hids
    have hinstances : ((recycler.update first Recyclable.close).instances.mapIdx fun id kept =>
        if id ∈ rest then Recyclable.close kept else kept)
          = recycler.instances.mapIdx fun id kept =>
            if id ∈ first :: rest then Recyclable.close kept else kept := by
      refine Array.ext_getElem? fun id => ?_
      simp only [update, Array.getElem?_mapIdx, Array.getElem?_modify, List.mem_cons]
      by_cases hid : first = id
      · subst hid
        simp [hfirst, Function.comp_def]
      · simp [hid, Ne.symm hid]
    rw [List.foldl_cons, ih hrest, hinstances]
    rfl

/-! ### The two lists -/

/-- The numbers of the instances made are in the two lists, each in one of them and once; a closed
    recycler has no number in either. -/
structure Balanced (recycler : Recycler τ) : Prop where
  perm_range : recycler.closed = false →
    (recycler.checkedOut ++ recycler.available).Perm (List.range recycler.created)
  lists_of_closed : recycler.closed = true → recycler.checkedOut = [] ∧ recycler.available = []

omit [Recyclable τ] in
theorem balanced_new (identity : Nat) (make : Nat → Except Error τ) :
    (new identity make).Balanced where
  perm_range _ := List.Perm.refl []
  lists_of_closed h := Bool.noConfusion h

omit [Recyclable τ] in
theorem Balanced.nodup (h : recycler.Balanced) :
    (recycler.checkedOut ++ recycler.available).Nodup := by
  by_cases hclosed : recycler.closed = true
  · obtain ⟨hout, hfor⟩ := h.lists_of_closed hclosed
    simp [hout, hfor]
  · exact (h.perm_range (by simpa using hclosed)).nodup_iff.mpr List.nodup_range

omit [Recyclable τ] in
/-- The number that the next instance gets is in neither list. -/
theorem Balanced.lt_created (h : recycler.Balanced) {id : Nat}
    (hid : id ∈ recycler.checkedOut ++ recycler.available) : id < recycler.created := by
  by_cases hclosed : recycler.closed = true
  · obtain ⟨hout, hfor⟩ := h.lists_of_closed hclosed
    simp [hout, hfor] at hid
  · have hperm := h.perm_range (by simpa using hclosed)
    exact List.mem_range.mp (hperm.mem_iff.mp hid)

omit [Recyclable τ] in
theorem Balanced.length_add_length (h : recycler.Balanced) (hopen : recycler.closed = false) :
    recycler.checkedOut.length + recycler.available.length = recycler.created := by
  have hlength := (h.perm_range hopen).length_eq
  simpa using hlength

omit [Recyclable τ] in
theorem Balanced.length_checkedOut_le (h : recycler.Balanced) :
    recycler.checkedOut.length ≤ recycler.created := by
  by_cases hclosed : recycler.closed = true
  · simp [(h.lists_of_closed hclosed).1]
  · have hlength := h.length_add_length (by simpa using hclosed)
    omega

omit [Recyclable τ] in
theorem Balanced.acquire (h : recycler.Balanced) : recycler.acquire.1.Balanced := by
  have hstep := recycler.acquired
  generalize recycler.acquire = next at hstep ⊢
  cases hstep with
  | afterClose hclosed => exact h
  | reused id hopen hid =>
    refine ⟨fun _ => ?_, fun hclosed => absurd hclosed (by simp [hopen])⟩
    -- The number moves from the one list to the other.
    have hmoved : (id :: recycler.checkedOut ++ recycler.available.erase id).Perm
        (recycler.checkedOut ++ recycler.available) :=
      List.perm_middle.symm.trans ((List.perm_cons_erase hid).symm.append_left _)
    exact hmoved.trans (h.perm_range hopen)
  | unmade error hopen hnone hmake => exact ⟨h.perm_range, h.lists_of_closed⟩
  | made instance' hopen hnone hmake =>
    refine ⟨fun _ => ?_, fun hclosed => absurd hclosed (by simp [hopen])⟩
    have hperm := h.perm_range hopen
    show (recycler.created :: recycler.checkedOut ++ recycler.available).Perm
      (List.range (recycler.instances.push instance').size)
    rw [Array.size_push, List.range_succ]
    exact (hperm.cons _).trans (List.perm_append_singleton _ _).symm

theorem Balanced.release (h : recycler.Balanced) (handle : Handle) :
    (recycler.release handle).1.Balanced := by
  have hstep := recycler.released handle
  generalize recycler.release handle = next at hstep ⊢
  cases hstep with
  | refused cause hnot => exact h
  | takenBack howner hout =>
    have hopen : recycler.closed = false := by
      by_contra hclosed
      simp [(h.lists_of_closed (by simpa using hclosed)).1] at hout
    refine ⟨fun _ => ?_, fun hclosed => absurd hclosed (by simp [update, hopen])⟩
    have hmoved : (recycler.checkedOut.erase handle.id ++ handle.id :: recycler.available).Perm
        (recycler.checkedOut ++ recycler.available) :=
      List.perm_middle.trans ((List.perm_cons_erase hout).symm.append_right _)
    have hcreated : (recycler.update handle.id Recyclable.reset).created = recycler.created :=
      Array.size_modify
    show (recycler.checkedOut.erase handle.id ++ handle.id :: recycler.available).Perm
      (List.range (recycler.update handle.id Recyclable.reset).created)
    rw [hcreated]
    exact hmoved.trans (h.perm_range hopen)

/-- What closing does: each instance in the lists is closed, once, and the lists are emptied. -/
theorem Balanced.forceClose_eq (h : recycler.Balanced) :
    recycler.forceClose.1
      = { recycler with
          instances := recycler.instances.mapIdx fun id kept =>
            if id ∈ recycler.checkedOut ++ recycler.available then Recyclable.close kept else kept
          checkedOut := []
          available := []
          closed := true } := by
  unfold forceClose
  rw [foldl_close _ h.nodup]

theorem Balanced.forceClose (h : recycler.Balanced) : recycler.forceClose.1.Balanced := by
  rw [h.forceClose_eq]
  exact ⟨fun hopen => Bool.noConfusion hopen, fun _ => ⟨rfl, rfl⟩⟩

/-! ### Histories -/

/-- What can be asked of a recycler. -/
inductive Request where
  /-- To hand an instance out. -/
  | acquire
  /-- To take an instance back. -/
  | release (handle : Handle)
  /-- To give all instances up. -/
  | forceClose

/-- What a recycler replies. -/
inductive Reply where
  | acquired (outcome : Except Error Handle)
  | released (handle : Handle) (outcome : Except Error Unit)
  | closed (reclaimed : Nat)

/-- The recycler after a request, and its reply. -/
def perform (recycler : Recycler τ) : Request → Recycler τ × Reply
  | .acquire =>
    let (next, outcome) := recycler.acquire
    (next, .acquired outcome)
  | .release handle =>
    let (next, outcome) := recycler.release handle
    (next, .released handle outcome)
  | .forceClose =>
    let (next, reclaimed) := recycler.forceClose
    (next, .closed reclaimed)

theorem perform_acquire (recycler : Recycler τ) :
    recycler.perform .acquire = (recycler.acquire.1, .acquired recycler.acquire.2) := rfl

theorem perform_release (recycler : Recycler τ) (handle : Handle) :
    recycler.perform (.release handle)
      = ((recycler.release handle).1, .released handle (recycler.release handle).2) := rfl

theorem perform_forceClose (recycler : Recycler τ) :
    recycler.perform .forceClose = (recycler.forceClose.1, .closed recycler.forceClose.2) := rfl

/-- The recycler after requests one after the other, and the replies in their order. -/
def performAll (recycler : Recycler τ) : List Request → Recycler τ × List Reply
  | [] => (recycler, [])
  | request :: later =>
    let (next, reply) := recycler.perform request
    let (last, replies) := next.performAll later
    (last, reply :: replies)

/-- A history with one more request. -/
theorem performAll_concat (recycler : Recycler τ) (requests : List Request) (request : Request) :
    recycler.performAll (requests ++ [request])
      = (((recycler.performAll requests).1.perform request).1,
          (recycler.performAll requests).2
            ++ [((recycler.performAll requests).1.perform request).2]) := by
  induction requests generalizing recycler with
  | nil => rfl
  | cons first later ih =>
    have hlater := ih (recycler.perform first).1
    show (((recycler.perform first).1.performAll (later ++ [request])).1,
      (recycler.perform first).2 :: ((recycler.perform first).1.performAll (later ++ [request])).2)
        = _
    rw [hlater]
    rfl

theorem Balanced.perform (h : recycler.Balanced) (request : Request) :
    (recycler.perform request).1.Balanced := by
  cases request with
  | acquire => exact h.acquire
  | release handle => exact h.release handle
  | forceClose => exact h.forceClose

theorem Balanced.performAll (h : recycler.Balanced) (requests : List Request) :
    (recycler.performAll requests).1.Balanced := by
  induction requests generalizing recycler with
  | nil => exact h
  | cons request later ih => exact ih (h.perform request)

/-! ### How many are made -/

/-- A request makes an instance only if then all are handed out. -/
theorem Balanced.created_perform (h : recycler.Balanced) (request : Request) :
    (recycler.perform request).1.created = recycler.created
      ∨ (recycler.perform request).1.created = recycler.created + 1
        ∧ (recycler.perform request).1.checkedOut.length
          = (recycler.perform request).1.created := by
  cases request with
  | acquire =>
    have hbalanced := h.acquire
    have hstep := recycler.acquired
    rw [perform_acquire]
    generalize recycler.acquire = next at hbalanced hstep ⊢
    cases hstep with
    | afterClose hclosed => exact .inl rfl
    | reused id hopen hid => exact .inl rfl
    | unmade error hopen hnone hmake => exact .inl rfl
    | made instance' hopen hnone hmake =>
      have hlength := hbalanced.length_add_length hopen
      simp only [hnone, List.length_nil, Nat.add_zero] at hlength ⊢
      exact .inr ⟨Array.size_push _, hlength⟩
  | release handle =>
    have hstep := recycler.released handle
    rw [perform_release]
    generalize recycler.release handle = next at hstep ⊢
    cases hstep with
    | takenBack howner hout => exact .inl Array.size_modify
    | refused cause hnot => exact .inl rfl
  | forceClose =>
    rw [perform_forceClose, h.forceClose_eq]
    exact .inl Array.size_mapIdx

/-- As many instances are made as are handed out at once at some time. -/
theorem isGreatest_created (identity : Nat) (make : Nat → Except Error τ)
    (requests : List Request) :
    IsGreatest
      {count | ∃ earlier, earlier <+: requests
        ∧ count = ((new identity make).performAll earlier).1.checkedOut.length}
      ((new identity make).performAll requests).1.created := by
  have hbalanced := (balanced_new identity make).performAll
  induction requests using List.reverseRecOn with
  | nil =>
    refine ⟨⟨[], List.prefix_rfl, rfl⟩, ?_⟩
    rintro count ⟨earlier, hearlier, rfl⟩
    rw [List.prefix_nil.mp hearlier]
    exact Nat.le_refl 0
  | append_singleton requests request ih =>
    obtain ⟨⟨peak, hpeak, hcreated⟩, hupper⟩ := ih
    have hlast := (hbalanced (requests ++ [request])).length_checkedOut_le
    have hgrows := (hbalanced requests).created_perform request
    simp only [performAll_concat] at hlast ⊢
    have hle : ((new identity make).performAll requests).1.created
        ≤ (((new identity make).performAll requests).1.perform request).1.created := by
      omega
    constructor
    · -- The most at once were handed out earlier, unless an instance is made just now.
      rcases hgrows with hsame | ⟨-, hall⟩
      · exact ⟨peak, hpeak.trans (List.prefix_append _ _), hsame.trans hcreated⟩
      · exact ⟨requests ++ [request], List.prefix_rfl, by rw [performAll_concat, hall]⟩
    · rintro count ⟨earlier, hearlier, rfl⟩
      rcases List.prefix_concat_iff.mp hearlier with rfl | hbefore
      · rw [performAll_concat]
        exact hlast
      · exact (hupper ⟨earlier, hbefore, rfl⟩).trans hle

/-! ### What becomes of the instances -/

/-- An instance is handed out. -/
def Reply.isHandOut : Reply → Bool
  | .acquired (.ok _) => true
  | _ => false

/-- An instance is taken back. -/
def Reply.isReturn : Reply → Bool
  | .released _ (.ok ()) => true
  | _ => false

/-- The instance of a number is taken back. -/
def Reply.isReturnOf (id : Nat) : Reply → Bool
  | .released handle (.ok ()) => handle.id = id
  | _ => false

/-- How often an instance was handed out. -/
def handOuts (replies : List Reply) : Nat := replies.countP (·.isHandOut)

/-- How often an instance was taken back. -/
def returns (replies : List Reply) : Nat := replies.countP (·.isReturn)

/-- How often the instance of a number was taken back. -/
def returnsOf (id : Nat) (replies : List Reply) : Nat := replies.countP (·.isReturnOf id)

/-- The instances that come of asking for one so many times. -/
def madeBy (make : Nat → Except Error τ) (calls : Nat) : List τ :=
  (List.range calls).filterMap fun call => (make call).toOption

/-- What an instance is after it was reset so many times, and closed if the recycler is. -/
def lived (closed : Bool) (resets : Nat) (made : τ) : τ :=
  if closed then Recyclable.close (Recyclable.reset^[resets] made)
  else Recyclable.reset^[resets] made

omit [Recyclable τ] in
theorem madeBy_succ (make : Nat → Except Error τ) (calls : Nat) :
    madeBy make (calls + 1) = madeBy make calls ++ (make calls).toOption.toList := by
  unfold madeBy
  rw [List.range_succ, List.filterMap_append]
  cases hmake : make calls <;> simp [hmake, Except.toOption]

theorem handOuts_concat (replies : List Reply) (reply : Reply) :
    handOuts (replies ++ [reply]) = handOuts replies + if reply.isHandOut then 1 else 0 := by
  simp [handOuts, List.countP_append, List.countP_singleton]

theorem returns_concat (replies : List Reply) (reply : Reply) :
    returns (replies ++ [reply]) = returns replies + if reply.isReturn then 1 else 0 := by
  simp [returns, List.countP_append, List.countP_singleton]

theorem returnsOf_concat (id : Nat) (replies : List Reply) (reply : Reply) :
    returnsOf id (replies ++ [reply])
      = returnsOf id replies + if reply.isReturnOf id then 1 else 0 := by
  simp [returnsOf, List.countP_append, List.countP_singleton]

/-- The instances of a recycler, as its history tells. -/
structure Ledger (make : Nat → Except Error τ) (requests : List Request)
    (recycler : Recycler τ) (replies : List Reply) : Prop where
  make_eq : recycler.make = make
  closed_iff : recycler.closed = true ↔ .forceClose ∈ requests
  instances_eq : recycler.instances.toList = (madeBy make recycler.calls).mapIdx
    fun id made => lived recycler.closed (returnsOf id replies) made
  /-- What is not made yet was not taken back. -/
  returnsOf_eq_zero : ∀ id, recycler.created ≤ id → returnsOf id replies = 0
  length_checkedOut : recycler.closed = false →
    recycler.checkedOut.length + returns replies = handOuts replies

theorem ledger_new (identity : Nat) (make : Nat → Except Error τ) :
    (new identity make).Ledger make [] [] where
  make_eq := rfl
  closed_iff := by simp [new]
  instances_eq := rfl
  returnsOf_eq_zero _ _ := rfl
  length_checkedOut _ := rfl

variable {make : Nat → Except Error τ} {requests : List Request} {replies : List Reply}

/-- The next instance gets the next number. -/
theorem Ledger.length_madeBy (h : recycler.Ledger make requests replies) :
    (madeBy make recycler.calls).length = recycler.created := by
  have hlength := congrArg List.length h.instances_eq
  simpa [created] using hlength.symm

theorem Ledger.acquire (h : recycler.Ledger make requests replies) :
    recycler.acquire.1.Ledger make (requests ++ [.acquire])
      (replies ++ [.acquired recycler.acquire.2]) := by
  have hclosed_iff : recycler.closed = true ↔ .forceClose ∈ requests ++ [.acquire] := by
    simp [h.closed_iff]
  -- Nothing is taken back.
  have hreturnsOf : ∀ id outcome,
      returnsOf id (replies ++ [.acquired outcome]) = returnsOf id replies :=
    fun id outcome => returnsOf_concat id replies _
  have hstep := recycler.acquired
  generalize recycler.acquire = next at hstep ⊢
  cases hstep with
  | afterClose hclosed =>
    refine ⟨h.make_eq, hclosed_iff, ?_, ?_, fun hopen => ?_⟩
    · simpa only [hreturnsOf] using h.instances_eq
    · simpa only [hreturnsOf] using h.returnsOf_eq_zero
    · simp [hclosed] at hopen
  | reused id hopen hid =>
    refine ⟨h.make_eq, hclosed_iff, ?_, ?_, fun _ => ?_⟩
    · simpa only [hreturnsOf] using h.instances_eq
    · simp only [hreturnsOf]
      exact h.returnsOf_eq_zero
    · have hlength := h.length_checkedOut hopen
      simp only [handOuts_concat, returns_concat, Reply.isHandOut, Reply.isReturn,
        List.length_cons]
      simp
      omega
  | unmade error hopen hnone hmake =>
    rw [h.make_eq] at hmake
    refine ⟨h.make_eq, hclosed_iff, ?_, ?_, fun _ => ?_⟩
    · show recycler.instances.toList = (madeBy make (recycler.calls + 1)).mapIdx _
      simp only [hreturnsOf, madeBy_succ, hmake]
      simpa [Except.toOption] using h.instances_eq
    · simp only [hreturnsOf]
      exact h.returnsOf_eq_zero
    · have hlength := h.length_checkedOut hopen
      simpa [handOuts_concat, returns_concat, Reply.isHandOut, Reply.isReturn] using hlength
  | made instance' hopen hnone hmake =>
    rw [h.make_eq] at hmake
    refine ⟨h.make_eq, hclosed_iff, ?_, ?_, fun _ => ?_⟩
    · have hnew : returnsOf recycler.created replies = 0 := h.returnsOf_eq_zero _ (Nat.le_refl _)
      show (recycler.instances.push instance').toList
        = (madeBy make (recycler.calls + 1)).mapIdx _
      simp only [hreturnsOf, madeBy_succ, hmake, Array.toList_push, h.instances_eq]
      simp [Except.toOption, List.mapIdx_concat, h.length_madeBy, hnew, lived, hopen]
    · intro id hid
      have hle : recycler.created ≤ id := by
        simp only [created, Array.size_push] at hid ⊢
        omega
      rw [hreturnsOf]
      exact h.returnsOf_eq_zero id hle
    · have hlength := h.length_checkedOut hopen
      simp [handOuts_concat, returns_concat, Reply.isHandOut, Reply.isReturn]
      omega

theorem Ledger.release (h : recycler.Ledger make requests replies) (hbalanced : recycler.Balanced)
    (handle : Handle) :
    (recycler.release handle).1.Ledger make (requests ++ [.release handle])
      (replies ++ [.released handle (recycler.release handle).2]) := by
  have hclosed_iff : recycler.closed = true ↔ .forceClose ∈ requests ++ [.release handle] := by
    simp [h.closed_iff]
  have hstep := recycler.released handle
  generalize recycler.release handle = next at hstep ⊢
  cases hstep with
  | refused cause hnot =>
    have hreturnsOf : ∀ id, returnsOf id (replies ++ [.released handle (.error (.misused cause))])
        = returnsOf id replies := fun id => returnsOf_concat id replies _
    refine ⟨h.make_eq, hclosed_iff, ?_, ?_, fun hopen => ?_⟩
    · simpa only [hreturnsOf] using h.instances_eq
    · simpa only [hreturnsOf] using h.returnsOf_eq_zero
    · have hlength := h.length_checkedOut hopen
      simpa [handOuts_concat, returns_concat, Reply.isHandOut, Reply.isReturn] using hlength
  | takenBack howner hout =>
    have hopen : recycler.closed = false := by
      by_contra hclosed
      simp [(hbalanced.lists_of_closed (by simpa using hclosed)).1] at hout
    have hlt := hbalanced.lt_created (List.mem_append_left recycler.available hout)
    have hreturnsOf : ∀ id, returnsOf id (replies ++ [.released handle (.ok ())])
        = returnsOf id replies + if handle.id = id then 1 else 0 := by
      intro id
      simp [returnsOf_concat, Reply.isReturnOf]
    refine ⟨h.make_eq, hclosed_iff, ?_, ?_, fun _ => ?_⟩
    · -- The instance of the handle is reset once more, the others stay as they are.
      show (recycler.instances.modify handle.id Recyclable.reset).toList
        = (madeBy make recycler.calls).mapIdx _
      rw [Array.toList_modify, h.instances_eq]
      refine List.ext_getElem? fun id => ?_
      simp only [List.getElem?_modify, List.getElem?_mapIdx, hreturnsOf]
      by_cases hid : handle.id = id
      · simp [hid, lived, hopen, update, Function.iterate_succ_apply', Function.comp_def]
      · simp [hid, update]
    · intro id hid
      have hle : recycler.created ≤ id := by
        simpa [created, update] using hid
      have hzero := h.returnsOf_eq_zero id hle
      have hne : handle.id ≠ id := by omega
      rw [hreturnsOf, hzero, if_neg hne]
    · have hlength := h.length_checkedOut hopen
      have herase := List.length_erase_of_mem hout
      have hpos := List.length_pos_of_mem hout
      simp [handOuts_concat, returns_concat, Reply.isHandOut, Reply.isReturn]
      omega

theorem Ledger.forceClose (h : recycler.Ledger make requests replies)
    (hbalanced : recycler.Balanced) :
    recycler.forceClose.1.Ledger make (requests ++ [.forceClose])
      (replies ++ [.closed recycler.forceClose.2]) := by
  have hreturnsOf : ∀ id reclaimed,
      returnsOf id (replies ++ [.closed reclaimed]) = returnsOf id replies :=
    fun id reclaimed => returnsOf_concat id replies _
  rw [hbalanced.forceClose_eq]
  refine ⟨h.make_eq, by simp, ?_, ?_, fun hopen => Bool.noConfusion hopen⟩
  · simp only [hreturnsOf, Array.toList_mapIdx]
    rw [h.instances_eq]
    refine List.ext_getElem? fun id => ?_
    simp only [List.getElem?_mapIdx, Option.map_map]
    refine Option.map_congr fun made hmade => ?_
    by_cases hclosed : recycler.closed = true
    · -- The lists are empty, so no instance is closed a second time.
      obtain ⟨hout, hfor⟩ := hbalanced.lists_of_closed hclosed
      simp [hout, hfor, hclosed]
    · have hopen : recycler.closed = false := by simpa using hclosed
      have hlt : id < recycler.created := by
        rw [← h.length_madeBy]
        exact (List.getElem?_eq_some_iff.mp hmade).1
      have hmem : id ∈ recycler.checkedOut ++ recycler.available :=
        (hbalanced.perm_range hopen).mem_iff.mpr (List.mem_range.mpr hlt)
      rw [Function.comp_apply, if_pos hmem]
      simp [lived, hopen]
  · intro id hid
    rw [hreturnsOf]
    refine h.returnsOf_eq_zero id ?_
    simpa [created] using hid

theorem Ledger.perform (h : recycler.Ledger make requests replies) (hbalanced : recycler.Balanced)
    (request : Request) :
    (recycler.perform request).1.Ledger make (requests ++ [request])
      (replies ++ [(recycler.perform request).2]) := by
  cases request with
  | acquire => exact h.acquire
  | release handle => exact h.release hbalanced handle
  | forceClose => exact h.forceClose hbalanced

theorem ledger_performAll (identity : Nat) (make : Nat → Except Error τ)
    (requests : List Request) :
    ((new identity make).performAll requests).1.Ledger make requests
      ((new identity make).performAll requests).2 := by
  induction requests using List.reverseRecOn with
  | nil => exact ledger_new identity make
  | append_singleton requests request ih =>
    have hbalanced := (balanced_new identity make).performAll requests
    rw [performAll_concat]
    exact ih.perform hbalanced request

/-! ### The books -/

/-- What the lists of a recycler, its instances and its replies have to do with the requests that
    were made of it. -/
structure Books (identity : Nat) (make : Nat → Except Error τ) (requests : List Request)
    (recycler : Recycler τ) (replies : List Reply) : Prop where
  /-- As long as it is open, every instance made is handed out or for use, and none is both. -/
  perm_range : recycler.closed = false →
    (recycler.checkedOut ++ recycler.available).Perm (List.range recycler.created)
  /-- As many were made as were handed out at once at some time. -/
  isGreatest_created : IsGreatest
    {count | ∃ earlier, earlier <+: requests
      ∧ count = ((new identity make).performAll earlier).1.checkedOut.length} recycler.created
  /-- An instance was reset once for each time that it was taken back, and closed once if the
      recycler is closed; nothing else was done to it. -/
  instances_eq : recycler.instances.toList = (madeBy make recycler.calls).mapIdx
    fun id made => lived recycler.closed (returnsOf id replies) made
  /-- What is taken back next is reset, and nothing else is. -/
  of_release_eq_ok : ∀ handle, (recycler.release handle).2 = .ok () →
    handle.id < recycler.created
      ∧ (recycler.release handle).1.instances
        = recycler.instances.modify handle.id Recyclable.reset
  /-- It is closed once it was asked to close. -/
  closed_iff : recycler.closed = true ↔ .forceClose ∈ requests
  /-- Then both lists are empty. -/
  lists_of_closed : recycler.closed = true → recycler.checkedOut = [] ∧ recycler.available = []
  /-- Then nothing is handed out or taken back any more. -/
  refused_of_closed : recycler.closed = true →
    recycler.acquire.2 = .error (.misused .acquireAfterClose)
      ∧ ∀ handle, ∃ cause, (recycler.release handle).2 = .error (.misused cause)
  /-- Asked to close, it says how many instances were handed out and not taken back. -/
  reclaimed_eq : recycler.closed = false →
    recycler.forceClose.2 = recycler.checkedOut.length
      ∧ recycler.forceClose.2 + returns replies = handOuts replies
  /-- Where it hands nothing out, it changes nothing, but that it may have tried. -/
  of_acquire_eq_error : ∀ error, recycler.acquire.2 = .error error →
    recycler.acquire.1 = { recycler with calls := recycler.acquire.1.calls }
  /-- Where it takes nothing back, it changes nothing. -/
  of_release_eq_error : ∀ handle error, (recycler.release handle).2 = .error error →
    (recycler.release handle).1 = recycler

omit [Recyclable τ] in
theorem acquire_eq_of_closed (hclosed : recycler.closed = true) :
    recycler.acquire.2 = .error (.misused .acquireAfterClose) := by
  unfold Recycler.acquire
  rw [if_pos hclosed]

omit [Recyclable τ] in
theorem acquire_fst_of_eq_error {error : Error} (h : recycler.acquire.2 = .error error) :
    recycler.acquire.1 = { recycler with calls := recycler.acquire.1.calls } := by
  have hstep := recycler.acquired
  generalize recycler.acquire = next at h hstep ⊢
  cases hstep with
  | afterClose hclosed => rfl
  | reused id hopen hid => cases h
  | unmade error hopen hnone hmake => rfl
  | made instance' hopen hnone hmake => cases h

theorem release_fst_of_eq_error {handle : Handle} {error : Error}
    (h : (recycler.release handle).2 = .error error) :
    (recycler.release handle).1 = recycler := by
  have hstep := recycler.released handle
  generalize recycler.release handle = next at h hstep ⊢
  cases hstep with
  | takenBack howner hout => cases h
  | refused cause hnot => rfl

theorem Balanced.of_release_eq_ok (hbalanced : recycler.Balanced) {handle : Handle}
    (h : (recycler.release handle).2 = .ok ()) :
    handle.id < recycler.created
      ∧ (recycler.release handle).1.instances
        = recycler.instances.modify handle.id Recyclable.reset := by
  have hstep := recycler.released handle
  generalize recycler.release handle = next at h hstep ⊢
  cases hstep with
  | takenBack howner hout =>
    exact ⟨hbalanced.lt_created (List.mem_append_left recycler.available hout), rfl⟩
  | refused cause hnot => cases h

theorem Balanced.release_eq_of_closed (hbalanced : recycler.Balanced)
    (hclosed : recycler.closed = true) (handle : Handle) :
    ∃ cause, (recycler.release handle).2 = .error (.misused cause) := by
  have hstep := recycler.released handle
  generalize recycler.release handle = next at hstep ⊢
  cases hstep with
  | takenBack howner hout => simp [(hbalanced.lists_of_closed hclosed).1] at hout
  | refused cause hnot => exact ⟨cause, rfl⟩

/-- **The books are kept.** Whatever was asked of a recycler, its books are in order. -/
theorem books_performAll (identity : Nat) (make : Nat → Except Error τ)
    (requests : List Request) :
    Books identity make requests ((new identity make).performAll requests).1
      ((new identity make).performAll requests).2 := by
  have hbalanced := (balanced_new identity make).performAll requests
  have hledger := ledger_performAll identity make requests
  exact {
    perm_range := hbalanced.perm_range
    isGreatest_created := isGreatest_created identity make requests
    instances_eq := hledger.instances_eq
    of_release_eq_ok := fun _ h => hbalanced.of_release_eq_ok h
    closed_iff := hledger.closed_iff
    lists_of_closed := hbalanced.lists_of_closed
    refused_of_closed := fun hclosed =>
      ⟨acquire_eq_of_closed hclosed, hbalanced.release_eq_of_closed hclosed⟩
    reclaimed_eq := fun hopen => ⟨rfl, hledger.length_checkedOut hopen⟩
    of_acquire_eq_error := fun _ h => acquire_fst_of_eq_error h
    of_release_eq_error := fun _ _ h => release_fst_of_eq_error h }

end Recycler
end ClassAtlas
