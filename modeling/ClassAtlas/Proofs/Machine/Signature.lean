import ClassAtlas.Machine.Signature
import ClassAtlas.Proofs.Machine.Reading
import ClassAtlas.Proofs.Signature.DeclarationSoundness

namespace ClassAtlas.Machine

/-!
# Signatures read by a position

Reading a signature by the position comes to the same end as the reader of signatures, and on no
text to a fault: the levels are refused before they run out, and a loop uses up bytes until it ends.

* `follows_readTypeAt` — types, by induction on the levels;
* `follows_readMethodSignature`, `follows_readClassSignature` — whole texts;
* `run_parseFieldType` and its like — from texts that can be addressed.
-/

variable {α : Type} {room : Nat}

/-! ### Names -/

theorem follows_readIdentifier (ends : Char → Bool) :
    Follows room (readIdentifier ends) (ClassAtlas.readIdentifier ends) := by
  refine follows_position.bind fun start => (follows_takeUntil _).bind fun bytes => ?_
  refine follows_ite (follows_malformed _) ?_
  cases Text.ofUtf8? bytes with
  | some name => exact follows_pure name
  | none => exact follows_malformed _

theorem follows_readTypeVariable :
    Follows room readTypeVariable (ClassAtlas.readTypeVariable : Reader (JavaType α)) :=
  (follows_expect 'T').bind fun _ => (follows_readIdentifier _).bind fun _ =>
    (follows_expect ';').bind fun _ => follows_pure _

/-- Without bytes there is no name. -/
theorem readIdentifier_eq_error {ends : Char → Bool} {start : Cursor} (h : start.rest = []) :
    ClassAtlas.readIdentifier ends start = .error .outOfBounds start := by
  have hnone : Reader.takeUntil (fun byte => ends (Text.latin1 byte)) start
      = .error .outOfBounds start := Reader.takeUntil_eq_error (by rw [h]; simp)
  show (Reader.takeUntil (fun byte => ends (Text.latin1 byte)) >>= _ : Reader String) start = _
  rw [Reader.bind_apply, hnone]

/-! ### Types, given the step for the types inside -/

section

variable {type : Step (JavaType α)} {typeReader : Reader (JavaType α)}
  (htype : Follows room type typeReader)

include htype

theorem follows_readReferenceWith :
    Follows room (readReferenceWith type) (ClassAtlas.readReferenceWith typeReader) :=
  follows_peek.bind fun _ => follows_ite htype
    (follows_position.bind fun _ => follows_malformed _)

theorem follows_readArgumentWith :
    Follows room (readArgumentWith type) (ClassAtlas.readArgumentWith typeReader) := by
  have hreference := follows_readReferenceWith htype
  rw [readArgumentWith_eq]
  refine follows_peek.bind fun next => follows_ite ?_ (follows_ite ?_ (follows_ite ?_ hreference))
  · exact (follows_skip 1).bind fun _ => follows_pure _
  · exact (follows_skip 1).bind fun _ => hreference.bind fun _ => follows_pure _
  · exact (follows_skip 1).bind fun _ => hreference.bind fun _ => follows_pure _

variable (hargument : Consumes room (ClassAtlas.readArgumentWith typeReader))

include hargument

theorem follows_readArgumentsWith :
    Follows room (readArgumentsWith type) (ClassAtlas.readArgumentsWith typeReader) :=
  (follows_expect '<').bind fun _ =>
    (follows_untilByte (follows_readArgumentWith htype) hargument _).bind fun _ =>
      follows_ite ((follows_malformed _).bind fun _ => follows_pure _) (follows_pure _)

theorem follows_readSegmentWith :
    Follows room (readSegmentWith type) (ClassAtlas.readSegmentWith typeReader) :=
  (follows_readIdentifier _).bind fun _ => follows_peek.bind fun _ => follows_ite
    ((follows_readArgumentsWith htype hargument).bind fun _ => follows_pure _)
    ((follows_pure _).bind fun _ => follows_pure _)

/-- Every class uses up a byte, and so the classes end before their bound. -/
theorem followsAt_readSegmentsWith (bound : Nat) (read : ClassType α) {place : Place}
    (inside : place.Inside) (hroom : place.HasRoom room)
    (hbound : place.cursor.rest.length ≤ bound) :
    FollowsAt place (readSegmentsWith type (bound + 1) read)
      (ClassAtlas.readSegmentsWith typeReader bound read) := by
  have hsegment := follows_readSegmentWith htype hargument
  induction bound generalizing place read with
  | zero =>
    obtain ⟨outcome, hrun, halike⟩ := hsegment place inside hroom
    have hempty := List.eq_nil_of_length_eq_zero (Nat.le_zero.mp hbound)
    rw [ClassAtlas.readSegmentWith, Reader.bind_apply, readIdentifier_eq_error hempty] at halike
    cases halike with
    | error hdepth => exact ⟨_, run_bind_of_error hrun, .error hdepth⟩
  | succ bound ih =>
    rw [readSegmentsWith_eq]
    refine (hsegment place inside hroom).bind fun segment middle hreaches _ => ?_
    have hinside := hreaches.inside inside
    refine FollowsAt.tagged hinside fun found stop hpassed hposition => ?_
    have hboth := hreaches.trans hpassed
    split
    · exact follows_pure _ stop (hboth.inside inside) (hboth.hasRoom hroom)
    split
    · refine ih _ (hboth.inside inside) (hboth.hasRoom hroom) ?_
      have hle := hreaches.position_le
      rw [Place.length_rest] at hbound ⊢
      rw [hboth.data_eq]
      omega
    · exact followsAt_lastPosition hposition _

theorem follows_readClassTypeWith :
    Follows room (readClassTypeWith type) (ClassType.readWith typeReader) := by
  refine (follows_expect 'L').bind fun _ => ?_
  intro place inside hroom
  refine FollowsAt.remainingBind ?_
  exact followsAt_readSegmentsWith htype hargument _ [] inside hroom (Nat.le_refl _)

end

/-! ### Types -/

/-- How many brackets there are at a place. -/
def Place.brackets (place : Place) : Nat :=
  (place.cursor.rest.takeWhile (Text.latin1 · = '[')).length

theorem Place.rest_advance_one (place : Place) :
    (place.advance 1).cursor.rest = place.cursor.rest.tail := by
  rw [← List.drop_one]
  exact List.drop_drop.symm

/-- The brackets are counted one by one, and something has to follow. -/
theorem run_readBracketsAfter {place : Place} (inside : place.Inside) (bound dimensions : Nat)
    (hbound : place.cursor.rest.length ≤ bound)
    (hword : dimensions + place.cursor.rest.length < wordLimit) :
    (readBracketsAfter (bound + 1) dimensions).run.run place
      = .ok (if place.position + place.brackets < place.data.length
          then .ok (dimensions + place.brackets) else .error .outOfBounds,
        place.advance place.brackets) := by
  have hlength := place.length_rest
  induction bound generalizing place dimensions with
  | zero =>
    have hempty := List.eq_nil_of_length_eq_zero (Nat.le_zero.mp hbound)
    have hnone : place.brackets = 0 := by rw [Place.brackets, hempty]; rfl
    rw [readBracketsAfter, run_bind_of_error (run_peek_end hempty), hnone, if_neg (by omega)]
    rfl
  | succ bound ih =>
    rw [readBracketsAfter]
    cases hrest : place.cursor.rest with
    | nil =>
      have hnone : place.brackets = 0 := by rw [Place.brackets, hrest]; rfl
      rw [hrest, List.length_nil] at hlength
      rw [run_bind_of_error (run_peek_end hrest), hnone, if_neg (by omega)]
      rfl
    | cons byte more =>
      rw [hrest, List.length_cons] at hlength hbound hword
      rw [run_bind_of_ok (run_peek (congrArg List.head? hrest))]
      by_cases hbracket : Text.latin1 byte = '['
      · have hfits : place.position + 1 ≤ place.data.length := by omega
        have htail : (place.advance 1).cursor.rest = more := by
          rw [place.rest_advance_one, hrest, List.tail_cons]
        have hmore : place.brackets = (place.advance 1).brackets + 1 := by
          rw [Place.brackets, Place.brackets, htail, hrest,
            List.takeWhile_cons_of_pos (by simpa using hbracket), List.length_cons]
        have hinside := (Place.reaches_advance hfits).inside inside
        rw [if_pos hbracket, run_bind_of_ok (run_skip inside hfits),
          run_bind_of_ok (run_lift (add_eq (by omega))),
          ih hinside (dimensions + 1) (by rw [htail]; omega) (by rw [htail]; omega)
            (Place.length_rest _), hmore]
        have hsum : ∀ first count : Nat, first + 1 + count = first + (count + 1) := by omega
        show Except.ok (if place.position + 1 + _ < place.data.length then
          Except.ok (dimensions + 1 + _) else _, Place.mk place.data (place.position + 1 + _) _) = _
        rw [hsum, hsum]
        rfl
      · have hnone : place.brackets = 0 := by
          rw [Place.brackets, hrest, List.takeWhile_cons_of_neg (by simpa using hbracket)]
          rfl
        rw [if_neg hbracket, hnone, if_pos (by omega)]
        rfl

theorem follows_readBrackets : Follows room readBrackets ClassAtlas.readBrackets := by
  intro place inside _
  have hle : place.brackets ≤ place.cursor.rest.length := (List.takeWhile_prefix _).length_le
  have hlength := place.length_rest
  have hinside := inside.position_le
  have hfits : place.position + place.brackets ≤ place.data.length := by omega
  have hword := inside.length_lt
  have hskip : Reader.skip place.brackets place.cursor
      = .ok () (place.advance place.brackets).cursor :=
    Reader.skip_eq_ok.mpr ⟨_, Place.passes_advance hfits⟩
  have hrun := run_readBracketsAfter inside _ 0 (Nat.le_refl _) (by omega)
  rw [Nat.zero_add, hlength] at hrun
  have hread : ClassAtlas.readBrackets place.cursor
      = (do let _ ← Reader.peek; return place.brackets : Reader Nat)
        (place.advance place.brackets).cursor := by
    show (do Reader.skip place.brackets; let _ ← Reader.peek; return place.brackets : Reader Nat)
      place.cursor = _
    rw [Reader.bind_apply, hskip]
  -- What is looked at behind the brackets is not needed, only that it is there.
  by_cases hmore : place.position + place.brackets < place.data.length
  · rw [if_pos hmore] at hrun
    refine .of_ok hrun ?_ (Place.reaches_advance hfits)
    have hhead : (place.advance place.brackets).cursor.rest.head?
        = some place.data[place.position + place.brackets] := by
      rw [Place.head?_rest]
      exact List.getElem?_eq_getElem hmore
    rw [hread, Reader.bind_apply, Reader.peek_eq_ok.mpr ⟨hhead, rfl⟩]
    rfl
  · rw [if_neg hmore] at hrun
    have hempty : (place.advance place.brackets).cursor.rest = [] :=
      List.drop_eq_nil_of_le (Nat.not_lt.mp hmore)
    refine ⟨_, hrun, ?_⟩
    rw [hread, Reader.bind_apply, Reader.peek_eq_error hempty]
    exact .error (Nat.le_refl _)

/-- Every type argument uses up a byte. -/
theorem consumes_readArgumentWith (room : Nat) :
    Consumes room (ClassAtlas.readArgumentWith (JavaType.readAt room false : Reader (JavaType α))) :=
  consumes_of_accounts
    (fun depth _ => givesTypes_readArgumentWith (JavaType.givesTypes_readAt room false depth))
    fun _ _ h => h.ne_nil

/-- **Types are read without a fault.** By induction on the levels, of which there are more than can
    be opened: the last one is refused before the recursion would be endless. -/
theorem follows_readTypeAt (levels room : Nat) (h : room < levels) (allowVoid : Bool) :
    Follows room (readTypeAt levels allowVoid)
      (JavaType.readAt room allowVoid : Reader (JavaType α)) := by
  induction levels generalizing room allowVoid with
  | zero => exact absurd h (Nat.not_lt_zero _)
  | succ levels ih =>
    rw [readTypeAt]
    cases room with
    | zero => exact follows_tooDeep
    | succ room =>
      have htype := ih room (Nat.lt_of_succ_lt_succ h) false
      rw [JavaType.readAt_succ]
      refine follows_nested (follows_peek.bind fun next => ?_)
      refine follows_ite ?_ (follows_ite follows_readTypeVariable (follows_ite ?_ ?_))
      · exact (follows_readClassTypeWith htype (consumes_readArgumentWith room)).bind fun _ =>
          follows_pure _
      · exact follows_readBrackets.bind fun _ => htype.bind fun _ => follows_pure _
      · cases Primitive.ofDescriptor? (Text.latin1 next) with
        | some kind =>
          exact follows_ite (follows_position.bind fun _ => follows_malformed _)
            ((follows_skip 1).bind fun _ => follows_pure _)
        | none => exact follows_position.bind fun _ => follows_malformed _

theorem follows_readType (h : room < Reader.nestingLimit) (allowVoid : Bool) :
    Follows room (readType allowVoid) (JavaType.read allowVoid : Reader (JavaType α)) :=
  follows_room (follows_readTypeAt _ room h allowVoid)

/-! ### Declarations -/

/-- All levels are left. -/
abbrev allRoom : Nat := Reader.nestingLimit - 1

theorem follows_readWhole (allowVoid : Bool) :
    Follows allRoom (readType allowVoid) (JavaType.read allowVoid : Reader (JavaType α)) :=
  follows_readType (by decide) allowVoid

/-- A reader whose values have a written form that is not empty, where no level is open. -/
theorem consumes_of_accounts_start {β : Type} {reader : Reader β} {write : β → List UInt8}
    {Legal : β → List UInt8 → Prop} (h : Reader.Accounts reader 0 write Legal)
    (hne : ∀ value after, Legal value after → write value ≠ []) : Consumes allRoom reader := by
  refine consumes_of_accounts (fun depth hdepth => ?_) hne
  obtain rfl : depth = 0 := by
    have hall : depth + (Reader.nestingLimit - 1) + 1 = Reader.nestingLimit := hdepth
    omega
  exact h

theorem follows_readClassType :
    Follows allRoom readClassType (ClassType.read : Reader (ClassType α)) :=
  follows_readClassTypeWith (follows_readWhole false)
    (consumes_of_accounts_start (givesTypes_readArgumentWith (JavaType.givesTypes_read false))
      fun _ _ h => h.ne_nil)

theorem follows_readTypeParameter :
    Follows allRoom readTypeParameter (TypeParameter.read : Reader (TypeParameter α)) := by
  have htype := follows_readReferenceWith (follows_readWhole (α := α) false)
  refine (follows_readIdentifier _).bind fun name => (follows_expect ':').bind fun _ => ?_
  refine follows_peek.bind fun next => follows_ite ?_ ?_
  · exact (htype.map some).bind fun _ => (follows_marked htype _).bind fun _ => follows_pure _
  · exact (follows_pure _).bind fun _ => (follows_marked htype _).bind fun _ => follows_pure _

/-- Whether there is a next byte, and then which one. -/
theorem readTypeParameters_eq :
    (ClassAtlas.readTypeParameters : Reader (List (TypeParameter α))) = (do
      if ← Reader.hasMore then
        let next ← Reader.peek
        if Text.latin1 next ≠ '<' then return []
        else
          Reader.skip 1
          let parameters ← Reader.untilByte '>' TypeParameter.read
          if parameters.isEmpty then Reader.malformed .noTypeParameters
          return parameters
      else return []) := by
  funext start
  obtain ⟨rest, position, depth⟩ := start
  cases rest with
  | nil => rfl
  | cons next more => rfl

theorem follows_readTypeParameters :
    Follows allRoom readTypeParameters
      (ClassAtlas.readTypeParameters : Reader (List (TypeParameter α))) := by
  have hparameter : Consumes allRoom (TypeParameter.read : Reader (TypeParameter α)) :=
    consumes_of_accounts_start TypeParameter.accounts_read
      fun parameter _ _ => parameter.utf8_encode_ne_nil
  have hbracketed : Follows allRoom
      (do
        skip 1
        let parameters ← untilByte '>' readTypeParameter
        if parameters.isEmpty then malformed .noTypeParameters
        return parameters : Step (List (TypeParameter α)))
      (do
        Reader.skip 1
        let parameters ← Reader.untilByte '>' TypeParameter.read
        if parameters.isEmpty then Reader.malformed .noTypeParameters
        return parameters) :=
    (follows_skip 1).bind fun _ =>
      (follows_untilByte follows_readTypeParameter hparameter _).bind fun _ =>
        follows_ite ((follows_malformed _).bind fun _ => follows_pure _) (follows_pure _)
  intro place inside hroom
  rw [readTypeParameters_eq]
  refine (follows_hasMore place inside hroom).bind fun more stop hreaches _ => ?_
  have hinside := hreaches.inside inside
  have hstop := hreaches.hasRoom hroom
  refine follows_ite (follows_peek.bind fun next => ?_) (follows_pure _) stop hinside hstop
  exact follows_ite (follows_pure _) hbracketed

theorem follows_readThrown :
    Follows allRoom readThrown (ClassAtlas.readThrown : Reader (JavaType α)) := by
  rw [readThrown_eq]
  refine (follows_expect '^').bind fun _ => follows_peek.bind fun next => ?_
  refine follows_ite ?_ (follows_ite follows_readTypeVariable (follows_malformed _))
  exact follows_readClassType.bind fun _ => follows_pure _

/-! ### Whole texts -/

theorem follows_readEnd : Follows room readEnd ClassAtlas.readEnd :=
  follows_hasMore.bind fun _ => follows_ite
    (follows_position.bind fun _ => follows_malformed _) (follows_pure _)

theorem follows_readFieldType :
    Follows allRoom readFieldType (JavaType.readField : Reader (JavaType α)) :=
  (follows_readWhole false).bind fun _ => follows_readEnd.bind fun _ => follows_pure _

theorem follows_readReturnType :
    Follows allRoom readReturnType (JavaType.readReturn : Reader (JavaType α)) :=
  (follows_readWhole true).bind fun _ => follows_readEnd.bind fun _ => follows_pure _

theorem follows_readMethodSignature :
    Follows allRoom readMethodSignature (MethodSignature.read : Reader (MethodSignature α)) := by
  have hparameter : Consumes allRoom (JavaType.read false : Reader (JavaType α)) :=
    consumes_of_accounts_start (JavaType.givesTypes_read false) fun _ _ h => h.ne_nil
  have hthrown : Consumes allRoom (ClassAtlas.readThrown : Reader (JavaType α)) :=
    consumes_of_accounts_start accounts_readThrown fun _ _ _ => List.cons_ne_nil _ _
  refine follows_readTypeParameters.bind fun _ => (follows_expect '(').bind fun _ => ?_
  refine (follows_untilByte (follows_readWhole false) hparameter _).bind fun _ => ?_
  exact (follows_readWhole true).bind fun _ =>
    (follows_untilEnd follows_readThrown hthrown).bind fun _ => follows_pure _

theorem follows_readClassSignature :
    Follows allRoom readClassSignature (ClassSignature.read : Reader (ClassSignature α)) := by
  have hinterface : Consumes allRoom (ClassType.read : Reader (ClassType α)) :=
    consumes_of_accounts_start ClassType.accounts_read
      fun _ _ h => JavaType.utf8_encode_ne_nil ⟨h.1, h.2.wellFormed⟩
  exact follows_readTypeParameters.bind fun _ => follows_readClassType.bind fun _ =>
    (follows_untilEnd follows_readClassType hinterface).bind fun _ => follows_pure _

/-! ### From texts -/

section

variable {text : String} (htext : (Text.utf8 text).length < wordLimit)

include htext

theorem run_parseFieldType :
    (parseFieldType text : Checked (JavaType α)).run = .ok (JavaType.parseField text) :=
  value_of_follows follows_readFieldType htext

theorem run_parseReturnType :
    (parseReturnType text : Checked (JavaType α)).run = .ok (JavaType.parseReturn text) :=
  value_of_follows follows_readReturnType htext

theorem run_parseMethodSignature :
    (parseMethodSignature text : Checked (MethodSignature α)).run
      = .ok (MethodSignature.parse text) :=
  value_of_follows follows_readMethodSignature htext

theorem run_parseClassSignature :
    (parseClassSignature text : Checked (ClassSignature α)).run
      = .ok (ClassSignature.parse text) :=
  value_of_follows follows_readClassSignature htext

end

end ClassAtlas.Machine
