import ClassAtlas.Machine.Annotations
import ClassAtlas.Proofs.Machine.Pool
import ClassAtlas.Proofs.Machine.Signature

namespace ClassAtlas.Machine

/-!
# Annotations read by a position

Reading annotations by the position comes to the same end as the readers of annotations, and on no
bytes to a fault: the levels are refused before they run out, the rows of a table are too few for
their bytes not to be a word, and the texts of the pool can be addressed.

* `follows_readAt` — annotations and values, by induction on the levels;
* `follows_readTypeUse` — annotations on uses of types.
-/

variable {pool : Pool} {room : Nat}

/-! ### Annotations and values -/

theorem follows_readAnnotationWith {value : Step AnnotationValue}
    {valueReader : Reader AnnotationValue} (hvalue : Follows room value valueReader) :
    Follows room (readAnnotationWith pool value) (AnnotationUse.readWith pool valueReader) := by
  refine follows_u16.bind fun _ => (follows_outcome _).bind fun _ => follows_u16.bind fun _ => ?_
  refine (follows_times ?_ _).bind fun _ => follows_pure _
  exact follows_u16.bind fun _ => (follows_outcome _).bind fun _ => hvalue.bind fun _ =>
    follows_pure _

/-- The type in a class literal is read from a text of the pool. -/
theorem follows_parseReturnType (hpool : PoolAddressable pool) (index : UInt16) :
    Follows room
      (do
        let descriptor ← pool.utf8 index
        let type : BareType ← parseReturnType descriptor
        return .classLiteral type : Step AnnotationValue)
      (do
        let descriptor ← pool.utf8 index
        let type : BareType ← JavaType.parseReturn descriptor
        return .classLiteral type) := by
  refine (follows_outcome _).bindRead fun descriptor start stop hread => ?_
  have htext := hpool.utf8 (Reader.lift_eq_ok.mp hread).1
  exact (follows_lift (run_parseReturnType htext)).bind fun _ => follows_pure _

theorem follows_readValueWith (hpool : PoolAddressable pool) {note : Step AnnotationUse}
    {noteReader : Reader AnnotationUse} (hnote : Follows room note noteReader)
    {value : Step AnnotationValue} {valueReader : Reader AnnotationValue}
    (hvalue : Follows room value valueReader) :
    Follows room (readValueWith pool note value)
      (AnnotationValue.readWith pool noteReader valueReader) := by
  intro place inside hroom
  refine FollowsAt.tagged inside fun tag stop hreaches hposition => ?_
  have hstart {next : Step AnnotationValue} {nextReader : Reader AnnotationValue}
      (h : Follows room next nextReader) : FollowsAt stop next nextReader :=
    h stop (hreaches.inside inside) (hreaches.hasRoom hroom)
  split
  · exact hstart (follows_u16.bind fun _ => (follows_outcome _).bind fun _ => follows_pure _)
  generalize Text.latin1 tag = mark
  split
  · exact hstart (follows_u16.bind fun _ => (follows_outcome _).bind fun _ => follows_pure _)
  · exact hstart (follows_u16.bind fun _ => follows_u16.bind fun _ => (follows_outcome _).bind
      fun _ => (follows_outcome _).bind fun _ => follows_pure _)
  · exact hstart (follows_u16.bind fun _ => follows_parseReturnType hpool _)
  · exact hstart (hnote.bind fun _ => follows_pure _)
  · exact hstart (follows_u16.bind fun _ => (follows_times hvalue _).bind fun _ => follows_pure _)
  · rw [readBehindMark]
    · exact followsAt_lastPosition hposition _
    all_goals assumption

/-- **Annotations and values are read without a fault.** By induction on the levels, of which there
    are more than can be opened. -/
theorem follows_readAt (hpool : PoolAddressable pool) (levels room : Nat) (h : room < levels) :
    Follows room (readAnnotationAt pool levels) (AnnotationUse.readAt pool room)
      ∧ Follows room (readValueAt pool levels) (AnnotationValue.readAt pool room) := by
  induction levels generalizing room with
  | zero => exact absurd h (Nat.not_lt_zero _)
  | succ levels ih =>
    cases room with
    | zero => exact ⟨follows_tooDeep, follows_tooDeep⟩
    | succ room =>
      obtain ⟨hnote, hvalue⟩ := ih room (Nat.lt_of_succ_lt_succ h)
      exact ⟨follows_framed (follows_readAnnotationWith hvalue),
        follows_framed (follows_readValueWith hpool hnote hvalue)⟩

theorem follows_readAnnotationUse (hpool : PoolAddressable pool) :
    Follows allRoom (readAnnotationUse pool) (AnnotationUse.read pool) :=
  follows_room (follows_readAt hpool _ _ (by decide)).1

theorem follows_readValue (hpool : PoolAddressable pool) :
    Follows allRoom (readValue pool) (AnnotationValue.read pool) :=
  follows_room (follows_readAt hpool _ _ (by decide)).2

theorem follows_readAnnotations (hpool : PoolAddressable pool) :
    Follows allRoom (readAnnotations pool) (AnnotationUse.readList pool) :=
  follows_u16.bind fun _ => follows_times (follows_readAnnotationUse hpool) _

theorem follows_readParameterAnnotations (hpool : PoolAddressable pool) :
    Follows allRoom (readParameterAnnotations pool) (AnnotationUse.readParameters pool) :=
  follows_u8.bind fun _ => follows_times (follows_readAnnotations hpool) _

/-! ### Annotations on uses of types -/

/-- There are too few rows for the number of their bytes not to be a word. -/
theorem multiply_rows (rows : UInt16) : multiply rows.toNat 6 = .ok (rows.toNat * 6) := by
  have hrows := rows.toNat_lt
  have hlimit : 2 ^ 16 * 6 < wordLimit := by decide
  exact multiply_eq (by omega)

theorem follows_readTarget : Follows room readTarget AnnotationTarget.read := by
  have hbyte : ∀ target : UInt8 → AnnotationTarget,
      Follows room (do return target (← u8)) (do return target (← Reader.u8)) :=
    fun _ => follows_u8.bind fun _ => follows_pure _
  have hnumber : ∀ target : UInt16 → AnnotationTarget,
      Follows room (do return target (← u16)) (do return target (← Reader.u16)) :=
    fun _ => follows_u16.bind fun _ => follows_pure _
  have hbytes : ∀ target : UInt8 → UInt8 → AnnotationTarget,
      Follows room (do return target (← u8) (← u8))
        (do return target (← Reader.u8) (← Reader.u8)) :=
    fun _ => follows_u8.bind fun _ => follows_u8.bind fun _ => follows_pure _
  have hover : ∀ count,
      Follows room (do skip count; return .code : Step AnnotationTarget)
        (do Reader.skip count; return .code) :=
    fun count => (follows_skip count).bind fun _ => follows_pure _
  refine follows_u8.bind fun byte => ?_
  refine follows_ite (hbyte _) (follows_ite (hbyte _) (follows_ite (hnumber _) ?_))
  refine follows_ite (hbytes _) (follows_ite (hbytes _) (follows_ite (follows_pure _) ?_))
  refine follows_ite (follows_pure _) (follows_ite (follows_pure _) (follows_ite (hbyte _) ?_))
  refine follows_ite (hnumber _) (follows_ite ?_ (follows_ite (hover 2) (follows_ite (hover 3) ?_)))
  · exact follows_u16.bind fun rows => .afterGuarded (multiply_rows rows) (hover _)
  · exact follows_malformed _

theorem follows_readPathStep : Follows room readPathStep PathStep.read :=
  follows_u8.bind fun _ => follows_u8.bind fun _ => follows_outcome _

theorem follows_readPath : Follows room readPath TypePath.read :=
  follows_u8.bind fun _ => follows_times follows_readPathStep _

theorem follows_readTypeUse (hpool : PoolAddressable pool) :
    Follows allRoom (readTypeUse pool) (TypeUse.read pool) :=
  follows_readTarget.bind fun _ => follows_readPath.bind fun _ => follows_surface.bind fun _ =>
    (follows_readAnnotationUse hpool).bind fun _ => follows_pure _

theorem follows_readTypeUses (hpool : PoolAddressable pool) :
    Follows allRoom (readTypeUses pool) (TypeUse.readList pool) :=
  follows_u16.bind fun _ => follows_times (follows_readTypeUse hpool) _

end ClassAtlas.Machine
