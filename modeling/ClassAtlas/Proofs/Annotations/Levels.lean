import ClassAtlas.Annotations.Read
import ClassAtlas.Proofs.Signature.Levels

namespace ClassAtlas

/-!
# The levels of annotations

An annotation is a level, and so is a value.  A level is closed behind what was read, and stays open
where nothing was.

* `AnnotationUse.outlineWith`, `AnnotationValue.outlineWith` — one level, around those inside it;
* `AnnotationUse.outlineAt`, `AnnotationValue.outlineAt` — all levels;
* `annotationInterface` — all that can be read from one place in a class, one after the other;
* `levels_balanced` — the counter of signatures and the counter of annotations.
-/

open Reader

/-! ### One level, given the levels inside -/

/-- What is worked out elsewhere.  The type in a class literal is read from a text of its own, and
    its levels are counted there. -/
theorem flat_lift {α : Type} (outcome : Except Error α) :
    Flat .behindValue (liftM outcome : Reader α) where
  recounted_eq _ _ := by cases outcome <;> rfl
  unlimited := nofun

/-- The rules for values, as tests on the tag. -/
theorem AnnotationValue.readWith_eq (pool : Pool) (note : Reader AnnotationUse)
    (value : Reader AnnotationValue) :
    readWith pool note value = (do
      let offset ← position
      let tag ← u8
      if Text.latin1 tag ∈ constantTags then
        return .constant (← pool.constant (← u16) (Text.latin1 tag).toString)
      else if Text.latin1 tag = 's' then return .constant (.string (← pool.utf8 (← u16)))
      else if Text.latin1 tag = 'e' then
        let typeIndex ← u16
        let nameIndex ← u16
        let typeName ← pool.describedClass typeIndex
        return .enumConstant typeName (← pool.utf8 nameIndex)
      else if Text.latin1 tag = 'c' then
        let descriptor ← pool.utf8 (← u16)
        let type : BareType ← JavaType.parseReturn descriptor
        return .classLiteral type
      else if Text.latin1 tag = '@' then return .nested (← note)
      else if Text.latin1 tag = '[' then return .array (← times (← u16).toNat value)
      else malformed (.badElementTag tag offset)) := by
  unfold readWith
  refine bind_congr fun offset => bind_congr fun tag => ?_
  generalize Text.latin1 tag = mark
  refine if_congr Iff.rfl rfl ?_
  split
  case h_6 h1 h2 h3 h4 h5 => rw [if_neg h1, if_neg h2, if_neg h3, if_neg h4, if_neg h5]
  all_goals rfl

section

variable {depth : Nat} {note : Reader AnnotationUse} {value : Reader AnnotationValue}

/-- The fields of an annotation. -/
def AnnotationUse.outlineWith (pool : Pool) (valueInside : Outline .behindValue depth value) :
    Outline .behindValue depth (readWith pool value) :=
  let element : Outline .behindValue depth (do
      let name ← pool.utf8 (← u16)
      return (⟨name, ← value⟩ : AnnotationElement)) :=
    .bind (.flat flat_u16) fun _ => .bind (.flat (flat_lift _)) fun _ =>
      .bind valueInside fun _ => .flat (flat_pure _)
  .bind (.flat flat_u16) fun _ => .bind (.flat (flat_lift _)) fun _ =>
    .bind (.flat flat_u16) fun count => .bind (element.times count.toNat) fun _ =>
      .flat (flat_pure _)

/-- The tag of a value and what follows it. -/
def AnnotationValue.outlineWith (pool : Pool) (noteInside : Outline .behindValue depth note)
    (valueInside : Outline .behindValue depth value) :
    Outline .behindValue depth (readWith pool note value) :=
  .congr (readWith_eq pool note value) <| .bind (.flat flat_position) fun _ =>
    .bind (.flat flat_u8) fun _ =>
      .ite (.flat (flat_u16.bind fun _ => (flat_lift _).bind fun _ => flat_pure _)) <|
      .ite (.flat (flat_u16.bind fun _ => (flat_lift _).bind fun _ => flat_pure _)) <|
      .ite (.flat (flat_u16.bind fun _ => flat_u16.bind fun _ => (flat_lift _).bind fun _ =>
        (flat_lift _).bind fun _ => flat_pure _)) <|
      .ite (.flat (flat_u16.bind fun _ => (flat_lift _).bind fun _ => (flat_lift _).bind fun _ =>
        flat_pure _)) <|
      .ite (.bind noteInside fun _ => .flat (flat_pure _)) <|
      .ite (.bind (.flat flat_u16) fun count => .bind (valueInside.times count.toNat) fun _ =>
        .flat (flat_pure _)) <|
      .flat (flat_malformed _)

end

/-! ### All levels -/

mutual

/-- An annotation is a level, around its values. -/
def AnnotationUse.outlineAt (pool : Pool) : (room depth : Nat) →
    room = nestingLimit - 1 - depth → Outline .behindValue depth (AnnotationUse.readAt pool room)
  | 0, _, h => .refused (by omega)
  | room + 1, depth, h =>
    .level (by omega) (AnnotationUse.outlineWith pool
      (AnnotationValue.outlineAt pool room (depth + 1) (by omega)))
termination_by structural room => room

/-- A value is a level, around the annotation or the values in it. -/
def AnnotationValue.outlineAt (pool : Pool) : (room depth : Nat) →
    room = nestingLimit - 1 - depth → Outline .behindValue depth (AnnotationValue.readAt pool room)
  | 0, _, h => .refused (by omega)
  | room + 1, depth, h =>
    .level (by omega) (AnnotationValue.outlineWith pool
      (AnnotationUse.outlineAt pool room (depth + 1) (by omega))
      (AnnotationValue.outlineAt pool room (depth + 1) (by omega)))
termination_by structural room => room

end

theorem AnnotationUse.read_eq (pool : Pool) :
    read pool = get >>= fun place : Cursor => readAt pool (nestingLimit - 1 - place.depth) := rfl

theorem AnnotationValue.read_eq (pool : Pool) :
    read pool = get >>= fun place : Cursor => readAt pool (nestingLimit - 1 - place.depth) := rfl

/-- An annotation at the present level. -/
def AnnotationUse.outline (pool : Pool) (depth : Nat) : Outline .behindValue depth (read pool) :=
  .congr (read_eq pool) <| .look fun _ _ => outlineAt pool _ depth rfl

/-- A value at the present level. -/
def AnnotationValue.outline (pool : Pool) (depth : Nat) : Outline .behindValue depth (read pool) :=
  .congr (read_eq pool) <| .look fun _ _ => outlineAt pool _ depth rfl

/-- Annotations behind their count. -/
def AnnotationUse.outlineList (pool : Pool) (depth : Nat) :
    Outline .behindValue depth (readList pool) :=
  .bind (.flat flat_u16) fun count => (outline pool depth).times count.toNat

/-- The annotations of each parameter. -/
def AnnotationUse.outlineParameters (pool : Pool) (depth : Nat) :
    Outline .behindValue depth (readParameters pool) :=
  .bind (.flat flat_u8) fun count => (outlineList pool depth).times count.toNat

/-! ### Calls -/

/-- What can be read of the annotations of a class. -/
inductive AnnotationCall where
  /-- Annotations behind their count. -/
  | list
  /-- The annotations of each parameter. -/
  | parameters
  /-- An annotation. -/
  | single
  /-- A value. -/
  | value

/-- What was read. -/
inductive AnnotationReply where
  | list (notes : List AnnotationUse)
  | parameters (notes : List (List AnnotationUse))
  | single (note : AnnotationUse)
  | value (value : AnnotationValue)

/-- Annotations, from one place. -/
def annotationInterface (pool : Pool) :
    Interface .behindValue AnnotationCall AnnotationReply where
  read
    | .list => .list <$> AnnotationUse.readList pool
    | .parameters => .parameters <$> AnnotationUse.readParameters pool
    | .single => .single <$> AnnotationUse.read pool
    | .value => .value <$> AnnotationValue.read pool
  outline
    | .list, depth => (AnnotationUse.outlineList pool depth).map AnnotationReply.list
    | .parameters, depth =>
      (AnnotationUse.outlineParameters pool depth).map AnnotationReply.parameters
    | .single, depth => (AnnotationUse.outline pool depth).map AnnotationReply.single
    | .value, depth => (AnnotationValue.outline pool depth).map AnnotationReply.value

/-- **Levels are balanced,** in signatures and in annotations, whatever the bytes and the pool are
    and whatever was asked for before.  Behind a value the counter is as it was.  Behind a failure it
    is as it was in signatures, unless a type was one level too deep; in annotations it is raised by
    the frames that came to no value.  So it tells how the calls so far have ended.  In a frame
    nothing is read with the counter at the limit, and no frame is refused because of those in front
    of it, only because of those around it. -/
theorem levels_balanced :
    (∀ (α : Type) (data : List UInt8) (history : List SignatureCall) (call : SignatureCall),
      let interface := signatureInterface α
      let start := interface.after (.ofBytes data) history
      let events := interface.events start call
      start.depth = (interface.results (.ofBytes data) history).countP hitsLimit
        ∧ Tally .always start.depth 0 events (interface.read call start)
        ∧ ∀ event ∈ events, event.Refused → nestingLimit ≤ start.depth + event.level)
    ∧ ∀ (pool : Pool) (data : List UInt8) (offset : Nat) (history : List AnnotationCall)
      (call : AnnotationCall),
      let interface := annotationInterface pool
      let start := interface.after (.ofBytesAt data offset) history
      let events := interface.events start call
      start.depth = Event.count .abandoned (interface.allEvents (.ofBytesAt data offset) history)
        ∧ Tally .behindValue start.depth 0 events (interface.read call start)
        ∧ ∀ event ∈ events, event.Refused → nestingLimit ≤ start.depth + event.level := by
  constructor
  · intro α data history call interface start events
    have htally := interface.tally start call
    refine ⟨?_, htally, fun event hmem => htally.le_level_of_refused hmem⟩
    exact (interface.depth_after_always _ history).trans (Nat.zero_add _)
  · intro pool data offset history call interface start events
    have htally := interface.tally start call
    refine ⟨?_, htally, fun event hmem => htally.le_level_of_refused hmem⟩
    exact (interface.depth_after_behindValue _ history).trans (Nat.zero_add _)

/-- A type argument is a level inside the type, and both are closed. -/
example : ((signatureInterface Empty).events (.ofBytes (Text.utf8 "La<TT;>;")) .ofField).filter
      (·.action ≠ .step)
    = [⟨.entered, 1, 1⟩, ⟨.entered, 2, 2⟩, ⟨.lowered, 2, 2⟩, ⟨.completed, 2, 1⟩,
      ⟨.lowered, 1, 1⟩, ⟨.completed, 1, 0⟩] := by decide

/-- The array in an array has no length, and both stay open. -/
example : ((annotationInterface .empty).events (.ofBytes [0x5B, 0x00, 0x01, 0x5B]) .value).filter
      (·.action ≠ .step)
    = [⟨.entered, 1, 1⟩, ⟨.entered, 2, 2⟩, ⟨.abandoned, 2, 2⟩, ⟨.abandoned, 1, 2⟩] := by decide

end ClassAtlas
