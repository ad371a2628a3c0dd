import ClassAtlas.Proofs.Reading.Levels
import ClassAtlas.Signature.Parse

namespace ClassAtlas

/-!
# The levels of signatures

Every type is a level, and all levels are closed, whether the type is read or not.  A class type
that stands where no other type may stand is none.

* `JavaType.outlineAt`, `JavaType.outline` — types;
* `ClassType.outlineWith`, `ClassType.outline` — class types, around the types inside them;
* `TypeParameter.outline`, `outlineThrown` and their like — declarations;
* `signatureInterface` — all that can be read from one text, one after the other.
-/

open Reader

variable {α : Type} {closing : Closing} {depth : Nat}

/-! ### Names -/

theorem flat_readIdentifier (ends : Char → Bool) : Flat closing (readIdentifier ends) := by
  refine flat_position.bind fun start => (flat_takeUntil _).bind fun bytes => ?_
  refine flat_ite (flat_malformed _) ?_
  split
  · exact flat_pure _
  · exact flat_malformed _

theorem flat_readTypeVariable : Flat closing (readTypeVariable : Reader (JavaType α)) :=
  (flat_expect 'T').bind fun _ => (flat_readIdentifier _).bind fun _ =>
    (flat_expect ';').bind fun _ => flat_pure _

/-! ### Types, given the levels of the types inside -/

section

variable {type : Reader (JavaType α)} (inside : Outline closing depth type)

/-- A type that is not primitive. -/
def outlineReferenceWith : Outline closing depth (readReferenceWith type) :=
  .bind (.flat flat_peek) fun _ =>
    .ite inside (.flat (flat_position.bind fun _ => flat_malformed _))

/-- A type argument. -/
def outlineArgumentWith : Outline closing depth (readArgumentWith type) :=
  let reference := outlineReferenceWith inside
  .congr (readArgumentWith_eq type) <| .bind (.flat flat_peek) fun _ =>
    .ite (.flat (flat_skip_one.bind fun _ => flat_pure _)) <|
    .ite (.bind (.flat flat_skip_one) fun _ => .bind reference fun _ => .flat (flat_pure _)) <|
    .ite (.bind (.flat flat_skip_one) fun _ => .bind reference fun _ => .flat (flat_pure _))
      reference

/-- Type arguments. -/
def outlineArgumentsWith : Outline closing depth (readArgumentsWith type) :=
  .bind (.flat (flat_expect '<')) fun _ =>
    .bind ((outlineArgumentWith inside).untilByte '>') fun _ =>
      .flat (flat_ite ((flat_malformed _).bind fun _ => flat_pure _) (flat_pure _))

/-- One class of a class type. -/
def outlineSegmentWith : Outline closing depth (readSegmentWith type) :=
  .bind (.flat (flat_readIdentifier _)) fun _ => .bind (.flat flat_peek) fun _ =>
    .ite (.bind (outlineArgumentsWith inside) fun _ => .flat (flat_pure _))
      (.flat ((flat_pure _).bind fun _ => flat_pure _))

/-- The classes behind those already read. -/
def outlineSegmentsWith : (bound : Nat) → (read : ClassType α) →
    Outline closing depth (readSegmentsWith type bound read)
  | 0, _ => .flat flat_outOfBounds
  | bound + 1, read => .congr (readSegmentsWith_eq type bound read) <|
    .bind (outlineSegmentWith inside) fun _ => .bind (.flat flat_position) fun _ =>
      .bind (.flat flat_u8) fun _ => .ite (.flat (flat_pure _)) <|
      .ite (outlineSegmentsWith bound _) (.flat (flat_malformed _))

/-- A class type. -/
def ClassType.outlineWith : Outline closing depth (ClassType.readWith type) :=
  .bind (.flat (flat_expect 'L')) fun _ => .look fun rest _ =>
    outlineSegmentsWith inside rest.length []

end

/-! ### Types -/

theorem flat_readBrackets : Flat closing readBrackets :=
  flat_look (fun _ => (flat_skip _).bind fun _ => flat_peek.bind fun _ => flat_pure _)
    fun _ _ => rfl

theorem flat_readPrimitive (next : UInt8) (allowVoid : Bool) :
    Flat closing
      (match Primitive.ofDescriptor? (Text.latin1 next) with
        | some kind =>
          if kind = .void ∧ !allowVoid then do malformed (.misplacedVoid (← position))
          else do
            skip 1
            return .primitive kind []
        | none => do malformed (.unexpectedType next (← position)) : Reader (JavaType α)) := by
  cases Primitive.ofDescriptor? (Text.latin1 next) with
  | some kind =>
    exact flat_ite (flat_position.bind fun _ => flat_malformed _)
      (flat_skip_one.bind fun _ => flat_pure _)
  | none => exact flat_position.bind fun _ => flat_malformed _

/-- A type is a level, and so are the types inside it.  How many levels can be opened goes down as
    the counter goes up. -/
def JavaType.outlineAt : (room depth : Nat) → room = nestingLimit - 1 - depth →
    (allowVoid : Bool) → Outline .always depth (readAt room allowVoid : Reader (JavaType α))
  -- No room is left: the counter would come to the limit.
  | 0, _, h, _ => .refused (by omega)
  | room + 1, depth, h, allowVoid =>
    let inside := outlineAt room (depth + 1) (by omega) false
    .congr (readAt_succ room allowVoid) <| .level (by omega) <| .bind (.flat flat_peek) fun next =>
      .ite (.bind (ClassType.outlineWith inside) fun _ => .flat (flat_pure _)) <|
      .ite (.flat flat_readTypeVariable) <|
      .ite (.bind (.flat flat_readBrackets) fun _ => .bind inside fun _ => .flat (flat_pure _)) <|
      .flat (flat_readPrimitive next allowVoid)

theorem JavaType.read_eq (allowVoid : Bool) : (read allowVoid : Reader (JavaType α))
    = get >>= fun place : Cursor => readAt (nestingLimit - 1 - place.depth) allowVoid := rfl

/-- A type at the present level. -/
def JavaType.outline (depth : Nat) (allowVoid : Bool) :
    Outline .always depth (read allowVoid : Reader (JavaType α)) :=
  .congr (read_eq allowVoid) <| .look fun _ _ => outlineAt _ depth rfl allowVoid

/-- A class type at the present level. -/
def ClassType.outline (depth : Nat) : Outline .always depth (read : Reader (ClassType α)) :=
  outlineWith (JavaType.outline depth false)

/-! ### Declarations -/

/-- A declared type variable. -/
def TypeParameter.outline (depth : Nat) :
    Outline .always depth (read : Reader (TypeParameter α)) :=
  let bound := outlineReferenceWith (JavaType.outline depth false)
  .bind (.flat (flat_readIdentifier _)) fun _ => .bind (.flat (flat_expect ':')) fun _ =>
    .bind (.flat flat_peek) fun _ =>
      .ite (.bind (bound.map some) fun _ => .bind (bound.marked ':') fun _ => .flat (flat_pure _))
        (.bind (.flat (flat_pure _)) fun _ => .bind (bound.marked ':') fun _ =>
          .flat (flat_pure _))

/-- Declared type variables. -/
def outlineTypeParameters (depth : Nat) :
    Outline .always depth (readTypeParameters : Reader (List (TypeParameter α))) :=
  .look fun rest _ =>
    match rest with
    | [] => .flat (flat_pure _)
    | _ :: _ => .ite (.flat (flat_pure _)) <| .bind (.flat flat_skip_one) fun _ =>
      .bind ((TypeParameter.outline depth).untilByte '>') fun _ =>
        .flat (flat_ite ((flat_malformed _).bind fun _ => flat_pure _) (flat_pure _))

/-- A thrown type. -/
def outlineThrown (depth : Nat) : Outline .always depth (readThrown : Reader (JavaType α)) :=
  .congr readThrown_eq <| .bind (.flat (flat_expect '^')) fun _ => .bind (.flat flat_peek) fun _ =>
    .ite (.bind (ClassType.outline depth) fun _ => .flat (flat_pure _)) <|
    .ite (.flat flat_readTypeVariable) (.flat (flat_malformed _))

/-! ### Whole texts -/

theorem flat_readEnd : Flat closing readEnd :=
  flat_hasMore.bind fun _ => flat_ite (flat_position.bind fun _ => flat_malformed _) (flat_pure _)

/-- The type of a field. -/
def JavaType.outlineField (depth : Nat) :
    Outline .always depth (readField : Reader (JavaType α)) :=
  .bind (outline depth false) fun _ => .flat (flat_readEnd.bind fun _ => flat_pure _)

/-- The result type of a method. -/
def JavaType.outlineReturn (depth : Nat) :
    Outline .always depth (readReturn : Reader (JavaType α)) :=
  .bind (outline depth true) fun _ => .flat (flat_readEnd.bind fun _ => flat_pure _)

/-- The types of a method. -/
def MethodSignature.outline (depth : Nat) :
    Outline .always depth (read : Reader (MethodSignature α)) :=
  .bind (outlineTypeParameters depth) fun _ => .bind (.flat (flat_expect '(')) fun _ =>
    .bind ((JavaType.outline depth false).untilByte ')') fun _ =>
      .bind (JavaType.outline depth true) fun _ =>
        .bind (outlineThrown depth).untilEnd fun _ => .flat (flat_pure _)

/-- The type variables and supertypes of a class. -/
def ClassSignature.outline (depth : Nat) :
    Outline .always depth (read : Reader (ClassSignature α)) :=
  .bind (outlineTypeParameters depth) fun _ => .bind (ClassType.outline depth) fun _ =>
    .bind (ClassType.outline depth).untilEnd fun _ => .flat (flat_pure _)

/-! ### Calls -/

/-- What can be read from the text of a signature. -/
inductive SignatureCall where
  /-- The type of a field. -/
  | ofField
  /-- The result type of a method. -/
  | ofResult
  /-- The types of a method. -/
  | ofMethod
  /-- The type variables and supertypes of a class. -/
  | ofClass

/-- What was read. -/
inductive SignatureReply (α : Type) where
  | type (value : JavaType α)
  | ofMethod (value : MethodSignature α)
  | ofClass (value : ClassSignature α)

/-- Signatures, from one text. -/
def signatureInterface (α : Type) : Interface .always SignatureCall (SignatureReply α) where
  read
    | .ofField => .type <$> JavaType.readField
    | .ofResult => .type <$> JavaType.readReturn
    | .ofMethod => .ofMethod <$> MethodSignature.read
    | .ofClass => .ofClass <$> ClassSignature.read
  outline
    | .ofField, depth => (JavaType.outlineField depth).map SignatureReply.type
    | .ofResult, depth => (JavaType.outlineReturn depth).map SignatureReply.type
    | .ofMethod, depth => (MethodSignature.outline depth).map SignatureReply.ofMethod
    | .ofClass, depth => (ClassSignature.outline depth).map SignatureReply.ofClass

end ClassAtlas
