import ClassAtlas.Machine.Attribute
import ClassAtlas.Proofs.Machine.Annotations
import ClassAtlas.Proofs.ClassFile.Layout

namespace ClassAtlas.Machine

/-!
# Attributes read by a position

Reading attributes by the position comes to the same end as the readers of attributes, and on no
bytes to a fault: the number of an attribute's bytes is a number of four bytes, so a position in
them is a word.

* `Yields` — what a reader gives has a property;
* `settles_contents` — what stands in the bytes of one attribute;
* `settles_fieldAttributes`, `settles_methodAttributes`, `settles_classAttributes` — all attributes
  of a table, and that the texts in them can be addressed.
-/

variable {α β : Type} {pool : Pool} {room : Nat}

/-! ### What readers give -/

/-- Whatever the reader gives has the property. -/
def Yields (Fine : α → Prop) (reader : Reader α) : Prop :=
  ∀ ⦃start value stop⦄, reader start = .ok value stop → Fine value

theorem Yields.value {Fine : α → Prop} {reader : Reader α} (h : Yields Fine reader)
    (bytes : List UInt8) : Gives Fine (reader.value bytes) := by
  intro value hvalue
  unfold Reader.value at hvalue
  split at hvalue
  · rename_i hread
    cases hvalue
    exact h hread
  · cases hvalue

theorem Yields.bind {Fine : α → Prop} {Good : β → Prop} {reader : Reader α}
    {next : α → Reader β} (first : Yields Fine reader)
    (second : ∀ value, Fine value → Yields Good (next value)) : Yields Good (reader >>= next) := by
  intro start value stop hread
  obtain ⟨middle, place, hmiddle, hnext⟩ := Reader.bind_eq_ok.mp hread
  exact second middle (first hmiddle) hnext

theorem Yields.after {Fine : β → Prop} {reader : Reader α} {next : α → Reader β}
    (h : ∀ value, Yields Fine (next value)) : Yields Fine (reader >>= next) := by
  have hany : Yields (fun _ => True) reader := fun _ _ _ _ => trivial
  exact hany.bind fun value _ => h value

theorem yields_lift {Fine : α → Prop} {outcome : Except Error α} (h : Gives Fine outcome) :
    Yields Fine (liftM outcome : Reader α) :=
  fun _ value _ hread => h value (Reader.lift_eq_ok.mp hread).1

theorem yields_times {Fine : α → Prop} {item : Reader α} (h : Yields Fine item) (count : Nat) :
    Yields (fun values => ∀ value ∈ values, Fine value) (Reader.times count item) := by
  suffices ∀ read : List α, (∀ value ∈ read, Fine value) →
      Yields (fun values => ∀ value ∈ values, Fine value) (Reader.timesAfter item count read) from
    this [] (List.forall_mem_nil _)
  induction count with
  | zero =>
    rintro read hread start value stop ⟨⟩
    simpa using hread
  | succ count ih =>
    intro read hread start values stop hrun
    obtain ⟨value, place, hitem, hrest⟩ := Reader.bind_eq_ok.mp hrun
    exact ih (value :: read) (List.forall_mem_cons.mpr ⟨h hitem, hread⟩) hrest

/-! ### The table -/

theorem follows_readAttributeTable :
    Follows room (readAttributeTable pool) (RawAttribute.readTable pool) :=
  follows_u16.bind fun _ => follows_times
    (follows_u16.bind fun _ => (follows_outcome _).bind fun _ => follows_u32.bind fun _ =>
      (follows_bytes _).bind fun _ => follows_pure _) _

/-- An attribute in whose bytes a position is a word. -/
def AttributeAddressable (item : RawAttribute) : Prop := item.body.length < wordLimit

theorem yields_readTable :
    Yields (fun table => ∀ item ∈ table, AttributeAddressable item)
      (RawAttribute.readTable pool) := by
  refine .after fun count => yields_times (.after fun _ => .after fun name => .after fun length => ?_) _
  intro start item stop hread
  obtain ⟨body, place, hbody, hitem⟩ := Reader.bind_eq_ok.mp hread
  cases hitem
  show body.length < wordLimit
  rw [(Reader.bytes_eq_ok.mp hbody).2]
  exact length.toNat_lt.trans (by decide)

/-- What stands in the bytes of an attribute is read without a fault, from their start. -/
theorem settles_contents {item : RawAttribute} (hitem : AttributeAddressable item) {step : Step α}
    {reader : Reader α} (h : Follows allRoom step reader) :
    Settles (contents item step) (item.contents reader) :=
  value_of_follows h hitem

theorem follows_readUtf8 : Follows room (readUtf8 pool) (ClassAtlas.readUtf8 pool) :=
  follows_u16.bind fun _ => follows_outcome _

theorem yields_readUtf8 (hpool : PoolAddressable pool) :
    Yields (fun text => (Text.utf8 text).length < wordLimit) (ClassAtlas.readUtf8 pool) :=
  .after fun _ => yields_lift fun _ htext => hpool.utf8 htext

theorem follows_readClassName :
    Follows room (readClassName pool) (do pool.className (← Reader.u16)) :=
  follows_u16.bind fun _ => follows_outcome _

theorem yields_readClassName (hpool : PoolAddressable pool) :
    Yields (fun name => byteLength name.toList < wordLimit)
      (do pool.className (← Reader.u16) : Reader String) :=
  .after fun _ => yields_lift fun _ hname => hpool.className hname

/-- A number that is not used. -/
theorem follows_passOver {next : Step α} {nextReader : Reader α} (h : Follows room next nextReader) :
    Follows room (do let _ ← u16; next) (do Reader.skip 2; nextReader) := by
  have hreader : (do Reader.skip 2; nextReader) = (do let _ ← Reader.u16; nextReader) := by
    simp only [Reader.skip, Reader.u16, Reader.number, bind_assoc, pure_bind]
  rw [hreader]
  exact follows_u16.bind fun _ => h

theorem follows_readParameterName :
    Follows room (readParameterName pool) (ClassAtlas.readParameterName pool) :=
  follows_u16.bind fun _ => follows_passOver <|
    follows_ite (follows_pure _) ((follows_outcome _).bind fun _ => follows_pure _)

theorem follows_readInnerClass : Follows room (readInnerClass pool) (InnerClass.read pool) :=
  follows_u16.bind fun _ => (follows_outcome _).bind fun _ => follows_u16.bind fun _ =>
    (follows_outcome _).bind fun _ => follows_passOver <| follows_u16.bind fun _ => follows_pure _

theorem follows_readEnclosingMethod :
    Follows room (readEnclosingMethod pool) (EnclosingMethod.read pool) :=
  follows_u16.bind fun _ => (follows_outcome _).bind fun _ => follows_u16.bind fun _ =>
    follows_ite (follows_pure _) ((follows_outcome _).bind fun _ => follows_pure _)

/-- The rows of member classes do not touch the signature. -/
theorem signature_foldl_addInner (self : String) (rows : List InnerClass)
    (known : ClassAttributes) :
    (rows.foldl (ClassAttributes.addInner self) known).signature = known.signature := by
  induction rows generalizing known with
  | nil => rfl
  | cons row rest ih =>
    rw [List.foldl_cons, ih, ClassAttributes.addInner]
    split
    · rfl
    · split <;> rfl

/-! ### Signatures -/

/-- A signature, if there is one, in which a position is a word. -/
def SignatureAddressable (signature : Option String) : Prop :=
  ∀ text ∈ signature, (Text.utf8 text).length < wordLimit

theorem signatureAddressable_some {text : String} (h : (Text.utf8 text).length < wordLimit) :
    SignatureAddressable (some text) := by
  rintro _ ⟨⟩
  exact h

/-! ### Annotations -/

section

variable {item : RawAttribute} (hitem : AttributeAddressable item)

include hitem

theorem settles_addAnnotated (hpool : PoolAddressable pool) (options : DecodeOptions)
    (known : Annotated) :
    Settles (addAnnotated pool options known item) (known.add pool options item) := by
  have hdeclared : Settles
      (do
        let more ← contents item (readAnnotations pool)
        return { known with declared := known.declared ++ more } : Checked Annotated)
      (do
        let more ← item.contents (AnnotationUse.readList pool)
        return { known with declared := known.declared ++ more }) :=
    (settles_contents hitem (follows_readAnnotations hpool)).bind fun _ _ => settles_pure _
  have htypeUses : Settles
      (do
        let more ← contents item (readTypeUses pool)
        return { known with typeUses := known.typeUses ++ more } : Checked Annotated)
      (do
        let more ← item.contents (TypeUse.readList pool)
        return { known with typeUses := known.typeUses ++ more }) :=
    (settles_contents hitem (follows_readTypeUses hpool)).bind fun _ _ => settles_pure _
  have hasked : ∀ {checked : Checked Annotated} {outcome : Except Error Annotated},
      Settles checked outcome → Settles (if options.invisible then checked else return known)
        (if options.invisible then outcome else return known) := by
    intro checked outcome h
    split
    · exact h
    · exact settles_pure known
  obtain ⟨name, body⟩ := item
  rw [Annotated.add]
  dsimp only
  split
  · exact hdeclared
  · exact hasked hdeclared
  · exact htypeUses
  · exact hasked htypeUses
  · rw [addAnnotated]
    dsimp only
    split
    case h_5 => exact settles_pure known
    all_goals contradiction

/-! ### Declarations -/

/-- A text that an attribute holds as a signature. -/
theorem settles_signature (hpool : PoolAddressable pool) {more : String → β}
    {Fine : β → Prop} (hfine : ∀ text, (Text.utf8 text).length < wordLimit → Fine (more text)) :
    Settles (do return more (← contents item (readUtf8 pool)))
        (do return more (← item.contents (ClassAtlas.readUtf8 pool)))
      ∧ Gives Fine (do return more (← item.contents (ClassAtlas.readUtf8 pool))) :=
  (settles_contents hitem follows_readUtf8).bindFine ((yields_readUtf8 hpool).value _)
    fun text htext => ⟨settles_pure _, gives_pure (hfine text htext)⟩

/-- What an attribute holds that is no signature. -/
theorem settles_other {step : Step α} {reader : Reader α} (h : Follows allRoom step reader)
    {more : α → β} {Fine : β → Prop} (hfine : ∀ value, Fine (more value)) :
    Settles (do return more (← contents item step)) (do return more (← item.contents reader))
      ∧ Gives Fine (do return more (← item.contents reader)) :=
  (settles_contents hitem h).bindFine (fun _ _ => trivial)
    fun value _ => ⟨settles_pure _, gives_pure (hfine value)⟩

/-- What an attribute adds to the annotations. -/
theorem settles_annotated (hpool : PoolAddressable pool) (options : DecodeOptions)
    (known : Annotated) {more : Annotated → β} {Fine : β → Prop}
    (hfine : ∀ annotated, Fine (more annotated)) :
    Settles (do return more (← addAnnotated pool options known item))
        (do return more (← known.add pool options item))
      ∧ Gives Fine (do return more (← known.add pool options item)) :=
  (settles_addAnnotated hitem hpool options known).bindFine (fun _ _ => trivial)
    fun annotated _ => ⟨settles_pure _, gives_pure (hfine annotated)⟩

theorem settles_addToField (hpool : PoolAddressable pool) (options : DecodeOptions)
    (known : FieldAttributes) (hknown : SignatureAddressable known.signature) :
    Settles (addToField pool options known item) (known.add pool options item)
      ∧ Gives (SignatureAddressable ·.signature) (known.add pool options item) := by
  obtain ⟨name, body⟩ := item
  rw [FieldAttributes.add]
  dsimp only
  split
  · exact settles_signature hitem hpool fun _ => signatureAddressable_some
  · exact settles_other hitem follows_u16 fun _ => hknown
  · rw [addToField]
    dsimp only
    split
    case h_3 => exact settles_annotated hitem hpool options _ fun _ => hknown
    all_goals contradiction

/-- What is known of a method has a signature and exceptions that can be addressed. -/
structure MethodAttributesAddressable (known : MethodAttributes) : Prop where
  /-- A position in the signature is a word. -/
  signature : SignatureAddressable known.signature
  /-- The bytes of every exception's name can be counted. -/
  exceptions : ∀ name ∈ known.exceptions, byteLength name.toList < wordLimit

theorem settles_addToMethod (hpool : PoolAddressable pool) (options : DecodeOptions)
    (known : MethodAttributes) (hknown : MethodAttributesAddressable known) :
    Settles (addToMethod pool options known item) (known.add pool options item)
      ∧ Gives MethodAttributesAddressable (known.add pool options item) := by
  have hparameters : Settles
        (do
          let more ← contents item (readParameterAnnotations pool)
          return { known with
            parameterAnnotations := mergeParameters known.parameterAnnotations more }
          : Checked MethodAttributes)
        (do
          let more ← item.contents (AnnotationUse.readParameters pool)
          return { known with
            parameterAnnotations := mergeParameters known.parameterAnnotations more })
      ∧ Gives MethodAttributesAddressable
        (do
          let more ← item.contents (AnnotationUse.readParameters pool)
          return { known with
            parameterAnnotations := mergeParameters known.parameterAnnotations more }) :=
    settles_other hitem (follows_readParameterAnnotations hpool) fun _ => ⟨hknown.1, hknown.2⟩
  have hexceptions : Follows allRoom (do times (← u16).toNat (readClassName pool))
      (do Reader.times (← Reader.u16).toNat do pool.className (← Reader.u16)) :=
    follows_u16.bind fun _ => follows_times follows_readClassName _
  have hnames : Follows allRoom (do times (← u8).toNat (readParameterName pool))
      (do Reader.times (← Reader.u8).toNat (ClassAtlas.readParameterName pool)) :=
    follows_u8.bind fun _ => follows_times follows_readParameterName _
  obtain ⟨name, body⟩ := item
  rw [MethodAttributes.add]
  dsimp only
  split
  · exact settles_signature hitem hpool fun _ h => ⟨signatureAddressable_some h, hknown.exceptions⟩
  · refine (settles_contents hitem hexceptions).bindFine
      ((Yields.after fun _ => yields_times (yields_readClassName hpool) _).value _)
      fun more hmore => ⟨settles_pure _, gives_pure ⟨hknown.signature, ?_⟩⟩
    exact List.forall_mem_append.mpr ⟨hknown.exceptions, hmore⟩
  · exact hparameters
  · exact settles_ite hparameters ⟨settles_pure known, gives_pure hknown⟩
  · exact settles_other hitem (follows_readValue hpool) fun _ => ⟨hknown.1, hknown.2⟩
  · exact settles_other hitem hnames fun _ => ⟨hknown.1, hknown.2⟩
  · rw [addToMethod]
    dsimp only
    split
    case h_7 =>
      exact settles_annotated hitem hpool options _ fun _ => ⟨hknown.1, hknown.2⟩
    all_goals contradiction

theorem settles_addToClass (hpool : PoolAddressable pool) (options : DecodeOptions) (self : String)
    (known : ClassAttributes) (hknown : SignatureAddressable known.signature) :
    Settles (addToClass pool options self known item) (known.add pool options self item)
      ∧ Gives (SignatureAddressable ·.signature) (known.add pool options self item) := by
  have hrows : Follows allRoom (do times (← u16).toNat (readInnerClass pool))
      (do Reader.times (← Reader.u16).toNat (InnerClass.read pool)) :=
    follows_u16.bind fun _ => follows_times follows_readInnerClass _
  obtain ⟨name, body⟩ := item
  rw [ClassAttributes.add]
  dsimp only
  split
  · exact settles_signature hitem hpool fun _ => signatureAddressable_some
  · refine settles_other hitem hrows fun rows => ?_
    rw [signature_foldl_addInner]
    exact hknown
  · exact settles_other hitem follows_readEnclosingMethod fun _ => hknown
  · exact settles_other hitem follows_readUtf8 fun _ => hknown
  · rw [addToClass]
    dsimp only
    split
    case h_5 => exact settles_annotated hitem hpool options _ fun _ => hknown
    all_goals contradiction

end

/-! ### Whole tables -/

section

variable {table : List RawAttribute} (htable : ∀ item ∈ table, AttributeAddressable item)

include htable

theorem settles_fieldAttributes (hpool : PoolAddressable pool) (options : DecodeOptions) :
    Settles (fieldAttributes pool options table) (FieldAttributes.ofTable pool options table)
      ∧ Gives (SignatureAddressable ·.signature) (FieldAttributes.ofTable pool options table) :=
  settles_foldlM (fun _ hitem known => settles_addToField (htable _ hitem) hpool options known)
    (by rintro text ⟨⟩)

theorem settles_methodAttributes (hpool : PoolAddressable pool) (options : DecodeOptions) :
    Settles (methodAttributes pool options table) (MethodAttributes.ofTable pool options table)
      ∧ Gives MethodAttributesAddressable (MethodAttributes.ofTable pool options table) :=
  settles_foldlM (fun _ hitem known => settles_addToMethod (htable _ hitem) hpool options known)
    ⟨by rintro text ⟨⟩, List.forall_mem_nil _⟩

theorem settles_classAttributes (hpool : PoolAddressable pool) (options : DecodeOptions)
    (self : String) :
    Settles (classAttributes pool options self table)
        (ClassAttributes.ofTable pool options self table)
      ∧ Gives (SignatureAddressable ·.signature)
        (ClassAttributes.ofTable pool options self table) :=
  settles_foldlM
    (fun _ hitem known => settles_addToClass (htable _ hitem) hpool options self known)
    (by rintro text ⟨⟩)

end

end ClassAtlas.Machine
