import ClassAtlas.Proofs.ClassFile.PrefixFree
import ClassAtlas.Proofs.Reading.Failures

namespace ClassAtlas

open Reader

/-!
# Class files that are not read

Wherever a class file is refused, in the constant pool, in a signature, in an attribute or because
an annotation has no place, its bytes are to blame.  Only a module is refused for what it is.

* `JavaType.contained_readField`, `MethodSignature.contained_read`,
  `ClassSignature.contained_read` — signatures;
* `Pool.contained_read`, `Pool.contained_get` and their like — constant pools;
* `AnnotationUse.contained_read`, `TypeUse.contained_readList` — annotations;
* `JavaType.contained_placeAll` and its like — annotations put in their places;
* `Heading` — a class file up to the name of its class, with `Heading.contained_read`;
* `ClassDecl.readFile_eq_error` — whole files.
-/

/-! ### Signatures -/

section

variable {α : Type}

theorem contained_readIdentifier (ends : Char → Bool) : (readIdentifier ends).Contained := by
  refine contained_position.bind fun start => (contained_takeUntil _).bind fun bytes => ?_
  refine contained_ite (contained_malformed _) ?_
  split
  · exact contained_pure _
  · exact contained_malformed _

theorem contained_readTypeVariable : (readTypeVariable : Reader (JavaType α)).Contained :=
  (contained_expect 'T').bind fun _ => (contained_readIdentifier _).bind fun _ =>
    (contained_expect ';').bind fun _ => contained_pure _

section

variable {type : Reader (JavaType α)}

theorem contained_readReferenceWith (htype : type.Contained) :
    (readReferenceWith type).Contained :=
  contained_peek.bind fun _ => contained_ite htype
    (contained_position.bind fun _ => contained_malformed _)

theorem contained_readArgumentWith (htype : type.Contained) :
    (readArgumentWith type).Contained := by
  have hreference := contained_readReferenceWith htype
  refine contained_peek.bind fun next => ?_
  split
  · exact (contained_skip 1).bind fun _ => contained_pure _
  · exact (contained_skip 1).bind fun _ => hreference.bind fun _ => contained_pure _
  · exact (contained_skip 1).bind fun _ => hreference.bind fun _ => contained_pure _
  · exact hreference

theorem contained_readArgumentsWith (htype : type.Contained) :
    (readArgumentsWith type).Contained :=
  (contained_expect '<').bind fun _ =>
    (contained_untilByte (contained_readArgumentWith htype) _).bind fun _ =>
      contained_ite ((contained_malformed _).bind fun _ => contained_pure _) (contained_pure _)

theorem contained_readSegmentWith (htype : type.Contained) :
    (readSegmentWith type).Contained :=
  (contained_readIdentifier _).bind fun _ => contained_peek.bind fun _ => contained_ite
    ((contained_readArgumentsWith htype).bind fun _ => contained_pure _)
    ((contained_pure _).bind fun _ => contained_pure _)

theorem contained_readSegmentsWith (htype : type.Contained) (bound : Nat) (read : ClassType α) :
    (readSegmentsWith type bound read).Contained := by
  induction bound generalizing read with
  | zero => exact contained_outOfBounds
  | succ bound ih =>
    refine (contained_readSegmentWith htype).bind fun segment => ?_
    refine contained_position.bind fun offset => contained_u8.bind fun found => ?_
    split
    · exact contained_pure _
    · exact ih _
    · exact contained_malformed _

theorem ClassType.contained_readWith (htype : type.Contained) :
    (ClassType.readWith type).Contained :=
  (contained_expect 'L').bind fun _ => contained_get.bind fun _ =>
    contained_readSegmentsWith htype _ _

end

theorem contained_readBrackets : readBrackets.Contained :=
  contained_get.bind fun _ => (contained_skip _).bind fun _ => contained_peek.bind fun _ =>
    contained_pure _

theorem JavaType.contained_readAt (room : Nat) (allowVoid : Bool) :
    (JavaType.readAt room allowVoid : Reader (JavaType α)).Contained := by
  induction room generalizing allowVoid with
  | zero => exact contained_tooDeep
  | succ room ih =>
    refine contained_nested (contained_peek.bind fun next => ?_)
    split
    · exact (ClassType.contained_readWith (ih false)).bind fun _ => contained_pure _
    · exact contained_readTypeVariable
    · exact contained_readBrackets.bind fun _ => (ih false).bind fun _ => contained_pure _
    · split
      · exact contained_ite (contained_position.bind fun _ => contained_malformed _)
          ((contained_skip 1).bind fun _ => contained_pure _)
      · exact contained_position.bind fun _ => contained_malformed _

theorem JavaType.contained_read (allowVoid : Bool) :
    (JavaType.read allowVoid : Reader (JavaType α)).Contained :=
  contained_room.bind fun room => JavaType.contained_readAt room allowVoid

theorem ClassType.contained_read : (ClassType.read : Reader (ClassType α)).Contained :=
  ClassType.contained_readWith (JavaType.contained_read false)

theorem TypeParameter.contained_read :
    (TypeParameter.read : Reader (TypeParameter α)).Contained := by
  have htype := contained_readReferenceWith (JavaType.contained_read (α := α) false)
  refine (contained_readIdentifier _).bind fun name => (contained_expect ':').bind fun _ => ?_
  refine contained_peek.bind fun next => contained_ite ?_ ?_
  · exact (htype.map some).bind fun _ => (contained_marked htype _).bind fun _ => contained_pure _
  · exact (contained_pure _).bind fun _ => (contained_marked htype _).bind fun _ =>
      contained_pure _

theorem contained_readTypeParameters :
    (readTypeParameters : Reader (List (TypeParameter α))).Contained := by
  refine contained_get.bind fun cursor => ?_
  split
  · exact contained_pure _
  · refine contained_ite (contained_pure _) ((contained_skip 1).bind fun _ => ?_)
    exact (contained_untilByte TypeParameter.contained_read _).bind fun _ =>
      contained_ite ((contained_malformed _).bind fun _ => contained_pure _) (contained_pure _)

theorem contained_readThrown : (readThrown : Reader (JavaType α)).Contained := by
  refine (contained_expect '^').bind fun _ => contained_peek.bind fun next => ?_
  split
  · exact ClassType.contained_read.bind fun _ => contained_pure _
  · exact contained_readTypeVariable
  · exact contained_malformed _

theorem contained_readEnd : readEnd.Contained :=
  contained_hasMore.bind fun _ => contained_ite
    (contained_position.bind fun _ => contained_malformed _) (contained_pure _)

theorem JavaType.contained_readField : (JavaType.readField : Reader (JavaType α)).Contained :=
  (JavaType.contained_read false).bind fun _ => contained_readEnd.bind fun _ => contained_pure _

theorem JavaType.contained_readReturn : (JavaType.readReturn : Reader (JavaType α)).Contained :=
  (JavaType.contained_read true).bind fun _ => contained_readEnd.bind fun _ => contained_pure _

theorem MethodSignature.contained_read :
    (MethodSignature.read : Reader (MethodSignature α)).Contained :=
  contained_readTypeParameters.bind fun _ => (contained_expect '(').bind fun _ =>
    (contained_untilByte (JavaType.contained_read false) _).bind fun _ =>
      (JavaType.contained_read true).bind fun _ =>
        (contained_untilEnd contained_readThrown).bind fun _ => contained_pure _

theorem ClassSignature.contained_read :
    (ClassSignature.read : Reader (ClassSignature α)).Contained :=
  contained_readTypeParameters.bind fun _ => ClassType.contained_read.bind fun _ =>
    (contained_untilEnd ClassType.contained_read).bind fun _ => contained_pure _

end

/-! ### Constant pools -/

theorem Entry.contained_read (index : Nat) : (Entry.read index).Contained := by
  refine contained_u8.bind fun tag => ?_
  -- By the tag, in the order of the tags.
  split
  · refine contained_u16.bind fun length => (contained_bytes _).bind fun bytes => ?_
    cases ModifiedUtf8.decode bytes with
    | ok text => exact contained_pure _
    | error cause => exact contained_malformed _
  · exact contained_i32.bind fun _ => contained_pure _
  · exact contained_u32.bind fun _ => contained_pure _
  · exact contained_i64.bind fun _ => contained_pure _
  · exact contained_u64.bind fun _ => contained_pure _
  · exact contained_u16.bind fun _ => contained_pure _
  · exact contained_u16.bind fun _ => contained_pure _
  · exact contained_u16.bind fun _ => contained_u16.bind fun _ => contained_pure _
  · exact contained_u16.bind fun _ => contained_u16.bind fun _ => contained_pure _
  · exact contained_u16.bind fun _ => contained_u16.bind fun _ => contained_pure _
  · exact contained_u16.bind fun _ => contained_u16.bind fun _ => contained_pure _
  · exact contained_u8.bind fun _ => contained_u16.bind fun _ => contained_pure _
  · exact contained_u16.bind fun _ => contained_pure _
  · exact contained_u16.bind fun _ => contained_u16.bind fun _ => contained_pure _
  · exact contained_u16.bind fun _ => contained_u16.bind fun _ => contained_pure _
  · exact contained_u16.bind fun _ => contained_pure _
  · exact contained_u16.bind fun _ => contained_pure _
  · exact contained_malformed _

theorem Pool.contained_filler (count steps : Nat) (entries : Array Entry) :
    (Pool.filler count steps entries).Contained := by
  induction steps generalizing entries with
  | zero => exact contained_pure _
  | succ steps ih =>
    rw [Pool.filler_succ]
    refine contained_ite ((Entry.contained_read _).bind fun entry => ?_) (contained_pure _)
    exact contained_ite (contained_ite (ih _) (contained_malformed _)) (ih _)

theorem Pool.contained_read : Pool.read.Contained := by
  rw [Pool.read_eq]
  exact contained_u16.bind fun count =>
    contained_ite (contained_malformed _) (Pool.contained_filler _ _ _)

section

variable (pool : Pool) (index : UInt16)

theorem Pool.contained_get : Outcome.Contained (pool.get index) := by
  unfold Pool.get
  split
  · exact Outcome.contained_malformed _
  · exact Outcome.contained_malformed _
  · exact Outcome.contained_pure _

theorem Pool.contained_utf8 : Outcome.Contained (pool.utf8 index) := by
  refine (pool.contained_get index).bind fun entry => ?_
  split
  · exact Outcome.contained_pure _
  · exact Outcome.contained_malformed _

theorem Pool.contained_className : Outcome.Contained (pool.className index) := by
  refine Outcome.Contained.bind ?_ fun name => Outcome.contained_pure _
  refine (pool.contained_get index).bind fun entry => ?_
  split
  · exact pool.contained_utf8 _
  · exact Outcome.contained_malformed _

theorem Pool.contained_optionalClassName : Outcome.Contained (pool.optionalClassName index) := by
  unfold Pool.optionalClassName
  split
  · exact Outcome.contained_pure _
  · exact (pool.contained_className index).bind fun _ => Outcome.contained_pure _

theorem Pool.contained_nameAndType : Outcome.Contained (pool.nameAndType index) := by
  refine (pool.contained_get index).bind fun entry => ?_
  split
  · exact (pool.contained_utf8 _).bind fun _ => (pool.contained_utf8 _).bind fun _ =>
      Outcome.contained_pure _
  · exact Outcome.contained_malformed _

theorem Pool.contained_constant (descriptor : String) :
    Outcome.Contained (pool.constant index descriptor) := by
  refine (pool.contained_get index).bind fun entry => ?_
  split
  case h_9 => exact (pool.contained_utf8 _).bind fun _ => Outcome.contained_pure _
  case h_10 => exact Outcome.contained_malformed _
  all_goals exact Outcome.contained_pure _

/-! ### Annotations -/

theorem Pool.contained_describedClass : Outcome.Contained (pool.describedClass index) := by
  refine (pool.contained_utf8 index).bind fun descriptor => ?_
  split
  · split
    · exact Outcome.contained_malformed _
    · exact Outcome.contained_pure _
  · exact Outcome.contained_malformed _

end

section

variable (pool : Pool)

theorem contained_readUtf8 : (readUtf8 pool).Contained :=
  contained_u16.bind fun _ => contained_lift (pool.contained_utf8 _)

/-- A class by its index. -/
theorem contained_readClassName : (do pool.className (← u16) : Reader String).Contained :=
  contained_u16.bind fun _ => contained_lift (pool.contained_className _)

variable {pool} in
theorem AnnotationUse.contained_readWith {value : Reader AnnotationValue}
    (hvalue : value.Contained) : (AnnotationUse.readWith pool value).Contained := by
  refine contained_u16.bind fun index =>
    (contained_lift (pool.contained_describedClass index)).bind fun name => ?_
  refine contained_u16.bind fun count => (contained_times ?_ _).bind fun _ => contained_pure _
  exact contained_u16.bind fun index => (contained_lift (pool.contained_utf8 index)).bind fun _ =>
    hvalue.bind fun _ => contained_pure _

variable {pool} in
theorem AnnotationValue.contained_readWith {note : Reader AnnotationUse}
    {value : Reader AnnotationValue} (hnote : note.Contained) (hvalue : value.Contained) :
    (AnnotationValue.readWith pool note value).Contained := by
  refine contained_position.bind fun offset => contained_u8.bind fun tag => contained_ite ?_ ?_
  · exact contained_u16.bind fun _ =>
      (contained_lift (pool.contained_constant _ _)).bind fun _ => contained_pure _
  · split
    · exact contained_u16.bind fun _ => (contained_lift (pool.contained_utf8 _)).bind fun _ =>
        contained_pure _
    · exact contained_u16.bind fun _ => contained_u16.bind fun _ =>
        (contained_lift (pool.contained_describedClass _)).bind fun _ =>
          (contained_lift (pool.contained_utf8 _)).bind fun _ => contained_pure _
    · exact contained_u16.bind fun _ => (contained_lift (pool.contained_utf8 _)).bind fun _ =>
        (contained_lift (JavaType.contained_readReturn.value _)).bind fun _ => contained_pure _
    · exact hnote.bind fun _ => contained_pure _
    · exact contained_u16.bind fun _ => (contained_times hvalue _).bind fun _ => contained_pure _
    · exact contained_malformed _

/-- Annotations and values, on all levels. -/
theorem contained_readAt (room : Nat) : (AnnotationUse.readAt pool room).Contained
    ∧ (AnnotationValue.readAt pool room).Contained := by
  induction room with
  | zero => exact ⟨contained_tooDeep, contained_tooDeep⟩
  | succ room ih =>
    exact ⟨contained_framed (AnnotationUse.contained_readWith ih.2),
      contained_framed (AnnotationValue.contained_readWith ih.1 ih.2)⟩

theorem AnnotationUse.contained_read : (AnnotationUse.read pool).Contained :=
  contained_room.bind fun room => (contained_readAt pool room).1

theorem AnnotationValue.contained_read : (AnnotationValue.read pool).Contained :=
  contained_room.bind fun room => (contained_readAt pool room).2

theorem AnnotationUse.contained_readList : (AnnotationUse.readList pool).Contained :=
  contained_u16.bind fun _ => contained_times (AnnotationUse.contained_read pool) _

theorem AnnotationUse.contained_readParameters : (AnnotationUse.readParameters pool).Contained :=
  contained_u8.bind fun _ => contained_times (AnnotationUse.contained_readList pool) _

theorem AnnotationTarget.contained_read : AnnotationTarget.read.Contained := by
  have hbyte : ∀ make : UInt8 → AnnotationTarget, (do return make (← u8) : Reader _).Contained :=
    fun make => contained_u8.bind fun _ => contained_pure _
  have hnumber : ∀ make : UInt16 → AnnotationTarget,
      (do return make (← u16) : Reader _).Contained :=
    fun make => contained_u16.bind fun _ => contained_pure _
  have hbytes : ∀ make : UInt8 → UInt8 → AnnotationTarget,
      (do return make (← u8) (← u8) : Reader _).Contained :=
    fun make => contained_u8.bind fun _ => contained_u8.bind fun _ => contained_pure _
  have hcode : ∀ count, (do skip count; return .code : Reader AnnotationTarget).Contained :=
    fun count => (contained_skip count).bind fun _ => contained_pure _
  refine contained_u8.bind fun byte => ?_
  refine contained_ite (hbyte _) (contained_ite (hbyte _) (contained_ite (hnumber _) ?_))
  refine contained_ite (hbytes _) (contained_ite (hbytes _) ?_)
  refine contained_ite (contained_pure _) (contained_ite (contained_pure _) ?_)
  refine contained_ite (contained_pure _) (contained_ite (hbyte _) (contained_ite (hnumber _) ?_))
  refine contained_ite (contained_u16.bind fun _ => hcode _) (contained_ite (hcode _) ?_)
  exact contained_ite (hcode _) (contained_malformed _)

theorem TypePath.contained_read : TypePath.read.Contained := by
  refine contained_u8.bind fun _ => contained_times ?_ _
  refine contained_u8.bind fun kind => contained_u8.bind fun argument => contained_lift ?_
  unfold PathStep.ofRaw
  split
  · exact Outcome.contained_pure _
  · exact Outcome.contained_malformed _

theorem TypeUse.contained_readList : (TypeUse.readList pool).Contained := by
  refine contained_u16.bind fun _ => contained_times ?_ _
  exact AnnotationTarget.contained_read.bind fun _ => TypePath.contained_read.bind fun _ =>
    (contained_modify _).bind fun _ => (AnnotationUse.contained_read pool).bind fun _ =>
      contained_pure _

end

/-! ### Attributes -/

section

variable (pool : Pool) (options : DecodeOptions)

theorem RawAttribute.contained_readTable : (RawAttribute.readTable pool).Contained := by
  refine contained_u16.bind fun _ => contained_times ?_ _
  exact contained_u16.bind fun _ => (contained_lift (pool.contained_utf8 _)).bind fun _ =>
    contained_u32.bind fun _ => (contained_bytes _).bind fun _ => contained_pure _

/-- What is read from an attribute, and what is made of it. -/
theorem RawAttribute.contained_contents {β γ : Type} {reader : Reader β} (h : reader.Contained)
    (item : RawAttribute) (make : β → γ) :
    Outcome.Contained (do return make (← item.contents reader)) :=
  (h.value item.body).bind fun _ => Outcome.contained_pure _

theorem Annotated.contained_add (known : Annotated) (item : RawAttribute) :
    Outcome.Contained (known.add pool options item) := by
  have hdeclared := item.contained_contents (AnnotationUse.contained_readList pool)
    fun more => { known with declared := known.declared ++ more }
  have htypeUses := item.contained_contents (TypeUse.contained_readList pool)
    fun more => { known with typeUses := known.typeUses ++ more }
  unfold Annotated.add
  dsimp only
  split
  · exact hdeclared
  · split
    · exact hdeclared
    · exact Outcome.contained_pure _
  · exact htypeUses
  · split
    · exact htypeUses
    · exact Outcome.contained_pure _
  · exact Outcome.contained_pure _

theorem FieldAttributes.contained_ofTable (table : List RawAttribute) :
    Outcome.Contained (FieldAttributes.ofTable pool options table) := by
  refine Outcome.contained_foldlM (fun known item => ?_) table _
  unfold FieldAttributes.add
  split
  · exact item.contained_contents (contained_readUtf8 pool) _
  · exact item.contained_contents contained_u16 _
  · exact (known.annotated.contained_add pool options item).bind fun _ => Outcome.contained_pure _

theorem contained_readParameterName : (readParameterName pool).Contained :=
  contained_u16.bind fun _ => (contained_skip 2).bind fun _ => contained_ite (contained_pure _)
    ((contained_lift (pool.contained_utf8 _)).bind fun _ => contained_pure _)

theorem MethodAttributes.contained_ofTable (table : List RawAttribute) :
    Outcome.Contained (MethodAttributes.ofTable pool options table) := by
  refine Outcome.contained_foldlM (fun known item => ?_) table _
  have hparameters := item.contained_contents (AnnotationUse.contained_readParameters pool)
    fun more =>
      { known with parameterAnnotations := mergeParameters known.parameterAnnotations more }
  have hclassNames := contained_u16.bind fun count =>
    contained_times (contained_readClassName pool) count.toNat
  have hnames := contained_u8.bind fun count =>
    contained_times (contained_readParameterName pool) count.toNat
  unfold MethodAttributes.add
  dsimp only
  split
  · exact item.contained_contents (contained_readUtf8 pool) _
  · exact item.contained_contents hclassNames _
  · exact hparameters
  · split
    · exact hparameters
    · exact Outcome.contained_pure _
  · exact item.contained_contents (AnnotationValue.contained_read pool) _
  · exact item.contained_contents hnames _
  · exact (known.annotated.contained_add pool options item).bind fun _ => Outcome.contained_pure _

theorem InnerClass.contained_read : (InnerClass.read pool).Contained :=
  contained_u16.bind fun _ => (contained_lift (pool.contained_className _)).bind fun _ =>
    contained_u16.bind fun _ => (contained_lift (pool.contained_optionalClassName _)).bind fun _ =>
      (contained_skip 2).bind fun _ => contained_u16.bind fun _ => contained_pure _

theorem EnclosingMethod.contained_read : (EnclosingMethod.read pool).Contained :=
  contained_u16.bind fun _ => (contained_lift (pool.contained_className _)).bind fun _ =>
    contained_u16.bind fun _ => contained_ite (contained_pure _)
      ((contained_lift (pool.contained_nameAndType _)).bind fun _ => contained_pure _)

theorem ClassAttributes.contained_ofTable (self : String) (table : List RawAttribute) :
    Outcome.Contained (ClassAttributes.ofTable pool options self table) := by
  refine Outcome.contained_foldlM (fun known item => ?_) table _
  have hrows := contained_u16.bind fun count =>
    contained_times (InnerClass.contained_read pool) count.toNat
  unfold ClassAttributes.add
  split
  · exact item.contained_contents (contained_readUtf8 pool) _
  · exact item.contained_contents hrows _
  · exact item.contained_contents (EnclosingMethod.contained_read pool) _
  · exact item.contained_contents (contained_readUtf8 pool) _
  · exact (known.annotated.contained_add pool options item).bind fun _ => Outcome.contained_pure _

end

/-! ### Annotations in their places -/

/-- An edit is refused because there is no such place, or because the path leads nowhere. -/
theorem Edit.contained_toExcept {τ : Type} (edit : Edit τ) (missing : Malformation) :
    Outcome.Contained (edit.toExcept (.malformed missing)) := by
  unfold Edit.toExcept
  split
  · exact Outcome.contained_pure _
  · exact Outcome.contained_malformed _
  · exact Outcome.contained_malformed _

theorem JavaType.contained_placeAll (field : String) (type : AnnotatedType)
    (uses : List TypeUse) : Outcome.Contained (type.placeAll field uses) := by
  refine Outcome.contained_foldlM (fun type use => ?_) uses type
  unfold JavaType.place
  dsimp only
  split
  · exact Edit.contained_toExcept _ _
  · exact Outcome.contained_pure _
  · exact Outcome.contained_malformed _

theorem MethodSignature.contained_place (className method : String)
    (signature : MethodSignature AnnotationUse) (use : TypeUse) :
    Outcome.Contained (signature.place className method use) := by
  obtain ⟨target, path, note⟩ := use
  cases target with
  | methodTypeParameter index => exact Edit.contained_toExcept _ _
  | methodTypeParameterBound parameter bound => exact Edit.contained_toExcept _ _
  | result => exact Edit.contained_toExcept _ _
  | receiver => exact Edit.contained_toExcept _ _
  | formalParameter index => exact Edit.contained_toExcept _ _
  | throws index => exact Edit.contained_toExcept _ _
  | code => exact Outcome.contained_pure _
  | _ => exact Outcome.contained_malformed _

theorem MethodSignature.contained_placeAll (className method : String)
    (signature : MethodSignature AnnotationUse) (uses : List TypeUse) :
    Outcome.Contained (signature.placeAll className method uses) :=
  Outcome.contained_foldlM (MethodSignature.contained_place className method) uses signature

theorem ClassSignature.contained_placeAll (signature : ClassSignature AnnotationUse)
    (uses : List TypeUse) : Outcome.Contained (signature.placeAll uses) := by
  refine Outcome.contained_foldlM (fun signature use => ?_) uses signature
  obtain ⟨target, path, note⟩ := use
  cases target with
  | classTypeParameter index => exact Edit.contained_toExcept _ _
  | classTypeParameterBound parameter bound => exact Edit.contained_toExcept _ _
  | supertype index =>
    show Outcome.Contained (if _ then Edit.toExcept _ _ else Edit.toExcept _ _)
    split
    · exact Edit.contained_toExcept _ _
    · exact Edit.contained_toExcept _ _
  | code => exact Outcome.contained_pure _
  | _ => exact Outcome.contained_malformed _

/-! ### Members and classes -/

section

variable (pool : Pool) (options : DecodeOptions)

theorem FieldDecl.contained_ofAttributes (name descriptor : String) (modifiers : FieldModifiers)
    (attributes : FieldAttributes) :
    Outcome.Contained (FieldDecl.ofAttributes pool name descriptor modifiers attributes) := by
  refine (JavaType.contained_readField.value _).bind fun type => ?_
  refine (JavaType.contained_placeAll _ _ _).bind fun type => ?_
  dsimp only
  split
  · split
    · exact ((pool.contained_constant _ _).map some).bind fun _ => Outcome.contained_pure _
    · exact Outcome.contained_pure _
  · exact Outcome.contained_pure _

theorem OpenMethod.contained_ofAttributes (className name descriptor : String)
    (modifiers : MethodModifiers) (attributes : MethodAttributes) :
    Outcome.Contained
      (OpenMethod.ofAttributes className name descriptor modifiers attributes) := by
  refine (MethodSignature.contained_read.value _).bind fun signature => ?_
  exact (MethodSignature.contained_placeAll _ _ _ _).bind fun _ => Outcome.contained_pure _

/-- Fields and methods have the same parts in the same order. -/
theorem contained_member {β : Type} {next : UInt16 → String → String → List RawAttribute → Reader β}
    (hnext : ∀ flags name descriptor table, (next flags name descriptor table).Contained) :
    (do
      let flags ← u16
      let name ← pool.utf8 (← u16)
      let descriptor ← pool.utf8 (← u16)
      let table ← RawAttribute.readTable pool
      next flags name descriptor table : Reader β).Contained := by
  refine contained_u16.bind fun flags => ?_
  refine contained_u16.bind fun _ => (contained_lift (pool.contained_utf8 _)).bind fun name => ?_
  refine contained_u16.bind fun _ =>
    (contained_lift (pool.contained_utf8 _)).bind fun descriptor => ?_
  exact (RawAttribute.contained_readTable pool).bind fun table => hnext _ _ _ _

theorem FieldDecl.contained_read : (FieldDecl.read pool options).Contained :=
  contained_member pool fun _ _ _ table =>
    (contained_lift (FieldAttributes.contained_ofTable pool options table)).bind fun _ =>
      contained_lift (FieldDecl.contained_ofAttributes pool _ _ _ _)

theorem OpenMethod.contained_read (className : String) :
    (OpenMethod.read pool options className).Contained :=
  contained_member pool fun _ _ _ table =>
    (contained_lift (MethodAttributes.contained_ofTable pool options table)).bind fun _ =>
      contained_lift (OpenMethod.contained_ofAttributes className _ _ _ _)

theorem OpenMethod.contained_close (className : String) (synthetic : UInt8)
    (method : OpenMethod) : Outcome.Contained (method.close className synthetic) := by
  refine Outcome.Contained.bind ?_ fun _ => Outcome.contained_pure _
  refine Outcome.contained_foldlM (fun signature use => ?_) _ _
  refine Outcome.Contained.bind ?_ fun _ => MethodSignature.contained_place _ _ _ _
  unfold TypeUse.shift
  split
  · split
    · exact Outcome.contained_pure _
    · exact Outcome.contained_malformed _
  · exact Outcome.contained_pure _

theorem contained_classSignature (superclass : Option String) (interfaces : List String)
    (attributes : ClassAttributes) :
    Outcome.Contained (classSignature superclass interfaces attributes) := by
  refine Outcome.Contained.bind ?_ fun signature => ?_
  · cases attributes.signature with
    | none => exact Outcome.contained_pure _
    | some text => exact (ClassSignature.contained_read.value _).map some
  · dsimp only
    split
    · exact Outcome.contained_pure _
    · exact (ClassSignature.contained_placeAll _ _).bind fun _ => Outcome.contained_pure _

theorem ClassDecl.contained_readBody (origin : Origin) (version : FileVersion)
    (fileModifiers : ClassModifiers) (name : String) :
    (ClassDecl.readBody pool options origin version fileModifiers name).Contained := by
  -- Where a class is refused early, what would follow is not reached.
  have hrefused : ∀ {cause : Malformation} {next : Unit → Reader ClassDecl},
      ((malformed cause : Reader Unit) >>= next).Contained := by
    rintro cause next start error stop ⟨⟩
    rfl
  refine contained_u16.bind fun _ =>
    (contained_lift (pool.contained_optionalClassName _)).bind fun superclass => ?_
  refine contained_ite hrefused ?_
  refine contained_u16.bind fun _ =>
    (contained_times (contained_readClassName pool) _).bind fun interfaces => ?_
  refine contained_u16.bind fun _ =>
    (contained_times (FieldDecl.contained_read pool options) _).bind fun fields => ?_
  refine contained_u16.bind fun _ =>
    (contained_times (OpenMethod.contained_read pool options name) _).bind fun methods => ?_
  refine (RawAttribute.contained_readTable pool).bind fun table => ?_
  refine (contained_lift (ClassAttributes.contained_ofTable pool options name table)).bind
    fun attributes => ?_
  refine Contained.bind ?_ fun methods => contained_get.bind fun place => ?_
  · exact contained_mapM (fun method => contained_lift (OpenMethod.contained_close name _ method)) _
  · refine contained_ite hrefused ?_
    exact (contained_lift (contained_classSignature superclass interfaces attributes)).bind
      fun signature => contained_pure _

end

theorem FileVersion.contained_read (options : DecodeOptions) :
    (FileVersion.read options).Contained := by
  have hnumbers : (do
      let minor ← u16
      let major ← u16
      if oldestMajor ≤ major ∧ major ≤ options.maxMajor then return ⟨major, minor⟩
      else malformed (.badVersion major minor) : Reader FileVersion).Contained :=
    contained_u16.bind fun _ => contained_u16.bind fun _ =>
      contained_ite (contained_pure _) (contained_malformed _)
  exact contained_u32.bind fun _ =>
    contained_ite ((contained_malformed _).bind fun _ => hnumbers) hnumbers

/-! ### Whole files -/

/-- What stands in a class file up to the name of its class. -/
structure Heading where
  /-- The version. -/
  version : FileVersion
  /-- The constant pool. -/
  pool : Pool
  /-- The flags. -/
  flags : UInt16
  /-- The name. -/
  name : String

namespace Heading

/-- The version, the pool, the flags and the name. -/
def read (options : DecodeOptions) : Reader Heading := do
  let version ← FileVersion.read options
  let pool ← Pool.read
  let flags ← u16
  let name ← pool.className (← u16)
  return ⟨version, pool, flags, name⟩

/-- Whether the flags say that it is a module. -/
def isModule (heading : Heading) : Bool := hasFlag heading.flags moduleFlag

/-- How a module is refused. -/
def refusal (heading : Heading) : Error := .notSupported s!"module descriptor '{heading.name}'"

/-- What stands behind the name of a class that is no module. -/
def readBody (origin : Origin) (options : DecodeOptions) (heading : Heading) : Reader ClassDecl :=
  ClassDecl.readBody heading.pool options origin heading.version (.ofBits heading.flags)
    heading.name

theorem contained_read (options : DecodeOptions) : (read options).Contained :=
  (FileVersion.contained_read options).bind fun _ => Pool.contained_read.bind fun pool =>
    contained_u16.bind fun _ => contained_u16.bind fun _ =>
      (contained_lift (pool.contained_className _)).bind fun _ => contained_pure _

end Heading

/-- Of the known flags none is dropped. -/
theorem ClassModifiers.has_moduleFlag_ofBits (flags : UInt16) :
    (ofBits flags).has moduleFlag = hasFlag flags moduleFlag := by
  have hknown : known &&& moduleFlag = moduleFlag := by decide
  rw [has, ofBits, hasFlag, UInt16.and_assoc, hknown]
  rfl

/-- A class file is its heading, and behind it the body unless it is a module. -/
theorem ClassDecl.readFile_eq (origin : Origin) (options : DecodeOptions) :
    ClassDecl.readFile origin options = (do
      let heading ← Heading.read options
      if heading.isModule then throw heading.refusal
      else heading.readBody origin options) := by
  simp only [Heading.read, bind_assoc, pure_bind]
  unfold readFile
  refine bind_congr fun version => bind_congr fun pool => bind_congr fun flags =>
    bind_congr fun _ => bind_congr fun name => ?_
  rw [ClassModifiers.has_moduleFlag_ofBits, Heading.isModule]
  dsimp only
  cases hasFlag flags moduleFlag with
  | true => rfl
  | false => rfl

/-- **What a class file is refused for.** Either its bytes are to blame, or its heading can be read
    and says that it is a module. -/
theorem ClassDecl.readFile_eq_error {origin : Origin} {options : DecodeOptions} {start stop : Cursor}
    {error : Error} (h : ClassDecl.readFile origin options start = .error error stop) :
    error.isFormatError = true ∨ ∃ heading middle, Heading.read options start = .ok heading middle
      ∧ heading.isModule = true ∧ error = heading.refusal := by
  rw [readFile_eq, bind_apply] at h
  cases hheading : Heading.read options start with
  | error cause middle =>
    rw [hheading] at h
    cases h
    exact .inl (Heading.contained_read options hheading)
  | ok heading middle =>
    rw [hheading] at h
    dsimp only at h
    split at h
    · rename_i hmodule
      obtain ⟨rfl, rfl⟩ := EStateM.Result.error.inj h
      exact .inr ⟨heading, _, rfl, hmodule, rfl⟩
    · exact .inl (ClassDecl.contained_readBody _ _ _ _ _ _ h)

/-- The failure ends one class and nothing else: its bytes are to blame, or they hold something
    that is not modelled. -/
def Error.EndsClass (error : Error) : Prop :=
  error.isFormatError = true ∨ ∃ what, error = .notSupported what

/-- **A class that is refused ends nothing else.** Whatever the bytes are, the failure to read a
    class from them is one that they are to blame for, or that their class is not modelled. -/
theorem ClassDecl.endsClass_of_readFile {origin : Origin} {options : DecodeOptions}
    {start stop : Cursor} {error : Error}
    (h : ClassDecl.readFile origin options start = .error error stop) : error.EndsClass :=
  (readFile_eq_error h).imp_right fun ⟨_, _, _, _, hrefusal⟩ => ⟨_, hrefusal⟩

end ClassAtlas
