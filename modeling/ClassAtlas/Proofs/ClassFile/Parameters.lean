import ClassAtlas.Proofs.ClassFile.Alignment
import ClassAtlas.Proofs.Signature.Commuting

namespace ClassAtlas

/-!
# Annotations on parameters

The descriptor of a constructor may begin with parameters that were not written, and annotations do
not count these.  How many there are is known only behind the methods, so the annotations on the
parameters of such a constructor have to wait until the class is read.

* `OnParameters` — each annotation is on the parameter it names, behind those that are skipped;
* `MethodSignature.placeBehind`, `MethodSignature.onParameters_foldlM` — placing them so;
* `OpenMethod.close_ofAttributes` — those that waited are placed as if all had been known at once;
* `MemberRecord.putsOnParameters` — the annotations on the parameters of a method are those that its
  record has.
-/

variable {pool : Pool} {options : DecodeOptions}

/-! ### Placing -/

theorem toNat_add_of_lt {index skipped : UInt8} (h : index.toNat + skipped.toNat < 256) :
    (index + skipped).toNat = index.toNat + skipped.toNat := by
  rw [UInt8.toNat_add]
  exact Nat.mod_eq_of_lt h

/-- The parameter of the method that the annotation is on, behind so many that were not written. -/
def TypeUse.parameter? (skipped : UInt8) (use : TypeUse) : Option Nat :=
  match use.target with
  | .formalParameter index => some (index.toNat + skipped.toNat)
  | _ => none

theorem TypeUse.shift_of_other {skipped : UInt8} {use : TypeUse}
    (huse : use.isOnParameter = false) : use.shift skipped = .ok use := by
  obtain ⟨target, path, note⟩ := use
  cases target with
  | formalParameter index => cases huse
  | _ => rfl

theorem TypeUse.shift_zero (use : TypeUse) : use.shift 0 = .ok use := by
  obtain ⟨target, path, note⟩ := use
  cases target with
  | formalParameter index =>
    have hlt : index.toNat + (0 : UInt8).toNat < 256 := index.toNat_lt
    unfold TypeUse.shift
    dsimp only
    rw [if_pos hlt, UInt8.add_zero]
  | _ => rfl

theorem TypeUse.parameter?_of_other {skipped : UInt8} {use : TypeUse}
    (huse : use.isOnParameter = false) : use.parameter? skipped = none := by
  obtain ⟨target, path, note⟩ := use
  cases target with
  | formalParameter index => cases huse
  | _ => rfl

/-- Those of the annotations that are on the parameter. -/
def usesOn (skipped : UInt8) (uses : List TypeUse) (place : Nat) : List TypeUse :=
  uses.filter fun use => use.parameter? skipped = some place

/-- The type with the annotations attached one after the other, if all of them can be. -/
def JavaType.attachAll? (type : AnnotatedType) (uses : List TypeUse) : Option AnnotatedType :=
  uses.foldlM (fun type use => type.attach? use.note use.path) type

theorem JavaType.attachAll?_append (type : AnnotatedType) (uses more : List TypeUse) :
    type.attachAll? (uses ++ more) = (type.attachAll? uses).bind (·.attachAll? more) := by
  rw [attachAll?, List.foldlM_append]
  rfl

/-- From the first types of some parameters to the second ones, each of the annotations on
    parameters was attached to the type of its own, and that is all. -/
structure OnParameters (skipped : UInt8) (uses : List TypeUse)
    (types types' : List AnnotatedType) : Prop where
  /-- There are as many parameters. -/
  length_eq : types'.length = types.length
  /-- Each annotation is on one of them, and one byte can say on which. -/
  parameter_lt : ∀ use ∈ uses, ∀ place, use.parameter? skipped = some place →
    place < 256 ∧ place < types.length
  /-- The type of each has the annotations on it, and no others. -/
  getElem?_eq : ∀ place : Nat, types'[place]?
    = types[place]?.bind fun type => type.attachAll? (usesOn skipped uses place)

namespace OnParameters

variable {skipped : UInt8} {uses more : List TypeUse} {types types' types'' : List AnnotatedType}

theorem of_none (h : ∀ use ∈ uses, use.parameter? skipped = none) (types : List AnnotatedType) :
    OnParameters skipped uses types types := by
  refine ⟨rfl, fun use huse place hplace => ?_, fun place => ?_⟩
  · rw [h use huse] at hplace
    cases hplace
  · have hnone : usesOn skipped uses place = [] := by
      rw [usesOn, List.filter_eq_nil_iff]
      intro use huse
      simp [h use huse]
    rw [hnone]
    exact (Option.bind_fun_some _).symm

theorem trans (first : OnParameters skipped uses types types')
    (second : OnParameters skipped more types' types'') :
    OnParameters skipped (uses ++ more) types types'' := by
  refine ⟨second.length_eq.trans first.length_eq, ?_, fun place => ?_⟩
  · intro use huse place hplace
    rcases List.mem_append.mp huse with hfirst | hsecond
    · exact first.parameter_lt use hfirst place hplace
    · have hlt := second.parameter_lt use hsecond place hplace
      rwa [first.length_eq] at hlt
  · rw [second.getElem?_eq, first.getElem?_eq, Option.bind_assoc]
    refine congrArg _ (funext fun type => ?_)
    rw [usesOn.eq_def _ (uses ++ more), List.filter_append, JavaType.attachAll?_append]
    rfl

/-- Only which annotations there are on each parameter matters. -/
theorem congr (h : OnParameters skipped uses types types')
    (huses : ∀ place, usesOn skipped more place = usesOn skipped uses place) :
    OnParameters skipped more types types' := by
  refine ⟨h.length_eq, fun use huse place hplace => ?_, fun place => ?_⟩
  · have hmem : use ∈ usesOn skipped more place :=
      List.mem_filter.mpr ⟨huse, decide_eq_true hplace⟩
    rw [huses] at hmem
    exact h.parameter_lt use (List.mem_filter.mp hmem).1 place hplace
  · rw [huses, h.getElem?_eq]

/-- One annotation, attached to the type of its parameter. -/
theorem of_editAt {use : TypeUse} {place : Nat} (hplace : use.parameter? skipped = some place)
    (hlt : place < 256)
    (h : editAt place (JavaType.attach? use.note use.path) types = some types') :
    OnParameters skipped [use] types types' := by
  obtain ⟨type, type', htype, hattach, rfl⟩ := editAt_eq_some.mp h
  have hbound := (List.getElem?_eq_some_iff.mp htype).1
  refine ⟨List.length_set, ?_, fun other => ?_⟩
  · intro _ huse other hother
    rw [List.mem_singleton.mp huse, hplace] at hother
    cases hother
    exact ⟨hlt, hbound⟩
  · by_cases heq : place = other
    · subst heq
      have hall : usesOn skipped [use] place = [use] :=
        List.filter_cons_of_pos (by simpa using hplace)
      rw [List.getElem?_set_self hbound, htype, hall, Option.bind_some, JavaType.attachAll?,
        List.foldlM_cons, hattach]
      rfl
    · have hnone : usesOn skipped [use] other = [] :=
        List.filter_cons_of_neg (by simpa [hplace] using heq)
      rw [List.getElem?_set_ne heq, hnone]
      exact (Option.bind_fun_some _).symm

end OnParameters

theorem Edit.toExcept_eq_ok_iff {τ : Type} {missing : Error} {edit : Edit τ} {tree : τ} :
    edit.toExcept missing = .ok tree ↔ edit.done? = some tree := by
  obtain ⟨edited, refusal⟩ := edit
  cases refusal with
  | none => simp [Edit.toExcept, Edit.done?]
  | some refusal => cases refusal <;> simp [Edit.toExcept, Edit.done?]

theorem done?_attachInTypes {α : Type} [ToString α] (note : α) (path : TypePath) (index : Nat)
    (types : List (JavaType α)) :
    (attachInTypes note path index types).done?
      = editAt index (JavaType.attach? note path) types := by
  rw [attachInTypes, editAt]
  cases types[index]? with
  | none => rfl
  | some type => exact Edit.done?_map _ _

/-- Places an annotation in a method's types, on a parameter behind so many more. -/
def MethodSignature.placeBehind (className method : String) (skipped : UInt8)
    (signature : MethodSignature AnnotationUse) (use : TypeUse) :
    Except Error (MethodSignature AnnotationUse) := do
  signature.place className method (← use.shift skipped)

/-- Why an annotation cannot be on a parameter that is not there. -/
def missingParameter (method : String) (skipped index : UInt8) : Malformation :=
  if index.toNat + skipped.toNat < 256 then
    .missingPart (.formalParameter (index + skipped)) method
  else .parameterOverflow index

namespace MethodSignature

variable {className method : String} {skipped : UInt8}
  {signature signature' : MethodSignature AnnotationUse} {use : TypeUse}

theorem parameters_place (h : signature.place className method use = .ok signature')
    (huse : use.isOnParameter = false) : signature'.parameters = signature.parameters := by
  obtain ⟨target, path, note⟩ := use
  cases target with
  | formalParameter index => cases huse
  | code =>
    cases h
    rfl
  | methodTypeParameter index =>
    obtain ⟨rfl, -⟩ := Edit.of_toExcept_eq_ok h note
    rfl
  | methodTypeParameterBound parameter bound =>
    obtain ⟨rfl, -⟩ := Edit.of_toExcept_eq_ok h note
    rfl
  | result =>
    obtain ⟨rfl, -⟩ := Edit.of_toExcept_eq_ok h note
    rfl
  | receiver =>
    obtain ⟨rfl, -⟩ := Edit.of_toExcept_eq_ok h note
    rfl
  | throws index =>
    obtain ⟨rfl, -⟩ := Edit.of_toExcept_eq_ok h note
    rfl
  | _ => cases h

/-- Placing an annotation on a parameter is an edit of the types of the parameters. -/
theorem of_place_formalParameter {index : UInt8} {path : TypePath} {note : AnnotationUse}
    (h : signature.place className method ⟨.formalParameter index, path, note⟩ = .ok signature') :
    ∃ types, editAt index.toNat (JavaType.attach? note path) signature.parameters = some types
      ∧ signature' = { signature with parameters := types } := by
  have hdone := Edit.toExcept_eq_ok_iff.mp h
  rw [MethodSignature.attach, Edit.done?_map, done?_attachInTypes, Option.map_eq_some_iff] at hdone
  obtain ⟨types, htypes, hsignature⟩ := hdone
  exact ⟨types, htypes, hsignature.symm⟩

theorem onParameters_placeBehind
    (h : signature.placeBehind className method skipped use = .ok signature') :
    OnParameters skipped [use] signature.parameters signature'.parameters := by
  by_cases huse : use.isOnParameter = true
  · obtain ⟨target, path, note⟩ := use
    cases target with
    | formalParameter index =>
      obtain ⟨shifted, hshift, hplace⟩ := except_bind_eq_ok.mp h
      unfold TypeUse.shift at hshift
      dsimp only at hshift
      split at hshift
      · rename_i hlt
        cases hshift
        obtain ⟨types, htypes, rfl⟩ := of_place_formalParameter hplace
        rw [toNat_add_of_lt hlt] at htypes
        exact .of_editAt rfl hlt htypes
      · cases hshift
    | _ => cases huse
  · rw [Bool.not_eq_true] at huse
    rw [placeBehind, TypeUse.shift_of_other huse] at h
    rw [parameters_place h huse]
    refine .of_none ?_ _
    rintro _ hmem
    rw [List.mem_singleton.mp hmem]
    exact TypeUse.parameter?_of_other huse

/-- Placing annotations one after the other, each behind so many parameters. -/
theorem onParameters_foldlM {uses : List TypeUse}
    (h : uses.foldlM (placeBehind className method skipped) signature = .ok signature') :
    OnParameters skipped uses signature.parameters signature'.parameters := by
  induction uses generalizing signature with
  | nil =>
    cases h
    exact .of_none (fun _ hmem => absurd hmem List.not_mem_nil) _
  | cons use rest ih =>
    rw [List.foldlM_cons] at h
    obtain ⟨middle, hplace, hrest⟩ := except_bind_eq_ok.mp h
    exact (onParameters_placeBehind hplace).trans (ih hrest)

/-- An annotation on a parameter that is not there is not placed. -/
theorem placeBehind_eq_error {index : UInt8} (huse : use.target = .formalParameter index)
    (hmissing : 255 < index.toNat + skipped.toNat
      ∨ signature.parameters.length ≤ index.toNat + skipped.toNat) :
    signature.placeBehind className method skipped use
      = .error (.malformed (missingParameter method skipped index)) := by
  obtain ⟨target, path, note⟩ := use
  obtain rfl : target = .formalParameter index := huse
  unfold placeBehind TypeUse.shift missingParameter
  dsimp only
  by_cases hlt : index.toNat + skipped.toNat < 256
  · have hnone : signature.parameters[(index + skipped).toNat]? = none := by
      rw [toNat_add_of_lt hlt, List.getElem?_eq_none_iff]
      omega
    rw [if_pos hlt, if_pos hlt]
    show (((attachInTypes note path (index + skipped).toNat signature.parameters).map _).toExcept _
      : Except Error _) = _
    rw [attachInTypes, hnone]
    rfl
  · rw [if_neg hlt, if_neg hlt]
    rfl

/-- So where the others can be placed, one annotation more on a parameter that is not there is the
    reason why not all of them are. -/
theorem foldlM_placeBehind_eq_error {front back : List TypeUse} {index : UInt8}
    (h : (front ++ back).foldlM (placeBehind className method skipped) signature = .ok signature')
    (huse : use.target = .formalParameter index)
    (hmissing : 255 < index.toNat + skipped.toNat
      ∨ signature.parameters.length ≤ index.toNat + skipped.toNat) :
    (front ++ use :: back).foldlM (placeBehind className method skipped) signature
      = .error (.malformed (missingParameter method skipped index)) := by
  rw [List.foldlM_append] at h ⊢
  obtain ⟨middle, hmiddle, -⟩ := except_bind_eq_ok.mp h
  rw [hmiddle]
  -- The others do not change how many parameters there are.
  rw [← (onParameters_foldlM hmiddle).length_eq] at hmissing
  show (use :: back).foldlM (placeBehind className method skipped) middle = _
  rw [List.foldlM_cons, placeBehind_eq_error huse hmissing]
  rfl

/-- Where the annotations stay on the parameters they are on, they are placed as they are. -/
theorem placeAll_eq_foldlM {uses : List TypeUse} (h : ∀ use ∈ uses, use.shift skipped = .ok use)
    (signature : MethodSignature AnnotationUse) :
    signature.placeAll className method uses
      = uses.foldlM (placeBehind className method skipped) signature := by
  unfold placeAll
  induction uses generalizing signature with
  | nil => rfl
  | cons use rest ih =>
    rw [List.forall_mem_cons] at h
    have hplace : signature.placeBehind className method skipped use
        = signature.place className method use := by
      rw [placeBehind, h.1]
      rfl
    rw [List.foldlM_cons, List.foldlM_cons, hplace]
    exact bind_congr fun middle => ih h.2 middle

end MethodSignature

/-! ### Signatures -/

/-- The text that an attribute holds, if it is a signature. -/
def RawAttribute.signatures (pool : Pool) (item : RawAttribute) : Except Error (List String) :=
  if item.name = "Signature" then return [← item.contents (readUtf8 pool)] else return []

/-- The text of the signature that a member has; of several, the last one counts. -/
def MemberRecord.signature? (pool : Pool) (record : MemberRecord) :
    Except Error (Option String) := do
  let table ← record.attributes.records.mapM (·.raw pool)
  return (← table.mapM (·.signatures pool)).flatten.getLast?

theorem MethodAttributes.signature_add {known known' : MethodAttributes} {item : RawAttribute}
    (h : known.add pool options item = .ok known') :
    ∃ texts, item.signatures pool = .ok texts
      ∧ known'.signature = texts.getLast?.or known.signature := by
  -- An attribute of another name says nothing about the signature.
  have hother : item.name ≠ "Signature" → known'.signature = known.signature →
      ∃ texts, item.signatures pool = .ok texts
        ∧ known'.signature = texts.getLast?.or known.signature := by
    intro hname hsame
    exact ⟨[], if_neg hname, hsame⟩
  unfold add at h
  dsimp only at h
  split at h
  case h_1 hname =>
    obtain ⟨text, htext, h⟩ := except_bind_eq_ok.mp h
    cases h
    refine ⟨[text], ?_, rfl⟩
    rw [RawAttribute.signatures, if_pos hname, htext]
    rfl
  case h_4 hname =>
    refine hother (by simp [hname]) ?_
    split at h
    · obtain ⟨_, -, h⟩ := except_bind_eq_ok.mp h
      cases h
      rfl
    · cases h
      rfl
  all_goals
    refine hother (by simp_all) ?_
    obtain ⟨_, -, h⟩ := except_bind_eq_ok.mp h
    cases h
    rfl

theorem MethodAttributes.signature_foldlM {known known' : MethodAttributes}
    {table : List RawAttribute}
    (h : table.foldlM (MethodAttributes.add pool options) known = .ok known') :
    ∃ texts, table.mapM (·.signatures pool) = .ok texts
      ∧ known'.signature = texts.flatten.getLast?.or known.signature := by
  induction table generalizing known with
  | nil =>
    cases h
    exact ⟨[], rfl, rfl⟩
  | cons item rest ih =>
    rw [List.foldlM_cons] at h
    obtain ⟨middle, hitem, hrest⟩ := except_bind_eq_ok.mp h
    obtain ⟨texts, htexts, hmiddle⟩ := signature_add hitem
    obtain ⟨more, hmore, hknown⟩ := ih hrest
    refine ⟨texts :: more, ?_, ?_⟩
    · rw [List.mapM_cons, htexts, hmore]
      rfl
    · rw [hknown, hmiddle, List.flatten_cons, List.getLast?_append, Option.or_assoc]

/-- The signature that is known of a method is the one its record has. -/
theorem MemberRecord.signature?_eq {record : MemberRecord} {table : List RawAttribute}
    {attributes : MethodAttributes}
    (htable : record.attributes.records.mapM (·.raw pool) = .ok table)
    (h : MethodAttributes.ofTable pool options table = .ok attributes) :
    record.signature? pool = .ok attributes.signature := by
  obtain ⟨texts, htexts, hsignature⟩ := MethodAttributes.signature_foldlM h
  rw [hsignature, Option.or_none, MemberRecord.signature?, htable]
  show (do return (← table.mapM (·.signatures pool)).flatten.getLast? : Except Error _) = _
  rw [htexts]
  rfl

/-! ### Methods -/

/-- How many parameters are in front of the one with the index 0: in a constructor without a
    signature those that were not written. -/
def skippedParameters (synthetic : UInt8) (name : String) (signature : Option String) : UInt8 :=
  if name = constructorName ∧ signature = none then synthetic else 0

theorem skippedParameters_eq (synthetic : UInt8) (name : String) (signature : Option String) :
    skippedParameters synthetic name signature
      = if signature.isNone && decide (name = constructorName) then synthetic else 0 := by
  unfold skippedParameters
  cases signature <;> simp

/-- The annotations in the order in which they are placed, in which those that have to wait for
    the class come last. -/
def placingOrder (waits : Bool) (uses : List TypeUse) : List TypeUse :=
  uses.filter (fun use => !(waits && use.isOnParameter))
    ++ uses.filter fun use => waits && use.isOnParameter

/-- The types of the method before any annotation is placed. -/
def MethodSignature.withExceptions (signature : MethodSignature AnnotationUse)
    (exceptions : List String) : MethodSignature AnnotationUse :=
  if signature.throws.isEmpty then
    { signature with throws := exceptions.map fun name => .ofClass (ClassType.ofName name) }
  else signature

/-- A method with these types. -/
def MethodDecl.ofSignature (name descriptor : String) (modifiers : MethodModifiers)
    (attributes : MethodAttributes) (signature : MethodSignature AnnotationUse) : MethodDecl :=
  { name, modifiers, descriptor, signature
    isGeneric := attributes.signature.isSome
    annotations := attributes.annotated.declared
    parameterAnnotations := attributes.parameterAnnotations
    parameterNames := attributes.parameterNames
    default := attributes.default
    exceptions := attributes.exceptions }

/-- Whether annotations have to wait or not, all are placed behind the parameters that were not
    written, as if these had been known from the start. -/
theorem OpenMethod.close_ofAttributes (className name descriptor : String)
    (modifiers : MethodModifiers) (attributes : MethodAttributes) (synthetic : UInt8) :
    (do (← ofAttributes className name descriptor modifiers attributes).close className synthetic)
      = (do
        let declared ← MethodSignature.parse (attributes.signature.getD descriptor)
        let signature ← (placingOrder (attributes.signature.isNone && name = constructorName)
            attributes.annotated.typeUses).foldlM
          (MethodSignature.placeBehind className name
            (skippedParameters synthetic name attributes.signature))
          (declared.withExceptions attributes.exceptions)
        return MethodDecl.ofSignature name descriptor modifiers attributes signature) := by
  unfold ofAttributes
  rw [bind_assoc]
  refine bind_congr fun declared => ?_
  dsimp only
  rw [List.partition_eq_filter_filter, bind_assoc]
  unfold placingOrder
  rw [List.foldlM_append, bind_assoc, skippedParameters_eq]
  generalize (attributes.signature.isNone && decide (name = constructorName)) = waits
  -- Those that are placed at once stay where they are, whatever is skipped.
  have hready : ∀ use ∈ attributes.annotated.typeUses.filter
      (not ∘ fun use => waits && use.isOnParameter),
      use.shift (if waits then synthetic else 0) = .ok use := by
    intro use huse
    have hother := List.of_mem_filter huse
    cases waits with
    | true => exact TypeUse.shift_of_other (by simpa using hother)
    | false => exact use.shift_zero
  have hpending : ∀ signature, (attributes.annotated.typeUses.filter
      fun use => waits && use.isOnParameter).foldlM
        (MethodSignature.placeBehind className name (if waits then synthetic else 0)) signature
      = (attributes.annotated.typeUses.filter fun use => waits && use.isOnParameter).foldlM
        (MethodSignature.placeBehind className name synthetic) signature := by
    intro signature
    cases waits with
    | true => rfl
    | false =>
      -- None waits, so it does not matter behind how many parameters.
      simp only [Bool.false_and, List.filter_false]
      rfl
  dsimp only
  rw [MethodSignature.placeAll_eq_foldlM hready]
  refine bind_congr fun placed => ?_
  rw [hpending]
  rfl

/-- The method that a record means, with all its annotations placed at once. -/
theorem MemberRecord.method_eq {record : MemberRecord} {className name descriptor : String}
    {synthetic : UInt8} {table : List RawAttribute} {attributes : MethodAttributes}
    (hname : pool.utf8 record.name = .ok name)
    (hdescriptor : pool.utf8 record.descriptor = .ok descriptor)
    (htable : record.attributes.records.mapM (·.raw pool) = .ok table)
    (hattributes : MethodAttributes.ofTable pool options table = .ok attributes) :
    record.method pool options className synthetic = (do
      let declared ← MethodSignature.parse (attributes.signature.getD descriptor)
      let signature ← (placingOrder (attributes.signature.isNone && name = constructorName)
          attributes.annotated.typeUses).foldlM
        (MethodSignature.placeBehind className name
          (skippedParameters synthetic name attributes.signature))
        (declared.withExceptions attributes.exceptions)
      return MethodDecl.ofSignature name descriptor (MethodModifiers.ofBits record.flags) attributes
        signature) := by
  rw [← OpenMethod.close_ofAttributes, MemberRecord.method, MemberRecord.openMethod, hname,
    hdescriptor, htable]
  show (do (← (do OpenMethod.ofAttributes _ _ _ _ (← MethodAttributes.ofTable pool options table)
    : Except Error OpenMethod)).close className synthetic) = _
  rw [hattributes]
  rfl

theorem usesOn_placingOrder (skipped : UInt8) (waits : Bool) (uses : List TypeUse) (place : Nat) :
    usesOn skipped (placingOrder waits uses) place = usesOn skipped uses place := by
  unfold usesOn placingOrder
  rw [List.filter_append, List.filter_filter, List.filter_filter]
  cases waits with
  | false => simp
  | true =>
    -- One that does not wait is on no parameter.
    have hwaits : ∀ use : TypeUse,
        use.parameter? skipped = some place → use.isOnParameter = true := by
      intro use hplace
      by_contra hother
      rw [TypeUse.parameter?_of_other (Bool.eq_false_iff.mpr hother)] at hplace
      cases hplace
    have hnone : uses.filter (fun use => decide (use.parameter? skipped = some place)
        && !(true && use.isOnParameter)) = [] := by
      rw [List.filter_eq_nil_iff]
      intro use _ hboth
      rw [Bool.and_eq_true, decide_eq_true_eq] at hboth
      simp [hwaits use hboth.1] at hboth
    rw [hnone, List.nil_append]
    refine List.filter_congr fun use _ => ?_
    by_cases hplace : use.parameter? skipped = some place
    · simp [hwaits use hplace]
    · simp [hplace]

/-- One annotation more is placed between the same others. -/
theorem placingOrder_insert (waits : Bool) (front back : List TypeUse) {use : TypeUse}
    (huse : use.isOnParameter = true) :
    ∃ first last, placingOrder waits (front ++ back) = first ++ last
      ∧ placingOrder waits (front ++ use :: back) = first ++ use :: last := by
  unfold placingOrder
  cases waits with
  | false => exact ⟨front, back, by simp, by simp⟩
  | true =>
    refine ⟨(front ++ back).filter (fun use => !use.isOnParameter)
      ++ front.filter (·.isOnParameter), back.filter (·.isOnParameter), ?_, ?_⟩
    · simp
    · simp [huse]

/-- The annotations on the parameters of the method are those that its record has, each in the
    parameter it names, counted behind those that are skipped. -/
structure MemberRecord.PutsOnParameters (pool : Pool) (options : DecodeOptions)
    (synthetic skipped : UInt8) (record : MemberRecord) (method : MethodDecl) : Prop where
  /-- The name is the text its index stands for. -/
  name_eq : pool.utf8 record.name = .ok method.name
  /-- So is the descriptor. -/
  descriptor_eq : pool.utf8 record.descriptor = .ok method.descriptor
  /-- Parameters are skipped in a constructor without a signature, and the types are those of the
      signature or the descriptor, with the annotations attached. -/
  placed : ∃ signature declared uses, record.signature? pool = .ok signature
    ∧ skipped = skippedParameters synthetic method.name signature
    ∧ MethodSignature.parse (signature.getD method.descriptor) = .ok declared
    ∧ typeUsesIn pool options record.attributes = .ok uses
    ∧ OnParameters skipped uses declared.parameters method.signature.parameters

/-- What a record of a method has. -/
theorem MemberRecord.of_method_eq_ok {record : MemberRecord} {className : String}
    {synthetic : UInt8} {method : MethodDecl}
    (h : record.method pool options className synthetic = .ok method) :
    ∃ table attributes, pool.utf8 record.name = .ok method.name
      ∧ pool.utf8 record.descriptor = .ok method.descriptor
      ∧ record.attributes.records.mapM (·.raw pool) = .ok table
      ∧ MethodAttributes.ofTable pool options table = .ok attributes := by
  obtain ⟨opened, hopen, hclose⟩ := except_bind_eq_ok.mp h
  unfold MemberRecord.openMethod at hopen
  obtain ⟨name, hname, hopen⟩ := except_bind_eq_ok.mp hopen
  obtain ⟨descriptor, hdescriptor, hopen⟩ := except_bind_eq_ok.mp hopen
  obtain ⟨table, htable, hopen⟩ := except_bind_eq_ok.mp hopen
  obtain ⟨attributes, hattributes, hopen⟩ := except_bind_eq_ok.mp hopen
  obtain ⟨rfl, rfl, hpending, -⟩ := OpenMethod.of_ofAttributes_eq_ok hopen
  obtain ⟨-, hsame⟩ := OpenMethod.of_close_eq_ok hpending hclose
  rw [hsame]
  exact ⟨table, attributes, hname, hdescriptor, htable, hattributes⟩

theorem MethodSignature.parameters_withExceptions (signature : MethodSignature AnnotationUse)
    (exceptions : List String) :
    (signature.withExceptions exceptions).parameters = signature.parameters := by
  unfold withExceptions
  split <;> rfl

theorem MemberRecord.putsOnParameters {record : MemberRecord} {className : String}
    {synthetic : UInt8} {method : MethodDecl}
    (h : record.method pool options className synthetic = .ok method) :
    ∃ skipped, record.PutsOnParameters pool options synthetic skipped method := by
  obtain ⟨table, attributes, hname, hdescriptor, htable, hattributes⟩ := of_method_eq_ok h
  rw [method_eq hname hdescriptor htable hattributes] at h
  obtain ⟨declared, hdeclared, h⟩ := except_bind_eq_ok.mp h
  obtain ⟨signature, hsignature, h⟩ := except_bind_eq_ok.mp h
  have hplaced := MethodSignature.onParameters_foldlM hsignature
  rw [MethodSignature.parameters_withExceptions] at hplaced
  have htypes : signature = method.signature := congrArg (·.signature) (Except.ok.inj h)
  rw [htypes] at hplaced
  refine ⟨_, hname, hdescriptor, attributes.signature, declared, attributes.annotated.typeUses,
    signature?_eq htable hattributes, rfl, hdeclared,
    MethodAttributes.collects_add.typeUsesIn_eq htable rfl hattributes, ?_⟩
  exact hplaced.congr fun place => (usesOn_placingOrder _ _ _ _).symm

end ClassAtlas
