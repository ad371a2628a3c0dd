import ClassAtlas.Proofs.Annotations.TypeUses
import ClassAtlas.Proofs.ClassFile.Parameters
import ClassAtlas.Proofs.ClassFile.PassedOver
import ClassAtlas.Proofs.ClassFile.Reasons

namespace ClassAtlas

open Reader

/-!
# Annotations on parameters that are not there

An annotation on a parameter that a method does not have spoils the whole file, whether it is found
out when the method is read or when the class is known.

* `ClassFile.InsertsUse` — one annotation on a type more, on a method;
* `MemberRecord.method_of_insertsUse` — without a place for it, the method means nothing any more;
* `ClassRecord.decl_eq_error_of_set` — nor does the class;
* `parameters_of_decode` — which parameters have which annotations, and when a file is refused.
-/

variable {pool : Pool} {options : DecodeOptions}

/-! ### One annotation more -/

/-- The second table has another record than the first in this place. -/
def Table.ChangesAt {ρ : Type} (place : Nat) (R : ρ → ρ → Prop) (table table' : Table ρ) : Prop :=
  ∃ record record', table.records[place]? = some record ∧ R record record'
    ∧ table'.records = table.records.set place record'

/-- The second attribute holds one annotation on a type more than the first. -/
def AttributeRecord.InsertsUse (pool : Pool) (options : DecodeOptions) (use : TypeUse)
    (item item' : AttributeRecord) : Prop :=
  ∃ raw raw' front back, item.raw pool = .ok raw ∧ item'.raw pool = .ok raw'
    ∧ raw'.name = raw.name ∧ raw.typeUses pool options = .ok (front ++ back)
    ∧ raw'.typeUses pool options = .ok (front ++ use :: back)

/-- So does one of the attributes of the second member. -/
def MemberRecord.InsertsUse (pool : Pool) (options : DecodeOptions) (use : TypeUse)
    (record record' : MemberRecord) : Prop :=
  ∃ place table,
    record.attributes.ChangesAt place (AttributeRecord.InsertsUse pool options use) table
    ∧ record' = { record with attributes := table }

/-- So does the method in this place of the second class file. -/
def ClassFile.InsertsUse (options : DecodeOptions) (place : Nat) (use : TypeUse)
    (file longer : ClassFile) : Prop :=
  ∃ table, file.content.methods.ChangesAt place
      (MemberRecord.InsertsUse file.constants.pool options use) table
    ∧ longer = { file with content.methods := table }

/-- What is known of a method, with other annotations on types. -/
def MethodAttributes.withUses (known : MethodAttributes) (uses : List TypeUse) : MethodAttributes :=
  { known with annotated.typeUses := uses }

/-- The attributes of this name hold annotations on types, and these are asked for. -/
def HoldsTypeUses (options : DecodeOptions) (name : String) : Prop :=
  name = "RuntimeVisibleTypeAnnotations"
    ∨ name = "RuntimeInvisibleTypeAnnotations" ∧ options.invisible = true

theorem RawAttribute.typeUses_of_other {item : RawAttribute}
    (hname : ¬ HoldsTypeUses options item.name) : item.typeUses pool options = .ok [] := by
  unfold typeUses
  split
  case h_1 h => exact absurd (.inl h) hname
  case h_2 h => exact if_neg fun hinvisible => hname (.inr ⟨h, hinvisible⟩)
  case h_3 => rfl

theorem RawAttribute.typeUses_of_holds {item : RawAttribute}
    (hname : HoldsTypeUses options item.name) :
    item.typeUses pool options = item.contents (TypeUse.readList pool) := by
  obtain ⟨name, body⟩ := item
  rcases hname with rfl | ⟨rfl, hinvisible⟩
  · rfl
  · exact if_pos hinvisible

/-- Records of annotations on types are read as what they mean, whatever stands behind them. -/
theorem TypeUse.value_readList {table : Table TypeUseRecord} {uses : List TypeUse}
    (hmeans : List.Forall₂ (TypeUseRecord.Means pool) table.records uses)
    (hlegal : ∀ record ∈ table.records, record.Legal ∧ record.Readable pool) (rest : List UInt8) :
    (TypeUse.readList pool).value (table.encode TypeUseRecord.encode ++ rest) = .ok uses := by
  have htable : (TypeUse.readList pool).Deciphers (table.encode TypeUseRecord.encode) rest 0
      (List.Forall₂ (TypeUseRecord.Means pool) table.records)
      (∀ record ∈ table.records, record.note.levels ≤ nestingLimit - 1) :=
    deciphers_counted rest (answers_u16_ofNat table.length_lt)
      (UInt16.toNat_ofNat_of_lt' table.length_lt) fun record hmem _ =>
        TypeUse.deciphers_read (hlegal record hmem).1
  have hfits : ∀ record ∈ table.records, record.note.levels ≤ nestingLimit - 1 :=
    fun record hmem => (hlegal record hmem).2.fits
  rw [Reader.value, Cursor.ofBytes, (htable.answers hmeans).ok hfits 0]

/-- In bytes: an attribute holds one annotation more if its table has one record more. -/
theorem AttributeRecord.insertsUse_of_inserts {item item' : AttributeRecord} {name : String}
    {table table' : Table TypeUseRecord} {record : TypeUseRecord} {use : TypeUse}
    {rest : List UInt8} (hname : pool.utf8 item.name = .ok name)
    (hholds : HoldsTypeUses options name) (hsame : item'.name = item.name)
    (hbody : item.body = table.encode TypeUseRecord.encode ++ rest)
    (hbody' : item'.body = table'.encode TypeUseRecord.encode ++ rest)
    (hinserts : table.Inserts record table') (hmeans : record.Means pool use)
    (hlegal : ∀ other ∈ table'.records, other.Legal ∧ other.Readable pool) :
    item.InsertsUse pool options use item' := by
  obtain ⟨before, after, hrecords, hrecords'⟩ := hinserts
  have hfewer : ∀ other ∈ table.records, other ∈ table'.records := by
    rw [hrecords, hrecords']
    exact ((List.sublist_cons_self record after).append_left before).subset
  have hexists : ∀ records : List TypeUseRecord, (∀ other ∈ records, other ∈ table'.records) →
      ∃ uses, List.Forall₂ (TypeUseRecord.Means pool) records uses :=
    fun records hall => exists_forall₂ fun other hmem =>
      (hlegal other (hall other hmem)).2.exists_means (hlegal other (hall other hmem)).1
  obtain ⟨front, hfront⟩ := hexists before fun other hmem => by simp [hrecords', hmem]
  obtain ⟨back, hback⟩ := hexists after fun other hmem => by simp [hrecords', hmem]
  have huses : (TypeUse.readList pool).value item.body = .ok (front ++ back) := by
    rw [hbody]
    refine TypeUse.value_readList ?_ (fun other hmem => hlegal other (hfewer other hmem)) rest
    rw [hrecords]
    exact List.rel_append hfront hback
  have huses' : (TypeUse.readList pool).value item'.body = .ok (front ++ use :: back) := by
    rw [hbody']
    refine TypeUse.value_readList ?_ hlegal rest
    rw [hrecords']
    exact List.rel_append hfront (.cons hmeans hback)
  have hraw : item.raw pool = .ok ⟨name, item.body⟩ := by
    rw [AttributeRecord.raw, hname]
    rfl
  have hraw' : item'.raw pool = .ok ⟨name, item'.body⟩ := by
    rw [AttributeRecord.raw, hsame, hname]
    rfl
  exact ⟨_, _, front, back, hraw, hraw', rfl,
    (RawAttribute.typeUses_of_holds hholds).trans huses,
    (RawAttribute.typeUses_of_holds hholds).trans huses'⟩

/-- Such an attribute adds the annotations on types, and nothing else. -/
theorem MethodAttributes.add_of_typeUses {item : RawAttribute} {uses : List TypeUse}
    (hname : HoldsTypeUses options item.name) (huses : item.typeUses pool options = .ok uses)
    (known : MethodAttributes) :
    known.add pool options item
      = .ok (known.withUses (known.annotated.typeUses ++ uses)) := by
  rw [RawAttribute.typeUses_of_holds hname] at huses
  obtain ⟨name, body⟩ := item
  rcases hname with rfl | ⟨rfl, hinvisible⟩
  · simp [add, Annotated.add, huses, withUses]
  · simp [add, Annotated.add, hinvisible, huses, withUses]

/-- Other attributes neither look at the annotations on types that are known nor change them. -/
theorem Annotated.add_of_other {item : RawAttribute} (hname : ¬ HoldsTypeUses options item.name)
    (known : Annotated) (uses : List TypeUse) :
    { known with typeUses := uses }.add pool options item
      = (fun known' : Annotated => { known' with typeUses := uses })
        <$> known.add pool options item := by
  unfold add
  dsimp only
  split
  case h_1 =>
    rw [map_bind]
    rfl
  case h_2 =>
    split
    · rw [map_bind]
      rfl
    · rfl
  case h_3 h => exact absurd (.inl h) hname
  case h_4 h =>
    split
    · rename_i hinvisible
      exact absurd (.inr ⟨h, hinvisible⟩) hname
    · rfl
  case h_5 => rfl

theorem MethodAttributes.add_of_other {item : RawAttribute}
    (hname : ¬ HoldsTypeUses options item.name) (known : MethodAttributes) (uses : List TypeUse) :
    (known.withUses uses).add pool options item
      = (fun known' : MethodAttributes => known'.withUses uses)
        <$> known.add pool options item := by
  unfold add
  dsimp only
  split
  case h_4 =>
    split
    · rw [map_bind]
      rfl
    · rfl
  case h_7 =>
    rw [map_bind, withUses, Annotated.add_of_other hname known.annotated uses, bind_map_left]
    rfl
  all_goals
    rw [map_bind]
    rfl

/-- What an attribute adds does not depend on the annotations on types that are known. -/
theorem MethodAttributes.add_withUses {known known' : MethodAttributes} {item : RawAttribute}
    (h : known.add pool options item = .ok known') :
    ∃ more, known'.annotated.typeUses = known.annotated.typeUses ++ more
      ∧ ∀ uses, (known.withUses uses).add pool options item
        = .ok (known'.withUses (uses ++ more)) := by
  obtain ⟨more, huses, hmore⟩ := MethodAttributes.collects_add h
  refine ⟨more, hmore, fun uses => ?_⟩
  by_cases hname : HoldsTypeUses options item.name
  · rw [add_of_typeUses hname huses] at h ⊢
    rw [← Except.ok.inj h]
    rfl
  · rw [RawAttribute.typeUses_of_other hname] at huses
    obtain rfl := (Except.ok.inj huses).symm
    rw [add_of_other hname, h, List.append_nil]
    rfl

theorem MethodAttributes.foldlM_withUses {known known' : MethodAttributes}
    {table : List RawAttribute}
    (h : table.foldlM (MethodAttributes.add pool options) known = .ok known') :
    ∃ more, known'.annotated.typeUses = known.annotated.typeUses ++ more
      ∧ ∀ uses, table.foldlM (MethodAttributes.add pool options) (known.withUses uses)
        = .ok (known'.withUses (uses ++ more)) := by
  induction table generalizing known with
  | nil =>
    cases h
    refine ⟨[], (List.append_nil _).symm, fun uses => ?_⟩
    rw [List.append_nil]
    rfl
  | cons item rest ih =>
    rw [List.foldlM_cons] at h
    obtain ⟨middle, hitem, hrest⟩ := except_bind_eq_ok.mp h
    obtain ⟨first, hfirst, hadd⟩ := add_withUses hitem
    obtain ⟨later, hlater, hall⟩ := ih hrest
    refine ⟨first ++ later, ?_, fun uses => ?_⟩
    · rw [hlater, hfirst, List.append_assoc]
    · rw [List.foldlM_cons, hadd]
      show rest.foldlM (add pool options) (middle.withUses (uses ++ first)) = _
      rw [hall, List.append_assoc]

/-- With one annotation more in one attribute, one more is known, and nothing else is different. -/
theorem MethodAttributes.ofTable_insertsUse {before after : List RawAttribute}
    {raw raw' : RawAttribute} {front back : List TypeUse} {use : TypeUse}
    {attributes : MethodAttributes}
    (h : ofTable pool options (before ++ raw :: after) = .ok attributes)
    (hname : raw'.name = raw.name) (hraw : raw.typeUses pool options = .ok (front ++ back))
    (hraw' : raw'.typeUses pool options = .ok (front ++ use :: back)) :
    ∃ first last, attributes.annotated.typeUses = first ++ last
      ∧ ofTable pool options (before ++ raw' :: after)
        = .ok (attributes.withUses (first ++ use :: last)) := by
  have hholds : HoldsTypeUses options raw'.name := by
    by_contra hother
    rw [RawAttribute.typeUses_of_other hother] at hraw'
    simp at hraw'
  unfold ofTable at h ⊢
  rw [List.foldlM_append] at h
  obtain ⟨known, hbefore, h⟩ := except_bind_eq_ok.mp h
  rw [List.foldlM_cons, add_of_typeUses (hname ▸ hholds) hraw] at h
  obtain ⟨more, hmore, hafter⟩ := foldlM_withUses h
  refine ⟨known.annotated.typeUses ++ front, back ++ more, ?_, ?_⟩
  · rw [hmore]
    simp [withUses]
  · rw [List.foldlM_append, hbefore]
    show (raw' :: after).foldlM (add pool options) known = _
    rw [List.foldlM_cons, add_of_typeUses hholds hraw']
    have hall := hafter (known.annotated.typeUses ++ (front ++ use :: back))
    simp only [List.append_assoc, List.cons_append] at hall ⊢
    exact hall

theorem MemberRecord.method_of_insertsUse {record record' : MemberRecord} {className : String}
    {synthetic skipped index : UInt8} {method : MethodDecl} {use : TypeUse}
    (h : record.method pool options className synthetic = .ok method)
    (hputs : record.PutsOnParameters pool options synthetic skipped method)
    (hinserts : record.InsertsUse pool options use record')
    (huse : use.target = .formalParameter index)
    (hmissing : 255 < index.toNat + skipped.toNat
      ∨ method.signature.parameters.length ≤ index.toNat + skipped.toNat) :
    record'.method pool options className synthetic
      = .error (.malformed (missingParameter method.name skipped index)) := by
  obtain ⟨table, attributes, hname, hdescriptor, htable, hattributes⟩ := of_method_eq_ok h
  obtain ⟨place, changed, ⟨item, item', hitem, hchange, hchanged⟩, rfl⟩ := hinserts
  obtain ⟨raw, raw', front, back, hraw, hraw', hsame, huses, huses'⟩ := hchange
  obtain ⟨found, hfound, hraw⟩ : ∃ found, table[place]? = some found ∧ found = raw := by
    obtain ⟨found, hfound, hgiven⟩ := getElem?_of_mapM htable hitem
    exact ⟨found, hfound, Except.ok.inj (hgiven.symm.trans hraw)⟩
  subst hraw
  obtain ⟨before, after, rfl, hset⟩ := exists_set_eq hfound
  have htable' : changed.records.mapM (·.raw pool) = .ok (before ++ raw' :: after) := by
    rw [hchanged, mapM_set_eq_ok htable hraw', hset]
  obtain ⟨first, last, hbetween, hattributes'⟩ :=
    MethodAttributes.ofTable_insertsUse hattributes hsame huses huses'
  -- Nothing but the annotations is different, so the same parameters are skipped.
  obtain ⟨signature, _, _, hsignature, rfl, -⟩ := hputs.placed
  obtain rfl := Except.ok.inj (hsignature.symm.trans (signature?_eq htable hattributes))
  rw [method_eq hname hdescriptor htable hattributes] at h
  obtain ⟨declared, hdeclared, h⟩ := except_bind_eq_ok.mp h
  obtain ⟨placed, hplaced, h⟩ := except_bind_eq_ok.mp h
  have htypes : placed = method.signature := congrArg (·.signature) (Except.ok.inj h)
  rw [← htypes, (MethodSignature.onParameters_foldlM hplaced).length_eq] at hmissing
  have hon : use.isOnParameter = true := by
    rw [TypeUse.isOnParameter, huse]
  obtain ⟨early, late, horder, horder'⟩ := placingOrder_insert
    (attributes.signature.isNone && decide (method.name = constructorName)) first last hon
  rw [hbetween, horder] at hplaced
  have hmethod' : ({ record with attributes := changed } : MemberRecord).method pool options
      className synthetic = _ := method_eq hname hdescriptor htable' hattributes'
  rw [hmethod']
  refine except_bind_eq_error.mpr (.inr ⟨declared, hdeclared, except_bind_eq_error.mpr (.inl ?_)⟩)
  show (placingOrder (attributes.signature.isNone && decide (method.name = constructorName))
    (first ++ use :: last)).foldlM _ (declared.withExceptions attributes.exceptions) = _
  rw [horder']
  exact MethodSignature.foldlM_placeBehind_eq_error hplaced huse hmissing

/-! ### Classes -/

namespace ClassRecord

variable {origin : Origin} {version : FileVersion} {content : ClassRecord} {result : ClassDecl}

/-- How many parameters are in front of the written ones follows from the record of the class. -/
theorem syntheticParameters_eq_syntheticCount {self : String} {table : List RawAttribute}
    {attributes : ClassAttributes}
    (htable : content.attributes.records.mapM (·.raw pool) = .ok table)
    (hattributes : ClassAttributes.ofTable pool options self table = .ok attributes)
    (modifiers : ClassModifiers) :
    ∃ own, content.ownRows pool self = .ok own
      ∧ syntheticParameters modifiers attributes = syntheticCount modifiers own := by
  have hnothing : ({} : ClassAttributes).Reflects [] := ⟨rfl, rfl⟩
  obtain ⟨rows, hrows, hreflects⟩ := hnothing.foldlM_add hattributes
  refine ⟨rows.flatten.filter (·.name = self), ?_, syntheticParameters_eq hreflects⟩
  rw [ownRows, htable]
  show (do return (← table.mapM (·.innerClasses pool)).flatten.filter _ : Except Error _) = _
  rw [hrows]
  rfl

/-- The methods of a class are those its records mean. -/
theorem methods_of_decl_eq_ok (h : content.decl pool options origin version = .ok result) :
    ∃ own, content.ownRows pool result.name = .ok own
      ∧ content.methods.records.mapM (·.method pool options result.name
        (syntheticCount (.ofBits content.flags) own)) = .ok result.methods := by
  obtain ⟨superclass, openMethods, table, attributes, -, -, -, -, hopenMethods, htable,
    hattributes, hmethods, -⟩ := content.of_decl_eq_ok h
  obtain ⟨own, hown, hsynthetic⟩ :=
    syntheticParameters_eq_syntheticCount htable hattributes (.ofBits content.flags)
  rw [hsynthetic] at hmethods
  exact ⟨own, hown, mapM_bind_eq_ok hopenMethods hmethods⟩

/-- Where all methods mean something, another one in the place of one of them is the reason that
    the class means nothing. -/
theorem decl_eq_error_of_set {own : List InnerClass} {place : Nat} {record : MemberRecord}
    {methods : Table MemberRecord} {error : Error}
    (h : content.decl pool options origin version = .ok result)
    (hown : content.ownRows pool result.name = .ok own)
    (hmethods : methods.records = content.methods.records.set place record)
    (hplace : place < content.methods.records.length)
    (hrecord : record.method pool options result.name (syntheticCount (.ofBits content.flags) own)
      = .error error) :
    { content with methods }.decl pool options origin version = .error error := by
  unfold decl at h ⊢
  obtain ⟨name, hname, h⟩ := except_bind_eq_ok.mp h
  refine except_bind_eq_error.mpr (.inr ⟨name, hname, ?_⟩)
  dsimp only at h ⊢
  split at h
  · cases h
  rename_i hmodule
  rw [if_neg hmodule]
  obtain ⟨superclass, hsuperclass, h⟩ := except_bind_eq_ok.mp h
  refine except_bind_eq_error.mpr (.inr ⟨superclass, hsuperclass, ?_⟩)
  split at h
  · cases h
  rename_i hroot
  rw [if_neg hroot]
  obtain ⟨interfaces, hinterfaces, h⟩ := except_bind_eq_ok.mp h
  refine except_bind_eq_error.mpr (.inr ⟨interfaces, hinterfaces, ?_⟩)
  obtain ⟨fields, hfields, h⟩ := except_bind_eq_ok.mp h
  refine except_bind_eq_error.mpr (.inr ⟨fields, hfields, ?_⟩)
  obtain ⟨openMethods, hopenMethods, h⟩ := except_bind_eq_ok.mp h
  obtain ⟨table, htable, h⟩ := except_bind_eq_ok.mp h
  obtain ⟨attributes, hattributes, h⟩ := except_bind_eq_ok.mp h
  obtain ⟨closed, hclosed, h⟩ := except_bind_eq_ok.mp h
  obtain ⟨signature, -, h⟩ := except_bind_eq_ok.mp h
  obtain rfl : name = result.name := congrArg (·.name) (Except.ok.inj h)
  obtain ⟨own', hown', hsynthetic⟩ :=
    syntheticParameters_eq_syntheticCount htable hattributes (.ofBits content.flags)
  obtain rfl := Except.ok.inj (hown'.symm.trans hown)
  rw [hmethods]
  -- It fails when it is read, or when the class is known.
  rcases except_bind_eq_error.mp hrecord with hopen | ⟨opened, hopen, hclose⟩
  · exact except_bind_eq_error.mpr (.inl (mapM_set_eq_error hopenMethods hopen hplace))
  · refine except_bind_eq_error.mpr (.inr ⟨_, mapM_set_eq_ok hopenMethods hopen place, ?_⟩)
    refine except_bind_eq_error.mpr (.inr ⟨table, htable, ?_⟩)
    refine except_bind_eq_error.mpr (.inr ⟨attributes, hattributes, ?_⟩)
    rw [← hsynthetic] at hclose
    refine except_bind_eq_error.mpr (.inl (mapM_set_eq_error hclosed hclose ?_))
    rwa [← (forall₂_of_mapM hopenMethods).length_eq]

end ClassRecord

/-! ### Class files -/

/-- **Annotations on parameters skip what was not written.** Bytes that are decoded are those of a
    class file.  Each of its methods has on its parameters the annotations that its record has,
    each on the parameter it names, counted behind those that are skipped: in a constructor without
    signature as many as the flags and the table of member classes say, and otherwise none.  With
    one annotation more, on a parameter that is not there or that one byte cannot count to, the
    file is refused for this annotation. -/
theorem parameters_of_decode {decoder : Decoder} {origin : Origin} {data : List UInt8}
    {options : DecodeOptions} {result : ClassDecl}
    (h : (decoder.decode origin data options).2 = .ok result) :
    (∃ file : ClassFile, file.encode = data)
    ∧ ∀ file : ClassFile, file.encode = data →
      ∃ own, file.constants.pool.className file.content.name = .ok result.name
        ∧ file.content.ownRows file.constants.pool result.name = .ok own
        ∧ file.content.methods.records.length = result.methods.length
        ∧ ∀ place record method, file.content.methods.records[place]? = some record →
          result.methods[place]? = some method →
          ∃ skipped, record.PutsOnParameters file.constants.pool options
              (syntheticCount (.ofBits file.content.flags) own) skipped method
            ∧ ∀ use index longer, file.InsertsUse options place use longer →
              use.target = .formalParameter index →
              (255 < index.toNat + skipped.toNat
                ∨ method.signature.parameters.length ≤ index.toNat + skipped.toNat) →
              (decoder.decode origin longer.encode options).2
                = .error (.malformed (missingParameter method.name skipped index)) := by
  obtain ⟨file, rfl, hfile⟩ := Decoder.decode_eq_ok_iff.mp h
  refine ⟨⟨file, rfl⟩, fun other hother => ?_⟩
  -- There is only one class file with these bytes.
  obtain rfl := ClassFile.encode_injective hother
  have hdecl := hfile
  unfold ClassFile.decl at hdecl
  split at hdecl
  case isFalse => cases hdecl
  rename_i hversion
  obtain ⟨_, _, _, _, hname, -⟩ := other.content.of_decl_eq_ok hdecl
  obtain ⟨own, hown, hmethods⟩ := ClassRecord.methods_of_decl_eq_ok hdecl
  refine ⟨own, hname, hown, (forall₂_of_mapM hmethods).length_eq, ?_⟩
  intro place record method hrecord hmethod
  obtain ⟨given, hgiven, hmeaning⟩ := getElem?_of_mapM hmethods hrecord
  obtain rfl := Option.some.inj (hmethod.symm.trans hgiven)
  obtain ⟨skipped, hputs⟩ := MemberRecord.putsOnParameters hmeaning
  refine ⟨skipped, hputs, ?_⟩
  rintro use index longer ⟨table, ⟨found, record', hfound, hinserts, htable⟩, rfl⟩ huse hmissing
  obtain rfl := Option.some.inj (hrecord.symm.trans hfound)
  have hplace := (List.getElem?_eq_some_iff.mp hrecord).1
  have hreason := MemberRecord.method_of_insertsUse hmeaning hputs hinserts huse hmissing
  rw [Decoder.decode_encode, ClassFile.decl, if_pos hversion]
  exact ClassRecord.decl_eq_error_of_set hdecl hown htable hplace hreason

/-! ### A constructor with an annotation too many -/

/-- The class file of `innerFile`, with its pool. -/
def innerClassFile : ClassFile := ⟨0, 52, ⟨_, _, takes_innerConstants⟩, innerFile.content⟩

/-- The annotation `N`. -/
def innerNote : AnnotationRecord := ⟨6, []⟩

theorem innerNote_counted : innerNote.Counted := ⟨by decide, trivial⟩

theorem innerNote_means : innerNote.Means innerPool ⟨"N", []⟩ :=
  ⟨⟨"N", by decide, rfl, by decide⟩, rfl⟩

/-- The annotation on the parameter of this index. -/
def parameterRecord (index : UInt8) : TypeUseRecord :=
  ⟨.formalParameter index, [], Nat.zero_lt_succ _, innerNote, innerNote_counted⟩

/-- The annotation on types in the class file. -/
def innerTable : Table TypeUseRecord := ⟨[parameterRecord 0], by decide⟩

/-- One annotation more, on the second parameter that was written, if there were one. -/
def surplusTable : Table TypeUseRecord := ⟨[parameterRecord 0, parameterRecord 1], by decide⟩

/-- What it means. -/
def surplusUse : TypeUse := ⟨.formalParameter 1, [], ⟨"N", []⟩⟩

/-- The class file with it. -/
def surplusFile : ClassFile :=
  { innerClassFile with
    content.methods := ⟨[{ innerConstructor with
      attributes := ⟨[⟨5, surplusTable.encode TypeUseRecord.encode, by decide⟩], by decide⟩ }],
      by decide⟩ }

theorem innerClassFile_insertsUse : innerClassFile.InsertsUse {} 0 surplusUse surplusFile := by
  have hlegal : ∀ record ∈ surplusTable.records, record.Legal ∧ record.Readable innerPool := by
    intro record hmem
    obtain rfl | rfl : record = parameterRecord 0 ∨ record = parameterRecord 1 := by
      simpa [surplusTable] using hmem
    · exact ⟨by decide, ⟨_, innerNote_means⟩, by decide⟩
    · exact ⟨by decide, ⟨_, innerNote_means⟩, by decide⟩
  refine ⟨_, ⟨innerConstructor, _, rfl, ?_, rfl⟩, rfl⟩
  refine ⟨0, _, ⟨⟨5, innerUses.body, by decide⟩, _, rfl, ?_, rfl⟩, rfl⟩
  have hinserts : innerTable.Inserts (parameterRecord 1) surplusTable :=
    ⟨[parameterRecord 0], [], rfl, rfl⟩
  exact AttributeRecord.insertsUse_of_inserts rfl (.inl rfl) rfl rfl (List.append_nil _).symm
    hinserts ⟨rfl, rfl, innerNote_means⟩ hlegal

/-- In the constructor of a member class one parameter is skipped, so the annotation would be on a
    third one. -/
theorem parameters_of_decode_inner :
    (∃ result, (Decoder.new.decode ⟨"A.class", 0⟩ innerClassFile.encode {}).2 = .ok result)
      ∧ innerClassFile.InsertsUse {} 0 surplusUse surplusFile
      ∧ (Decoder.new.decode ⟨"A.class", 0⟩ surplusFile.encode {}).2
        = .error (.malformed (.missingPart (.formalParameter 2) "<init>")) := by
  obtain ⟨result, hresult⟩ := decode_innerFile
  refine ⟨⟨result, hresult⟩, innerClassFile_insertsUse, ?_⟩
  obtain ⟨own, hname, hown, hlength, hmethods⟩ :=
    (parameters_of_decode hresult).2 innerClassFile rfl
  have hself : result.name = "A" := (Except.ok.inj hname).symm
  rw [hself] at hown
  obtain rfl := Except.ok.inj (ownRows_innerFile.symm.trans hown)
  obtain ⟨method, hmethod⟩ : ∃ method, result.methods = [method] :=
    List.length_eq_one_iff.mp hlength.symm
  obtain ⟨skipped, ⟨hinit, hdescriptor, signature, declared, uses, hsignature, hskipped, hdeclared,
    -, hplaced⟩, hrefused⟩ := hmethods 0 innerConstructor method rfl (by rw [hmethod]; rfl)
  have hinit : method.name = "<init>" := (Except.ok.inj hinit).symm
  have hdescriptor : method.descriptor = "(LA;I)V" := (Except.ok.inj hdescriptor).symm
  have hnone : innerConstructor.signature? innerPool = .ok none := by cbv
  obtain rfl := Except.ok.inj (hnone.symm.trans hsignature)
  rw [hdescriptor] at hdeclared
  obtain rfl := Except.ok.inj (parse_innerTypes.symm.trans hdeclared)
  have hone : skipped = 1 := by
    rw [hskipped, hinit]
    decide
  subst hone
  have hmissing := hrefused surplusUse 1 surplusFile innerClassFile_insertsUse rfl (.inr ?_)
  · rw [hmissing, hinit]
    rfl
  · rw [hplaced.length_eq]
    decide

end ClassAtlas
