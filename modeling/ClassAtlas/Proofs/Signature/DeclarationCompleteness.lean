import ClassAtlas.Proofs.Signature.DeclarationSoundness
import ClassAtlas.Proofs.Signature.TypeCompleteness

namespace ClassAtlas

open Reader

/-!
# Written declarations are read back

The completeness of the readers of whole texts, from that of the readers of types.  What is asked
of a declared type variable is that it can be told from what follows it.

* `TypeParameter.answers_read`, `answers_readTypeParameters` — declared type variables;
* `answers_readWhole`, `MethodSignature.answers_read`, `ClassSignature.answers_read` — whole texts.
-/

variable {α : Type}

/-! ### Declared type variables -/

/-- What is left of a declared type variable behind its name and colon. -/
theorem TypeParameter.answers_bounds {parameter : TypeParameter α}
    (hwf : ∀ bound ∈ parameter.bounds, bound.WellFormedAt .bound) {rest : List UInt8}
    (hapart : parameter.Apart rest) {next : UInt8} (hnext : rest.head? = some next)
    (hcolon : Text.latin1 next ≠ ':') (name : String) :
    Answers (do
      let classBound ←
        if Text.latin1 (← peek) ∈ ['L', 'T', '['] then
          some <$> readReferenceWith (JavaType.read false)
        else pure none
      let interfaceBounds ← marked ':' (readReferenceWith (JavaType.read false))
      return (⟨name, classBound, interfaceBounds, []⟩ : TypeParameter α))
      ((parameter.classBound.toList.flatMap fun bound => Text.utf8 bound.encode)
        ++ parameter.interfaceBounds.flatMap fun bound =>
            .ofNat ':'.toNat :: Text.utf8 bound.encode)
      rest 0 { parameter.bare with name := name }
      (∀ bound ∈ parameter.bounds, bound.levels ≤ nestingLimit - 1) := by
  have hreference := readsTypes_readReferenceWith (JavaType.readsTypes_read (α := α) false)
  obtain ⟨_, classBound, interfaceBounds, _⟩ := parameter
  have hinterfaces : ∀ bound ∈ interfaceBounds, ∀ after,
      Answers (readReferenceWith (JavaType.read false)) (Text.utf8 bound.encode) after 0 bound.bare
        (bound.levels ≤ nestingLimit - 1) := fun bound hbound after =>
    hreference bound (hwf bound (List.mem_append_right _ hbound)) after
  have hmarked := answers_marked (by decide) hnext hcolon hinterfaces
  cases classBound with
  | some bound =>
    have hbound : bound.WellFormedAt .bound := hwf bound (List.mem_append_left _ (by simp))
    have hmark : bound.mark ∈ ['L', 'T', '['] := bound.mark_mem_referenceMarks.mpr hbound.1
    rw [Option.toList_some, List.flatMap_singleton]
    refine (Answers.ofPeek (.ofNat bound.mark.toNat) ?_ ?_ : Answers _ _ _ _ _
      (bound.levels ≤ nestingLimit - 1
        ∧ ∀ bound ∈ interfaceBounds, bound.levels ≤ nestingLimit - 1)).congr
          (by simp [TypeParameter.bounds])
    · rw [List.append_assoc]
      exact JavaType.head?_append hbound.2 _
    · rw [JavaType.latin1_mark, if_pos hmark, map_eq_pure_bind]
      exact ((hreference bound hbound _).map some).bind (hmarked.map fun interfaceBounds =>
        (⟨name, some bound.bare, interfaceBounds, []⟩ : TypeParameter α))
  | none =>
    -- The next byte is the colon of an interface bound, or else that behind the variable.
    obtain ⟨byte, hbyte, hmark⟩ : ∃ byte, ((interfaceBounds.flatMap fun bound =>
        .ofNat ':'.toNat :: Text.utf8 bound.encode) ++ rest).head? = some byte
        ∧ Text.latin1 byte ∉ ['L', 'T', '['] := by
      cases interfaceBounds with
      | nil => exact ⟨next, hnext, hapart rfl next hnext⟩
      | cons bound more => exact ⟨.ofNat ':'.toNat, rfl, by decide⟩
    rw [Option.toList_none, List.flatMap_nil, List.nil_append]
    refine .ofPeek byte hbyte ?_
    rw [if_neg hmark]
    exact (answers_pure none).andThen (hmarked.map fun interfaceBounds =>
      (⟨name, none, interfaceBounds, []⟩ : TypeParameter α))

/-- A declared type variable in front of what it can be told from. -/
theorem TypeParameter.answers_read {parameter : TypeParameter α} (hwf : parameter.WellFormed)
    {rest : List UInt8} (hapart : parameter.Apart rest) {next : UInt8}
    (hnext : rest.head? = some next) (hcolon : Text.latin1 next ≠ ':') :
    Answers TypeParameter.read (Text.utf8 parameter.encode) rest 0 parameter.bare
      (∀ bound ∈ parameter.bounds, bound.levels ≤ nestingLimit - 1) := by
  have hends : ∀ c, decide (c = ':') = true ↔ c ∈ [':'] := by simp
  have hbounds := answers_bounds hwf.bounds hapart hnext hcolon parameter.name
  have hbytes := parameter.utf8_encode
  rw [List.append_assoc, List.cons_append] at hbytes
  rw [hbytes]
  unfold TypeParameter.read
  refine (answers_readIdentifier hends (by simp) hwf.name List.head?_cons (by decide) 0).andThen ?_
  exact Answers.andThen (answers_expect ':') hbounds

/-- The byte behind a declared type variable begins the name of the next one or closes the list. -/
theorem WellFormedParameters.follower {parameter : TypeParameter α}
    {later : List (TypeParameter α)} (h : WellFormedParameters (parameter :: later))
    (rest : List UInt8) :
    ∃ next, ((later.flatMap fun parameter => Text.utf8 parameter.encode)
        ++ .ofNat '>'.toNat :: rest).head? = some next
      ∧ Text.latin1 next ≠ ':'
      ∧ (parameter.bounds = [] → Text.latin1 next ∉ referenceMarks) := by
  obtain ⟨hall, hchain⟩ := h
  cases later with
  | nil => exact ⟨.ofNat '>'.toNat, rfl, by decide, fun _ => by decide⟩
  | cons next more =>
    have hname := (hall next (by simp)).name
    obtain ⟨byte, hbyte, hbegins⟩ := TypeParameter.exists_first hname.1
    refine ⟨byte, ?_, fun hcolon => ?_, fun hnone hmark => ?_⟩
    · rw [List.flatMap_cons, List.append_assoc, List.head?_append, hbyte]
      rfl
    · have hhead := (hbegins ':' (by decide)).mp hcolon
      exact hname.2 ':' (List.mem_of_mem_head? hhead) (by decide)
    · have hhead := (hbegins _ (referenceMarks_ascii _ hmark)).mp rfl
      exact (List.isChain_cons_cons.mp hchain).1 hnone _ hhead hmark

theorem answers_untilByte_typeParameters {parameters : List (TypeParameter α)}
    (hwf : WellFormedParameters parameters) (rest : List UInt8) :
    Answers (untilByte '>' TypeParameter.read)
      ((parameters.flatMap fun parameter => Text.utf8 parameter.encode) ++ [.ofNat '>'.toNat])
      rest 0 (parameters.map (·.bare))
      (∀ parameter ∈ parameters, ∀ bound ∈ parameter.bounds, bound.levels ≤ nestingLimit - 1) := by
  refine answers_untilByte (by decide) ?_
  induction parameters with
  | nil => trivial
  | cons parameter later ih =>
    have hlater : WellFormedParameters later :=
      ⟨fun p hp => hwf.1 p (List.mem_cons_of_mem _ hp), hwf.2.of_cons⟩
    have hparameter := hwf.1 parameter (List.mem_cons_self ..)
    obtain ⟨next, hnext, hcolon, hapart⟩ := hwf.follower rest
    obtain ⟨byte, hbyte, hbegins⟩ := TypeParameter.exists_first hparameter.name.1
    refine ⟨⟨?_, byte, hbyte, ?_⟩, ih hlater⟩
    · -- `Apart` asks for any byte that may follow, and there is only the one.
      refine TypeParameter.answers_read hparameter (fun hnone b hb => ?_) hnext hcolon
      obtain rfl : next = b := Option.some.inj (hnext.symm.trans hb)
      exact hapart hnone
    · rw [Ne, hbegins '>' (by decide)]
      exact hparameter.head

theorem answers_readTypeParameters {parameters : List (TypeParameter α)}
    (hwf : WellFormedParameters parameters) {rest : List UInt8} {next : UInt8}
    (hnext : rest.head? = some next) (hopen : Text.latin1 next ≠ '<') :
    Answers readTypeParameters (Text.utf8 (encodeTypeParameters parameters)) rest 0
      (parameters.map (·.bare)) (levelsOfParameters parameters ≤ nestingLimit - 1) := by
  unfold readTypeParameters
  refine .ofGet fun cursor hunread => ?_
  by_cases hne : parameters = []
  · subst hne
    obtain ⟨tail, rfl⟩ := List.head?_eq_some_iff.mp hnext
    have hclosed : cursor.rest = next :: tail := hunread
    rw [hclosed]
    dsimp only
    rw [if_pos hopen]
    exact (answers_pure _).congr (iff_of_true trivial (Nat.zero_le _))
  · have hsome : parameters.map TypeParameter.bare ≠ [] := by rwa [Ne, List.map_eq_nil_iff]
    have hlist := (answers_untilByte_typeParameters hwf rest).nonempty hsome .noTypeParameters
    have hlevels : levelsOfParameters parameters ≤ nestingLimit - 1 ↔
        ∀ parameter ∈ parameters, ∀ bound ∈ parameter.bounds, bound.levels ≤ nestingLimit - 1 := by
      rw [levelsOfParameters, levelsOfTypes_le_iff]
      simp only [List.mem_flatMap, forall_exists_index, and_imp]
      exact ⟨fun h p hp b hb => h b p hp hb, fun h b p hp hb => h p hp b hb⟩
    rw [utf8_encodeTypeParameters hne, List.cons_append] at hunread ⊢
    rw [hunread, List.cons_append]
    dsimp only
    rw [if_neg (not_not.mpr (by decide))]
    exact ((answers_skip_one (.ofNat '<'.toNat)).andThen hlist).congr hlevels.symm

/-! ### Whole texts -/

/-- A thrown type that is a class type opens no level of its own. -/
theorem answers_readThrown {type : JavaType α} (htype : type.WellFormedAt .thrown)
    (rest : List UInt8) :
    Answers readThrown (.ofNat '^'.toNat :: Text.utf8 type.encode) rest 0 type.bare
      (type.levels ≤ nestingLimit) := by
  rw [readThrown_eq]
  refine Answers.andThen (answers_expect '^') ?_
  refine .ofPeek _ (JavaType.head?_append htype.2 rest) ?_
  rw [JavaType.latin1_mark]
  cases type with
  | ofClass segments =>
    rw [JavaType.mark, if_pos rfl]
    exact ((ClassType.answers_read htype.2 rest).map JavaType.ofClass).congr
      Nat.succ_le_succ_iff.symm
  | typeVariable name annotations =>
    rw [JavaType.mark, if_neg (by decide), if_pos rfl]
    exact (answers_readTypeVariable htype.2 annotations rest 0).congr
      (iff_of_true trivial (Nat.le_add_left 1 (nestingLimit - 1)))
  -- Nothing else may be thrown.
  | primitive kind _ => simp [JavaType.WellFormedAt, TypePlace.admits] at htype
  | array _ _ => cases htype.1
  | wildcard _ => cases htype.1
  | bounded _ _ _ => cases htype.1

/-- A type that is the whole text. -/
theorem answers_readWhole {allowVoid : Bool} {type : JavaType α}
    (htype : type.WellFormedAt (.reading allowVoid)) :
    Answers (do let type ← JavaType.read allowVoid; readEnd; return type : Reader (JavaType α))
      (Text.utf8 type.encode) [] 0 type.bare (type.levels ≤ nestingLimit - 1) := by
  have hend : Answers (do readEnd; return type.bare : Reader (JavaType α)) [] [] 0 type.bare True :=
    ⟨fun _ _ => rfl, fun h => absurd trivial h⟩
  rw [← List.append_nil (Text.utf8 type.encode)]
  exact ((JavaType.readsTypes_read allowVoid type htype _).bind hend).congr (iff_of_eq (and_true _))

theorem MethodSignature.levels_le_iff (signature : MethodSignature α) :
    signature.levels ≤ nestingLimit - 1 ↔
      levelsOfParameters signature.typeParameters ≤ nestingLimit - 1
        ∧ (∀ type ∈ signature.parameters, type.levels ≤ nestingLimit - 1)
        ∧ signature.result.levels ≤ nestingLimit - 1
        ∧ ∀ type ∈ signature.throws, type.levels ≤ nestingLimit := by
  have hthrows : levelsOfTypes signature.throws - 1 ≤ nestingLimit - 1
      ↔ levelsOfTypes signature.throws ≤ nestingLimit := by
    unfold nestingLimit
    omega
  simp only [levels, Nat.max_le, hthrows, levelsOfTypes_le_iff, List.mem_append,
    List.mem_singleton, or_imp, forall_and, forall_eq, and_assoc]

theorem MethodSignature.answers_read {signature : MethodSignature α} (hwf : signature.WellFormed) :
    Answers MethodSignature.read (Text.utf8 signature.encode) [] 0 signature.bare
      (signature.levels ≤ nestingLimit - 1) := by
  have hparameters : ∀ rest, Answers (untilByte ')' (JavaType.read false))
      ((signature.parameters.flatMap fun type => Text.utf8 type.encode) ++ [.ofNat ')'.toNat])
      rest 0 (signature.parameters.map (·.bare))
      (∀ type ∈ signature.parameters, type.levels ≤ nestingLimit - 1) := fun rest =>
    answers_untilByte (by decide) <| .of_forall fun type ht after =>
      ⟨JavaType.readsTypes_read false type (hwf.parameters type ht) after,
        JavaType.opens (hwf.parameters type ht).2 (by decide)⟩
  have hthrows := answers_untilEnd (fun _ _ => List.cons_ne_nil _ _) fun type ht rest =>
    answers_readThrown (hwf.throws type ht) rest
  rw [MethodSignature.utf8_encode, List.append_assoc, List.append_assoc, List.append_assoc]
  refine Answers.congr (?_ : Answers _ _ _ _ _ _) signature.levels_le_iff.symm
  unfold MethodSignature.read
  refine (answers_readTypeParameters hwf.typeParameters rfl (by decide)).bind ?_
  refine (answers_expect '(').andThen ?_
  refine (hparameters _).bind ?_
  refine (JavaType.readsTypes_read true _ hwf.result _).bind ?_
  exact hthrows.map fun throws => (⟨signature.typeParameters.map (·.bare),
    signature.parameters.map (·.bare), signature.result.bare, throws, none⟩ : MethodSignature α)

theorem ClassSignature.answers_read {signature : ClassSignature α} (hwf : signature.WellFormed) :
    Answers ClassSignature.read (Text.utf8 signature.encode) [] 0 signature.bare
      (signature.levels ≤ nestingLimit - 1) := by
  obtain ⟨typeParameters, superclass, interfaces⟩ := signature
  obtain ⟨htypeParameters, ⟨superclass, rfl, hsuperclass⟩, hinterface⟩ := hwf
  have hinterfaces := answers_untilEnd
    (fun type ht => JavaType.utf8_encode_ne_nil (hinterface type ht))
    fun type ht rest => ClassType.answers_read (hinterface type ht) rest
  have hlevels : ClassSignature.levels ⟨typeParameters, some superclass, interfaces⟩
      ≤ nestingLimit - 1 ↔ levelsOfParameters typeParameters ≤ nestingLimit - 1
        ∧ levelsOfSegments superclass ≤ nestingLimit - 1
        ∧ ∀ type ∈ interfaces, levelsOfSegments type ≤ nestingLimit - 1 := by
    rw [levels, Nat.max_le, levelsOfSegments_flatten_le_iff]
    simp
  obtain ⟨tail, hmark⟩ : ∃ tail, Text.utf8 superclass.encode = .ofNat 'L'.toNat :: tail :=
    List.head?_eq_some_iff.mp (JavaType.head?_encode hsuperclass)
  rw [ClassSignature.utf8_encode, List.append_assoc]
  refine Answers.congr (?_ : Answers _ _ _ _ _ _) hlevels.symm
  unfold ClassSignature.read
  refine (answers_readTypeParameters htypeParameters (by rw [hmark]; rfl) (by decide)).bind ?_
  refine (ClassType.answers_read hsuperclass _).bind ?_
  exact hinterfaces.map fun interfaces => (⟨typeParameters.map (·.bare), some superclass.bare,
    interfaces⟩ : ClassSignature α)

end ClassAtlas
