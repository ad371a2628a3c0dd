import ClassAtlas.Proofs.Signature.TypeSoundness

namespace ClassAtlas

open Reader

/-!
# Signatures of declarations are read as they are written

The soundness of the readers of whole texts, from that of the readers of types.  At the start no
level is open, so that `nestingLimit - 1` are left for each of the types.

* `TypeParameter.accounts_read`, `accounts_readTypeParameters` — declared type variables;
* `accounts_readWhole`, `MethodSignature.accounts_read`, `ClassSignature.accounts_read` — whole
  texts.
-/

variable {α : Type}

/-! ### Declared type variables -/

/-- A declared type variable that a reader can give. -/
structure TypeParameter.Readable (room : Nat) (parameter : TypeParameter α) : Prop where
  /-- The name is without colons. -/
  name : NameWithout [':'] parameter.name
  /-- So are the bounds readable. -/
  bounds : ∀ bound ∈ parameter.bounds, bound.Readable .bound room
  /-- It has no annotations. -/
  bare_eq : parameter.bare = parameter

theorem TypeParameter.utf8_encode (parameter : TypeParameter α) :
    Text.utf8 parameter.encode = Text.utf8 parameter.name ++ (.ofNat ':'.toNat)
      :: (parameter.classBound.toList.flatMap fun bound => Text.utf8 bound.encode)
        ++ parameter.interfaceBounds.flatMap fun bound =>
            .ofNat ':'.toNat :: Text.utf8 bound.encode := by
  have hclass : Text.utf8 ((parameter.classBound.map (·.encode)).getD "")
      = parameter.classBound.toList.flatMap fun bound => Text.utf8 bound.encode := by
    cases parameter.classBound <;> simp
  simp only [TypeParameter.encode, Text.utf8_append, Text.utf8_join, List.flatMap_map, hclass]
  simp only [List.append_assoc]
  rfl

theorem TypeParameter.utf8_encode_ne_nil (parameter : TypeParameter α) :
    Text.utf8 parameter.encode ≠ [] := by
  simp [utf8_encode]

/-- The first byte of a declared type variable is that of its name. -/
theorem TypeParameter.head?_encode {parameter : TypeParameter α} (h : parameter.name ≠ "") :
    (Text.utf8 parameter.encode).head? = (Text.utf8 parameter.name).head? := by
  rw [utf8_encode, List.append_assoc, List.head?_append_of_ne_nil]
  rwa [Ne, Text.utf8_eq_nil_iff]

/-- The first byte shows with which ASCII character the name begins, if with any. -/
theorem TypeParameter.exists_first {parameter : TypeParameter α} (h : parameter.name ≠ "") :
    ∃ byte, (Text.utf8 parameter.encode).head? = some byte
      ∧ ∀ c : Char, c.toNat < 128 →
        (Text.latin1 byte = c ↔ parameter.name.toList.head? = some c) := by
  obtain ⟨byte, hbyte⟩ : ∃ byte, (Text.utf8 parameter.name).head? = some byte := by
    rw [← Option.isSome_iff_exists, List.isSome_head?, ← List.isEmpty_eq_false_iff]
    simpa [Text.utf8_eq_nil_iff] using h
  exact ⟨byte, (head?_encode h).trans hbyte, fun _ ascii => Text.head_utf8 hbyte ascii⟩

/-- A variable without bounds is not followed by what could be read as a bound. -/
def TypeParameter.Apart (parameter : TypeParameter α) (after : List UInt8) : Prop :=
  parameter.bounds = [] → ∀ byte ∈ after.head?, Text.latin1 byte ∉ referenceMarks

theorem TypeParameter.readable_mk {room : Nat} {name : String} {classBound : Option (JavaType α)}
    {interfaceBounds : List (JavaType α)} (hname : NameWithout [':'] name)
    (hclass : ∀ bound ∈ classBound, bound.Readable .bound room)
    (hinterfaces : ∀ bound ∈ interfaceBounds, bound.Readable .bound room) :
    (⟨name, classBound, interfaceBounds, []⟩ : TypeParameter α).Readable room where
  name := hname
  bounds := by
    intro bound hbound
    rcases List.mem_append.mp hbound with h | h
    · exact hclass bound (Option.mem_toList.mp h)
    · exact hinterfaces bound h
  bare_eq := by
    have hbare := map_bare_of_readable hinterfaces
    cases classBound with
    | none => rw [bare, hbare, Option.map_none]
    | some bound => rw [bare, hbare, Option.map_some, (hclass bound rfl).bare_eq]

theorem TypeParameter.accounts_read :
    Accounts (TypeParameter.read : Reader (TypeParameter α)) 0
      (fun parameter => Text.utf8 parameter.encode)
      fun parameter after => parameter.Readable (nestingLimit - 1) ∧ parameter.Apart after := by
  intro start parameter stop hdepth hread
  have hreference := givesTypes_readReferenceWith (JavaType.givesTypes_read (α := α) false)
  have hends : ∀ c, decide (c = ':') = true ↔ c ∈ [':'] := by simp
  obtain ⟨name, first, hname, hread⟩ := bind_eq_ok.mp hread
  obtain ⟨hpass, hwf, -⟩ := accounts_readIdentifier hends (by simp) 0 hdepth hname
  obtain ⟨_, second, hcolon, hread⟩ := bind_eq_ok.mp hread
  have hpass := hpass.trans (expect_eq_ok.mp hcolon)
  obtain ⟨byte, _, hpeek, hread⟩ := bind_eq_ok.mp hread
  obtain ⟨hhead, rfl⟩ := peek_eq_ok.mp hpeek
  split at hread
  · -- There is a class bound, and so nothing that has to be told from one.
    obtain ⟨_, third, hsome, hread⟩ := bind_eq_ok.mp hread
    obtain ⟨bound, hbound, rfl⟩ := map_eq_ok.mp hsome
    obtain ⟨hclass, hclassBound⟩ := hreference (hpass.depth_eq.trans hdepth) hbound
    have hpass := hpass.trans hclass
    obtain ⟨interfaceBounds, _, hinterfaces, hread⟩ := bind_eq_ok.mp hread
    obtain ⟨rfl, rfl⟩ := pure_eq_ok.mp hread
    obtain ⟨hpassed, hturn⟩ :=
      accounts_marked hreference (hpass.depth_eq.trans hdepth) hinterfaces
    refine ⟨?_, readable_mk hwf ?_ (hturn.forall fun _ _ h => h), ?_⟩
    · simpa [TypeParameter.utf8_encode] using hpass.trans hpassed
    · rintro _ ⟨⟩
      exact hclassBound
    · intro hnone
      cases hnone
  · rename_i hnoBound
    obtain ⟨_, third, hbound, hread⟩ := bind_eq_ok.mp hread
    obtain ⟨rfl, rfl⟩ := pure_eq_ok.mp hbound
    obtain ⟨interfaceBounds, fourth, hinterfaces, hread⟩ := bind_eq_ok.mp hread
    obtain ⟨rfl, rfl⟩ := pure_eq_ok.mp hread
    obtain ⟨hpassed, hturn⟩ :=
      accounts_marked hreference (hpass.depth_eq.trans hdepth) hinterfaces
    refine ⟨?_, readable_mk hwf ?_ (hturn.forall fun _ _ h => h), ?_⟩
    · simpa [TypeParameter.utf8_encode] using hpass.trans hpassed
    · rintro _ ⟨⟩
    · -- Without interface bounds nothing was read behind the colon, and the byte there was seen.
      intro hnone b hb
      have hnil : interfaceBounds = [] := hnone
      rw [hnil] at hpassed
      have hrest : second.rest = fourth.rest := hpassed.rest_eq
      rw [← hrest, hhead, Option.mem_some_iff] at hb
      exact hb ▸ hnoBound

/-- Declared type variables that a reader can give. -/
structure ParametersReadable (room : Nat) (parameters : List (TypeParameter α)) : Prop where
  /-- They are well-formed. -/
  wellFormed : WellFormedParameters parameters
  /-- Their bounds fit. -/
  levels_le : levelsOfParameters parameters ≤ room
  /-- They have no annotations. -/
  bare_eq : parameters.map (·.bare) = parameters

/-- The conditions on each variable in front of the later ones are those on the list. -/
theorem ParametersReadable.of_inTurn {room : Nat} {parameters : List (TypeParameter α)}
    {following : List UInt8}
    (h : InTurn (fun parameter => Text.utf8 parameter.encode)
      (fun parameter after => (parameter.Readable room ∧ parameter.Apart after)
        ∧ Opens '>' (fun parameter => Text.utf8 parameter.encode) parameter)
      parameters following) : ParametersReadable room parameters where
  wellFormed := by
    have hall : ∀ parameter ∈ parameters, parameter.WellFormed := by
      refine h.forall fun parameter _ hp => ?_
      obtain ⟨⟨hreadable, -⟩, byte, hhead, hopen⟩ := hp
      obtain ⟨first, hfirst, hbegins⟩ := TypeParameter.exists_first hreadable.name.1
      obtain rfl : byte = first := Option.some.inj (hhead.symm.trans hfirst)
      refine ⟨hreadable.name, ?_, fun b hb => (hreadable.bounds b hb).wellFormed⟩
      rwa [Ne, ← hbegins '>' (by decide)]
    refine ⟨hall, ?_⟩
    -- The bytes behind a variable are those of the next name, so `Apart` speaks of that name.
    induction parameters with
    | nil => exact List.isChain_nil
    | cons parameter later ih =>
      have hlater := ih h.2 fun p hp => hall p (List.mem_cons_of_mem _ hp)
      cases later with
      | nil => exact List.isChain_singleton _
      | cons next later =>
        refine List.isChain_cons_cons.mpr ⟨fun hnone c hc hmark => ?_, hlater⟩
        obtain ⟨byte, hbyte, hbegins⟩ :=
          TypeParameter.exists_first (hall next (by simp)).name.1
        have hafter : byte ∈ (((next :: later).flatMap fun p => Text.utf8 p.encode)
            ++ following).head? := by
          rw [List.flatMap_cons, List.append_assoc, List.head?_append, hbyte]
          rfl
        refine h.1.1.2 hnone byte hafter ?_
        rw [(hbegins c (referenceMarks_ascii c hmark)).mpr hc]
        exact hmark
  levels_le := by
    refine (levelsOfTypes_le_iff _ _).mpr fun bound hbound => ?_
    obtain ⟨parameter, hparameter, hmem⟩ := List.mem_flatMap.mp hbound
    exact (h.forall (fun _ _ hp => hp.1.1) parameter hparameter).bounds bound hmem |>.levels_le
  bare_eq := (List.map_congr_left fun p hp =>
    (h.forall (fun _ _ hp => hp.1.1) p hp).bare_eq).trans (List.map_id' _)

theorem utf8_encodeTypeParameters {parameters : List (TypeParameter α)} (hne : parameters ≠ []) :
    Text.utf8 (encodeTypeParameters parameters)
      = .ofNat '<'.toNat :: (parameters.flatMap fun p => Text.utf8 p.encode)
          ++ [.ofNat '>'.toNat] := by
  have hsome : ¬ parameters.isEmpty = true := by simpa using hne
  rw [encodeTypeParameters, bracketed, if_neg hsome, Text.utf8_append, Text.utf8_append,
    Text.utf8_join, List.flatMap_map]
  rfl

theorem accounts_readTypeParameters :
    Accounts (readTypeParameters : Reader (List (TypeParameter α))) 0
      (fun parameters => Text.utf8 (encodeTypeParameters parameters))
      fun parameters _ => ParametersReadable (nestingLimit - 1) parameters := by
  have hnone : ParametersReadable (nestingLimit - 1) ([] : List (TypeParameter α)) :=
    ⟨⟨by simp, List.isChain_nil⟩, Nat.zero_le _, rfl⟩
  intro start parameters stop hdepth hread
  obtain ⟨_, _, hget, hread⟩ := bind_eq_ok.mp hread
  cases hget
  -- Only an opening bracket begins the list; otherwise nothing is read, and there are none.
  cases hrest : start.rest with
  | nil =>
    rw [hrest] at hread
    obtain ⟨rfl, rfl⟩ := pure_eq_ok.mp hread
    exact ⟨.refl _, hnone⟩
  | cons next rest =>
    rw [hrest] at hread
    dsimp only at hread
    split at hread
    · obtain ⟨rfl, rfl⟩ := pure_eq_ok.mp hread
      exact ⟨.refl _, hnone⟩
    · rename_i hopen
      obtain ⟨_, middle, hskip, hread⟩ := bind_eq_ok.mp hread
      obtain ⟨found, _, hfound, hread⟩ := bind_eq_ok.mp hread
      have hhead : start.rest.head? = some next := by rw [hrest]; rfl
      have hpass := passes_of_skip_one hhead hskip
      rw [Text.eq_of_latin1 (not_not.mp hopen)] at hpass
      obtain ⟨hpassed, hturn⟩ := accounts_untilByte TypeParameter.accounts_read
        (fun parameter _ _ => parameter.utf8_encode_ne_nil) (hpass.depth_eq.trans hdepth) hfound
      split at hread
      · exact absurd hread malformed_bind_ne_ok
      · rename_i hne
        obtain ⟨rfl, rfl⟩ := pure_eq_ok.mp hread
        refine ⟨?_, .of_inTurn hturn⟩
        show start.Passes (Text.utf8 (encodeTypeParameters found)) _
        rw [utf8_encodeTypeParameters (by simpa using hne), List.cons_append]
        exact hpass.trans hpassed

/-! ### Whole texts -/

theorem accounts_readThrown :
    Accounts (readThrown : Reader (JavaType α)) 0
      (fun type => .ofNat '^'.toNat :: Text.utf8 type.encode)
      fun type _ => type.Readable .thrown nestingLimit := by
  rw [readThrown_eq]
  intro start type stop hdepth hread
  obtain ⟨_, middle, hcaret, hread⟩ := bind_eq_ok.mp hread
  have hpass := expect_eq_ok.mp hcaret
  have hmiddle := hpass.depth_eq.trans hdepth
  obtain ⟨byte, _, hpeek, hread⟩ := bind_eq_ok.mp hread
  obtain ⟨hhead, rfl⟩ := peek_eq_ok.mp hpeek
  split at hread
  · obtain ⟨segments, _, hsegments, hread⟩ := bind_eq_ok.mp hread
    obtain ⟨rfl, rfl⟩ := pure_eq_ok.mp hread
    obtain ⟨hpassed, hne, hreadable⟩ := ClassType.accounts_read hmiddle hsegments
    exact ⟨hpass.trans hpassed, hreadable.ofClass hne _⟩
  split at hread
  · obtain ⟨hpassed, hreadable⟩ := accounts_readTypeVariable (nestingLimit - 1) 0 hmiddle hread
    exact ⟨hpass.trans hpassed, hreadable _⟩
  · exact absurd hread malformed_ne_ok

theorem readEnd_eq_ok {start stop : Cursor} {done : Unit}
    (h : readEnd start = .ok done stop) : start.rest = [] ∧ stop = start := by
  obtain ⟨more, _, hmore, hend⟩ := bind_eq_ok.mp h
  obtain ⟨rfl, rfl⟩ := hasMore_eq_ok.mp hmore
  split at hend
  · exact absurd hend bind_malformed_ne_ok
  · rename_i hempty
    exact ⟨by simpa using hempty, (pure_eq_ok.mp hend).2.symm⟩

/-- A type that is the whole text. -/
theorem accounts_readWhole (allowVoid : Bool) :
    Accounts (do let type ← JavaType.read allowVoid; readEnd; return type : Reader (JavaType α)) 0
      (fun type => Text.utf8 type.encode)
      fun type after => after = [] ∧ type.Readable (.reading allowVoid) (nestingLimit - 1) := by
  intro start type stop hdepth hread
  obtain ⟨_, middle, htype, hread⟩ := bind_eq_ok.mp hread
  obtain ⟨hpass, hreadable⟩ := JavaType.givesTypes_read allowVoid hdepth htype
  obtain ⟨_, _, hend, hread⟩ := bind_eq_ok.mp hread
  obtain ⟨rfl, rfl⟩ := pure_eq_ok.mp hread
  obtain ⟨hrest, rfl⟩ := readEnd_eq_ok hend
  exact ⟨hpass, hrest, hreadable⟩

/-- A method's signature that a reader can give. -/
structure MethodSignature.Readable (signature : MethodSignature α) : Prop where
  /-- It is well-formed. -/
  wellFormed : signature.WellFormed
  /-- It fits. -/
  levels_le : signature.levels ≤ nestingLimit - 1
  /-- It has no annotations and no receiver. -/
  bare_eq : signature.bare = signature

/-- A class's signature that a reader can give. -/
structure ClassSignature.Readable (signature : ClassSignature α) : Prop where
  /-- It is well-formed. -/
  wellFormed : signature.WellFormed
  /-- It fits. -/
  levels_le : signature.levels ≤ nestingLimit - 1
  /-- It has no annotations. -/
  bare_eq : signature.bare = signature

theorem MethodSignature.utf8_encode (signature : MethodSignature α) :
    Text.utf8 signature.encode = Text.utf8 (encodeTypeParameters signature.typeParameters)
      ++ [.ofNat '('.toNat]
      ++ ((signature.parameters.flatMap fun type => Text.utf8 type.encode) ++ [.ofNat ')'.toNat])
      ++ Text.utf8 signature.result.encode
      ++ signature.throws.flatMap fun type => .ofNat '^'.toNat :: Text.utf8 type.encode := by
  simp only [MethodSignature.encode, Text.utf8_append, Text.utf8_join, List.flatMap_map,
    List.append_assoc]
  rfl

theorem ClassSignature.utf8_encode (typeParameters : List (TypeParameter α))
    (superclass : ClassType α) (interfaces : List (ClassType α)) :
    Text.utf8 (ClassSignature.encode ⟨typeParameters, some superclass, interfaces⟩)
      = Text.utf8 (encodeTypeParameters typeParameters) ++ Text.utf8 superclass.encode
        ++ interfaces.flatMap fun interface => Text.utf8 interface.encode := by
  simp only [ClassSignature.encode, Text.utf8_append, Text.utf8_join, List.flatMap_map]
  rfl

theorem MethodSignature.accounts_read :
    Accounts (MethodSignature.read : Reader (MethodSignature α)) 0
      (fun signature => Text.utf8 signature.encode)
      fun signature after => after = [] ∧ signature.Readable := by
  intro start signature stop hdepth hread
  obtain ⟨typeParameters, first, htypeParameters, hread⟩ := bind_eq_ok.mp hread
  obtain ⟨hpass, hvariables⟩ := accounts_readTypeParameters hdepth htypeParameters
  obtain ⟨_, second, hopen, hread⟩ := bind_eq_ok.mp hread
  have hpass := hpass.trans (expect_eq_ok.mp hopen)
  obtain ⟨parameters, third, hparameters, hread⟩ := bind_eq_ok.mp hread
  obtain ⟨hpassed, hturn⟩ := accounts_untilByte (JavaType.givesTypes_read false)
    (fun _ _ h => h.ne_nil) (hpass.depth_eq.trans hdepth) hparameters
  have hpass := hpass.trans hpassed
  obtain ⟨result, fourth, hresult, hread⟩ := bind_eq_ok.mp hread
  obtain ⟨hpassed, hresult⟩ :=
    JavaType.givesTypes_read true (hpass.depth_eq.trans hdepth) hresult
  have hpass := hpass.trans hpassed
  obtain ⟨throws, fifth, hthrows, hread⟩ := bind_eq_ok.mp hread
  obtain ⟨hpassed, hend, hthrown⟩ := accounts_untilEnd accounts_readThrown
    (fun _ _ _ => List.cons_ne_nil _ _) (hpass.depth_eq.trans hdepth) hthrows
  have hpass := hpass.trans hpassed
  obtain ⟨rfl, rfl⟩ := pure_eq_ok.mp hread
  have hparameter := hturn.forall fun _ _ h => h.1
  have hthrow := hthrown.forall fun _ _ h => h
  refine ⟨?_, hend, ⟨hvariables.wellFormed, fun type ht => (hparameter type ht).wellFormed,
    hresult.wellFormed, fun type ht => (hthrow type ht).wellFormed⟩, ?_, ?_⟩
  · beta_reduce
    rw [MethodSignature.utf8_encode]
    exact hpass
  · refine Nat.max_le.mpr ⟨hvariables.levels_le, Nat.max_le.mpr ⟨?_, ?_⟩⟩
    · refine (levelsOfTypes_le_iff _ _).mpr fun type ht => ?_
      rcases List.mem_append.mp ht with h | h
      · exact (hparameter type h).levels_le
      · exact List.mem_singleton.mp h ▸ hresult.levels_le
    · -- The thrown types were read with one level more, which is the one not counted.
      exact Nat.sub_le_sub_right (levelsOfTypes_le_of_readable hthrow) 1
  · rw [MethodSignature.bare, hvariables.bare_eq, map_bare_of_readable hparameter, hresult.bare_eq,
      map_bare_of_readable hthrow]

theorem ClassSignature.accounts_read :
    Accounts (ClassSignature.read : Reader (ClassSignature α)) 0
      (fun signature => Text.utf8 signature.encode)
      fun signature after => after = [] ∧ signature.Readable := by
  intro start signature stop hdepth hread
  obtain ⟨typeParameters, first, htypeParameters, hread⟩ := bind_eq_ok.mp hread
  obtain ⟨hpass, hvariables⟩ := accounts_readTypeParameters hdepth htypeParameters
  obtain ⟨superclass, second, hsuperclass, hread⟩ := bind_eq_ok.mp hread
  obtain ⟨hpassed, hsupertype⟩ :=
    ClassType.accounts_read (hpass.depth_eq.trans hdepth) hsuperclass
  have hpass := hpass.trans hpassed
  obtain ⟨interfaces, third, hinterfaces, hread⟩ := bind_eq_ok.mp hread
  obtain ⟨hpassed, hend, hturn⟩ := accounts_untilEnd ClassType.accounts_read
    (fun _ _ h => JavaType.utf8_encode_ne_nil ⟨h.1, h.2.wellFormed⟩)
    (hpass.depth_eq.trans hdepth) hinterfaces
  have hpass := hpass.trans hpassed
  obtain ⟨rfl, rfl⟩ := pure_eq_ok.mp hread
  have hinterface := hturn.forall fun _ _ h => h
  refine ⟨?_, hend, ⟨hvariables.wellFormed, ⟨superclass, rfl, hsupertype.1,
    hsupertype.2.wellFormed⟩, fun type ht => ⟨(hinterface type ht).1,
      (hinterface type ht).2.wellFormed⟩⟩, ?_, ?_⟩
  · beta_reduce
    rw [ClassSignature.utf8_encode]
    exact hpass
  · refine Nat.max_le.mpr ⟨hvariables.levels_le, ?_⟩
    refine (levelsOfSegments_flatten_le_iff _ _).mpr fun type ht => ?_
    rcases List.mem_append.mp ht with h | h
    · exact List.mem_singleton.mp h ▸ hsupertype.2.levels_le
    · exact (hinterface type h).2.levels_le
  · have hbare : interfaces.map ClassType.bare = interfaces :=
      (List.map_congr_left fun type ht => (hinterface type ht).2.bare_eq).trans (List.map_id' _)
    rw [ClassSignature.bare, hvariables.bare_eq, Option.map_some, ClassType.bare,
      hsupertype.2.bare_eq, hbare]

end ClassAtlas
