import ClassAtlas.Proofs.Signature.Attached
import ClassAtlas.Proofs.Signature.RoundTrip
import ClassAtlas.Proofs.Signature.SegmentNames

namespace ClassAtlas

open Relation

/-!
# The texts of annotated signatures

Attaching annotations to what was read leaves a tree that is written without them.  Its text is
read as that tree again exactly if no class that was split left one without a name.

* `JavaType.Kept` and its like — what any number of them keep;
* `Respells` — which trees come back from their texts;
* `signatures_respell` — for the four kinds of texts.
-/

variable {α : Type}

/-! ### What attachments keep -/

/-- What the second type has in common with the first. -/
structure JavaType.Kept (type type' : JavaType α) : Prop where
  admits_eq : ∀ place : TypePlace, place.admits type' = place.admits type
  grammatical : type.Grammatical → type'.Grammatical
  levels_le : type'.levels ≤ type.levels
  forall_segmentNames : ∀ {Fine : Bool × String → Prop}, SplitClosed Fine →
    (∀ named ∈ type.segmentNames, Fine named) → ∀ named ∈ type'.segmentNames, Fine named

theorem JavaType.Kept.refl (type : JavaType α) : Kept type type :=
  ⟨fun _ => rfl, id, le_rfl, fun _ => id⟩

theorem JavaType.Kept.trans {first second third : JavaType α} (h : Kept first second)
    (h' : Kept second third) : Kept first third where
  admits_eq place := (h'.admits_eq place).trans (h.admits_eq place)
  grammatical := h'.grammatical ∘ h.grammatical
  levels_le := h'.levels_le.trans h.levels_le
  forall_segmentNames hclosed := h'.forall_segmentNames hclosed ∘ h.forall_segmentNames hclosed

theorem JavaType.Gains.kept {added : List α} {type type' : JavaType α}
    (h : Gains added type type') : Kept type type' :=
  ⟨h.admits_eq, h.grammatical, h.levels_le, h.forall_segmentNames⟩

theorem JavaType.Attached.kept [ToString α] {type type' : JavaType α} (h : Attached type type') :
    Kept type type' := by
  -- Inside a type, one attachment has the shape of one gain.
  have hgains : ∃ added, Gains added type type' := by
    induction h with
    | here note path type => exact ⟨_, type.gains_attach note path⟩
    | bound side annotations h ih => exact ih.imp fun _ => .bound side annotations
    | element dimensions h ih => exact ih.imp fun _ => .element dimensions
    | argument outer name before after annotations inner h ih =>
      exact ih.imp fun _ => .argument outer name before after annotations inner
  exact hgains.choose_spec.kept

/-- Without names that are empty, a well-formed type stays well-formed. -/
theorem JavaType.Kept.wellFormedAt {type type' : JavaType α} (h : Kept type type')
    {place : TypePlace} (hwf : type.WellFormedAt place)
    (hnames : ∀ named ∈ type'.segmentNames, named.2 ≠ "") : type'.WellFormedAt place := by
  obtain ⟨hplace, hwf⟩ := hwf
  rw [JavaType.wellFormed_iff] at hwf
  refine ⟨(h.admits_eq place).trans hplace, type'.wellFormed_iff.mpr
    ⟨h.grammatical hwf.1, fun named hnamed => ⟨hnames named hnamed, ?_⟩⟩⟩
  exact h.forall_segmentNames splitClosed_notMem_nameEnds
    (fun named hnamed => (hwf.2 named hnamed).2) named hnamed

/-- Each of the second types has one among the first to take after. -/
def KeptIn (types types' : List (JavaType α)) : Prop :=
  ∀ type' ∈ types', ∃ type ∈ types, type.Kept type'

theorem KeptIn.refl (types : List (JavaType α)) : KeptIn types types :=
  fun type htype => ⟨type, htype, .refl type⟩

theorem KeptIn.trans {first second third : List (JavaType α)} (h : KeptIn first second)
    (h' : KeptIn second third) : KeptIn first third := by
  intro type₃ hthird
  obtain ⟨type₂, hsecond, hkept'⟩ := h' type₃ hthird
  obtain ⟨type₁, hfirst, hkept⟩ := h type₂ hsecond
  exact ⟨type₁, hfirst, hkept.trans hkept'⟩

theorem KeptIn.append {types types' more more' : List (JavaType α)} (h : KeptIn types types')
    (hmore : KeptIn more more') : KeptIn (types ++ more) (types' ++ more') := by
  intro type' htype'
  rcases List.mem_append.mp htype' with htype' | htype'
  · exact (h type' htype').imp fun _ => And.imp_left (List.mem_append_left _)
  · exact (hmore type' htype').imp fun _ => And.imp_left (List.mem_append_right _)

theorem JavaType.Kept.keptIn {type type' : JavaType α} (h : Kept type type')
    (before after : List (JavaType α)) :
    KeptIn (before ++ type :: after) (before ++ type' :: after) := by
  have hone : KeptIn [type] [type'] := by simpa [KeptIn] using h
  exact (KeptIn.refl before).append (hone.append (KeptIn.refl after))

theorem KeptIn.wellFormedAt {types types' : List (JavaType α)} (h : KeptIn types types')
    {place : TypePlace} (hwf : ∀ type ∈ types, type.WellFormedAt place)
    (hnames : ∀ named ∈ types'.flatMap (·.segmentNames), named.2 ≠ "") :
    ∀ type' ∈ types', type'.WellFormedAt place := by
  intro type' htype'
  obtain ⟨type, htype, hkept⟩ := h type' htype'
  exact hkept.wellFormedAt (hwf type htype) fun named hnamed =>
    hnames named (List.mem_flatMap_of_mem htype' hnamed)

theorem KeptIn.levels_le {types types' : List (JavaType α)} (h : KeptIn types types') :
    levelsOfTypes types' ≤ levelsOfTypes types := by
  rw [levelsOfTypes_le_iff]
  intro type' htype'
  obtain ⟨type, htype, hkept⟩ := h type' htype'
  exact hkept.levels_le.trans ((levelsOfTypes_le_iff types _).mp le_rfl type htype)

theorem KeptIn.forall_segmentNames {types types' : List (JavaType α)} (h : KeptIn types types')
    {Fine : Bool × String → Prop} (hclosed : SplitClosed Fine)
    (hfine : ∀ named ∈ types.flatMap (·.segmentNames), Fine named) :
    ∀ named ∈ types'.flatMap (·.segmentNames), Fine named := by
  intro named hnamed
  obtain ⟨type', htype', hnamed⟩ := List.mem_flatMap.mp hnamed
  obtain ⟨type, htype, hkept⟩ := h type' htype'
  exact hkept.forall_segmentNames hclosed
    (fun named hnamed => hfine named (List.mem_flatMap_of_mem htype hnamed)) named hnamed

/-! ### What declarations keep -/

/-- What tells type variables apart and bounds from names. -/
def TypeParameter.head (parameter : TypeParameter α) : String × Bool :=
  (parameter.name, parameter.bounds.isEmpty)

/-- The names of classes in the bounds. -/
def TypeParameter.segmentNames (parameter : TypeParameter α) : List (Bool × String) :=
  parameter.bounds.flatMap (·.segmentNames)

/-- What the second type variables have in common with the first. -/
structure ParametersKept (parameters parameters' : List (TypeParameter α)) : Prop where
  heads_eq : parameters'.map (·.head) = parameters.map (·.head)
  bounds : KeptIn (parameters.flatMap (·.bounds)) (parameters'.flatMap (·.bounds))

theorem ParametersKept.refl (parameters : List (TypeParameter α)) :
    ParametersKept parameters parameters := ⟨rfl, .refl _⟩

theorem ParametersKept.trans {first second third : List (TypeParameter α)}
    (h : ParametersKept first second) (h' : ParametersKept second third) :
    ParametersKept first third :=
  ⟨h'.heads_eq.trans h.heads_eq, h.bounds.trans h'.bounds⟩

theorem TypeParameter.Attached.parametersKept [ToString α] {parameter parameter' : TypeParameter α}
    (h : parameter.Attached parameter') (before after : List (TypeParameter α)) :
    ParametersKept (before ++ parameter :: after) (before ++ parameter' :: after) := by
  have hone : parameter'.head = parameter.head ∧ KeptIn parameter.bounds parameter'.bounds := by
    cases h with
    | declaration note => exact ⟨rfl, .refl _⟩
    | classBound hbound h =>
      simp only [TypeParameter.head, TypeParameter.bounds, hbound, Option.toList_some]
      exact ⟨rfl, h.kept.keptIn [] parameter.interfaceBounds⟩
    | interfaceBound hbounds h =>
      -- As many bounds as before, so they are empty if they were.
      simp only [TypeParameter.head, TypeParameter.bounds, hbounds]
      refine ⟨Prod.ext rfl ?_, (KeptIn.refl _).append (h.kept.keptIn _ _)⟩
      rw [Bool.eq_iff_iff, List.isEmpty_iff, List.isEmpty_iff]
      simp
  constructor
  · simp only [List.map_append, List.map_cons, hone.1]
  · simp only [List.flatMap_append, List.flatMap_cons]
    exact (KeptIn.refl _).append (hone.2.append (KeptIn.refl _))

/-- Whether type variables stay apart is a matter of their names and of which have bounds. -/
theorem isChain_separate_iff (parameters : List (TypeParameter α)) :
    parameters.IsChain TypeParameter.Separate
      ↔ (parameters.map (·.head)).IsChain fun head next =>
        head.2 = true → ∀ c ∈ next.1.toList.head?, c ∉ referenceMarks := by
  rw [List.isChain_map]
  simp only [TypeParameter.head, List.isEmpty_iff]
  rfl

theorem ParametersKept.wellFormed {parameters parameters' : List (TypeParameter α)}
    (h : ParametersKept parameters parameters') (hwf : WellFormedParameters parameters)
    (hnames : ∀ named ∈ parameters'.flatMap (·.segmentNames), named.2 ≠ "") :
    WellFormedParameters parameters' := by
  have hbounds : ∀ bound ∈ parameters'.flatMap (·.bounds), bound.WellFormedAt .bound := by
    refine h.bounds.wellFormedAt (fun bound hbound => ?_) ?_
    · obtain ⟨parameter, hparameter, hbound⟩ := List.mem_flatMap.mp hbound
      exact (hwf.1 parameter hparameter).bounds bound hbound
    · rw [List.flatMap_assoc]
      exact hnames
  refine ⟨fun parameter' hparameter' => ?_, ?_⟩
  · have hhead : parameter'.head ∈ parameters.map (·.head) :=
      h.heads_eq ▸ List.mem_map_of_mem hparameter'
    obtain ⟨parameter, hparameter, hhead⟩ := List.mem_map.mp hhead
    have hname : parameter.name = parameter'.name := congrArg Prod.fst hhead
    refine ⟨hname ▸ (hwf.1 parameter hparameter).name, hname ▸ (hwf.1 parameter hparameter).head,
      fun bound hbound => hbounds bound (List.mem_flatMap_of_mem hparameter' hbound)⟩
  · rw [isChain_separate_iff, h.heads_eq, ← isChain_separate_iff]
    exact hwf.2

theorem ParametersKept.forall_segmentNames {parameters parameters' : List (TypeParameter α)}
    (h : ParametersKept parameters parameters') {Fine : Bool × String → Prop}
    (hclosed : SplitClosed Fine)
    (hfine : ∀ named ∈ parameters.flatMap (·.segmentNames), Fine named) :
    ∀ named ∈ parameters'.flatMap (·.segmentNames), Fine named := by
  have hbounds := h.bounds.forall_segmentNames hclosed
  rw [List.flatMap_assoc, List.flatMap_assoc] at hbounds
  exact hbounds hfine

/-- What the second method's types have in common with the first. -/
structure MethodSignature.Kept (signature signature' : MethodSignature α) : Prop where
  typeParameters : ParametersKept signature.typeParameters signature'.typeParameters
  parameters : KeptIn signature.parameters signature'.parameters
  result : signature.result.Kept signature'.result
  throws : KeptIn signature.throws signature'.throws

/-- The supertypes of a class, the superclass first. -/
def ClassSignature.supertypes (signature : ClassSignature α) : List (JavaType α) :=
  (signature.superclass.toList ++ signature.interfaces).map .ofClass

/-- What the second class's type variables and supertypes have in common with the first. -/
structure ClassSignature.Kept (signature signature' : ClassSignature α) : Prop where
  typeParameters : ParametersKept signature.typeParameters signature'.typeParameters
  superclass_isSome : signature'.superclass.isSome = signature.superclass.isSome
  supertypes : KeptIn signature.supertypes signature'.supertypes

instance : Std.Refl (JavaType.Kept (α := α)) := ⟨.refl⟩
instance : IsTrans (JavaType α) JavaType.Kept := ⟨fun _ _ _ => .trans⟩

instance : Std.Refl (MethodSignature.Kept (α := α)) :=
  ⟨fun _ => ⟨.refl _, .refl _, .refl _, .refl _⟩⟩

instance : IsTrans (MethodSignature α) MethodSignature.Kept where
  trans _ _ _ h h' := ⟨h.typeParameters.trans h'.typeParameters, h.parameters.trans h'.parameters,
    h.result.trans h'.result, h.throws.trans h'.throws⟩

instance : Std.Refl (ClassSignature.Kept (α := α)) := ⟨fun _ => ⟨.refl _, rfl, .refl _⟩⟩

instance : IsTrans (ClassSignature α) ClassSignature.Kept where
  trans _ _ _ h h' := ⟨h.typeParameters.trans h'.typeParameters,
    h'.superclass_isSome.trans h.superclass_isSome, h.supertypes.trans h'.supertypes⟩

theorem MethodSignature.Attached.kept [ToString α] {signature signature' : MethodSignature α}
    (h : signature.Attached signature') : signature.Kept signature' := by
  cases h with
  | typeParameter hparameters h =>
    exact ⟨hparameters ▸ h.parametersKept _ _, .refl _, .refl _, .refl _⟩
  | parameter htypes h => exact ⟨.refl _, htypes ▸ h.kept.keptIn _ _, .refl _, .refl _⟩
  | result h => exact ⟨.refl _, .refl _, h.kept, .refl _⟩
  | thrown htypes h => exact ⟨.refl _, .refl _, .refl _, htypes ▸ h.kept.keptIn _ _⟩
  -- The text has no place for a receiver.
  | receiver made h => exact ⟨.refl _, .refl _, .refl _, .refl _⟩

theorem ClassSignature.Attached.kept [ToString α] {signature signature' : ClassSignature α}
    (h : signature.Attached signature') : signature.Kept signature' := by
  cases h with
  | typeParameter hparameters h =>
    exact ⟨hparameters ▸ h.parametersKept _ _, rfl, .refl _⟩
  | superclass htype h =>
    refine ⟨.refl _, by rw [htype]; rfl, ?_⟩
    simp only [ClassSignature.supertypes, htype, Option.toList_some, List.map_append, List.map_cons]
    exact h.kept.keptIn [] _
  | implemented htypes h =>
    refine ⟨.refl _, rfl, ?_⟩
    simp only [ClassSignature.supertypes, htypes, List.map_append, List.map_cons]
    exact (KeptIn.refl _).append (h.kept.keptIn _ _)

/-! ### The trees that come back -/

/-- What is kept is enough to be well-formed without empty names, and to be nested no deeper. -/
structure KeepsText {β : Type} (Kept : β → β → Prop) (WellFormed : β → Prop) (levels : β → Nat)
    (segmentNames : β → List (Bool × String)) : Prop where
  wellFormed : ∀ {value value'}, Kept value value' → WellFormed value →
    (∀ named ∈ segmentNames value', named.2 ≠ "") → WellFormed value'
  levels_le : ∀ {value value'}, Kept value value' → levels value' ≤ levels value
  forall_segmentNames : ∀ {value value'} {Fine : Bool × String → Prop}, Kept value value' →
    SplitClosed Fine → (∀ named ∈ segmentNames value, Fine named) →
      ∀ named ∈ segmentNames value', Fine named

theorem JavaType.keepsText (place : TypePlace) :
    KeepsText (Kept (α := α)) (WellFormedAt place) levels segmentNames where
  wellFormed h := h.wellFormedAt
  levels_le h := h.levels_le
  forall_segmentNames h hclosed := h.forall_segmentNames hclosed

/-- The names of the classes in a method's types but for the receiver. -/
def MethodSignature.segmentNames (signature : MethodSignature α) : List (Bool × String) :=
  signature.typeParameters.flatMap (·.segmentNames)
    ++ (signature.parameters.flatMap (·.segmentNames)
      ++ (signature.result.segmentNames ++ signature.throws.flatMap (·.segmentNames)))

/-- The names of the classes in a class's type variables and supertypes. -/
def ClassSignature.segmentNames (signature : ClassSignature α) : List (Bool × String) :=
  signature.typeParameters.flatMap (·.segmentNames)
    ++ signature.supertypes.flatMap (·.segmentNames)

theorem MethodSignature.keepsText :
    KeepsText (Kept (α := α)) WellFormed levels segmentNames where
  wellFormed {signature signature'} h hwf hnames := by
    simp only [segmentNames, List.forall_mem_append] at hnames
    obtain ⟨htypeParameters, hparameters, hresult, hthrows⟩ := hnames
    exact ⟨h.typeParameters.wellFormed hwf.typeParameters htypeParameters,
      h.parameters.wellFormedAt hwf.parameters hparameters,
      h.result.wellFormedAt hwf.result hresult, h.throws.wellFormedAt hwf.throws hthrows⟩
  levels_le {signature signature'} h := by
    have hbounds := h.typeParameters.bounds.levels_le
    -- The result counts as one more parameter here, as in the levels of a method.
    have htypes := (h.parameters.append (h.result.keptIn [] [])).levels_le
    have hthrows := h.throws.levels_le
    simp only [List.nil_append] at htypes
    simp only [levels, levelsOfParameters]
    omega
  forall_segmentNames {signature signature' Fine} h hclosed hfine := by
    simp only [segmentNames, List.forall_mem_append] at hfine ⊢
    exact ⟨h.typeParameters.forall_segmentNames hclosed hfine.1,
      h.parameters.forall_segmentNames hclosed hfine.2.1,
      h.result.forall_segmentNames hclosed hfine.2.2.1,
      h.throws.forall_segmentNames hclosed hfine.2.2.2⟩

/-- A class's signature is well-formed if there is a superclass and all supertypes are. -/
theorem ClassSignature.wellFormed_iff (signature : ClassSignature α) :
    signature.WellFormed ↔ WellFormedParameters signature.typeParameters
      ∧ signature.superclass.isSome ∧ ∀ type ∈ signature.supertypes, type.WellFormedAt .bound := by
  have hplace : ∀ segments : ClassType α,
      (JavaType.ofClass segments).WellFormedAt .bound ↔ segments.WellFormed :=
    fun segments => and_iff_right rfl
  obtain ⟨typeParameters, superclass, interfaces⟩ := signature
  cases superclass with
  | none =>
    refine iff_of_false (fun hwf => ?_) (fun hwf => Bool.false_ne_true hwf.2.1)
    obtain ⟨superclass, hsuperclass, -⟩ := hwf.superclass
    cases hsuperclass
  | some superclass =>
    simp only [supertypes, Option.toList_some, List.map_append, List.map_cons, List.map_nil,
      List.forall_mem_append, List.forall_mem_singleton, List.forall_mem_map, hplace,
      Option.isSome_some, true_and]
    constructor
    · intro hwf
      obtain ⟨_, ⟨⟩, hsuperclass⟩ := hwf.superclass
      exact ⟨hwf.typeParameters, hsuperclass, hwf.interfaces⟩
    · rintro ⟨htypeParameters, hsuperclass, hinterfaces⟩
      exact ⟨htypeParameters, ⟨superclass, rfl, hsuperclass⟩, hinterfaces⟩

/-- The levels of a class's signature, a supertype of which opens none of its own. -/
theorem ClassSignature.levels_eq (signature : ClassSignature α) :
    signature.levels = max (levelsOfParameters signature.typeParameters)
      (levelsOfTypes signature.supertypes - 1) := by
  have hflatten : ∀ types : List (ClassType α),
      levelsOfSegments types.flatten = levelsOfTypes (types.map .ofClass) - 1 := by
    intro types
    induction types with
    | nil => rfl
    | cons type rest ih =>
      rw [List.flatten_cons, levelsOfSegments_append, ih, List.map_cons, levelsOfTypes,
        JavaType.levels]
      omega
  rw [levels, hflatten, supertypes]

theorem ClassSignature.keepsText :
    KeepsText (Kept (α := α)) WellFormed levels segmentNames where
  wellFormed {signature signature'} h hwf hnames := by
    simp only [segmentNames, List.forall_mem_append] at hnames
    rw [wellFormed_iff] at hwf ⊢
    exact ⟨h.typeParameters.wellFormed hwf.1 hnames.1, h.superclass_isSome.trans hwf.2.1,
      h.supertypes.wellFormedAt hwf.2.2 hnames.2⟩
  levels_le {signature signature'} h := by
    have hbounds := h.typeParameters.bounds.levels_le
    have hsupertypes := h.supertypes.levels_le
    simp only [levels_eq, levelsOfParameters]
    omega
  forall_segmentNames {signature signature' Fine} h hclosed hfine := by
    simp only [segmentNames, List.forall_mem_append] at hfine ⊢
    exact ⟨h.typeParameters.forall_segmentNames hclosed hfine.1,
      h.supertypes.forall_segmentNames hclosed hfine.2⟩

/-- What comes of attaching to what a reader of whole texts has read: its text is read as the tree
    without annotations exactly if no name in it is empty, and a name is only ever empty if it is
    one of those that a name in the tree that was read stands for. -/
structure Respells {β : Type} (reader : Reader β) (encode : β → String) (bare : β → β)
    (segmentNames : β → List (Bool × String)) (Attached : β → β → Prop) : Prop where
  /-- The text of the annotated tree gives it without its annotations, if there are names. -/
  iff : ∀ bytes value value', reader.value bytes = .ok value → ReflTransGen Attached value value' →
    (reader.value (Text.utf8 (encode value')) = .ok (bare value')
      ↔ ∀ named ∈ segmentNames value', named.2 ≠ "")
  /-- There are, if no class can be split into one without a name. -/
  of_segmentNames : ∀ bytes value value', reader.value bytes = .ok value →
    ReflTransGen Attached value value' →
    (∀ named ∈ segmentNames value, "" ∉ nestedNames named.1 named.2) →
      reader.value (Text.utf8 (encode value')) = .ok (bare value')

theorem ReadsExactly.respells {β : Type} {reader : Reader β} {encode : β → String} {bare : β → β}
    {WellFormed : β → Prop} {levels : β → Nat} {segmentNames : β → List (Bool × String)}
    {Kept Attached : β → β → Prop} [Std.Refl Kept] [IsTrans β Kept]
    (hreads : ReadsExactly reader encode bare WellFormed levels)
    (hkeeps : KeepsText Kept WellFormed levels segmentNames)
    (hattached : Attached ≤ Kept)
    (hnames : ∀ value, WellFormed value → ∀ named ∈ segmentNames value, named.2 ≠ "")
    (hbare : ∀ value, segmentNames (bare value) = segmentNames value) :
    Respells reader encode bare segmentNames Attached := by
  have hiff : ∀ bytes value value', reader.value bytes = .ok value →
      ReflTransGen Attached value value' →
      (reader.value (Text.utf8 (encode value')) = .ok (bare value')
        ↔ ∀ named ∈ segmentNames value', named.2 ≠ "") := by
    intro bytes value value' hread hrun
    have hkept : Kept value value' := reflTransGen_le_of_le hattached value value' hrun
    obtain ⟨-, -, hwf, hlevels⟩ := (hreads.ok_iff bytes value).mp hread
    constructor
    · -- What is read is well-formed, and its names are those of the annotated tree.
      intro hagain
      have hwf' := ((hreads.ok_iff _ (bare value')).mp hagain).2.2.1
      exact hbare value' ▸ hnames (bare value') hwf'
    · intro hnames'
      have hwf' := hkeeps.wellFormed hkept hwf hnames'
      rw [hreads.back value' hwf', if_pos ((hkeeps.levels_le hkept).trans_lt hlevels)]
  refine ⟨hiff, fun bytes value value' hread hrun hdivisible => ?_⟩
  have hkept : Kept value value' := reflTransGen_le_of_le hattached value value' hrun
  -- No class was split into one without a name, so none has an empty one now.
  have hdivisible' :=
    hkeeps.forall_segmentNames hkept splitClosed_empty_notMem_nestedNames hdivisible
  exact (hiff bytes value value' hread hrun).mpr fun named hnamed =>
    ne_empty_of_notMem_nestedNames (hdivisible' named hnamed)

theorem JavaType.segmentNames_ne_empty {place : TypePlace} {type : JavaType α}
    (h : type.WellFormedAt place) : ∀ named ∈ type.segmentNames, named.2 ≠ "" :=
  fun named hnamed => ((type.wellFormed_iff.mp h.2).2 named hnamed).1

theorem segmentNames_ne_empty_of_types {place : TypePlace} {types : List (JavaType α)}
    (h : ∀ type ∈ types, type.WellFormedAt place) :
    ∀ named ∈ types.flatMap (·.segmentNames), named.2 ≠ "" := by
  intro named hnamed
  obtain ⟨type, htype, hnamed⟩ := List.mem_flatMap.mp hnamed
  exact JavaType.segmentNames_ne_empty (h type htype) named hnamed

theorem WellFormedParameters.segmentNames_ne_empty {parameters : List (TypeParameter α)}
    (h : WellFormedParameters parameters) :
    ∀ named ∈ parameters.flatMap (·.segmentNames), named.2 ≠ "" := by
  intro named hnamed
  obtain ⟨parameter, hparameter, hnamed⟩ := List.mem_flatMap.mp hnamed
  exact segmentNames_ne_empty_of_types (h.1 parameter hparameter).bounds named hnamed

theorem TypeParameter.segmentNames_bare (parameter : TypeParameter α) :
    parameter.bare.segmentNames = parameter.segmentNames := by
  obtain ⟨name, classBound, interfaceBounds, annotations⟩ := parameter
  cases classBound <;>
    simp [segmentNames, bare, bounds, List.flatMap_map, JavaType.segmentNames_bare]

theorem JavaType.respells_readField [ToString α] :
    Respells (readField : Reader (JavaType α)) encode bare segmentNames Attached :=
  readsExactly_readField.respells (keepsText .field) (fun _ _ h => h.kept)
    (fun _ hwf => segmentNames_ne_empty hwf) segmentNames_bare

theorem JavaType.respells_readReturn [ToString α] :
    Respells (readReturn : Reader (JavaType α)) encode bare segmentNames Attached :=
  readsExactly_readReturn.respells (keepsText .result) (fun _ _ h => h.kept)
    (fun _ hwf => segmentNames_ne_empty hwf) segmentNames_bare

theorem MethodSignature.respells_read [ToString α] :
    Respells (read : Reader (MethodSignature α)) encode bare segmentNames Attached := by
  refine readsExactly_read.respells keepsText (fun _ _ h => h.kept) (fun signature hwf => ?_)
    (fun signature => ?_)
  · simp only [segmentNames, List.forall_mem_append]
    exact ⟨hwf.typeParameters.segmentNames_ne_empty, segmentNames_ne_empty_of_types hwf.parameters,
      JavaType.segmentNames_ne_empty hwf.result, segmentNames_ne_empty_of_types hwf.throws⟩
  · simp only [segmentNames, bare, List.flatMap_map, TypeParameter.segmentNames_bare,
      JavaType.segmentNames_bare]

theorem ClassSignature.respells_read [ToString α] :
    Respells (read : Reader (ClassSignature α)) encode bare segmentNames Attached := by
  refine readsExactly_read.respells keepsText (fun _ _ h => h.kept) (fun signature hwf => ?_)
    (fun signature => ?_)
  · simp only [segmentNames, List.forall_mem_append]
    rw [wellFormed_iff] at hwf
    exact ⟨hwf.1.segmentNames_ne_empty, segmentNames_ne_empty_of_types hwf.2.2⟩
  · have hsupertypes : signature.bare.supertypes = signature.supertypes.map (·.bare) := by
      obtain ⟨typeParameters, superclass, interfaces⟩ := signature
      cases superclass <;> simp [supertypes, bare, ClassType.bare, JavaType.bare]
    rw [segmentNames, hsupertypes, List.flatMap_map, bare, List.flatMap_map]
    simp only [TypeParameter.segmentNames_bare, JavaType.segmentNames_bare, segmentNames]

/-- **Annotated signatures keep their texts, unless a class loses its name.** Whatever bytes are
    read as a field's type, a result type, a method's signature or a class's signature, and whatever
    is then attached to the types inside, in any number and order and refused or not: the text of
    the result gives it without annotations and receiver exactly if no class name in it is empty.
    None is if no class name that was read has a part without characters. -/
theorem signatures_respell [ToString α] :
    Respells (JavaType.readField : Reader (JavaType α)) JavaType.encode JavaType.bare
      JavaType.segmentNames JavaType.Attached
    ∧ Respells (JavaType.readReturn : Reader (JavaType α)) JavaType.encode JavaType.bare
      JavaType.segmentNames JavaType.Attached
    ∧ Respells (MethodSignature.read : Reader (MethodSignature α)) MethodSignature.encode
      MethodSignature.bare MethodSignature.segmentNames MethodSignature.Attached
    ∧ Respells (ClassSignature.read : Reader (ClassSignature α)) ClassSignature.encode
      ClassSignature.bare ClassSignature.segmentNames ClassSignature.Attached :=
  ⟨JavaType.respells_readField, JavaType.respells_readReturn, MethodSignature.respells_read,
    ClassSignature.respells_read⟩

/-- A class whose name ends with a dollar sign, and an attachment that is refused: the class is
    split all the same, and the text left is not read any more. -/
theorem not_reads_encode_of_dollar :
    ∃ type type' : JavaType String, JavaType.parseField "LA$;" = .ok type
      ∧ ReflTransGen JavaType.Attached type type'
      ∧ type'.encode = "LA.;"
      ∧ (JavaType.parseField type'.encode : Except Error (JavaType String))
        = .error (.malformed (.emptyIdentifier 3)) := by
  have hparse : JavaType.parseField "LA$;"
      = .ok (.ofClass [⟨"A$", [], []⟩] : JavaType String) := by
    cbv
  have hattach : ((JavaType.ofClass [⟨"A$", [], []⟩] : JavaType String).attach "N"
      [.nested, .nested]).tree = .ofClass [⟨"A", [], []⟩, ⟨"", [], []⟩] := by
    rw [JavaType.attach, ClassType.attach]
    cbv
  have hrun := ReflTransGen.single (JavaType.Attached.here "N" [.nested, .nested]
    (.ofClass [⟨"A$", [], []⟩]))
  rw [hattach] at hrun
  exact ⟨_, _, hparse, hrun, by cbv, by cbv⟩

end ClassAtlas
