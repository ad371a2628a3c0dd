import ClassAtlas.Proofs.Machine.Attach
import ClassAtlas.Proofs.Reading.Spelling

namespace ClassAtlas.Machine

/-!
# Outcomes without a fault

* `Settles` — what is worked out ends without a fault, and in a given outcome;
* `Settles.bind`, `settles_foldlM` — one after another;
* `settles_contents` — what is read from the bytes of an attribute;
* `settles_placeInField`, `settles_placeInMethod`, `settles_placeInClass` — annotations in their
  places, where the names of the classes stay such that they can be addressed.
-/

variable {α β τ : Type}

/-- What is worked out ends without a fault, and in this outcome. -/
def Settles (checked : Checked α) (outcome : Except Error α) : Prop := checked.run = .ok outcome

/-- An outcome whose value, if there is one, has a property. -/
def Gives (Fine : α → Prop) (outcome : Except Error α) : Prop :=
  ∀ value, outcome = .ok value → Fine value

variable {checked : Checked α} {outcome : Except Error α}

theorem settles_pure (value : α) : Settles (pure value) (pure value : Except Error α) := rfl

theorem settles_throw (error : Error) :
    Settles (throw error) (throw error : Except Error α) := rfl

/-- What is worked out by operations that are defined everywhere. -/
theorem settles_outcome (outcome : Except Error α) : Settles (liftM outcome) outcome := by
  cases outcome <;> rfl

/-- Behind an operation that does not fail, the next one decides. -/
theorem settles_guarded_bind {guarded : Guarded α} {value : α} (h : guarded = .ok value)
    {next : α → Checked β} {nextOutcome : Except Error β} (hnext : Settles (next value) nextOutcome) :
    Settles (liftM guarded >>= next) nextOutcome := by
  rw [h]
  exact hnext

theorem Settles.bind {next : α → Checked β} {nextOutcome : α → Except Error β}
    (first : Settles checked outcome)
    (second : ∀ value, outcome = .ok value → Settles (next value) (nextOutcome value)) :
    Settles (checked >>= next) (outcome >>= nextOutcome) := by
  rw [Settles, ExceptT.run_bind, first]
  cases outcome with
  | ok value => exact second value rfl
  | error error => rfl

theorem gives_pure {Fine : α → Prop} {value : α} (h : Fine value) :
    Gives Fine (pure value : Except Error α) := by
  rintro _ ⟨⟩
  exact h

/-- The first outcome has the property that the next step needs. -/
theorem Settles.bindFine {Fine : α → Prop} {Good : β → Prop} {next : α → Checked β}
    {nextOutcome : α → Except Error β} (first : Settles checked outcome) (hfine : Gives Fine outcome)
    (second : ∀ value, Fine value →
      Settles (next value) (nextOutcome value) ∧ Gives Good (nextOutcome value)) :
    Settles (checked >>= next) (outcome >>= nextOutcome) ∧ Gives Good (outcome >>= nextOutcome) := by
  refine ⟨first.bind fun value hvalue => (second value (hfine value hvalue)).1, ?_⟩
  intro result hresult
  obtain ⟨value, hvalue, hresult⟩ := except_bind_eq_ok.mp hresult
  exact (second value (hfine value hvalue)).2 result hresult

/-- What is made of the first value is all that the next step needs. -/
theorem Settles.bindMap {f : α → β} {checked : Checked β} {next : β → Checked τ}
    {nextOutcome : α → Except Error τ} (first : Settles checked (f <$> outcome))
    (second : ∀ value, Settles (next (f value)) (nextOutcome value)) :
    Settles (checked >>= next) (outcome >>= nextOutcome) := by
  rw [Settles, ExceptT.run_bind, first]
  cases outcome with
  | ok value => exact second value
  | error error => rfl

theorem settles_ite {Fine : α → Prop} {condition : Prop} [Decidable condition]
    {yes no : Checked α} {yesOutcome noOutcome : Except Error α}
    (hyes : Settles yes yesOutcome ∧ Gives Fine yesOutcome)
    (hno : Settles no noOutcome ∧ Gives Fine noOutcome) :
    Settles (if condition then yes else no) (if condition then yesOutcome else noOutcome)
      ∧ Gives Fine (if condition then yesOutcome else noOutcome) := by
  split
  · exact hyes
  · exact hno

/-- What is worked out item by item, if a property of the state is kept that each step needs. -/
theorem settles_foldlM {Fine : τ → Prop} {step : τ → β → Checked τ}
    {stepOutcome : τ → β → Except Error τ} {items : List β}
    (hstep : ∀ item ∈ items, ∀ state, Fine state →
      Settles (step state item) (stepOutcome state item) ∧ Gives Fine (stepOutcome state item))
    {state : τ} (hstate : Fine state) :
    Settles (items.foldlM step state) (items.foldlM stepOutcome state)
      ∧ Gives Fine (items.foldlM stepOutcome state) := by
  induction items generalizing state with
  | nil =>
    refine ⟨settles_pure state, fun value hvalue => ?_⟩
    cases hvalue
    exact hstate
  | cons item rest ih =>
    obtain ⟨hfirst, hfine⟩ := hstep item List.mem_cons_self state hstate
    have hrest := fun next (hnext : stepOutcome state item = .ok next) =>
      ih (fun item hitem => hstep item (List.mem_cons_of_mem _ hitem)) (hfine next hnext)
    rw [List.foldlM_cons, List.foldlM_cons]
    refine ⟨hfirst.bind fun next hnext => (hrest next hnext).1, fun value hvalue => ?_⟩
    obtain ⟨next, hnext, hvalue⟩ := except_bind_eq_ok.mp hvalue
    exact (hrest next hnext).2 value hvalue

/-! ### Annotations in their places -/

theorem settles_toExcept {guarded : Guarded (Edit τ)} {edit : Edit τ} (h : guarded = .ok edit)
    (missing : Error) :
    Settles (do liftM ((← guarded).toExcept missing)) (edit.toExcept missing) := by
  rw [h]
  exact settles_outcome _

theorem gives_toExcept {Fine : τ → Prop} {edit : Edit τ} (h : Fine edit.tree) (missing : Error) :
    Gives Fine (edit.toExcept missing) := by
  intro tree htree
  unfold Edit.toExcept at htree
  split at htree <;> cases htree
  exact h

/-- An annotation on a field finds its place, and leaves names that can be addressed. -/
theorem settles_placeInField (field : String) (use : TypeUse) (type : AnnotatedType)
    (h : AllAddressable type.segmentNames) :
    Settles (placeInField field type use) (type.place field use)
      ∧ Gives (AllAddressable ·.segmentNames) (type.place field use) := by
  obtain ⟨target, path, note⟩ := use
  cases target with
  | field =>
    exact ⟨settles_toExcept (attachInType_eq note path type h) _,
      gives_toExcept (h.gains (JavaType.gains_attach note path type)) _⟩
  | code => exact ⟨settles_pure type, fun type' htype' => Except.ok.inj htype' ▸ h⟩
  | _ => exact ⟨settles_throw _, by rintro type' ⟨⟩⟩

/-- So does one on a method, the class of which can be addressed. -/
theorem settles_placeInMethod {className : String} (hname : byteLength className.toList < wordLimit)
    (method : String) (use : TypeUse) (signature : MethodSignature AnnotationUse)
    (h : MethodAddressable signature) :
    Settles (placeInMethod className method signature use) (signature.place className method use)
      ∧ Gives MethodAddressable (signature.place className method use) := by
  obtain ⟨target, path, note⟩ := use
  have hput : ∀ place missing, PlaceAddressable place →
      Settles (do liftM ((← attachInMethod note path place signature).toExcept missing))
          ((signature.attach note path place).toExcept missing)
        ∧ Gives MethodAddressable ((signature.attach note path place).toExcept missing) :=
    fun place missing hplace => ⟨settles_toExcept (attachInMethod_eq note path h hplace) missing,
      gives_toExcept (h.attach note path hplace) missing⟩
  cases target with
  | methodTypeParameter index => exact hput _ _ trivial
  | methodTypeParameterBound parameter bound => exact hput _ _ trivial
  | result => exact hput _ _ trivial
  | receiver => exact hput _ _ hname
  | formalParameter index => exact hput _ _ trivial
  | throws index => exact hput _ _ trivial
  | code => exact ⟨settles_pure signature, fun _ hsame => Except.ok.inj hsame ▸ h⟩
  | _ => exact ⟨settles_throw _, by rintro signature' ⟨⟩⟩

theorem settles_placeInClass (use : TypeUse) (signature : ClassSignature AnnotationUse)
    (h : AllAddressable signature.segmentNames) :
    Settles (placeInClass signature use) (signature.place use)
      ∧ Gives (AllAddressable ·.segmentNames) (signature.place use) := by
  obtain ⟨target, path, note⟩ := use
  have hput : ∀ place missing,
      Settles (do liftM ((← attachInClass note path place signature).toExcept missing))
          ((signature.attach note path place).toExcept missing)
        ∧ Gives (AllAddressable ·.segmentNames)
          ((signature.attach note path place).toExcept missing) :=
    fun place missing => ⟨settles_toExcept (attachInClass_eq note path place h) missing,
      gives_toExcept (h.attachInClass note path place) missing⟩
  cases target with
  | classTypeParameter index => exact hput _ _
  | classTypeParameterBound parameter bound => exact hput _ _
  | supertype index =>
    by_cases hindex : index = AnnotationTarget.superclassIndex
    · have hplace := hput .superclass (.malformed (.missingPart .superclass "class"))
      rw [placeInClass, ClassSignature.place]
      simpa only [if_pos hindex] using hplace
    · have hplace := hput (.implemented index.toNat)
        (.malformed (.missingPart (.implemented index) "class"))
      rw [placeInClass, ClassSignature.place]
      simpa only [if_neg hindex] using hplace
  | code => exact ⟨settles_pure signature, fun _ hsame => Except.ok.inj hsame ▸ h⟩
  | _ => exact ⟨settles_throw _, by rintro signature' ⟨⟩⟩

end ClassAtlas.Machine
