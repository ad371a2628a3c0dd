import ClassAtlas.Machine.Decode
import ClassAtlas.Proofs.ClassFile.Modules
import ClassAtlas.Proofs.Machine.Attribute

namespace ClassAtlas.Machine

/-!
# Class files decoded by a position

* `settles_fieldOfAttributes`, `settles_openMethodOfAttributes` — the members;
* `settles_closeAll` — annotations that had to wait find their method by its index;
* `follows_readClass` — everything behind the constant pool;
* `decode_eq_decode` — whole class files, without a fault;
* `decode_total` — how the decoding of any bytes ends.
-/

variable {pool : Pool} {options : DecodeOptions} {room : Nat}

/-! ### Fields -/

/-- The signature, and the descriptor that stands in for it. -/
theorem SignatureAddressable.getD {signature : Option String} (h : SignatureAddressable signature)
    {descriptor : String} (hdescriptor : (Text.utf8 descriptor).length < wordLimit) :
    (Text.utf8 (signature.getD descriptor)).length < wordLimit := by
  cases signature with
  | none => exact hdescriptor
  | some text => exact h text rfl

theorem settles_fieldOfAttributes (name : String) {descriptor : String}
    (hdescriptor : (Text.utf8 descriptor).length < wordLimit) (modifiers : FieldModifiers)
    {attributes : FieldAttributes} (hattributes : SignatureAddressable attributes.signature) :
    Settles (fieldOfAttributes pool name descriptor modifiers attributes)
      (FieldDecl.ofAttributes pool name descriptor modifiers attributes) := by
  have htext := hattributes.getD hdescriptor
  refine Settles.bind (run_parseFieldType htext) fun type htype => ?_
  refine (settles_foldlM (fun use _ type => settles_placeInField name use type)
    (allAddressable_parseField htext htype)).1.bind fun type _ => ?_
  rcases attributes.constant with _ | index
  · exact settles_pure _
  · dsimp only
    split
    · exact (settles_outcome _).bind fun _ _ => settles_pure _
    · exact settles_pure _

/-! ### Members -/

/-- Of the values that the first step may give, only those count that the reader gives. -/
theorem Follows.bindFine {α β : Type} {step : Step α} {reader : Reader α} {next : α → Step β}
    {nextReader : α → Reader β} {Fine : α → Prop} (first : Follows room step reader)
    (hfine : Yields Fine reader)
    (second : ∀ value, Fine value → Follows room (next value) (nextReader value)) :
    Follows room (step >>= next) (reader >>= nextReader) :=
  first.bindRead fun value _ _ hread => second value (hfine hread)

/-- What is worked out from what was read, and what needs a property of it. -/
theorem follows_settled {α β : Type} {checked : Checked α} {outcome : Except Error α}
    {next : α → Step β} {nextReader : α → Reader β} {Fine : α → Prop}
    (first : Settles checked outcome ∧ Gives Fine outcome)
    (second : ∀ value, Fine value → Follows room (next value) (nextReader value)) :
    Follows room (liftM checked >>= next) (liftM outcome >>= nextReader) :=
  (follows_lift first.1).bindFine (yields_lift first.2) second

/-- Fields and methods have the same parts in the same order. -/
theorem follows_member {β : Type} (hpool : PoolAddressable pool)
    {next : UInt16 → String → String → List RawAttribute → Step β}
    {nextReader : UInt16 → String → String → List RawAttribute → Reader β}
    (hnext : ∀ flags name descriptor table, (Text.utf8 descriptor).length < wordLimit →
      (∀ item ∈ table, AttributeAddressable item) →
      Follows room (next flags name descriptor table) (nextReader flags name descriptor table)) :
    Follows room
      (do
        let flags ← u16
        let name ← pool.utf8 (← u16)
        let descriptor ← pool.utf8 (← u16)
        let table ← readAttributeTable pool
        next flags name descriptor table)
      (do
        let flags ← Reader.u16
        let name ← pool.utf8 (← Reader.u16)
        let descriptor ← pool.utf8 (← Reader.u16)
        let table ← RawAttribute.readTable pool
        nextReader flags name descriptor table) := by
  refine follows_u16.bind fun flags => follows_u16.bind fun _ => ?_
  refine (follows_outcome _).bind fun name => follows_u16.bind fun index => ?_
  refine (follows_outcome _).bindFine (yields_lift fun _ htext => hpool.utf8 htext)
    fun descriptor hdescriptor => ?_
  exact follows_readAttributeTable.bindFine yields_readTable fun table htable =>
    hnext flags name descriptor table hdescriptor htable

/-- What the parts of a member make, if they are such as they are read. -/
theorem yields_member {β : Type} {Good : β → Prop} (hpool : PoolAddressable pool)
    {next : UInt16 → String → String → List RawAttribute → Reader β}
    (hnext : ∀ flags name descriptor table, (Text.utf8 descriptor).length < wordLimit →
      (∀ item ∈ table, AttributeAddressable item) → Yields Good (next flags name descriptor table)) :
    Yields Good (do
      let flags ← Reader.u16
      let name ← pool.utf8 (← Reader.u16)
      let descriptor ← pool.utf8 (← Reader.u16)
      let table ← RawAttribute.readTable pool
      next flags name descriptor table) := by
  refine .after fun flags => .after fun _ => .after fun name => .after fun index => ?_
  refine (yields_lift fun _ htext => hpool.utf8 htext).bind fun descriptor hdescriptor => ?_
  exact yields_readTable.bind fun table htable => hnext flags name descriptor table hdescriptor htable

theorem follows_readField (hpool : PoolAddressable pool) :
    Follows room (readField pool options) (FieldDecl.read pool options) :=
  follows_member hpool fun _ name _ _ hdescriptor htable =>
    follows_settled (settles_fieldAttributes htable hpool options) fun _ hattributes =>
      follows_lift (settles_fieldOfAttributes name hdescriptor _ hattributes)

/-! ### Methods -/

/-- A method whose types can be addressed. -/
def OpenMethodAddressable (method : OpenMethod) : Prop := MethodAddressable method.method.signature

/-- The exceptions that stand in for a clause that was left out. -/
theorem MethodAddressable.withThrows {signature : MethodSignature AnnotationUse}
    (h : MethodAddressable signature) {exceptions : List String}
    (hexceptions : ∀ name ∈ exceptions, byteLength name.toList < wordLimit) :
    MethodAddressable { signature with
      throws := exceptions.map fun name => .ofClass (ClassType.ofName name) } where
  written := by
    have hwritten := h.written
    simp only [AllAddressable, MethodSignature.segmentNames, List.forall_mem_append] at hwritten ⊢
    refine ⟨hwritten.1, hwritten.2.1, hwritten.2.2.1, ?_⟩
    simp only [List.forall_mem_flatMap, List.forall_mem_map]
    exact fun name hname => allAddressable_ofName (hexceptions name hname)
  receiver := h.receiver

theorem settles_openMethodOfAttributes {className : String}
    (hclass : byteLength className.toList < wordLimit) (name : String) {descriptor : String}
    (hdescriptor : (Text.utf8 descriptor).length < wordLimit) (modifiers : MethodModifiers)
    {attributes : MethodAttributes} (hattributes : MethodAttributesAddressable attributes) :
    Settles (openMethodOfAttributes className name descriptor modifiers attributes)
        (OpenMethod.ofAttributes className name descriptor modifiers attributes)
      ∧ Gives OpenMethodAddressable
        (OpenMethod.ofAttributes className name descriptor modifiers attributes) := by
  have htext := hattributes.signature.getD hdescriptor
  refine Settles.bindFine (run_parseMethodSignature htext)
    (fun _ hsignature => methodAddressable_parse htext hsignature) fun signature hsignature => ?_
  have hthrows : MethodAddressable
      (if signature.throws.isEmpty then
        { signature with
          throws := attributes.exceptions.map fun name => .ofClass (ClassType.ofName name) }
      else signature) := by
    split
    · exact hsignature.withThrows hattributes.exceptions
    · exact hsignature
  obtain ⟨hplaced, hfine⟩ := settles_foldlM
    (fun use _ signature => settles_placeInMethod hclass name use signature) hthrows
  exact hplaced.bindFine hfine fun signature hsignature => ⟨settles_pure _, gives_pure hsignature⟩

theorem follows_readMethod (hpool : PoolAddressable pool) {className : String}
    (hclass : byteLength className.toList < wordLimit) :
    Follows room (readMethod pool options className) (OpenMethod.read pool options className) :=
  follows_member hpool fun _ name _ _ hdescriptor htable =>
    follows_settled (settles_methodAttributes htable hpool options) fun _ hattributes =>
      follows_lift (settles_openMethodOfAttributes hclass name hdescriptor _ hattributes).1

theorem yields_readMethod (hpool : PoolAddressable pool) {className : String}
    (hclass : byteLength className.toList < wordLimit) :
    Yields OpenMethodAddressable (OpenMethod.read pool options className) :=
  yields_member hpool fun _ name _ _ hdescriptor htable =>
    (yields_lift (settles_methodAttributes htable hpool options).2).bind fun _ hattributes =>
      yields_lift (settles_openMethodOfAttributes hclass name hdescriptor _ hattributes).2

/-! ### Annotations that had to wait -/

theorem settles_pending {className : String} (hclass : byteLength className.toList < wordLimit)
    (synthetic : UInt8) {method : OpenMethod} (h : OpenMethodAddressable method) :
    Settles
      (method.pending.foldlM (fun signature use => do
        placeInMethod className method.method.name signature (← use.shift synthetic))
        method.method.signature)
      (method.pending.foldlM (fun signature use => do
        signature.place className method.method.name (← use.shift synthetic))
        method.method.signature) := by
  have hsignature : MethodAddressable method.method.signature := h
  refine (settles_foldlM (fun use _ signature hsignature => ?_) hsignature).1
  exact (settles_outcome _).bindFine (fun _ _ => trivial) fun use _ =>
    settles_placeInMethod hclass _ use signature hsignature

/-- A method for which no annotation waits is closed as it is. -/
theorem close_of_pending_eq_nil (className : String) (synthetic : UInt8) {method : OpenMethod}
    (h : method.pending = []) : method.close className synthetic = .ok method.method := by
  rw [OpenMethod.close, h]
  rfl

/-- Behind methods that are closed, annotations that wait for one find it at its index, and it is
    closed as the method itself says. -/
theorem settles_closeOne {className : String} (hclass : byteLength className.toList < wordLimit)
    (synthetic : UInt8) (closed : List MethodDecl) {method : OpenMethod}
    (h : OpenMethodAddressable method) (later : List MethodDecl) :
    Settles
      (closeOne className synthetic (closed ++ method.method :: later)
        (closed.length, method.pending))
      ((fun decl => closed ++ decl :: later) <$> method.close className synthetic) := by
  have hfound : entryAt (closed ++ method.method :: later) closed.length = .ok method.method :=
    entryAt_eq (by simp)
  refine settles_guarded_bind hfound ?_
  rw [OpenMethod.close, map_bind]
  refine (settles_pending hclass synthetic h).bind fun signature _ => ?_
  rw [map_pure, List.set_append_right _ _ (Nat.le_refl _), Nat.sub_self]
  exact settles_pure _

/-- The methods in front are closed already; those behind are closed in turn. -/
theorem settles_closeFrom {className : String} (hclass : byteLength className.toList < wordLimit)
    (synthetic : UInt8) {openMethods : List OpenMethod}
    (h : ∀ method ∈ openMethods, OpenMethodAddressable method) (closed : List MethodDecl) :
    Settles
      ((waitingFrom closed.length openMethods).foldlM (closeOne className synthetic)
        (closed ++ openMethods.map (·.method)))
      ((closed ++ ·) <$> openMethods.mapM (·.close className synthetic)) := by
  induction openMethods generalizing closed with
  | nil => exact settles_pure _
  | cons method rest ih =>
    obtain ⟨hmethod, hrest⟩ := List.forall_mem_cons.mp h
    have hnext : ∀ decl, Settles
        ((waitingFrom (closed.length + 1) rest).foldlM (closeOne className synthetic)
          (closed ++ decl :: rest.map (·.method)))
        (do
          let decls ← rest.mapM (·.close className synthetic)
          return closed ++ decl :: decls) := by
      intro decl
      have hrun := ih hrest (closed ++ [decl])
      rw [map_eq_pure_bind, List.length_append, List.length_singleton] at hrun
      simpa only [List.append_assoc, List.singleton_append] using hrun
    rw [waitingFrom, List.mapM_cons, List.map_cons]
    simp only [map_bind, map_pure]
    split
    · rename_i hnone
      rw [close_of_pending_eq_nil _ _ (List.isEmpty_iff.mp hnone)]
      exact hnext method.method
    · rw [List.foldlM_cons]
      exact (settles_closeOne hclass synthetic closed hmethod _).bindMap hnext

/-- **Every annotation that waits finds its method.** The indices that are kept are those of the
    methods they were kept for, so each method ends up as it would be closed by itself. -/
theorem settles_closeAll {className : String} (hclass : byteLength className.toList < wordLimit)
    (synthetic : UInt8) {openMethods : List OpenMethod}
    (h : ∀ method ∈ openMethods, OpenMethodAddressable method) :
    Settles (closeAll className synthetic openMethods)
      (openMethods.mapM (·.close className synthetic)) := by
  have hrun := settles_closeFrom hclass synthetic h []
  simp only [List.nil_append, id_map'] at hrun
  exact hrun

theorem follows_closeAll {className : String} (hclass : byteLength className.toList < wordLimit)
    (synthetic : UInt8) {openMethods : List OpenMethod}
    (h : ∀ method ∈ openMethods, OpenMethodAddressable method) :
    Follows room (liftM (closeAll className synthetic openMethods))
      (openMethods.mapM fun method =>
        (liftM (method.close className synthetic) : Reader MethodDecl)) := by
  rw [mapM_liftM]
  exact follows_lift (settles_closeAll hclass synthetic h)

/-! ### Classes -/

theorem allAddressable_ofNames {superclass : Option String} {interfaces : List String}
    (hsuperclass : ∀ name ∈ superclass, byteLength name.toList < wordLimit)
    (hinterfaces : ∀ name ∈ interfaces, byteLength name.toList < wordLimit) :
    AllAddressable (ClassSignature.ofNames superclass interfaces).segmentNames := by
  have hsupertype : ∀ type ∈ (ClassSignature.ofNames superclass interfaces).supertypes,
      AllAddressable type.segmentNames := by
    simp only [ClassSignature.ofNames, ClassSignature.supertypes, List.forall_mem_map,
      List.forall_mem_append]
    refine ⟨?_, fun name hname => allAddressable_ofName (hinterfaces name hname)⟩
    cases superclass with
    | none => exact List.forall_mem_nil _
    | some name => exact List.forall_mem_singleton.mpr (allAddressable_ofName (hsuperclass name rfl))
  exact List.forall_mem_append.mpr
    ⟨List.forall_mem_nil _, List.forall_mem_flatMap.mpr hsupertype⟩

/-- A signature of a class, if there is one. -/
theorem settles_parseClass {signature : Option String} (h : SignatureAddressable signature) :
    Settles (signature.mapM parseClassSignature : Checked (Option (ClassSignature AnnotationUse)))
        (signature.mapM ClassSignature.parse)
      ∧ Gives (fun parsed : Option (ClassSignature AnnotationUse) =>
          ∀ signature ∈ parsed, AllAddressable signature.segmentNames)
        (signature.mapM ClassSignature.parse) := by
  cases signature with
  | none => exact ⟨settles_pure none, gives_pure nofun⟩
  | some text =>
    have htext := h text rfl
    refine Settles.bindFine (run_parseClassSignature htext)
      (fun _ hparsed => allAddressable_parseClass htext hparsed)
      fun parsed haddressable => ⟨settles_pure _, gives_pure ?_⟩
    rintro _ ⟨⟩
    exact haddressable

theorem settles_classSignature {superclass : Option String} {interfaces : List String}
    (hsuperclass : ∀ name ∈ superclass, byteLength name.toList < wordLimit)
    (hinterfaces : ∀ name ∈ interfaces, byteLength name.toList < wordLimit)
    {attributes : ClassAttributes} (hattributes : SignatureAddressable attributes.signature) :
    Settles (classSignature superclass interfaces attributes)
      (ClassAtlas.classSignature superclass interfaces attributes) := by
  obtain ⟨hparsed, hfine⟩ := settles_parseClass hattributes
  refine hparsed.bind fun signature hsignature => ?_
  dsimp only
  split
  · exact settles_pure signature
  · have hbase : AllAddressable
        (signature.getD (ClassSignature.ofNames superclass interfaces)).segmentNames := by
      cases signature with
      | none => exact allAddressable_ofNames hsuperclass hinterfaces
      | some parsed => exact hfine _ hsignature parsed rfl
    exact (settles_foldlM (fun use _ signature => settles_placeInClass use signature) hbase).1.bind
      fun _ _ => settles_pure _

/-- What is refused is not gone on with. -/
theorem follows_refuse {α β : Type} (error : Error) {next : α → Step β}
    {nextReader : α → Reader β} :
    Follows room (throw error >>= next) (throw error >>= nextReader) :=
  fun _ _ _ => .of_error rfl rfl

/-- Nothing may be left; what is left is counted. -/
theorem follows_nothingLeft {β : Type} (cause : Nat → Malformation) {next : Step β}
    {nextReader : Reader β} (h : Follows room next nextReader) :
    Follows room
      (do
        if ← hasMore then malformed (cause (← remaining))
        next)
      (do
        let left := (← get).rest.length
        if left ≠ 0 then Reader.malformed (cause left)
        nextReader) := by
  intro place inside hroom
  have hlength := place.length_rest
  have hmore : hasMore.run.run place
      = .ok (.ok (decide (place.position < place.data.length)), place) := rfl
  rw [FollowsAt, run_bind_of_ok hmore, Reader.bind_apply, Reader.get_apply]
  dsimp only
  by_cases hend : place.position < place.data.length
  · rw [if_pos (decide_eq_true hend), if_pos (by omega), run_bind_of_ok run_remaining, ← hlength]
    exact follows_refuse _ place inside hroom
  · rw [if_neg (by simpa using hend), if_neg (by omega)]
    exact h place inside hroom

theorem follows_readBody (hpool : PoolAddressable pool) (origin : Origin) (version : FileVersion)
    (fileModifiers : ClassModifiers) {name : String} (hname : byteLength name.toList < wordLimit) :
    Follows room (readBody pool options origin version fileModifiers name)
      (ClassDecl.readBody pool options origin version fileModifiers name) := by
  refine follows_u16.bind fun index => ?_
  refine (follows_outcome _).bindFine (yields_lift fun _ hread => hpool.optionalClassName hread)
    fun superclass hsuperclass => ?_
  refine follows_ite (follows_refuse _) ?_
  refine follows_u16.bind fun count => (follows_times follows_readClassName _).bindFine
    (yields_times (yields_readClassName hpool) _) fun interfaces hinterfaces => ?_
  refine follows_u16.bind fun count => (follows_times (follows_readField hpool) _).bind
    fun fields => ?_
  refine follows_u16.bind fun count => (follows_times (follows_readMethod hpool hname) _).bindFine
    (yields_times (yields_readMethod hpool hname) _) fun openMethods hopenMethods => ?_
  refine follows_readAttributeTable.bindFine yields_readTable fun table htable => ?_
  refine follows_settled (settles_classAttributes htable hpool options name)
    fun attributes hattributes => ?_
  refine (follows_closeAll hname _ hopenMethods).bind fun methods => ?_
  refine follows_nothingLeft _ ?_
  exact (follows_lift (settles_classSignature hsuperclass hinterfaces hattributes)).bind
    fun _ => follows_pure _

theorem follows_readClass (hpool : PoolAddressable pool) (origin : Origin)
    (version : FileVersion) :
    Follows room (readClass pool options origin version)
      (ClassDecl.read pool options origin version) := by
  refine follows_u16.bind fun flags => follows_u16.bind fun index => ?_
  refine (follows_outcome _).bindFine (yields_lift fun _ hread => hpool.className hread)
    fun name hname => ?_
  exact follows_ite (follows_refuse _) (follows_readBody hpool origin version _ hname)

/-! ### Class files -/

theorem follows_readVersion : Follows room (readVersion options) (FileVersion.read options) := by
  have hnumbers : Follows room
      (do
        let minor ← u16
        let major ← u16
        if oldestMajor ≤ major ∧ major ≤ options.maxMajor then return ⟨major, minor⟩
        else malformed (.badVersion major minor))
      (do
        let minor ← Reader.u16
        let major ← Reader.u16
        if oldestMajor ≤ major ∧ major ≤ options.maxMajor then return ⟨major, minor⟩
        else Reader.malformed (.badVersion major minor) : Reader FileVersion) :=
    follows_u16.bind fun _ => follows_u16.bind fun _ =>
      follows_ite (follows_pure _) (follows_malformed _)
  exact follows_u32.bind fun _ => follows_ite (follows_refuse _) hnumbers

/-- **Decoding ends without a fault.** Bytes that can be addressed are decoded without asking for
    what is not there, with any options and whatever the decoder has read before, as long as it can
    count one class file more. -/
theorem decode_eq_decode {decoder : Decoder} {data : List UInt8} (hdata : data.length < wordLimit)
    (hdecoded : decoder.decoded + 1 < wordLimit) (origin : Origin) :
    decode decoder origin data options = .ok (decoder.decode origin data options) := by
  have inside : (Place.ofBytes data).Inside := ⟨Nat.zero_le _, hdata⟩
  have hroom : (Place.ofBytes data).HasRoom allRoom := rfl
  have hstart : Cursor.ofBytes data = (Place.ofBytes data).cursor := rfl
  have hversion : Follows allRoom (readVersion options) (FileVersion.read options) :=
    follows_readVersion
  obtain ⟨outcome, hrun, halike⟩ := hversion _ inside hroom
  rw [decode, hrun, Decoder.decode, hstart]
  generalize FileVersion.read options (Place.ofBytes data).cursor = result at halike ⊢
  cases halike with
  | error hdepth => rfl
  | @ok version middle hreaches =>
    have hpool := poolAddressable_load decoder.pool middle.cursor
    have inside := hreaches.inside inside
    have hroom := hreaches.hasRoom hroom
    obtain ⟨outcome, stop, hload, halike⟩ := (followsLoaded_load decoder.pool inside hroom).exists_eq
    show (do
      let loaded ← load decoder.pool middle
      _ : Guarded (Decoder × Except Error ClassDecl)) = _
    rw [hload]
    dsimp only
    generalize decoder.pool.load middle.cursor = loaded at hpool halike ⊢
    obtain ⟨pool, result⟩ := loaded
    cases halike with
    | error hdepth => rfl
    | ok hreaches =>
      have inside := hreaches.inside inside
      have hroom := hreaches.hasRoom hroom
      have hclass : Follows allRoom (readClass pool options origin version)
          (ClassDecl.read pool options origin version) := follows_readClass hpool origin version
      obtain ⟨outcome, hrun, halike⟩ := hclass _ inside hroom
      show (do
        let outcome ← (readClass pool options origin version).run.run stop
        _ : Guarded (Decoder × Except Error ClassDecl)) = _
      rw [hrun]
      dsimp only
      generalize ClassDecl.read pool options origin version stop.cursor = result at halike ⊢
      cases halike with
      | error hdepth => rfl
      | ok hreaches =>
        show (do
          let decoded ← add decoder.decoded 1
          _ : Guarded (Decoder × Except Error ClassDecl)) = _
        rw [add_eq hdecoded]
        rfl

/-- **Decoding ends for all bytes, and fails in two ways only.** Whatever the bytes, the origin and
    the options are, decoding asks nowhere for what is not there, and what it ends in is a class,
    a failure that the bytes are to blame for, or the refusal of a module.  A module is what is
    refused so, as soon as magic number, version, constant pool, flags and class name could be
    read, whatever follows. -/
theorem decode_total {decoder : Decoder} {data : List UInt8} (hdata : data.length < wordLimit)
    (hdecoded : decoder.decoded + 1 < wordLimit) (origin : Origin) (options : DecodeOptions) :
    decode decoder origin data options = .ok (decoder.decode origin data options)
      ∧ (∀ error, (decoder.decode origin data options).2 = .error error →
        error.isFormatError = true ∨ ∃ what, error = .notSupported what)
      ∧ ((∃ what, (decoder.decode origin data options).2 = .error (.notSupported what))
        ↔ ∃ (record : HeadingRecord) (name : String) (rest : List UInt8),
          data = record.encode ++ rest
          ∧ oldestMajor ≤ record.major ∧ record.major ≤ options.maxMajor
          ∧ record.constants.pool.className record.name = .ok name
          ∧ hasFlag record.flags moduleFlag = true) := by
  refine ⟨decode_eq_decode hdata hdecoded origin, fun error herror => ?_,
    Decoder.decode_eq_notSupported_iff⟩
  rw [(Decoder.decode_spec ..).1] at herror
  obtain ⟨stop, hread⟩ := Reader.value_eq_error.mp herror
  exact ClassDecl.endsClass_of_readFile hread

/-- The pool of a module whose name is one letter. -/
def moduleConstants : Constants where
  bytes := [0, 3, 1, 0, 1, 109, 7, 0, 1]
  pool := ⟨#[.reserved, .utf8 "m", .classRef 1]⟩
  takes := Pool.takes_of_read (by cbv)

/-- A module, its version the newest that is accepted, and a byte that is never read. -/
def moduleBytes : List UInt8 :=
  HeadingRecord.encode ⟨0, 70, moduleConstants, moduleFlag, 2⟩ ++ [0xFF]

/-- The module is refused for what it is, and without a fault. -/
theorem decode_total_moduleBytes :
    ∃ result, decode .new ⟨"module-info.class", 0⟩ moduleBytes {} = .ok result
      ∧ ∃ what, result.2 = .error (.notSupported what) := by
  have hdata : moduleBytes.length < wordLimit := by decide
  have hdecoded : Decoder.new.decoded + 1 < wordLimit := by decide
  obtain ⟨hdecode, -, hmodule⟩ := decode_total hdata hdecoded ⟨"module-info.class", 0⟩ {}
  have hname : moduleConstants.pool.className 2 = .ok "m" := by cbv
  exact ⟨_, hdecode, hmodule.mpr ⟨_, "m", [0xFF], rfl, by decide, by decide, hname, by decide⟩⟩

end ClassAtlas.Machine
