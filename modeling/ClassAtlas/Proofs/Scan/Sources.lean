import ClassAtlas.Proofs.ClassFile.Failures
import ClassAtlas.Proofs.ClassFile.Layout
import ClassAtlas.Scan.Scanner

namespace ClassAtlas

/-!
# What a scan makes of each source

A scan goes through its sources with one reader of class files, which it takes for a source and
gives back whether the source holds a class or not.  So what becomes of a source depends on the
source and on the classes known before it, and on nothing else.

* `CancellationToken.Undisturbed` — nothing stops the scan;
* `ByteSource.outcome` — the class that a source holds, or the diagnostic of why there is none;
* `Yield`, `yields` — what becomes of sources: classes of new names, and diagnostics;
* `Recycler.Resting` — the readers of class files between two sources;
* `Scan.process_eq`, `Scan.processAll_eq` — one source, and all of them;
* `Scanner.scan_eq` — the outcome of a scan that nothing stops.
-/

variable {options : DecodeOptions} {token : CancellationToken}

/-! ### Sources that nothing stops -/

/-- Nothing asks a scan to stop: not to begin with, and no source does. -/
structure CancellationToken.Undisturbed (token : CancellationToken) (sources : List ByteSource) :
    Prop where
  /-- Nobody has asked yet. -/
  cancelled_eq : token.cancelled = false
  /-- No source changes that. -/
  read_eq : ∀ source ∈ sources, (source.read token).1 = token

/-- So it is with some of the sources. -/
theorem CancellationToken.Undisturbed.mono {sources some : List ByteSource}
    (h : token.Undisturbed sources) (hsome : some ⊆ sources) : token.Undisturbed some :=
  ⟨h.cancelled_eq, fun source hsource => h.read_eq source (hsome hsource)⟩

/-! ### What a source holds -/

/-- The class that a source holds, or the diagnostic of why there is none. -/
def ByteSource.outcome (options : DecodeOptions) (token : CancellationToken) (index : Nat)
    (source : ByteSource) : Except Diagnostic ClassDecl :=
  match (source.read token).2 with
  | .error error => .error (Scan.unreadableSource source.label error)
  | .ok bytes =>
    match (Decoder.new.decode ⟨source.label, index⟩ bytes options).2 with
    | .ok decl => .ok decl
    | .error error => .error (Scan.undecodableSource source.label error)

/-- The bytes of the source can be had. -/
def ByteSource.isReadable (token : CancellationToken) (source : ByteSource) : Bool :=
  (source.read token).2.isOk

/-- The categories of what there is to say about sources without a class. -/
def brokenCategories : List Category := [.io, .format, .unsupported]

/-- A class file is refused for its own bytes or for what they hold. -/
theorem Decoder.endsClass_of_decode {decoder : Decoder} {origin : Origin} {data : List UInt8}
    {error : Error} (h : (decoder.decode origin data options).2 = .error error) :
    error.EndsClass := by
  rw [(Decoder.decode_spec ..).1] at h
  obtain ⟨stop, hread⟩ := Reader.value_eq_error.mp h
  exact ClassDecl.endsClass_of_readFile hread

theorem Scan.category_undecodableSource {error : Error} (h : error.EndsClass) (label : String) :
    (Scan.undecodableSource label error).category ∈ brokenCategories := by
  cases error with
  | malformed cause => simp [undecodableSource, brokenCategories, Error.isFormatError]
  | outOfBounds => simp [undecodableSource, brokenCategories, Error.isFormatError]
  | recursionLimit limit => simp [undecodableSource, brokenCategories, Error.isFormatError]
  | notSupported what => simp [undecodableSource, brokenCategories]
  | _ => simp [Error.EndsClass, Error.isFormatError] at h

theorem Scan.source_undecodableSource (label : String) (error : Error) :
    (Scan.undecodableSource label error).source = some label := by
  cases error <;> rfl

/-- What there is to say about a source without a class carries its label. -/
theorem ByteSource.of_outcome_eq_error {index : Nat} {source : ByteSource} {entry : Diagnostic}
    (h : source.outcome options token index = .error entry) :
    entry.source = some source.label ∧ entry.category ∈ brokenCategories := by
  unfold outcome at h
  split at h
  · cases h
    exact ⟨rfl, List.mem_cons_self⟩
  · split at h
    · cases h
    · rename_i hdecode
      cases h
      exact ⟨Scan.source_undecodableSource _ _,
        Scan.category_undecodableSource (Decoder.endsClass_of_decode hdecode) _⟩

/-! ### The place of a source -/

/-- The class as it would be from elsewhere. -/
def ClassDecl.relocate (origin : Origin) (decl : ClassDecl) : ClassDecl := { decl with origin }

theorem ClassDecl.read_relocate (pool : Pool) (options : DecodeOptions) (origin origin' : Origin)
    (version : FileVersion) : ClassDecl.read pool options origin' version
      = ClassDecl.relocate origin' <$> ClassDecl.read pool options origin version := by
  rw [ClassDecl.read_eq, ClassDecl.read_eq]
  simp only [map_bind, apply_ite (Functor.map (relocate origin')), map_pure]
  rfl

theorem Reader.value_map {β γ : Type} (f : β → γ) (reader : Reader β) (bytes : List UInt8) :
    (f <$> reader).value bytes = f <$> reader.value bytes := by
  unfold Reader.value
  rw [map_eq_pure_bind, Reader.bind_apply]
  cases reader (.ofBytes bytes) <;> rfl

/-- Where a class comes from is noted in it, and does not matter otherwise. -/
theorem Decoder.decode_relocate (decoder : Decoder) (origin origin' : Origin) (data : List UInt8)
    (options : DecodeOptions) :
    (decoder.decode origin' data options).2
      = ClassDecl.relocate origin' <$> (decoder.decode origin data options).2 := by
  have hfile : ClassDecl.readFile origin' options
      = ClassDecl.relocate origin' <$> ClassDecl.readFile origin options := by
    unfold ClassDecl.readFile
    simp only [map_bind, ← ClassDecl.read_relocate]
  rw [(Decoder.decode_spec ..).1, (Decoder.decode_spec ..).1, hfile, Reader.value_map]

theorem ByteSource.outcome_relocate (source : ByteSource) (index index' : Nat) :
    source.outcome options token index'
      = ClassDecl.relocate ⟨source.label, index'⟩ <$> source.outcome options token index := by
  unfold outcome
  cases (source.read token).2 with
  | error error => rfl
  | ok bytes =>
    dsimp only
    rw [Decoder.decode_relocate Decoder.new ⟨source.label, index⟩]
    cases (Decoder.new.decode ⟨source.label, index⟩ bytes options).2 <;> rfl

theorem ByteSource.origin_of_outcome {source : ByteSource} {index : Nat} {decl : ClassDecl}
    (h : source.outcome options token index = .ok decl) : decl.origin = ⟨source.label, index⟩ := by
  have hsame : source.outcome options token index = _ := source.outcome_relocate index index
  rw [h] at hsame
  exact congrArg ClassDecl.origin (Except.ok.inj hsame)

/-! ### Yields -/

/-- What becomes of a source. -/
inductive Yield where
  /-- Its class is registered. -/
  | registered (decl : ClassDecl)
  /-- Something is said about it. -/
  | reported (entry : Diagnostic)

namespace Yield

/-- The class that is registered, if one is. -/
def decl? : Yield → Option ClassDecl
  | registered decl => some decl
  | reported _ => none

/-- What is said, if something is. -/
def diagnostic? : Yield → Option Diagnostic
  | registered _ => none
  | reported entry => some entry

@[simp] theorem decl?_registered (decl : ClassDecl) : (registered decl).decl? = some decl := rfl

@[simp] theorem decl?_reported (entry : Diagnostic) : (reported entry).decl? = none := rfl

@[simp] theorem diagnostic?_registered (decl : ClassDecl) :
    (registered decl).diagnostic? = none := rfl

@[simp] theorem diagnostic?_reported (entry : Diagnostic) :
    (reported entry).diagnostic? = some entry := rfl

end Yield

/-- What becomes of a class if others are known before it. -/
def Yield.ofDecl (known : List ClassDecl) (decl : ClassDecl) : Yield :=
  match known.find? (·.name = decl.name) with
  | some existing => .reported (Scan.duplicateClass existing decl.origin.source)
  | none => .registered decl

/-- What becomes of a source if some classes are known before it. -/
def ByteSource.yield (options : DecodeOptions) (token : CancellationToken)
    (known : List ClassDecl) (index : Nat) (source : ByteSource) : Yield :=
  match source.outcome options token index with
  | .error entry => .reported entry
  | .ok decl => .ofDecl known decl

/-- What becomes of sources, the first of them at a place, if some classes are known before. -/
def yields (options : DecodeOptions) (token : CancellationToken) :
    (known : List ClassDecl) → (index : Nat) → List ByteSource → List Yield
  | _, _, [] => []
  | known, index, source :: rest =>
    let yield := source.yield options token known index
    yield :: yields options token (known ++ yield.decl?.toList) (index + 1) rest

theorem filterMap_cons_eq_append {β : Type} {f : Yield → Option β} (first : Yield)
    (later : List Yield) : (first :: later).filterMap f
      = (f first).toList ++ later.filterMap f := by
  rw [List.filterMap_cons]
  cases f first <;> rfl

/-! ### Readers of class files -/

namespace Recycler

/-- There is at most one reader of class files, and it is not in use. -/
structure Resting (decoders : Recycler Decoder) : Prop where
  closed_eq : decoders.closed = false
  make_eq : decoders.make = fun _ => .ok .new
  checkedOut_eq : decoders.checkedOut = []
  available_eq : decoders.available = List.range decoders.created
  created_le : decoders.created ≤ 1

/-- There is one reader of class files, and it is in use. -/
structure Busy (decoders : Recycler Decoder) : Prop where
  closed_eq : decoders.closed = false
  make_eq : decoders.make = fun _ => .ok .new
  checkedOut_eq : decoders.checkedOut = [0]
  available_eq : decoders.available = []
  created_eq : decoders.created = 1

variable {decoders : Recycler Decoder}

theorem resting_new (identity : Nat) : (Recycler.new identity fun _ => .ok .new).Resting :=
  ⟨rfl, rfl, rfl, rfl, Nat.zero_le 1⟩

/-- The reader is handed out, and made for it if there is none. -/
theorem Resting.acquire (h : decoders.Resting) :
    ∃ taken, decoders.acquire = (taken, .ok (taken.handle 0)) ∧ taken.Busy := by
  obtain ⟨identity, make, calls, instances, checkedOut, available, closed⟩ := decoders
  obtain ⟨rfl, rfl, rfl, havailable, hcreated⟩ := h
  dsimp only [created] at havailable hcreated
  subst havailable
  rcases Nat.le_one_iff_eq_zero_or_eq_one.mp hcreated with hnone | hone
  · obtain rfl := Array.size_eq_zero_iff.mp hnone
    exact ⟨_, rfl, ⟨rfl, rfl, rfl, rfl, rfl⟩⟩
  · rw [hone]
    exact ⟨_, rfl, ⟨rfl, rfl, rfl, rfl, hone⟩⟩

theorem Busy.update (h : decoders.Busy) (id : Nat) (change : Decoder → Decoder) :
    (decoders.update id change).Busy :=
  ⟨h.closed_eq, h.make_eq, h.checkedOut_eq, h.available_eq,
    Array.size_modify.trans h.created_eq⟩

/-- The reader is taken back. -/
theorem Busy.release (h : decoders.Busy) :
    ∃ back, decoders.release (decoders.handle 0) = (back, .ok ()) ∧ back.Resting
      ∧ back.created = 1 := by
  have hupdate := h.update 0 Recyclable.reset
  refine ⟨{ decoders.update 0 Recyclable.reset with checkedOut := [], available := [0] }, ?_,
    ⟨hupdate.closed_eq, hupdate.make_eq, rfl, ?_, hupdate.created_eq.le⟩, hupdate.created_eq⟩
  · unfold Recycler.release
    have hout : (decoders.handle 0).id ∈ decoders.checkedOut := by
      rw [h.checkedOut_eq]
      exact List.mem_cons_self
    have hown : ¬(decoders.handle 0).owner ≠ decoders.identity := not_not.mpr rfl
    rw [if_neg hown, if_pos hout]
    simp only [handle, hupdate.checkedOut_eq, hupdate.available_eq]
    rfl
  · show [0] = List.range (decoders.update 0 Recyclable.reset).created
    rw [hupdate.created_eq]
    rfl

end Recycler

/-! ### One source -/

namespace Scan

variable {β γ : Type} {state state' : ScanState}

/-- After a step that gives a value, the next one follows. -/
theorem bind_of_eq_ok {step : Scan β} {next : β → Scan γ} {value : β}
    (h : step state = .ok value state') : (step >>= next) state = next value state' := by
  show EStateM.bind step next state = _
  rw [EStateM.bind, h]

theorem get_eq : (get : Scan ScanState) state = .ok state state := rfl

theorem acquire_eq {taken : Recycler Decoder} {handle : Handle}
    (h : state.decoders.acquire = (taken, .ok handle)) :
    acquire state = .ok handle { state with decoders := taken } := by
  rw [acquire, bind_of_eq_ok get_eq, h]
  rfl

theorem release_eq {back : Recycler Decoder} {handle : Handle}
    (h : state.decoders.release handle = (back, .ok ())) :
    release handle state = .ok () { state with decoders := back } := by
  rw [release, bind_of_eq_ok get_eq, h]
  rfl

/-- Whatever reader is used, the answer is that of a new one. -/
theorem decodeWith_eq (handle : Handle) (origin : Origin) (bytes : List UInt8)
    (options : DecodeOptions) :
    ∃ change, decodeWith handle origin bytes options state
      = .ok (Decoder.new.decode origin bytes options).2
        { state with decoders := state.decoders.update handle.id change } := by
  refine ⟨fun _ => (((state.decoders.instance? handle).getD Decoder.new).decode origin bytes
    options).1, ?_⟩
  rw [(Decoder.decode_spec Decoder.new ..).1, ← (Decoder.decode_spec
    ((state.decoders.instance? handle).getD Decoder.new) ..).1]
  rfl

/-- A reader of class files is taken, reads, and is given back, whatever it answers. -/
theorem decode_eq (h : state.decoders.Resting) (origin : Origin) (bytes : List UInt8)
    (options : DecodeOptions) :
    ∃ decoders, decoders.Resting ∧ decoders.created = 1
      ∧ decode origin bytes options state
        = .ok (Decoder.new.decode origin bytes options).2 { state with decoders } := by
  obtain ⟨taken, htaken, hbusy⟩ := h.acquire
  obtain ⟨change, hdecode⟩ := @decodeWith_eq { state with decoders := taken } (taken.handle 0)
    origin bytes options
  obtain ⟨back, hback, hresting, hcreated⟩ := (hbusy.update 0 change).release
  refine ⟨back, hresting, hcreated, ?_⟩
  unfold decode
  rw [bind_of_eq_ok (acquire_eq htaken), bind_of_eq_ok hdecode, bind_of_eq_ok (release_eq hback)]
  rfl

end Scan

/-- What is known with what became of a source. -/
def ScanState.record (state : ScanState) : Yield → ScanState
  | .registered decl => { state with registry := ⟨state.registry.classes ++ [decl]⟩ }
  | .reported entry => { state with diagnostics := state.diagnostics.push entry }

namespace ScanState

variable (state : ScanState) (yield : Yield)

@[simp] theorem token_record : (state.record yield).token = state.token := by
  cases yield <;> rfl

@[simp] theorem decoders_record : (state.record yield).decoders = state.decoders := by
  cases yield <;> rfl

@[simp] theorem classes_record :
    (state.record yield).registry.classes = state.registry.classes ++ yield.decl?.toList := by
  cases yield <;> simp [record]

@[simp] theorem entries_record :
    (state.record yield).diagnostics.toList
      = state.diagnostics.toList ++ yield.diagnostic?.toList := by
  cases yield <;> simp [record]

end ScanState

namespace Scan

variable {state : ScanState}

theorem register_eq (decl : ClassDecl) :
    register decl state = .ok () (state.record (.ofDecl state.registry.classes decl)) := by
  rw [register, bind_of_eq_ok get_eq]
  unfold Registry.register Registry.get? Yield.ofDecl
  cases state.registry.classes.find? (·.name = decl.name) <;> rfl

/-- A source is read, and what became of it is recorded. -/
theorem process_eq (h : state.decoders.Resting) {source : ByteSource}
    (hread : (source.read state.token).1 = state.token) (options : DecodeOptions) (index : Nat) :
    ∃ decoders, decoders.Resting
      ∧ decoders.created = (if source.isReadable state.token then 1 else state.decoders.created)
      ∧ process options index source state = .ok ()
        ({ state with decoders }.record
          (source.yield options state.token state.registry.classes index)) := by
  have hbytes : readBytes source state = .ok (source.read state.token).2 state := by
    show EStateM.Result.ok _ { state with token := (source.read state.token).1 } = _
    rw [hread]
  unfold process ByteSource.yield ByteSource.outcome ByteSource.isReadable
  rw [bind_of_eq_ok hbytes]
  cases (source.read state.token).2 with
  | error error => exact ⟨state.decoders, h, rfl, rfl⟩
  | ok bytes =>
    obtain ⟨decoders, hresting, hcreated, hdecode⟩ :=
      decode_eq h ⟨source.label, index⟩ bytes options
    refine ⟨decoders, hresting, hcreated, ?_⟩
    dsimp only
    rw [bind_of_eq_ok hdecode]
    cases hdecl : (Decoder.new.decode ⟨source.label, index⟩ bytes options).2 with
    | ok decl => exact register_eq decl
    | error error =>
      -- A failure that would end the scan does not come of reading a class file.
      have hends := Decoder.endsClass_of_decode hdecl
      cases error with
      | misused cause => simp [Error.EndsClass, Error.isFormatError] at hends
      | _ => rfl

/-! ### All sources -/

theorem processUnlessCancelled_of_running (options : DecodeOptions) (index : Nat)
    (source : ByteSource) (h : state.token.cancelled = false) :
    processUnlessCancelled options index source state = process options index source state := by
  show (if !state.token.cancelled then process options index source else pure ()) state = _
  rw [h]
  rfl

/-- All sources are read, and what became of them is recorded. -/
theorem processAll_eq (options : DecodeOptions) {sources : List ByteSource} (index : Nat)
    (hresting : state.decoders.Resting) (h : state.token.Undisturbed sources) :
    ∃ state', processAll options index sources state = .ok () state'
      ∧ state'.token = state.token
      ∧ state'.decoders.Resting
      ∧ state'.decoders.created
        = (if sources.any (·.isReadable state.token) then 1 else state.decoders.created)
      ∧ state'.registry.classes = state.registry.classes
        ++ (yields options state.token state.registry.classes index sources).filterMap (·.decl?)
      ∧ state'.diagnostics.toList = state.diagnostics.toList
        ++ (yields options state.token state.registry.classes index sources).filterMap
          (·.diagnostic?) := by
  -- On the sources: each step leaves the token as it is and the reader at rest.
  induction sources generalizing state index with
  | nil => exact ⟨state, rfl, rfl, hresting, rfl, by simp [yields], by simp [yields]⟩
  | cons source rest ih =>
    obtain ⟨decoders, hrests, hcreated, hprocess⟩ :=
      process_eq hresting (h.read_eq source List.mem_cons_self) options index
    have hsource := processUnlessCancelled_of_running options index source h.cancelled_eq
    obtain ⟨state', hrun, htoken, hlast, hall, hclasses, hentries⟩ :=
      @ih (({ state with decoders } : ScanState).record
        (source.yield options state.token state.registry.classes index)) (index + 1)
        (by rwa [ScanState.decoders_record])
        (by rw [ScanState.token_record]; exact h.mono (List.subset_cons_self source rest))
    simp only [ScanState.token_record, ScanState.decoders_record, ScanState.classes_record,
      ScanState.entries_record] at htoken hall hclasses hentries
    refine ⟨state', ?_, htoken, hlast, ?_, ?_, ?_⟩
    · unfold processAll
      rw [bind_of_eq_ok (hsource.trans hprocess), hrun]
    · rw [hall, hcreated, List.any_cons]
      cases source.isReadable state.token <;> cases rest.any (·.isReadable state.token) <;> rfl
    · rw [hclasses, yields, filterMap_cons_eq_append, List.append_assoc]
    · rw [hentries, yields, filterMap_cons_eq_append, List.append_assoc]

end Scan

/-! ### Whole scans -/

/-- The graph of the classes that sources yield, and the diagnostics of the sources, followed by
    those of the graph. -/
def Scanner.outcome (scanner : Scanner) (sources : List ByteSource) : ClassGraph × Diagnostics :=
  let all := yields scanner.config.decodeOptions scanner.token [] 0 sources
  ClassGraph.build (all.filterMap (·.decl?)) ⟨(all.filterMap (·.diagnostic?)).toArray⟩
    scanner.config.reportUnresolved

/-- A scan that nothing stops gives what the sources yield. -/
theorem Scanner.scan_eq {scanner : Scanner} {sources : List ByteSource}
    (h : scanner.token.Undisturbed sources) :
    ∃ result, (scanner.scan sources).2 = .ok result
      ∧ result.graph = (scanner.outcome sources).1
      ∧ result.diagnostics = (scanner.outcome sources).2
      ∧ result.decodersCreated = if sources.any (·.isReadable scanner.token) then 1 else 0 := by
  obtain ⟨state, hrun, -, hresting, hcreated, hclasses, hentries⟩ :=
    @Scan.processAll_eq scanner.start scanner.config.decodeOptions sources 0
      (Recycler.resting_new 0) h
  -- The reader was given back, so there is nothing to say about it.
  have hnone : ¬0 < state.decoders.checkedOut.length := by
    rw [hresting.checkedOut_eq]
    exact Nat.lt_irrefl 0
  have hdiagnostics : state.diagnostics = ⟨state.diagnostics.toList.toArray⟩ := by
    simp [Diagnostics.toList]
  have hbuild : ClassGraph.build state.registry.classes
      (if 0 < state.decoders.checkedOut.length then
        state.diagnostics.push (Scan.outstandingDecoders state.decoders.checkedOut.length)
      else state.diagnostics) scanner.config.reportUnresolved = scanner.outcome sources := by
    rw [if_neg hnone, hdiagnostics, hclasses, hentries]
    rfl
  refine ⟨scanner.finish state, ?_, congrArg Prod.fst hbuild, congrArg Prod.snd hbuild, hcreated⟩
  unfold scan
  rw [hrun]

end ClassAtlas
