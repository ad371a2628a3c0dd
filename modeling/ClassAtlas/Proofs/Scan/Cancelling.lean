import ClassAtlas.Proofs.ClassFile.PrefixFree
import ClassAtlas.Proofs.Scan.Sources

namespace ClassAtlas

/-!
# Scans that are stopped

A scan looks whether it is to stop in front of each source, and nowhere else.  So a source that is
being read when somebody asks the scan to stop is still dealt with, and those behind it are not even
asked for their bytes.

* `CancellationToken.after` — what is known of stopping once some sources were read;
* `hushed` — sources that give the bytes they would give, and stop nothing;
* `Scan.Unaware` — the steps to which it does not matter whether the scan is to stop;
* `Scan.settle` — what is done with the bytes of a source, which is such a step;
* `Scan.processAll_append_of_cancelled` — the sources in front of the stop, and those behind it;
* `scan_of_cancelled` — a scan that is stopped is the scan of the sources read until then.
-/

variable {β γ : Type} {options : DecodeOptions} {token : CancellationToken}

/-- The token once some sources were read, one after the other. -/
def CancellationToken.after (token : CancellationToken) (sources : List ByteSource) :
    CancellationToken :=
  sources.foldl (fun token source => (source.read token).1) token

/-- The sources with the bytes that each of them gives if they are read one after the other.  They
    give them whatever the token, and leave it alone. -/
def hushed : (token : CancellationToken) → List ByteSource → List ByteSource
  | _, [] => []
  | token, source :: rest =>
    ⟨source.label, fun other => (other, (source.read token).2)⟩
      :: hushed (source.read token).1 rest

/-! ### Steps that do not look at the token -/

/-- What is known, with another token. -/
def ScanState.withToken (state : ScanState) (token : CancellationToken) : ScanState :=
  { state with token }

namespace Scan

/-- The end of a step, with another token. -/
def endWith (token : CancellationToken) :
    EStateM.Result Error ScanState β → EStateM.Result Error ScanState β
  | .ok value state => .ok value (state.withToken token)
  | .error error state => .error error (state.withToken token)

/-- With another token the step does the same, and leaves that token. -/
def Unaware (step : Scan β) : Prop :=
  ∀ state token, step (state.withToken token) = endWith token (step state)

theorem unaware_pure (value : β) : Unaware (pure value : Scan β) := fun _ _ => rfl

theorem unaware_throw (error : Error) : Unaware (throw error : Scan β) := fun _ _ => rfl

theorem Unaware.bind {step : Scan β} {next : β → Scan γ} (first : Unaware step)
    (second : ∀ value, Unaware (next value)) : Unaware (step >>= next) := by
  intro state token
  show EStateM.bind step next (state.withToken token) = endWith token (EStateM.bind step next state)
  rw [EStateM.bind, EStateM.bind, first]
  cases step state with
  | ok value middle => exact second value middle token
  | error error middle => rfl

theorem unaware_report (entry : Diagnostic) : Unaware (report entry) := fun _ _ => rfl

theorem unaware_acquire : Unaware acquire := by
  intro state token
  unfold acquire
  rw [bind_of_eq_ok get_eq, bind_of_eq_ok get_eq]
  dsimp only [ScanState.withToken]
  cases state.decoders.acquire.2 <;> rfl

theorem unaware_release (handle : Handle) : Unaware (release handle) := by
  intro state token
  unfold release
  rw [bind_of_eq_ok get_eq, bind_of_eq_ok get_eq]
  dsimp only [ScanState.withToken]
  cases (state.decoders.release handle).2 <;> rfl

theorem unaware_decodeWith (handle : Handle) (origin : Origin) (bytes : List UInt8)
    (options : DecodeOptions) : Unaware (decodeWith handle origin bytes options) := fun _ _ => rfl

theorem unaware_decode (origin : Origin) (bytes : List UInt8) (options : DecodeOptions) :
    Unaware (decode origin bytes options) :=
  unaware_acquire.bind fun handle => (unaware_decodeWith handle origin bytes options).bind
    fun _ => (unaware_release handle).bind fun _ => unaware_pure _

theorem unaware_register (decl : ClassDecl) : Unaware (register decl) := by
  intro state token
  have hrecord : ∀ yield, (state.withToken token).record yield
      = (state.record yield).withToken token := by
    intro yield
    cases yield <;> rfl
  rw [register_eq, register_eq, hrecord]
  rfl

/-! ### One source -/

/-- What is done with the bytes of a source, or with the failure to get them. -/
def settle (options : DecodeOptions) (index : Nat) (label : String) :
    Except Error (List UInt8) → Scan Unit
  | .error error => report (unreadableSource label error)
  | .ok bytes => do
    match ← decode ⟨label, index⟩ bytes options with
    | .ok decl => register decl
    | .error (.misused cause) => throw (.misused cause)
    | .error error => report (undecodableSource label error)

theorem unaware_settle (index : Nat) (label : String) (bytes : Except Error (List UInt8)) :
    Unaware (settle options index label bytes) := by
  cases bytes with
  | error error => exact unaware_report _
  | ok bytes =>
    refine (unaware_decode ⟨label, index⟩ bytes options).bind fun outcome => ?_
    split
    · exact unaware_register _
    · exact unaware_throw _
    · exact unaware_report _

/-- Of a source the bytes are got, which can stop the scan, and they are settled all the same. -/
theorem process_eq_settle (index : Nat) (source : ByteSource) (state : ScanState) :
    process options index source state
      = settle options index source.label (source.read state.token).2
        (state.withToken (source.read state.token).1) := by
  have hbytes : readBytes source state = .ok (source.read state.token).2
      (state.withToken (source.read state.token).1) := rfl
  unfold process
  rw [bind_of_eq_ok hbytes]
  cases (source.read state.token).2 <;> rfl

/-! ### All sources -/

/-- Once the scan is to stop no source is read any more. -/
theorem processAll_of_cancelled {state : ScanState} (h : state.token.cancelled = true) (index : Nat)
    (sources : List ByteSource) : processAll options index sources state = .ok () state := by
  induction sources generalizing index with
  | nil => rfl
  | cons source rest ih =>
    have hsource : processUnlessCancelled options index source state = .ok () state := by
      show (if !state.token.cancelled then process options index source else pure ()) state = _
      rw [h]
      rfl
    rw [processAll, bind_of_eq_ok hsource, ih]

/-- The sources read until the scan is to stop leave what they would leave if nothing stopped it,
    and the sources behind them leave nothing. -/
theorem processAll_append_of_cancelled {state : ScanState} {seen : List ByteSource}
    {calm : CancellationToken} (index : Nat) (after : List ByteSource)
    (hresting : state.decoders.Resting) (hcalm : calm.cancelled = false)
    (hrunning : ∀ early, early <+: seen → early ≠ seen →
      (state.token.after early).cancelled = false)
    (hcancelled : (state.token.after seen).cancelled = true) :
    ∃ last : ScanState,
      processAll options index (hushed state.token seen) (state.withToken calm)
        = .ok () (last.withToken calm)
      ∧ processAll options index (seen ++ after) state
        = .ok () (last.withToken (state.token.after seen)) := by
  -- On the sources in front of the stop; both runs go on from states that differ in the token only.
  induction seen generalizing state index with
  | nil => exact ⟨state, rfl, processAll_of_cancelled hcancelled index after⟩
  | cons source rest ih =>
    have hgoing : state.token.cancelled = false :=
      hrunning [] List.nil_prefix (List.cons_ne_nil source rest).symm
    obtain ⟨stopping, hstopping⟩ : ∃ stopping, (source.read state.token).1 = stopping := ⟨_, rfl⟩
    -- Where nothing stops the scan the source is settled, and the token stays as it is.
    obtain ⟨decoders, hrests, -, hcalmly⟩ := @process_eq (state.withToken calm) hresting
      ⟨source.label, fun other => (other, (source.read state.token).2)⟩ rfl options index
    generalize hmiddle : ScanState.record _ _ = middle at hcalmly
    have hkept : middle.token = calm := by rw [← hmiddle, ScanState.token_record]; rfl
    have hresting' : middle.decoders.Resting := by rwa [← hmiddle, ScanState.decoders_record]
    have hsettled : settle options index source.label (source.read state.token).2
        (state.withToken calm) = .ok () middle :=
      (process_eq_settle index _ (state.withToken calm)).symm.trans hcalmly
    -- So it is in the scan that it may stop.
    have hprocess : process options index source state = .ok () (middle.withToken stopping) := by
      have hsame := @unaware_settle options index source.label (source.read state.token).2
        (state.withToken calm) stopping
      rw [hsettled] at hsame
      rw [process_eq_settle, hstopping]
      exact hsame
    obtain ⟨last, hcalmRest, hrest⟩ := @ih (middle.withToken stopping) (index + 1) hresting'
      (fun early hearly hne => by
        have hlater := hrunning (source :: early) ((List.prefix_cons_inj source).mpr hearly)
          (fun hsame => hne (List.cons.inj hsame).2)
        rwa [CancellationToken.after, List.foldl_cons, hstopping] at hlater)
      (by rwa [CancellationToken.after, List.foldl_cons, hstopping] at hcancelled)
    have hback : (middle.withToken stopping).withToken calm = middle := by
      rw [← hkept]
      rfl
    rw [hback] at hcalmRest
    refine ⟨last, ?_, ?_⟩
    · rw [hushed, hstopping, processAll,
        bind_of_eq_ok ((processUnlessCancelled_of_running _ _ _ hcalm).trans hcalmly)]
      exact hcalmRest
    · rw [List.cons_append, processAll,
        bind_of_eq_ok ((processUnlessCancelled_of_running _ _ _ hgoing).trans hprocess), hrest,
        CancellationToken.after, CancellationToken.after, List.foldl_cons, hstopping]
      rfl

end Scan

/-! ### Whole scans -/

/-- **A scan that is stopped is the scan of a part of its sources.** Take the sources up to the one
    that is being read when the scan is asked to stop, or none of them if it was asked before.  The
    scan of all sources gives what a scan of these gives that nothing stops, but that it is marked
    as cancelled.  The sources behind are not read: the token is left as the last of those in front
    has left it. -/
theorem scan_of_cancelled {scanner : Scanner} {seen after : List ByteSource}
    (hrunning : ∀ early, early <+: seen → early ≠ seen →
      (scanner.token.after early).cancelled = false)
    (hcancelled : (scanner.token.after seen).cancelled = true) :
    ∃ result, ((Scanner.new scanner.config).scan (hushed scanner.token seen)).2 = .ok result
      ∧ result.cancelled = false
      ∧ scanner.scan (seen ++ after)
        = ({ scanner with token := scanner.token.after seen },
          .ok { result with cancelled := true }) := by
  obtain ⟨last, hcalm, hstopped⟩ := @Scan.processAll_append_of_cancelled
    scanner.config.decodeOptions scanner.start seen .new 0 after (Recycler.resting_new 0) rfl
    hrunning hcancelled
  have hstart : (Scanner.new scanner.config).start = scanner.start.withToken .new := rfl
  have hconfig : (Scanner.new scanner.config).config = scanner.config := rfl
  have htoken : scanner.start.token = scanner.token := rfl
  refine ⟨(Scanner.new scanner.config).finish (last.withToken .new), ?_, rfl, ?_⟩
  · unfold Scanner.scan
    rw [hconfig, hstart, ← htoken, hcalm]
  · unfold Scanner.scan
    rw [hstopped]
    refine Prod.ext rfl (congrArg Except.ok ?_)
    -- The graph and the diagnostics are made of what is known, and the token is not asked for them.
    show ScanResult.mk _ _ _ (scanner.token.after seen).cancelled = _
    rw [hcancelled]
    rfl

/-- Three times the same class, and the second source stops the scan while it is read.  The class
    is found all the same. -/
theorem scan_of_cancelled_second :
    ∃ result, ((Scanner.new .sequential).scan [ClassBytes.toSource ⟨"A.class", ouroborosBytes⟩,
        ClassBytes.toSource ⟨"B.class", ouroborosBytes⟩]).2 = .ok result
      ∧ result.cancelled = false
      ∧ result.graph.decls.map (·.name) = ["A"]
      ∧ (Scanner.new .sequential).scan [ClassBytes.toSource ⟨"A.class", ouroborosBytes⟩,
          ⟨"B.class", fun token => (token.cancelWith "enough", .ok ouroborosBytes)⟩,
          ClassBytes.toSource ⟨"C.class", ouroborosBytes⟩]
        = (⟨.sequential, ⟨true, some "enough"⟩⟩, .ok { result with cancelled := true }) := by
  refine (@scan_of_cancelled (.new .sequential)
    [ClassBytes.toSource ⟨"A.class", ouroborosBytes⟩,
      ⟨"B.class", fun token => (token.cancelWith "enough", .ok ouroborosBytes)⟩]
    [ClassBytes.toSource ⟨"C.class", ouroborosBytes⟩] ?running rfl).imp
      fun result ⟨hresult, hcancelled, hstopped⟩ => ⟨hresult, hcancelled, ?names, hstopped⟩
  case running =>
    intro early hearly hne
    -- Only the first source, or none, was read before.
    have hfirst : early <+: [ClassBytes.toSource ⟨"A.class", ouroborosBytes⟩] :=
      (List.prefix_concat_iff.mp hearly).resolve_left hne
    rcases List.prefix_cons_iff.mp hfirst with rfl | ⟨none, rfl, hnone⟩
    · rfl
    · rw [List.prefix_nil.mp hnone]
      rfl
  case names =>
    have hscanned : ((Scanner.new .sequential).scan
        [ClassBytes.toSource ⟨"A.class", ouroborosBytes⟩,
          ClassBytes.toSource ⟨"B.class", ouroborosBytes⟩]).2.map
          (fun result => result.graph.decls.map (·.name)) = .ok ["A"] := by cbv
    exact Except.ok.inj ((congrArg (Except.map _) hresult).symm.trans hscanned)

end ClassAtlas
