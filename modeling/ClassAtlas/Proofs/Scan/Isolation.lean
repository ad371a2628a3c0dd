import ClassAtlas.Proofs.ClassFile.PrefixFree
import ClassAtlas.Proofs.Graph.Renumbering
import ClassAtlas.Proofs.Scan.Sources

namespace ClassAtlas

/-!
# A source without a class among others

A source that cannot be read, or that holds no class, leaves the other sources alone.  The scan
without it gives the same graph, but for the places of the sources behind it, and says the same
about the other sources and about references.

* `ByteSource.Broken` — there is no class to be had from a source;
* `makeRoom` — the places of sources when another one is put among them;
* `yields_append`, `yields_renumber` — what becomes of sources that follow others, and of sources
  at other places;
* `yields_insert` — what becomes of sources with a broken one among them;
* `scan_insert` — the scan with the broken source and the scan without it.
-/

variable {options : DecodeOptions} {token : CancellationToken} {shift : Nat → Nat}

/-! ### Broken sources -/

/-- The source cannot be read, or its bytes are refused.  Where they are refused does not
    matter. -/
def ByteSource.Broken (options : DecodeOptions) (token : CancellationToken)
    (source : ByteSource) : Prop :=
  ∀ bytes, (source.read token).2 = .ok bytes →
    ∃ origin error, (Decoder.new.decode origin bytes options).2 = .error error

theorem ByteSource.Broken.exists_outcome {source : ByteSource} (h : source.Broken options token)
    (index : Nat) : ∃ entry, source.outcome options token index = .error entry := by
  unfold ByteSource.outcome
  cases hread : (source.read token).2 with
  | error error => exact ⟨_, rfl⟩
  | ok bytes =>
    obtain ⟨origin, error, herror⟩ := h bytes hread
    dsimp only
    rw [Decoder.decode_relocate Decoder.new origin, herror]
    exact ⟨_, rfl⟩

/-! ### Other places -/

/-- The place of a source when another source is put at a place. -/
def makeRoom (place index : Nat) : Nat := if index < place then index else index + 1

theorem strictMono_makeRoom (place : Nat) : StrictMono (makeRoom place) := by
  intro index later hlt
  unfold makeRoom
  split <;> split <;> omega

/-- What becomes of a source if the sources are renumbered. -/
def Yield.renumber (shift : Nat → Nat) : Yield → Yield
  | registered decl => registered (decl.renumber shift)
  | reported entry => reported entry

@[simp] theorem Yield.decl?_renumber (yield : Yield) :
    (yield.renumber shift).decl? = yield.decl?.map (·.renumber shift) := by
  cases yield <;> rfl

@[simp] theorem Yield.diagnostic?_renumber (yield : Yield) :
    (yield.renumber shift).diagnostic? = yield.diagnostic? := by
  cases yield <;> rfl

/-- The classes are renumbered. -/
theorem filterMap_decl?_renumber (all : List Yield) :
    (all.map (·.renumber shift)).filterMap (·.decl?)
      = (all.filterMap (·.decl?)).map (·.renumber shift) := by
  simp [List.filterMap_map, List.map_filterMap]

/-- The diagnostics stay. -/
theorem filterMap_diagnostic?_renumber (all : List Yield) :
    (all.map (·.renumber shift)).filterMap (·.diagnostic?) = all.filterMap (·.diagnostic?) := by
  simp [List.filterMap_map]

theorem Yield.ofDecl_renumber (known : List ClassDecl) (decl : ClassDecl) :
    Yield.ofDecl (known.map (·.renumber shift)) (decl.renumber shift)
      = (Yield.ofDecl known decl).renumber shift := by
  have hfind : (known.map (·.renumber shift)).find? (·.name = (decl.renumber shift).name)
      = (known.find? (·.name = decl.name)).map (·.renumber shift) := by
    rw [List.find?_map]
    rfl
  unfold ofDecl
  rw [hfind]
  cases known.find? (·.name = decl.name) <;> rfl

theorem ByteSource.yield_renumber (known : List ClassDecl) (source : ByteSource) (index : Nat) :
    source.yield options token (known.map (·.renumber shift)) (shift index)
      = (source.yield options token known index).renumber shift := by
  unfold ByteSource.yield
  rw [source.outcome_relocate index]
  cases houtcome : source.outcome options token index with
  | error entry => rfl
  | ok decl =>
    have hplace : decl.relocate ⟨source.label, shift index⟩ = decl.renumber shift := by
      rw [ClassDecl.renumber, source.origin_of_outcome houtcome]
      rfl
    show Yield.ofDecl _ (decl.relocate _) = _
    rw [hplace, Yield.ofDecl_renumber]

/-- What becomes of sources does not depend on their places, as long as these follow one
    another. -/
theorem yields_renumber (known : List ClassDecl) {index index' : Nat} {sources : List ByteSource}
    (h : ∀ offset < sources.length, shift (index + offset) = index' + offset) :
    yields options token (known.map (·.renumber shift)) index' sources
      = (yields options token known index sources).map (·.renumber shift) := by
  induction sources generalizing known index index' with
  | nil => rfl
  | cons source rest ih =>
    obtain rfl : shift index = index' := h 0 (Nat.zero_lt_succ _)
    have hrest : ∀ offset < rest.length,
        shift (index + 1 + offset) = shift index + 1 + offset := by
      intro offset hlt
      rw [Nat.add_right_comm, Nat.add_assoc, h (offset + 1) (Nat.succ_lt_succ hlt)]
      omega
    rw [yields, yields, List.map_cons, source.yield_renumber, ← ih _ hrest, List.map_append,
      Yield.decl?_renumber, Option.toList_map]

/-- What becomes of sources that follow others, whose classes are known by then. -/
theorem yields_append (known : List ClassDecl) (index : Nat) (first second : List ByteSource) :
    yields options token known index (first ++ second)
      = yields options token known index first
        ++ yields options token
          (known ++ (yields options token known index first).filterMap (·.decl?))
          (index + first.length) second := by
  induction first generalizing known index with
  | nil => simp [yields]
  | cons source rest ih =>
    rw [List.cons_append, yields, yields, ih, List.cons_append, filterMap_cons_eq_append,
      List.length_cons, List.append_assoc, Nat.add_right_comm, Nat.add_assoc]

/-- What becomes of sources with one more among them that holds no class. -/
theorem yields_insert (before after : List ByteSource) {broken : ByteSource} {entry : Diagnostic}
    (hbroken : broken.outcome options token before.length = .error entry) :
    ∃ first second, yields options token [] 0 (before ++ after) = first ++ second
      ∧ yields options token [] 0 (before ++ broken :: after)
        = first.map (·.renumber (makeRoom before.length)) ++ .reported entry
          :: second.map (·.renumber (makeRoom before.length)) := by
  obtain ⟨first, hfirst⟩ : ∃ first, yields options token [] 0 before = first := ⟨_, rfl⟩
  -- The sources in front keep their places, and those behind move on by one.
  have hbefore : first = first.map (·.renumber (makeRoom before.length)) := by
    rw [← hfirst]
    refine yields_renumber [] fun offset hlt => ?_
    rw [makeRoom, if_pos (by rwa [Nat.zero_add])]
  have hafter : ∀ offset < after.length,
      makeRoom before.length (before.length + offset) = before.length + 1 + offset := by
    intro offset _
    rw [makeRoom, if_neg (by omega), Nat.add_right_comm]
  have hknown : first.filterMap (·.decl?)
      = (first.filterMap (·.decl?)).map (·.renumber (makeRoom before.length)) := by
    rw [← filterMap_decl?_renumber, ← hbefore]
  have hyield : broken.yield options token (first.filterMap (·.decl?)) before.length
      = .reported entry := by
    rw [ByteSource.yield, hbroken]
  refine ⟨first, yields options token (first.filterMap (·.decl?)) before.length after, ?_, ?_⟩
  · rw [yields_append, hfirst, List.nil_append, Nat.zero_add]
  · rw [yields_append, hfirst, List.nil_append, Nat.zero_add, yields, hyield,
      Yield.decl?_reported, Option.toList_none, List.append_nil, ← yields_renumber _ hafter,
      ← hknown, ← hbefore]

/-! ### Scans -/

/-- The graph is renumbered, and one diagnostic is put among the others. -/
theorem Scanner.outcome_insert (scanner : Scanner) (before after : List ByteSource)
    {broken : ByteSource} {entry : Diagnostic}
    (hbroken : broken.outcome scanner.config.decodeOptions scanner.token before.length
      = .error entry) :
    (scanner.outcome (before ++ broken :: after)).1
        = (scanner.outcome (before ++ after)).1.renumber (makeRoom before.length)
      ∧ ∃ first second, (scanner.outcome (before ++ after)).2.toList = first ++ second
        ∧ (scanner.outcome (before ++ broken :: after)).2.toList = first ++ entry :: second := by
  obtain ⟨first, second, hwithout, hwith⟩ := yields_insert before after hbroken
  have hdecls : (first.map (·.renumber (makeRoom before.length)) ++ .reported entry
      :: second.map (·.renumber (makeRoom before.length))).filterMap (·.decl?)
      = ((first ++ second).filterMap (·.decl?)).map (·.renumber (makeRoom before.length)) := by
    rw [List.filterMap_append, filterMap_cons_eq_append, filterMap_decl?_renumber,
      filterMap_decl?_renumber, List.filterMap_append, List.map_append]
    rfl
  have hentries : (first.map (·.renumber (makeRoom before.length)) ++ .reported entry
      :: second.map (·.renumber (makeRoom before.length))).filterMap (·.diagnostic?)
      = first.filterMap (·.diagnostic?) ++ entry :: second.filterMap (·.diagnostic?) := by
    rw [List.filterMap_append, filterMap_cons_eq_append, filterMap_diagnostic?_renumber,
      filterMap_diagnostic?_renumber]
    rfl
  unfold outcome
  dsimp only
  rw [hwithout, hwith, hdecls, hentries, ClassGraph.build_renumber (strictMono_makeRoom _)]
  refine ⟨rfl, first.filterMap (·.diagnostic?), second.filterMap (·.diagnostic?)
    ++ (ClassGraph.build ((first ++ second).filterMap (·.decl?)) .empty
      scanner.config.reportUnresolved).2.toList, ?_, ?_⟩
  · rw [ClassGraph.toList_build, List.filterMap_append, ← List.append_assoc]
    rfl
  · rw [ClassGraph.toList_build, ← List.cons_append, ← List.append_assoc]
    rfl

/-- **A source without a class leaves the others alone.** Take any sources, and put one among them
    that cannot be read or that holds no class.  If nothing stops the scan, both scans give a
    result.  The graph is the same, but for the places of the sources behind the new one, and it
    gives the same answers.  The diagnostics are the same, in the same order, but for one that
    says why there is no class in the new source. -/
theorem scan_insert {scanner : Scanner} {before after : List ByteSource} {broken : ByteSource}
    (h : scanner.token.Undisturbed (before ++ broken :: after))
    (hbroken : broken.Broken scanner.config.decodeOptions scanner.token) :
    ∃ result result' first entry second,
      (scanner.scan (before ++ after)).2 = .ok result
      ∧ (scanner.scan (before ++ broken :: after)).2 = .ok result'
      ∧ result'.graph = result.graph.renumber (makeRoom before.length)
      ∧ result.graph.Alike (makeRoom before.length) result'.graph
      ∧ result.diagnostics.toList = first ++ second
      ∧ result'.diagnostics.toList = first ++ entry :: second
      ∧ entry.source = some broken.label
      ∧ entry.category ∈ brokenCategories := by
  have hwithout : scanner.token.Undisturbed (before ++ after) :=
    h.mono ((List.sublist_cons_self broken after).append_left before).subset
  obtain ⟨result, hresult, hgraph, hdiagnostics, -⟩ := Scanner.scan_eq hwithout
  obtain ⟨result', hresult', hgraph', hdiagnostics', -⟩ := Scanner.scan_eq h
  obtain ⟨entry, hentry⟩ := hbroken.exists_outcome before.length
  obtain ⟨hsource, hcategory⟩ := broken.of_outcome_eq_error hentry
  obtain ⟨hrenumber, first, second, hall, hall'⟩ := scanner.outcome_insert before after hentry
  rw [← hgraph', ← hgraph] at hrenumber
  refine ⟨result, result', first, entry, second, hresult, hresult', hrenumber, ?_, ?_, ?_,
    hsource, hcategory⟩
  · rw [hrenumber]
    exact ClassGraph.alike_renumber _ _
  · rw [hdiagnostics, hall]
  · rw [hdiagnostics', hall']

/-- The same class twice, and in between without its last byte.  Both scans find the class. -/
theorem scan_insert_truncated :
    ∃ result result' first entry second,
      ((Scanner.new {}).scan [ClassBytes.toSource ⟨"A.class", ouroborosBytes⟩,
        ClassBytes.toSource ⟨"C.class", ouroborosBytes⟩]).2 = .ok result
      ∧ ((Scanner.new {}).scan [ClassBytes.toSource ⟨"A.class", ouroborosBytes⟩,
        ClassBytes.toSource ⟨"B.class", ouroborosBytes.dropLast⟩,
        ClassBytes.toSource ⟨"C.class", ouroborosBytes⟩]).2 = .ok result'
      ∧ result.graph.Alike (makeRoom 1) result'.graph
      ∧ result.graph.decls.map (·.name) = ["A"]
      ∧ result'.graph.decls.map (·.name) = ["A"]
      ∧ result.diagnostics.toList = first ++ second
      ∧ result'.diagnostics.toList = first ++ entry :: second
      ∧ entry.source = some "B.class" := by
  have hundisturbed : (Scanner.new {}).token.Undisturbed
      ([ClassBytes.toSource ⟨"A.class", ouroborosBytes⟩]
        ++ ClassBytes.toSource ⟨"B.class", ouroborosBytes.dropLast⟩
        :: [ClassBytes.toSource ⟨"C.class", ouroborosBytes⟩]) :=
    ⟨rfl, by simp [ClassBytes.toSource]⟩
  have hrefused : (Decoder.new.decode ⟨"B.class", 1⟩ ouroborosBytes.dropLast {}).2
      = .error .outOfBounds := by cbv
  have hbroken : (ClassBytes.toSource ⟨"B.class", ouroborosBytes.dropLast⟩).Broken
      (Scanner.new {}).config.decodeOptions (Scanner.new {}).token := by
    intro bytes hbytes
    obtain rfl : ouroborosBytes.dropLast = bytes := Except.ok.inj hbytes
    exact ⟨_, _, hrefused⟩
  obtain ⟨result, result', first, entry, second, hresult, hresult', -, halike, hall, hall',
    hsource, -⟩ := scan_insert hundisturbed hbroken
  have hscanned : ((Scanner.new {}).scan [ClassBytes.toSource ⟨"A.class", ouroborosBytes⟩,
      ClassBytes.toSource ⟨"C.class", ouroborosBytes⟩]).2.map
        (fun result => result.graph.decls.map (·.name)) = .ok ["A"] := by cbv
  have hnames : result.graph.decls.map (·.name) = ["A"] := by
    rw [List.singleton_append] at hresult
    rw [hresult] at hscanned
    exact Except.ok.inj hscanned
  exact ⟨result, result', first, entry, second, hresult, hresult', halike, hnames,
    halike.names_eq.trans hnames, hall, hall', hsource⟩

end ClassAtlas
