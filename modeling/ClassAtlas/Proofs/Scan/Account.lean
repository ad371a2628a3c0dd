import ClassAtlas.Proofs.ClassFile.PrefixFree
import ClassAtlas.Proofs.Graph.Links
import ClassAtlas.Proofs.Scan.Sources

namespace ClassAtlas

/-!
# What becomes of the sources of a scan

Every source of a scan that nothing stops has exactly one outcome: its class is registered, or
there is one diagnostic about it.  Of the classes of a name, the one from the earliest source is
registered.

* `Yield.Fits` — what can become of a source, by what it holds;
* `IsFirst` — the class of a source that no earlier source holds a class of this name;
* `forall₂_fits_yields`, `mem_decls_yields` — what becomes of all sources;
* `graphOrder_yields` — their classes are in graph order;
* `scan_accounts` — the account of a whole scan.
-/

variable {options : DecodeOptions} {token : CancellationToken}

/-! ### One outcome for each source -/

/-- What can become of a source: the class it holds is registered, or something is said about the
    source: that it holds no class, or that the name of its class is taken. -/
def Yield.Fits (options : DecodeOptions) (token : CancellationToken) (source : ByteSource)
    (index : Nat) : Yield → Prop
  | registered decl => source.outcome options token index = .ok decl
  | reported entry => entry.source = some source.label
    ∧ (source.outcome options token index = .error entry ∧ entry.category ∈ brokenCategories
      ∨ entry.category = .collision ∧ ∃ decl, source.outcome options token index = .ok decl
        ∧ entry.className = some decl.name)

/-- The name of the class is taken, and there is something to say about it, or it is registered. -/
theorem Yield.ofDecl_cases (known : List ClassDecl) (decl : ClassDecl) :
    (∃ existing ∈ known, existing.name = decl.name
        ∧ Yield.ofDecl known decl
          = .reported (Scan.duplicateClass existing decl.origin.source))
      ∨ (∀ existing ∈ known, existing.name ≠ decl.name)
        ∧ Yield.ofDecl known decl = .registered decl := by
  unfold Yield.ofDecl
  cases hknown : known.find? (·.name = decl.name) with
  | some existing =>
    have hname : existing.name = decl.name := by simpa using List.find?_some hknown
    exact .inl ⟨existing, List.mem_of_find?_eq_some hknown, hname, rfl⟩
  | none =>
    refine .inr ⟨fun existing hmem hname => ?_, rfl⟩
    have hother := List.find?_eq_none.mp hknown existing hmem
    simp [hname] at hother

theorem ByteSource.fits_yield (known : List ClassDecl) (index : Nat) (source : ByteSource) :
    (source.yield options token known index).Fits options token source index := by
  unfold ByteSource.yield
  cases houtcome : source.outcome options token index with
  | error entry =>
    obtain ⟨hsource, hcategory⟩ := source.of_outcome_eq_error houtcome
    exact ⟨hsource, .inl ⟨houtcome, hcategory⟩⟩
  | ok decl =>
    dsimp only
    rcases Yield.ofDecl_cases known decl with ⟨existing, -, hname, hyield⟩ | ⟨-, hyield⟩
    · rw [hyield, source.origin_of_outcome houtcome]
      exact ⟨rfl, .inr ⟨rfl, decl, houtcome, congrArg some hname⟩⟩
    · rw [hyield]
      exact houtcome

/-- The class that is registered is known to come from the source. -/
theorem ByteSource.origin_of_yield {known : List ClassDecl} {index : Nat} {source : ByteSource}
    {decl : ClassDecl} (h : (source.yield options token known index).decl? = some decl) :
    decl.origin = ⟨source.label, index⟩ := by
  have hfits : (source.yield options token known index).Fits options token source index :=
    source.fits_yield known index
  cases hyield : source.yield options token known index with
  | registered found =>
    rw [hyield] at h hfits
    cases h
    exact source.origin_of_outcome hfits
  | reported entry =>
    rw [hyield] at h
    cases h

/-- One outcome for each source, and in their order. -/
theorem forall₂_fits_yields (known : List ClassDecl) (index : Nat) (sources : List ByteSource) :
    List.Forall₂ (fun place (yield : Yield) => yield.Fits options token place.1 place.2)
      (sources.zipIdx index) (yields options token known index sources) := by
  induction sources generalizing known index with
  | nil => exact .nil
  | cons source rest ih => exact .cons (source.fits_yield known index) (ih _ _)

/-- What is said about sources is why they hold no class, or that a name is taken. -/
theorem category_of_forall₂_fits {places : List (ByteSource × Nat)} {all : List Yield}
    (h : List.Forall₂ (fun place (yield : Yield) => yield.Fits options token place.1 place.2)
      places all) :
    ∀ entry ∈ all.filterMap (·.diagnostic?), entry.category ∈ .collision :: brokenCategories := by
  induction h with
  | nil => simp
  | @cons _ yield _ _ hfits _ ih =>
    rw [filterMap_cons_eq_append, List.forall_mem_append]
    refine ⟨fun entry hentry => ?_, ih⟩
    cases yield with
    | registered decl => simp at hentry
    | reported found =>
      obtain rfl : entry = found := by simpa using hentry
      rcases hfits.2 with ⟨-, hcategory⟩ | ⟨hcategory, -⟩
      · exact List.mem_cons_of_mem _ hcategory
      · simp [hcategory]

/-- Each is a class or a diagnostic. -/
theorem length_filterMap_yields (all : List Yield) :
    (all.filterMap (·.decl?)).length + (all.filterMap (·.diagnostic?)).length = all.length := by
  induction all with
  | nil => rfl
  | cons yield rest ih =>
    rw [filterMap_cons_eq_append, filterMap_cons_eq_append]
    cases yield <;> simp <;> omega

/-! ### The first class of a name -/

/-- One of the sources at these places holds the class, and none in front of it holds a class of
    this name. -/
def IsFirst (options : DecodeOptions) (token : CancellationToken)
    (places : List (ByteSource × Nat)) (decl : ClassDecl) : Prop :=
  ∃ before place after, places = before ++ place :: after
    ∧ place.1.outcome options token place.2 = .ok decl
    ∧ ∀ earlier ∈ before, ∀ decl', earlier.1.outcome options token earlier.2 = .ok decl' →
      decl'.name ≠ decl.name

theorem isFirst_cons {place : ByteSource × Nat} {rest : List (ByteSource × Nat)}
    {decl : ClassDecl} : IsFirst options token (place :: rest) decl
      ↔ place.1.outcome options token place.2 = .ok decl
        ∨ (∀ decl', place.1.outcome options token place.2 = .ok decl' → decl'.name ≠ decl.name)
          ∧ IsFirst options token rest decl := by
  constructor
  · rintro ⟨_ | ⟨_, before⟩, found, after, hplaces, hfound, hbefore⟩
    · cases hplaces
      exact .inl hfound
    · cases hplaces
      rw [List.forall_mem_cons] at hbefore
      exact .inr ⟨hbefore.1, before, found, after, rfl, hfound, hbefore.2⟩
  · rintro (hfound | ⟨hother, before, found, after, rfl, hfound, hbefore⟩)
    · exact ⟨[], place, rest, rfl, hfound, fun _ hnone => absurd hnone List.not_mem_nil⟩
    · exact ⟨place :: before, found, after, rfl, hfound, List.forall_mem_cons.mpr
        ⟨hother, hbefore⟩⟩

/-- The classes that are registered, when some are known before, are the first of their names. -/
theorem mem_decls_yields {known : List ClassDecl} {start : Nat} {sources : List ByteSource}
    {decl : ClassDecl} :
    decl ∈ (yields options token known start sources).filterMap (·.decl?)
      ↔ (∀ existing ∈ known, existing.name ≠ decl.name)
        ∧ IsFirst options token (sources.zipIdx start) decl := by
  induction sources generalizing known start with
  | nil => simp [yields, IsFirst]
  | cons source rest ih =>
    rw [yields, filterMap_cons_eq_append, List.mem_append, ih, List.zipIdx_cons, isFirst_cons,
      ByteSource.yield]
    cases houtcome : source.outcome options token start with
    | error entry => simp
    | ok first =>
      -- The names that are known behind the source are those in front of it and its own.
      rcases Yield.ofDecl_cases known first with ⟨existing, hmem, hname, hyield⟩ | ⟨hnew, hyield⟩
      · simp only [hyield, Yield.decl?_reported, Option.toList_none, List.not_mem_nil, false_or,
          List.append_nil, Except.ok.injEq, forall_eq']
        refine and_congr_right fun hknown => ?_
        have hother : first.name ≠ decl.name := hname ▸ hknown existing hmem
        rw [or_iff_right (fun hsame => hother (congrArg _ hsame)), and_iff_right hother]
      · simp only [hyield, Yield.decl?_registered, Option.toList_some, List.mem_singleton,
          List.forall_mem_append, forall_eq, Except.ok.injEq, forall_eq']
        constructor
        · rintro (rfl | ⟨⟨hknown, hother⟩, hrest⟩)
          · exact ⟨hnew, .inl rfl⟩
          · exact ⟨hknown, .inr ⟨hother, hrest⟩⟩
        · rintro ⟨hknown, rfl | ⟨hother, hrest⟩⟩
          · exact .inl rfl
          · exact .inr ⟨⟨hknown, hother⟩, hrest⟩

/-! ### The order of the classes -/

/-- The classes of later sources have later places. -/
theorem pairwise_decls_yields (known : List ClassDecl) (start : Nat) (sources : List ByteSource) :
    ((yields options token known start sources).filterMap (·.decl?)).Pairwise
        (fun decl later => decl.origin.index < later.origin.index)
      ∧ ∀ decl ∈ (yields options token known start sources).filterMap (·.decl?),
        start ≤ decl.origin.index := by
  induction sources generalizing known start with
  | nil => simp [yields]
  | cons source rest ih =>
    obtain ⟨hpairwise, hlater⟩ := ih
      (known ++ (source.yield options token known start).decl?.toList) (start + 1)
    have hfirst : ∀ decl ∈ (source.yield options token known start).decl?.toList,
        decl.origin.index = start := by
      intro decl hdecl
      rw [source.origin_of_yield (Option.mem_toList.mp hdecl)]
    rw [yields, filterMap_cons_eq_append, List.pairwise_append, List.forall_mem_append]
    refine ⟨⟨?_, hpairwise, ?_⟩, ?_, ?_⟩
    · cases (source.yield options token known start).decl? <;> simp
    · intro decl hdecl later hmem
      rw [hfirst decl hdecl]
      exact hlater later hmem
    · exact fun decl hdecl => (hfirst decl hdecl).ge
    · exact fun decl hdecl => Nat.le_of_succ_le (hlater decl hdecl)

theorem graphOrder_yields (known : List ClassDecl) (start : Nat) (sources : List ByteSource) :
    graphOrder ((yields options token known start sources).filterMap (·.decl?))
      = (yields options token known start sources).filterMap (·.decl?) := by
  refine List.mergeSort_of_pairwise ((pairwise_decls_yields known start sources).1.imp ?_)
  intro decl later hlt
  simp [graphBefore, hlt]

/-! ### The account -/

/-- The classes of the graph are those that are registered, in the order of their sources. -/
theorem Scanner.decls_outcome (scanner : Scanner) (sources : List ByteSource) :
    (scanner.outcome sources).1.decls
      = (yields scanner.config.decodeOptions scanner.token [] 0 sources).filterMap (·.decl?) := by
  rw [outcome, ClassGraph.decls_build, graphOrder_yields]

/-- The diagnostics about sources come first, then those about references. -/
theorem Scanner.exists_references (scanner : Scanner) (sources : List ByteSource) :
    ∃ references, (scanner.outcome sources).2.toList
        = (yields scanner.config.decodeOptions scanner.token [] 0 sources).filterMap
          (·.diagnostic?) ++ references
      ∧ ∀ entry ∈ references, entry.category = .reference :=
  ⟨_, ClassGraph.toList_build, ClassGraph.category_of_build⟩

/-- Those about sources are counted by leaving out those about references. -/
theorem countP_category {entries references : List Diagnostic}
    (hentries : ∀ entry ∈ entries, entry.category ∈ .collision :: brokenCategories)
    (hreferences : ∀ entry ∈ references, entry.category = .reference) :
    (entries ++ references).countP (·.category ≠ .reference) = entries.length := by
  have hcounted : entries.countP (·.category ≠ .reference) = entries.length := by
    refine List.countP_eq_length.mpr fun entry hentry => ?_
    have hcategory := hentries entry hentry
    rw [decide_eq_true_iff]
    intro heq
    simp [heq, brokenCategories] at hcategory
  have huncounted : references.countP (·.category ≠ .reference) = 0 :=
    List.countP_eq_zero.mpr fun entry hentry => by simp [hreferences entry hentry]
  rw [List.countP_append, hcounted, huncounted, Nat.add_zero]

/-- **Every source of a scan is accounted for.** A scan that nothing stops gives a result.  Each
    source has one outcome: its class is registered, or there is a diagnostic that carries its
    label.  These diagnostics come in the order of the sources and in front of those about
    references, and there are no others.  The classes of the graph are the first ones of their
    names, and a reader of class files was made if there was anything to read. -/
theorem scan_accounts {scanner : Scanner} {sources : List ByteSource}
    (h : scanner.token.Undisturbed sources) :
    ∃ result all references, (scanner.scan sources).2 = .ok result
      ∧ List.Forall₂ (fun place (yield : Yield) =>
          yield.Fits scanner.config.decodeOptions scanner.token place.1 place.2)
        sources.zipIdx all
      ∧ result.graph.decls = all.filterMap (·.decl?)
      ∧ result.diagnostics.toList = all.filterMap (·.diagnostic?) ++ references
      ∧ (∀ entry ∈ references, entry.category = .reference)
      ∧ (∀ entry ∈ result.diagnostics.toList,
        entry.category ≠ .general ∧ entry.category ≠ .resource)
      ∧ result.graph.size + result.diagnostics.toList.countP (·.category ≠ .reference)
        = sources.length
      ∧ (∀ decl, decl ∈ result.graph.decls
        ↔ IsFirst scanner.config.decodeOptions scanner.token sources.zipIdx decl)
      ∧ result.decodersCreated = if sources.any (·.isReadable scanner.token) then 1 else 0 := by
  obtain ⟨result, hresult, hgraph, hdiagnostics, hcreated⟩ := Scanner.scan_eq h
  obtain ⟨references, hentries, hreferences⟩ := scanner.exists_references sources
  have hdecls := scanner.decls_outcome sources
  rw [← hgraph] at hdecls
  rw [← hdiagnostics] at hentries
  have hfits := @forall₂_fits_yields scanner.config.decodeOptions scanner.token [] 0 sources
  have hsources := category_of_forall₂_fits hfits
  refine ⟨result, _, references, hresult, hfits, hdecls, hentries, hreferences, ?_, ?_, ?_,
    hcreated⟩
  · rw [hentries]
    intro entry hentry
    rcases List.mem_append.mp hentry with hentry | hentry
    · have hcategory := hsources entry hentry
      constructor <;> rintro heq <;> simp [heq, brokenCategories] at hcategory
    · simp [hreferences entry hentry]
  · have hsize : result.graph.size = result.graph.decls.length := by
      rw [ClassGraph.size, ClassGraph.decls, List.length_map, Array.length_toList]
    rw [hsize, hdecls, hentries, countP_category hsources hreferences, length_filterMap_yields,
      ← hfits.length_eq, List.length_zipIdx]
  · intro decl
    rw [hdecls, mem_decls_yields]
    simp

/-- A class twice, a file without bytes, and one that is not there. -/
def mixedSources : List ByteSource :=
  [ClassBytes.toSource ⟨"A.class", ouroborosBytes⟩, ClassBytes.toSource ⟨"B.class", ouroborosBytes⟩,
    ClassBytes.toSource ⟨"C.class", []⟩,
    (ClassPathEntry.ofPath "D.class").toSource fun _ => .error fileNotFound]

/-- The class stays as it was read first, and there is something to say about the other three. -/
theorem scan_accounts_mixed : (Scanner.new {}).token.Undisturbed mixedSources
    ∧ ∃ result decl, ((Scanner.new {}).scan mixedSources).2 = .ok result
      ∧ (Decoder.new.decode ⟨"A.class", 0⟩ ouroborosBytes {}).2 = .ok decl
      ∧ decl ∈ result.graph.decls
      ∧ result.graph.size + result.diagnostics.toList.countP (·.category ≠ .reference) = 4
      ∧ result.decodersCreated = 1 := by
  have hundisturbed : (Scanner.new {}).token.Undisturbed mixedSources :=
    ⟨rfl, by simp [mixedSources, ClassBytes.toSource, ClassPathEntry.toSource]⟩
  obtain ⟨result, _, _, hresult, -, -, -, -, -, hcount, hfirst, hcreated⟩ :=
    scan_accounts hundisturbed
  have hok : (Decoder.new.decode ⟨"A.class", 0⟩ ouroborosBytes {}).2.isOk = true := by cbv
  cases hdecl : (Decoder.new.decode ⟨"A.class", 0⟩ ouroborosBytes {}).2 with
  | error error => cases hdecl ▸ hok
  | ok decl =>
    refine ⟨hundisturbed, result, decl, hresult, rfl, (hfirst decl).mpr ?_, hcount, hcreated⟩
    refine ⟨[], _, _, rfl, ?_, fun _ hnone => absurd hnone List.not_mem_nil⟩
    show ByteSource.outcome {} .new 0 (ClassBytes.toSource ⟨"A.class", ouroborosBytes⟩) = .ok decl
    unfold ByteSource.outcome ClassBytes.toSource
    dsimp only
    rw [hdecl]

end ClassAtlas
