import ClassAtlas.Proofs.Graph.Hierarchy
import Mathlib.Data.List.Induction

namespace ClassAtlas

/-!
# Element values and defaults

An annotation leaves elements out, and the methods of its type may give these a default.  Going
through the methods, a default is put behind the values as long as the element has none, also none
that an earlier method has put there.

* `defaultedBy`, `defaultBy?` — the elements to which some methods give a default, and the default;
* `Completes` — the defaults of some methods for the elements that have no value;
* `Completes.addDefault`, `exists_completes` — one method more, and all methods;
* `Completes.find?_eq`, `Completes.foldl_eq` — what is found by name, and a second completion;
* `elementsWithDefaults_build` — the element values of an annotation in the graph of some classes.
-/

/-! ### Defaults of methods -/

/-- The elements to which some methods give a default, in the order of the first methods that
    do. -/
def defaultedBy (methods : List MethodDecl) : List String :=
  ((methods.filter (·.default.isSome)).map (·.name)).eraseDups

/-- The default that some methods give to an element: that of the first method of its name that
    has one. -/
def defaultBy? (methods : List MethodDecl) (name : String) : Option AnnotationValue :=
  (methods.filter (·.name = name)).findSome? (·.default)

variable {methods : List MethodDecl} {method : MethodDecl} {elements merged : List AnnotationElement}
  {element : AnnotationElement} {name : String} {value : AnnotationValue}

theorem mem_defaultedBy :
    name ∈ defaultedBy methods ↔ ∃ method ∈ methods, method.name = name ∧ method.default.isSome := by
  rw [defaultedBy, List.mem_eraseDups, List.mem_map]
  simp only [List.mem_filter]
  constructor
  · rintro ⟨method, ⟨hmethod, hdefault⟩, hname⟩
    exact ⟨method, hmethod, hname, hdefault⟩
  · rintro ⟨method, hmethod, hname, hdefault⟩
    exact ⟨method, ⟨hmethod, hdefault⟩, hname⟩

/-- These are the elements that have a default. -/
theorem isSome_defaultBy?_iff :
    (defaultBy? methods name).isSome = true ↔ name ∈ defaultedBy methods := by
  rw [defaultBy?, List.isSome_findSome?, List.any_eq_true, mem_defaultedBy]
  simp only [List.mem_filter, decide_eq_true_eq, and_assoc]

/-- A default that is given already stays, whatever methods come after. -/
theorem defaultBy?_concat (methods : List MethodDecl) (method : MethodDecl) (name : String) :
    defaultBy? (methods ++ [method]) name
      = (defaultBy? methods name).or (if method.name = name then method.default else none) := by
  rw [defaultBy?, List.filter_append, List.findSome?_append, ← defaultBy?]
  by_cases hname : method.name = name
  · simp [hname]
  · simp [hname]

theorem defaultedBy_concat_of_none (h : method.default = none) :
    defaultedBy (methods ++ [method]) = defaultedBy methods := by
  simp [defaultedBy, List.filter_append, h]

theorem defaultedBy_concat (h : method.default.isSome = true) :
    defaultedBy (methods ++ [method])
      = ((methods.filter (·.default.isSome)).map (·.name) ++ [method.name]).eraseDups := by
  simp [defaultedBy, List.filter_append, h]

theorem defaultedBy_concat_of_mem (hdefault : method.default.isSome = true)
    (h : method.name ∈ defaultedBy methods) :
    defaultedBy (methods ++ [method]) = defaultedBy methods := by
  rw [defaultedBy_concat hdefault, eraseDups_concat_of_mem (List.mem_eraseDups.mp h), defaultedBy]

theorem defaultedBy_concat_of_notMem (hdefault : method.default.isSome = true)
    (h : method.name ∉ defaultedBy methods) :
    defaultedBy (methods ++ [method]) = defaultedBy methods ++ [method.name] := by
  rw [defaultedBy_concat hdefault, eraseDups_concat_of_notMem (mt List.mem_eraseDups.mpr h),
    defaultedBy]

/-! ### Completing element values -/

/-- Some elements are those to which methods give a default and that are missing among others, in
    the order of the first methods that do, with the defaults. -/
structure Completes (methods : List MethodDecl) (elements added : List AnnotationElement) :
    Prop where
  /-- They are the missing ones. -/
  names_eq : added.map (·.name)
    = (defaultedBy methods).filter (· ∉ elements.map (·.name))
  /-- Their values are the defaults. -/
  value_eq : ∀ element ∈ added, defaultBy? methods element.name = some element.value

variable {added : List AnnotationElement}

theorem any_name_iff :
    elements.any (·.name = name) = true ↔ name ∈ elements.map (·.name) := by
  rw [List.any_eq_true, List.mem_map]
  simp only [decide_eq_true_eq]

theorem addDefault_of_none (h : method.default = none) :
    ClassGraph.addDefault elements method = elements := by
  rw [ClassGraph.addDefault, h]

theorem addDefault_of_mem (h : method.name ∈ elements.map (·.name)) :
    ClassGraph.addDefault elements method = elements := by
  unfold ClassGraph.addDefault
  split
  · rfl
  · rw [if_pos (any_name_iff.mpr h)]

theorem addDefault_of_notMem (hdefault : method.default = some value)
    (h : method.name ∉ elements.map (·.name)) :
    ClassGraph.addDefault elements method = elements ++ [⟨method.name, value⟩] := by
  rw [ClassGraph.addDefault, hdefault]
  dsimp only
  rw [if_neg (mt any_name_iff.mp h)]

namespace Completes

theorem nil (elements : List AnnotationElement) : Completes [] elements [] where
  names_eq := rfl
  value_eq := by simp

/-- What is missing once the defaults of some methods are there. -/
theorem mem_names_iff (h : Completes methods elements added) :
    name ∈ (elements ++ added).map (·.name)
      ↔ name ∈ elements.map (·.name) ∨ name ∈ defaultedBy methods := by
  rw [List.map_append, List.mem_append, h.names_eq, List.mem_filter, decide_eq_true_eq]
  tauto

/-- The values so far are defaults of more methods as well. -/
theorem value_eq_concat (h : Completes methods elements added) (method : MethodDecl) :
    ∀ element ∈ added, defaultBy? (methods ++ [method]) element.name = some element.value := by
  intro element helement
  rw [defaultBy?_concat, h.value_eq element helement, Option.some_or]

/-- One method more. -/
theorem addDefault (h : Completes methods elements added) (method : MethodDecl) :
    ∃ added', ClassGraph.addDefault (elements ++ added) method = elements ++ added'
      ∧ Completes (methods ++ [method]) elements added' := by
  cases hdefault : method.default with
  | none =>
    refine ⟨added, addDefault_of_none hdefault, ?_, h.value_eq_concat method⟩
    rw [defaultedBy_concat_of_none hdefault, h.names_eq]
  | some value =>
    have hsome : method.default.isSome = true := Option.isSome_of_eq_some hdefault
    by_cases hgiven : method.name ∈ defaultedBy methods
    · -- An earlier method gives the default, unless the element had a value from the start.
      have hknown := h.mem_names_iff.mpr (.inr hgiven)
      refine ⟨added, addDefault_of_mem hknown, ?_, h.value_eq_concat method⟩
      rw [defaultedBy_concat_of_mem hsome hgiven, h.names_eq]
    by_cases hexplicit : method.name ∈ elements.map (·.name)
    · have hknown := h.mem_names_iff.mpr (.inl hexplicit)
      refine ⟨added, addDefault_of_mem hknown, ?_, h.value_eq_concat method⟩
      rw [defaultedBy_concat_of_notMem hsome hgiven, List.filter_append,
        List.filter_cons_of_neg (by simpa using hexplicit), List.filter_nil, List.append_nil,
        h.names_eq]
    · have hnew : method.name ∉ (elements ++ added).map (·.name) := by
        rw [h.mem_names_iff, not_or]
        exact ⟨hexplicit, hgiven⟩
      refine ⟨added ++ [⟨method.name, value⟩], ?_, ?_, fun element helement => ?_⟩
      · rw [addDefault_of_notMem hdefault hnew, List.append_assoc]
      · rw [defaultedBy_concat_of_notMem hsome hgiven, List.filter_append,
          List.filter_cons_of_pos (by simpa using hexplicit), List.filter_nil, List.map_append,
          h.names_eq, List.map_singleton]
      · obtain hold | hlast := List.mem_append.mp helement
        · exact h.value_eq_concat method element hold
        · have hnone : defaultBy? methods method.name = none := by
            rwa [← isSome_defaultBy?_iff, Bool.not_eq_true, Option.isSome_eq_false_iff,
              Option.isNone_iff_eq_none] at hgiven
          rw [List.mem_singleton.mp hlast, defaultBy?_concat, hnone, Option.none_or, if_pos rfl,
            hdefault]

end Completes

/-- All methods. -/
theorem exists_completes (methods : List MethodDecl) (elements : List AnnotationElement) :
    ∃ added, methods.foldl ClassGraph.addDefault elements = elements ++ added
      ∧ Completes methods elements added := by
  induction methods using List.reverseRecOn with
  | nil => exact ⟨[], (List.append_nil _).symm, .nil elements⟩
  | append_singleton methods method ih =>
    obtain ⟨added, hadded, hcompletes⟩ := ih
    rw [List.foldl_append, hadded]
    exact hcompletes.addDefault method

namespace Completes

/-- Nothing is put there twice, and nothing that was there. -/
theorem count_name (h : Completes methods elements added) (helement : element ∈ added) :
    ((elements ++ added).map (·.name)).count element.name = 1 := by
  have hname : element.name ∈ added.map (·.name) := List.mem_map_of_mem helement
  have hnodup : (added.map (·.name)).Nodup := by
    rw [h.names_eq]
    exact (nodup_eraseDups _).filter _
  have hnew : element.name ∉ elements.map (·.name) := by
    rw [h.names_eq, List.mem_filter, decide_eq_true_eq] at hname
    exact hname.2
  rw [List.map_append, List.count_append, List.count_eq_zero_of_not_mem hnew, Nat.zero_add]
  exact List.count_eq_one_of_mem hnodup hname

/-- A value that was there is found first, and else the default. -/
theorem find?_eq (h : Completes methods elements added) (name : String) :
    ((elements ++ added).find? (·.name = name)).map (·.value)
      = ((elements.find? (·.name = name)).map (·.value)).or (defaultBy? methods name) := by
  rw [List.find?_append]
  cases hfirst : elements.find? (·.name = name) with
  | some element => rw [Option.some_or, Option.map_some, Option.some_or]
  | none =>
    rw [Option.none_or, Option.map_none, Option.none_or]
    cases hadded : added.find? (·.name = name) with
    | some element =>
      have hname : element.name = name := by simpa using List.find?_some hadded
      rw [Option.map_some, ← hname, h.value_eq element (List.mem_of_find?_eq_some hadded)]
    | none =>
      -- The element is in neither list, so no method gives it a default.
      have habsent : name ∉ (elements ++ added).map (·.name) := by
        have hnone : (elements ++ added).find? (·.name = name) = none := by
          rw [List.find?_append, hfirst, hadded, Option.none_or]
        simpa using hnone
      rw [h.mem_names_iff, not_or, ← isSome_defaultBy?_iff, Option.not_isSome_iff_eq_none]
        at habsent
      rw [Option.map_none, habsent.2]

/-- Completed element values are not completed further. -/
theorem foldl_eq (h : Completes methods elements added) :
    methods.foldl ClassGraph.addDefault (elements ++ added) = elements ++ added := by
  refine List.foldlRecOn (motive := (· = elements ++ added)) methods _ rfl
    fun merged hmerged method hmethod => ?_
  rw [hmerged]
  cases hdefault : method.default with
  | none => exact addDefault_of_none hdefault
  | some value =>
    have hgiven : method.name ∈ defaultedBy methods :=
      mem_defaultedBy.mpr ⟨method, hmethod, rfl, Option.isSome_of_eq_some hdefault⟩
    exact addDefault_of_mem (h.mem_names_iff.mpr (.inr hgiven))

end Completes

/-! ### The graph of some classes -/

namespace ClassGraph

variable {decls : List ClassDecl} {diagnostics : Diagnostics} {report : Bool} {type : ClassDecl}

/-- A class is found by its name, and nothing else is. -/
theorem get?_build_iff (h : (decls.map (·.name)).Nodup) :
    (build decls diagnostics report).1.get? name = some type ↔ type ∈ decls ∧ type.name = name := by
  constructor
  · intro hget
    obtain ⟨id, node, hnode, hname, rfl⟩ := (get?_eq_some_iff (linked_build h).distinct).mp hget
    exact ⟨mem_of_node hnode, hname⟩
  · rintro ⟨htype, rfl⟩
    exact get?_build h htype

end ClassGraph

/-- **Defaults.** In the graph of some classes, the element values of an annotation come first.
    Behind them is each element to which a method of the type gives a default and that has no value,
    once, in the order of the first methods that do, with the default of the first one.  So a
    look-up finds the value that was given, and else the default.  Nothing is added if the type is
    not in the graph, and nothing more the second time. -/
theorem elementsWithDefaults_build {decls : List ClassDecl}
    (hdistinct : (decls.map (·.name)).Nodup) (diagnostics : Diagnostics) (report : Bool)
    (note : AnnotationUse) :
    let graph := (ClassGraph.build decls diagnostics report).1
    let merged := graph.elementsWithDefaults note
    let explicit := note.elements.map (·.name)
    (∀ type ∈ decls, type.name = note.name →
        (∃ added, merged = note.elements ++ added
          ∧ added.map (·.name) = (defaultedBy type.methods).filter (· ∉ explicit)
          ∧ ∀ element ∈ added, defaultBy? type.methods element.name = some element.value
            ∧ (merged.map (·.name)).count element.name = 1)
        ∧ ∀ name, AnnotationUse.value? ⟨note.name, merged⟩ name
          = (note.value? name).or (defaultBy? type.methods name))
      ∧ (note.name ∉ decls.map (·.name) → merged = note.elements)
      ∧ graph.elementsWithDefaults ⟨note.name, merged⟩ = merged := by
  intro graph merged explicit
  have htype : ∀ type, graph.typeOf? note = some type ↔ type ∈ decls ∧ type.name = note.name :=
    fun type => ClassGraph.get?_build_iff hdistinct
  refine ⟨fun type hmem hname => ?resolved, fun habsent => ?unresolved, ?again⟩
  case resolved =>
    have hmerged : merged = type.methods.foldl ClassGraph.addDefault note.elements := by
      show graph.elementsWithDefaults note = _
      rw [ClassGraph.elementsWithDefaults, (htype type).mpr ⟨hmem, hname⟩]
    obtain ⟨added, hadded, hcompletes⟩ := exists_completes type.methods note.elements
    rw [hadded] at hmerged
    refine ⟨⟨added, hmerged, hcompletes.names_eq, fun element helement => ?_⟩, fun name => ?_⟩
    · rw [hmerged]
      exact ⟨hcompletes.value_eq element helement, hcompletes.count_name helement⟩
    · rw [hmerged]
      exact hcompletes.find?_eq name
  case unresolved =>
    show graph.elementsWithDefaults note = _
    rw [ClassGraph.elementsWithDefaults]
    split
    · rfl
    · rename_i type hfound
      obtain ⟨hmem, hname⟩ := (htype type).mp hfound
      exact absurd (List.mem_map.mpr ⟨type, hmem, hname⟩) habsent
  case again =>
    show graph.elementsWithDefaults ⟨note.name, graph.elementsWithDefaults note⟩
      = graph.elementsWithDefaults note
    have hsame : graph.typeOf? ⟨note.name, graph.elementsWithDefaults note⟩ = graph.typeOf? note :=
      rfl
    rw [ClassGraph.elementsWithDefaults, hsame]
    unfold ClassGraph.elementsWithDefaults
    split
    · rfl
    · rename_i type hfound
      obtain ⟨added, hadded, hcompletes⟩ := exists_completes type.methods note.elements
      dsimp only
      rw [hadded, hcompletes.foldl_eq]

/-- An annotation type that has two methods for one element and one without a default, and an
    annotation that gives one of the others. -/
theorem elementsWithDefaults_build_overloaded :
    let method (name : String) (default : Option AnnotationValue) : MethodDecl :=
      { name, modifiers := ⟨0⟩, descriptor := "()I",
        signature := ⟨[], [], .primitive .int [], [], none⟩, isGeneric := false, annotations := [],
        parameterAnnotations := [], parameterNames := [], default, exceptions := [] }
    let number (value : Int32) : AnnotationValue := .constant (.int value)
    let type :=
      { ClassDecl.outline "a.Limits" .annotationType none [] [] with
        methods := [method "count" none, method "time" (some (number 30)),
          method "size" (some (number 8)), method "time" (some (number 60))] }
    let graph := (ClassGraph.build [type] .empty false).1
    graph.elementsWithDefaults ⟨"a.Limits", [⟨"size", number 4⟩]⟩
      = [⟨"size", number 4⟩, ⟨"time", number 30⟩] := by
  intro method number type graph
  have hdistinct : ([type].map (·.name)).Nodup := List.nodup_singleton _
  obtain ⟨hresolved, -⟩ := elementsWithDefaults_build hdistinct .empty false
    ⟨"a.Limits", [⟨"size", number 4⟩]⟩
  obtain ⟨⟨added, hmerged, hnames, hvalues⟩, -⟩ := hresolved type (List.mem_singleton.mpr rfl) rfl
  obtain ⟨⟨name, value⟩, rfl, rfl⟩ : ∃ element, added = [element] ∧ element.name = "time" :=
    List.map_eq_singleton_iff.mp hnames
  obtain ⟨hvalue, -⟩ := hvalues _ List.mem_cons_self
  have hthirty : some (number 30) = some value := hvalue
  rw [Option.some.inj hthirty]
  exact hmerged

end ClassAtlas
