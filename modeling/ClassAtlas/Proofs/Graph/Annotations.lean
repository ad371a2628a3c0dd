import ClassAtlas.Proofs.Graph.Hierarchy

namespace ClassAtlas

open Relation

/-!
# Annotations and annotated classes

The annotations on a class are found by a single search; the classes with an annotation by a search
against the annotations on annotation types, and then one among the subclasses of each class whose
annotation is inherited.  Both find the same pairs.

* `ClassGraph.Bears` — an annotation is on a class, or inherited from a superclass;
* `ClassGraph.Conveys` — an annotation type has an annotation;
* `ClassGraph.holds_annotationsOn`, `ClassGraph.holds_annotated` — the two questions,
  answered by an annotation that a class bears and a chain of annotation types from there;
* `contains_typesWithAnnotation_iff` — they are converse to each other.
-/

/-- The class of every annotation on a class is an annotation type, as far as it is there. -/
def AnnotatedByTypes (decls : List ClassDecl) : Prop :=
  ∀ decl ∈ decls, ∀ note ∈ decl.annotations, ∀ type ∈ decls, type.name = note.name →
    type.isAnnotationType = true

theorem ClassDecl.isInterface_of_isAnnotationType {decl : ClassDecl}
    (h : decl.isAnnotationType = true) : decl.isInterface = true := by
  unfold isAnnotationType at h
  rw [decide_eq_true_eq] at h
  rw [isInterface, h]
  rfl

namespace ClassGraph

variable {graph : ClassGraph} {id seed source target : NodeId} {node : Node}

/-- Whether the node is that of an annotation type. -/
abbrev IsAnnotationType (graph : ClassGraph) (id : NodeId) : Prop :=
  graph.declSatisfies (·.isAnnotationType) id = true

/-- Whether the node is that of an annotation type that subclasses inherit. -/
abbrev IsInherited (graph : ClassGraph) (id : NodeId) : Prop :=
  graph.declSatisfies (·.isInherited) id = true

/-- Only annotation types annotate. -/
def AnnotatesByTypes (graph : ClassGraph) : Prop :=
  ∀ ⦃source target⦄, graph.AnnotatedWith source target → graph.IsAnnotationType target

theorem annotatesByTypes_build {decls : List ClassDecl} (h : AnnotatedByTypes decls)
    (diagnostics : Diagnostics) (report : Bool) :
    (build decls diagnostics report).1.AnnotatesByTypes := by
  intro source target hannotated
  obtain ⟨node, other, hnode, hother, hname⟩ := hannotated
  obtain ⟨note, hnote, hname⟩ := List.mem_map.mp hname
  rw [IsAnnotationType, declSatisfies_eq hother]
  exact h _ (mem_of_node hnode) note hnote _ (mem_of_node hother) hname.symm

/-- What has or is a superclass is no annotation type. -/
theorem ExtendsOrdinary.not_isAnnotationType (h : graph.ExtendsOrdinary)
    (hextends : graph.Extends source target) :
    ¬ graph.IsAnnotationType source ∧ ¬ graph.IsAnnotationType target := by
  obtain ⟨hsource, htarget⟩ := h hextends
  obtain ⟨⟨node, hnode⟩, other, hother⟩ := hextends.exists_nodes
  rw [declSatisfies_eq hnode] at hsource
  rw [declSatisfies_eq hother] at htarget
  rw [IsAnnotationType, IsAnnotationType, declSatisfies_eq hnode, declSatisfies_eq hother]
  constructor
  · intro hkind
    rw [ClassDecl.isInterface_of_isAnnotationType hkind] at hsource
    cases hsource
  · intro hkind
    rw [ClassDecl.isInterface_of_isAnnotationType hkind] at htarget
    cases htarget

/-! ### Chains of annotations -/

/-- An annotation is on a class, or on a superclass that passes it on. -/
def Bears (graph : ClassGraph) (source target : NodeId) : Prop :=
  graph.AnnotatedWith source target
    ∨ graph.IsInherited target
      ∧ ∃ ancestor, TransGen graph.Extends source ancestor ∧ graph.AnnotatedWith ancestor target

/-- An annotation type has an annotation, and so brings it along. -/
def Conveys (graph : ClassGraph) (source target : NodeId) : Prop :=
  graph.IsAnnotationType source ∧ graph.AnnotatedWith source target

theorem Bears.isAnnotationType (htypes : graph.AnnotatesByTypes)
    (h : graph.Bears source target) : graph.IsAnnotationType target := by
  rcases h with hannotated | ⟨-, ancestor, -, hannotated⟩ <;> exact htypes hannotated

/-- A chain from an annotation type leads to annotation types only. -/
theorem isAnnotationType_of_conveys (htypes : graph.AnnotatesByTypes)
    (hsource : graph.IsAnnotationType source)
    (h : ReflTransGen graph.Conveys source target) : graph.IsAnnotationType target := by
  induction h with
  | refl => exact hsource
  | tail _ hstep _ => exact htypes hstep.2

/-! ### Annotations on a class -/

/-- The steps to the annotations on a class. -/
def stepsToAnnotations (graph : ClassGraph) (seed id : NodeId) (node : Node) : List Step :=
  (node.links.annotations.filter fun target =>
      (id = seed || node.decl.isAnnotationType)
        || graph.declSatisfies (·.isInherited) target).map .report
    ++ if node.decl.isAnnotationType then [] else node.links.superclass.toList.map .traverse

/-- The search for the annotations on a class shows an annotation: one of the class itself or of an
    annotation type, or an inherited one. -/
def Shows (graph : ClassGraph) (seed source target : NodeId) : Prop :=
  graph.AnnotatedWith source target
    ∧ (source = seed ∨ graph.IsAnnotationType source ∨ graph.IsInherited target)

theorem report_mem_stepsToAnnotations (hlinked : graph.Linked)
    (hnode : graph.nodes[source]? = some node) :
    Step.report target ∈ graph.stepsToAnnotations seed source node
      ↔ graph.Shows seed source target := by
  have hno : Step.report target ∉ (if node.decl.isAnnotationType then []
      else node.links.superclass.toList.map .traverse) := by
    split
    · exact List.not_mem_nil
    · exact report_not_mem_map_traverse
  rw [stepsToAnnotations, List.mem_append, report_mem_map_report, List.mem_filter,
    hlinked.annotations_iff hnode, Shows, IsAnnotationType, declSatisfies_eq hnode,
    or_iff_left hno]
  simp [or_assoc]

/-- The search passes from a class to its superclass.  A superclass of an annotation type is left
    alone. -/
def Passes (graph : ClassGraph) (source target : NodeId) : Prop :=
  ¬ graph.IsAnnotationType source ∧ graph.Extends source target

theorem traverse_mem_stepsToAnnotations (hlinked : graph.Linked)
    (hnode : graph.nodes[source]? = some node) :
    Step.traverse target ∈ graph.stepsToAnnotations seed source node
      ↔ graph.Passes source target := by
  rw [stepsToAnnotations, List.mem_append, or_iff_right traverse_not_mem_map_report, Passes,
    IsAnnotationType, declSatisfies_eq hnode, ← hlinked.superclass_iff hnode]
  by_cases hkind : node.decl.isAnnotationType = true
  · rw [if_pos hkind]
    exact iff_of_false List.not_mem_nil fun h => h.1 hkind
  · rw [if_neg hkind, traverse_mem_map_traverse, Option.mem_toList, and_iff_right hkind]

/-- Where annotation types have no superclass, none is left alone. -/
theorem ExtendsOrdinary.passes_iff (h : graph.ExtendsOrdinary) :
    graph.Passes source target ↔ graph.Extends source target :=
  and_iff_right_of_imp fun hextends => (h.not_isAnnotationType hextends).1

/-- What the search gives, in terms of its own steps. -/
theorem holds_annotationsOn_of_shows (hlinked : graph.Linked)
    (hseed : graph.nodes[seed]? = some node) :
    graph.Holds (graph.annotationsOn node.decl.name)
      (fun id => ∃ source, ReflTransGen (fun source target => graph.Shows seed source target
        ∨ graph.Passes source target) seed source ∧ graph.Shows seed source id)
      (graph.AnnotatedWith seed) := by
  have hquery : graph.annotationsOn node.decl.name
      = graph.query node.decl.name (graph.stepsToAnnotations seed) := by
    rw [annotationsOn, (idOf?_eq_some_iff hlinked.distinct).mpr ⟨node, hseed, rfl⟩]
    rfl
  rw [hquery]
  refine (holds_query_of_relations hlinked.distinct hseed (fun source target => ?_)
    (fun source target => ?_) fun source target h => ?_).congr
      (fun id => Iff.rfl) fun id => ?_
  · rw [leads_stepsFrom]
    refine exists_node_and_iff (fun node hnode => ?_) ?_
    · rw [report_mem_stepsToAnnotations hlinked hnode,
        traverse_mem_stepsToAnnotations hlinked hnode]
    · rintro (hshows | hpasses)
      · exact hshows.1.exists_nodes.1
      · exact hpasses.2.exists_nodes.1
  · rw [mem_stepsFrom]
    exact exists_node_and_iff (fun node hnode => report_mem_stepsToAnnotations hlinked hnode)
      fun h => h.1.exists_nodes.1
  · rcases h with hshows | hpasses
    · exact hshows.1.lt_size.2
    · exact hpasses.2.lt_size.2
  · exact ⟨And.left, fun h => ⟨h, .inl rfl⟩⟩

/-- What a class or one of its superclasses shows, the class bears. -/
theorem Bears.of_shows (hordinary : graph.ExtendsOrdinary)
    (hchain : ReflTransGen graph.Extends seed source) (hshows : graph.Shows seed source target) :
    graph.Bears seed target := by
  obtain ⟨hannotated, hwhy⟩ := hshows
  rcases reflTransGen_iff_eq_or_transGen.mp hchain with rfl | hproper
  · exact .inl hannotated
  · rcases hwhy with rfl | hkind | hinherited
    · exact .inl hannotated
    · -- A superclass is no annotation type, so this is not why it was shown.
      obtain ⟨last, -, hextends⟩ := TransGen.tail'_iff.mp hproper
      exact absurd hkind (hordinary.not_isAnnotationType hextends).2
    · exact .inr ⟨hinherited, source, hproper, hannotated⟩

/-- What the class bears, it or one of its superclasses shows. -/
theorem Bears.exists_shows (h : graph.Bears seed target) :
    ∃ source, ReflTransGen graph.Extends seed source ∧ graph.Shows seed source target := by
  rcases h with hannotated | ⟨hinherited, ancestor, hproper, hannotated⟩
  · exact ⟨seed, .refl, hannotated, .inl rfl⟩
  · exact ⟨ancestor, hproper.to_reflTransGen, hannotated, .inr (.inr hinherited)⟩

/-- The search keeps to superclasses until it meets an annotation the class bears, and then to
    annotation types. -/
theorem exists_shows_iff (hordinary : graph.ExtendsOrdinary) (htypes : graph.AnnotatesByTypes) :
    (∃ source, ReflTransGen (fun source target => graph.Shows seed source target
        ∨ graph.Extends source target) seed source ∧ graph.Shows seed source target)
      ↔ ∃ first, graph.Bears seed first ∧ ReflTransGen graph.Conveys first target := by
  -- One more annotation behind a chain from what the class bears.
  have hlonger : ∀ {source target},
      (∃ first, graph.Bears seed first ∧ ReflTransGen graph.Conveys first source) →
      graph.AnnotatedWith source target →
      ∃ first, graph.Bears seed first ∧ ReflTransGen graph.Conveys first target := by
    rintro source target ⟨first, hbears, hchain⟩ hannotated
    have hkind := isAnnotationType_of_conveys htypes (hbears.isAnnotationType htypes) hchain
    exact ⟨first, hbears, hchain.tail ⟨hkind, hannotated⟩⟩
  constructor
  · rintro ⟨source, hreach, hshows⟩
    -- Before the first annotation only superclasses were followed; behind it, none are.
    have hcases : ReflTransGen graph.Extends seed source
        ∨ ∃ first, graph.Bears seed first ∧ ReflTransGen graph.Conveys first source := by
      clear hshows
      induction hreach with
      | refl => exact .inl .refl
      | tail _ hstep ih =>
        rcases ih, hstep with ⟨hchain | hborne, hshows | hextends⟩
        · exact .inr ⟨_, .of_shows hordinary hchain hshows, .refl⟩
        · exact .inl (hchain.tail hextends)
        · exact .inr (hlonger hborne hshows.1)
        · -- A class reached by annotations is an annotation type and has no superclass.
          obtain ⟨first, hbears, hchain⟩ := hborne
          have hkind := isAnnotationType_of_conveys htypes (hbears.isAnnotationType htypes) hchain
          exact absurd hkind (hordinary.not_isAnnotationType hextends).1
    rcases hcases with hchain | hborne
    · exact ⟨target, .of_shows hordinary hchain hshows, .refl⟩
    · exact hlonger hborne hshows.1
  · rintro ⟨first, hbears, hchain⟩
    induction hchain with
    | refl =>
      obtain ⟨source, hproper, hshows⟩ := hbears.exists_shows
      exact ⟨source, ReflTransGen.mono (fun _ _ => Or.inr) _ _ hproper, hshows⟩
    | tail _ hstep ih =>
      obtain ⟨source, hreach, hshows⟩ := ih
      exact ⟨_, hreach.tail (.inl hshows), hstep.2, .inr (.inl hstep.1)⟩

theorem holds_annotationsOn (hlinked : graph.Linked) (hordinary : graph.ExtendsOrdinary)
    (htypes : graph.AnnotatesByTypes) (hseed : graph.nodes[seed]? = some node) :
    graph.Holds (graph.annotationsOn node.decl.name)
      (fun id => ∃ first, graph.Bears seed first ∧ ReflTransGen graph.Conveys first id)
      (graph.AnnotatedWith seed) := by
  refine (holds_annotationsOn_of_shows hlinked hseed).congr (fun id => ?_) fun id => Iff.rfl
  simp only [hordinary.passes_iff]
  exact exists_shows_iff hordinary htypes

/-- The search from an annotation type meets no other classes than annotation types. -/
theorem exists_shows_iff_of_isAnnotationType (htypes : graph.AnnotatesByTypes)
    (hseed : graph.IsAnnotationType seed) :
    (∃ source, ReflTransGen (fun source target => graph.Shows seed source target
        ∨ graph.Passes source target) seed source ∧ graph.Shows seed source target)
      ↔ TransGen graph.Conveys seed target := by
  constructor
  · rintro ⟨source, hreach, hshows⟩
    -- By induction on the way there: each class met is an annotation type, so its superclass is
    -- left alone and the next step is along an annotation.
    have hchain : ReflTransGen graph.Conveys seed source := by
      clear hshows
      induction hreach with
      | refl => exact .refl
      | tail _ hstep ih =>
        have hkind := isAnnotationType_of_conveys htypes hseed ih
        rcases hstep with hshows | hpasses
        · exact ih.tail ⟨hkind, hshows.1⟩
        · exact absurd hkind hpasses.1
    exact .tail' hchain ⟨isAnnotationType_of_conveys htypes hseed hchain, hshows.1⟩
  · intro hchain
    obtain ⟨source, hreach, hstep⟩ := TransGen.tail'_iff.mp hchain
    have hshows : ∀ first second, graph.Conveys first second → graph.Shows seed first second :=
      fun first second h => ⟨h.2, .inr (.inl h.1)⟩
    exact ⟨source, ReflTransGen.mono (fun _ _ h => .inl (hshows _ _ h)) _ _ hreach,
      hshows _ _ hstep⟩

/-- What is on an annotation type are the annotation types that it conveys.  Nothing is asked of
    superclasses. -/
theorem holds_annotationsOn_annotationType (hlinked : graph.Linked)
    (htypes : graph.AnnotatesByTypes) (hseed : graph.nodes[seed]? = some node)
    (hkind : graph.IsAnnotationType seed) :
    graph.Holds (graph.annotationsOn node.decl.name) (TransGen graph.Conveys seed)
      (graph.AnnotatedWith seed) :=
  (holds_annotationsOn_of_shows hlinked hseed).congr
    (fun _ => exists_shows_iff_of_isAnnotationType htypes hkind) fun _ => Iff.rfl

/-! ### Classes with an annotation -/

/-- What is reported along a list of each node, against a relation. -/
theorem mem_closure_of_list {list : Node → List NodeId} {Rel : NodeId → NodeId → Prop}
    (hlist : ∀ ⦃target : NodeId⦄ ⦃node : Node⦄, graph.nodes[target]? = some node →
      ∀ source, source ∈ list node ↔ Rel source target)
    (hnodes : ∀ source target, Rel source target →
      source < graph.size ∧ ∃ node, graph.nodes[target]? = some node)
    (hseed : seed < graph.size) :
    id ∈ (closure graph.size seed (graph.stepsFrom fun node => (list node).map .report)).map (·.1)
      ↔ TransGen Rel id seed := by
  have hreports : ∀ target source, Step.report source
      ∈ graph.stepsFrom (fun node => (list node).map .report) target ↔ Rel source target :=
    fun target source => report_stepsFrom_list hlist fun h => (hnodes source target h).2
  have hfollows : ∀ target source,
      Leads (graph.stepsFrom fun node => (list node).map .report) target source
        ↔ Rel source target :=
    fun target source => leads_stepsFrom_list hlist fun h => (hnodes source target h).2
  have hbelow : StaysBelow graph.size (graph.stepsFrom fun node => (list node).map .report) :=
    fun target source h => (hnodes source target ((hfollows target source).mp h)).1
  rw [mem_closure_iff hbelow hseed, reported_iff_transGen hfollows hreports]
  exact transGen_swap

theorem mem_subclassesOf (hlinked : graph.Linked) (hseed : seed < graph.size) :
    id ∈ graph.subclassesOf seed ↔ TransGen graph.Extends id seed :=
  mem_closure_of_list hlinked.subclasses_iff (fun _ _ h => ⟨h.lt_size.1, h.exists_nodes.2⟩) hseed

/-- The carriers of an annotation are the annotation types from which a chain leads to it. -/
theorem mem_carriers (hlinked : graph.Linked) (hseed : seed < graph.size) :
    id ∈ graph.carriers seed ↔ ReflTransGen graph.Conveys id seed := by
  have hlist : ∀ ⦃target : NodeId⦄ ⦃node : Node⦄, graph.nodes[target]? = some node →
      ∀ source, source ∈ node.annotated.filter (graph.declSatisfies (·.isAnnotationType))
        ↔ graph.Conveys source target := by
    intro target node hnode source
    rw [List.mem_filter, hlinked.annotated_iff hnode]
    exact and_comm
  rw [carriers, List.mem_cons, List.mem_filter, decide_eq_true_eq,
    mem_closure_of_list hlist (fun _ _ h => ⟨h.2.lt_size.1, h.2.exists_nodes.2⟩) hseed,
    reflTransGen_iff_eq_or_transGen]
  -- A cycle may lead back to the annotation itself, which is listed once.
  by_cases hsame : id = seed
  · exact iff_of_true (.inl hsame) (.inl hsame.symm)
  · rw [or_iff_right hsame, or_iff_right (Ne.symm hsame), and_iff_left hsame]

theorem mem_listedBy {list : Node → List NodeId} {Rel : NodeId → NodeId → Prop}
    (hlist : ∀ ⦃target : NodeId⦄ ⦃node : Node⦄, graph.nodes[target]? = some node →
      ∀ source, source ∈ list node ↔ Rel source target)
    (hnode : Rel source target → ∃ node, graph.nodes[target]? = some node) :
    source ∈ graph.listedBy list target ↔ Rel source target := by
  unfold listedBy
  cases htarget : graph.nodes[target]? with
  | none =>
    refine iff_of_false List.not_mem_nil fun h => ?_
    obtain ⟨node, hsome⟩ := hnode h
    rw [htarget] at hsome
    cases hsome
  | some node => exact hlist htarget source

theorem mem_listedBy_annotated (hlinked : graph.Linked) :
    source ∈ graph.listedBy (·.annotated) target ↔ graph.AnnotatedWith source target :=
  mem_listedBy hlinked.annotated_iff fun h => h.exists_nodes.2

/-- The classes that inherit an annotation of one of the types. -/
def heirs (graph : ClassGraph) (carriers : List NodeId) : List NodeId :=
  (((carriers.filter (graph.declSatisfies (·.isInherited))).flatMap
    (graph.listedBy (·.annotated))).filter fun id =>
      !graph.declSatisfies (·.isInterface) id).flatMap graph.subclassesOf

/-- That interfaces are left out makes no difference: they have no subclasses. -/
theorem mem_heirs (hlinked : graph.Linked) (hordinary : graph.ExtendsOrdinary)
    {carriers : List NodeId} :
    id ∈ graph.heirs carriers
      ↔ ∃ first ∈ carriers, graph.IsInherited first
        ∧ ∃ ancestor, TransGen graph.Extends id ancestor
          ∧ graph.AnnotatedWith ancestor first := by
  simp only [heirs, List.mem_flatMap, List.mem_filter, mem_listedBy_annotated hlinked]
  constructor
  · rintro ⟨ancestor, ⟨⟨first, ⟨hfirst, hinherited⟩, hannotated⟩, -⟩, hsubclass⟩
    rw [mem_subclassesOf hlinked hannotated.lt_size.1] at hsubclass
    exact ⟨first, hfirst, hinherited, ancestor, hsubclass, hannotated⟩
  · rintro ⟨first, hfirst, hinherited, ancestor, hproper, hannotated⟩
    obtain ⟨last, -, hextends⟩ := TransGen.tail'_iff.mp hproper
    refine ⟨ancestor, ⟨⟨first, ⟨hfirst, hinherited⟩, hannotated⟩, ?_⟩,
      (mem_subclassesOf hlinked hannotated.lt_size.1).mpr hproper⟩
    rw [(hordinary hextends).2]
    rfl

/-- The carriers are the annotation itself and others. -/
theorem exists_carriers_eq (graph : ClassGraph) (seed : NodeId) :
    ∃ others, graph.carriers seed = seed :: others
      ∧ ∀ carrier ∈ others, (carrier == seed) = false :=
  ⟨_, rfl, fun carrier h => by simpa using (List.mem_filter.mp h).2⟩

/-- Only the first of the carriers, the annotation itself, makes a class directly related. -/
theorem flatMap_listedBy_carriers (list : Node → List NodeId) {carriers : List NodeId}
    (hothers : ∀ carrier ∈ carriers, (carrier == seed) = false) :
    ((seed :: carriers).flatMap fun carrier =>
        (graph.listedBy list carrier).map (·, carrier == seed))
      = markedNodes (graph.listedBy list seed) (carriers.flatMap (graph.listedBy list)) := by
  rw [List.flatMap_cons, beq_self_eq_true, markedNodes, List.map_flatMap]
  refine congrArg _ (List.flatMap_congr fun carrier hcarrier => ?_)
  rw [hothers carrier hcarrier]

/-- Directly or not, the carriers list what is related to one of them. -/
theorem mem_listedBy_carriers {list : Node → List NodeId} {Rel : NodeId → NodeId → Prop}
    {others : List NodeId} (hcarriers : graph.carriers seed = seed :: others)
    (hlist : ∀ source target, source ∈ graph.listedBy list target ↔ Rel source target) :
    id ∈ graph.listedBy list seed ∨ id ∈ others.flatMap (graph.listedBy list)
      ↔ ∃ carrier ∈ graph.carriers seed, Rel id carrier := by
  rw [← List.mem_append, ← List.flatMap_cons, ← hcarriers, List.mem_flatMap]
  simp only [hlist]

/-- The classes that an annotation is on, the directly related ones apart from the others. -/
theorem typesWithAnnotation_eq {name : String} {others : List NodeId}
    (hname : graph.idOf? name = some seed) (hcarriers : graph.carriers seed = seed :: others)
    (hothers : ∀ carrier ∈ others, (carrier == seed) = false) :
    typesWithAnnotation graph name
      = graph.setOf (markedNodes (graph.listedBy (·.annotated) seed)
          (others.flatMap (graph.listedBy (·.annotated))
            ++ graph.heirs (graph.carriers seed))) := by
  unfold typesWithAnnotation
  rw [hname]
  show graph.setOf (((graph.carriers seed).flatMap fun carrier =>
      (graph.listedBy (·.annotated) carrier).map (·, carrier == seed))
    ++ (graph.heirs (graph.carriers seed)).map (·, false)) = _
  rw [hcarriers, flatMap_listedBy_carriers _ hothers, markedNodes, markedNodes,
    List.map_append, List.append_assoc]

/-- The classes that an annotation is on, those on which a type is that conveys it, and those that
    inherit one of these. -/
theorem holds_annotated (hlinked : graph.Linked) (hordinary : graph.ExtendsOrdinary)
    (hseed : graph.nodes[seed]? = some node) :
    let annotated := graph.typesWithAnnotation node.decl.name
    graph.Holds annotated
      (fun id => ∃ first, graph.Bears id first ∧ ReflTransGen graph.Conveys first seed)
      (graph.AnnotatedWith · seed) := by
  intro annotated
  have hname := (idOf?_eq_some_iff hlinked.distinct).mpr ⟨node, hseed, rfl⟩
  have hlt : seed < graph.size := (Array.getElem?_eq_some_iff.mp hseed).1
  obtain ⟨others, hcarriers, hothers⟩ := graph.exists_carriers_eq seed
  rw [show annotated = _ from typesWithAnnotation_eq hname hcarriers hothers]
  refine (holds_setOf_markedNodes hlinked.distinct _ _).congr (fun id => ?_)
    fun id => mem_listedBy_annotated hlinked
  rw [List.mem_append, ← or_assoc,
    mem_listedBy_carriers hcarriers fun _ _ => mem_listedBy_annotated hlinked,
    mem_heirs hlinked hordinary, ← exists_or]
  refine exists_congr fun first => ?_
  rw [← and_or_left, mem_carriers hlinked hlt, and_comm]
  rfl

end ClassGraph

/-- A subclass has what is on an annotation type that it inherits. -/
theorem contains_annotationsOn_of_inherits {decls : List ClassDecl} (hkinds : WellKinded decls)
    (htypes : AnnotatedByTypes decls) (diagnostics : Diagnostics) (report : Bool)
    (base sub passedOn type : ClassDecl) (hbase : base ∈ decls) (hsub : sub ∈ decls)
    (hpassedOn : passedOn ∈ decls) (htype : type ∈ decls)
    (hsuperclass : sub.superclass = some base.name)
    (hannotated : passedOn.name ∈ base.annotations.map (·.name))
    (hinherited : passedOn.isInherited = true)
    (hconveyed : type.name ∈ passedOn.annotations.map (·.name)) :
    let graph := (ClassGraph.build decls diagnostics report).1
    (graph.annotationsOn sub.name).contains type.name = true := by
  intro graph
  obtain ⟨ancestor, _, hancestor, rfl⟩ := ClassGraph.exists_node hbase diagnostics report
  obtain ⟨seed, _, hseed, rfl⟩ := ClassGraph.exists_node hsub diagnostics report
  obtain ⟨first, _, hfirst, rfl⟩ := ClassGraph.exists_node hpassedOn diagnostics report
  obtain ⟨last, _, hlast, rfl⟩ := ClassGraph.exists_node htype diagnostics report
  have hextends : graph.Extends seed ancestor := by
    refine (ClassGraph.refers_iff hseed hancestor).mpr ?_
    rw [hsuperclass]
    exact List.mem_singleton_self _
  have hbears : graph.Bears seed first := by
    refine .inr ⟨?_, ancestor, .single hextends,
      (ClassGraph.refers_iff hancestor hfirst).mpr hannotated⟩
    rw [ClassGraph.IsInherited, ClassGraph.declSatisfies_eq hfirst]
    exact hinherited
  have hconveys : graph.Conveys first last := by
    refine ⟨?_, (ClassGraph.refers_iff hfirst hlast).mpr hconveyed⟩
    rw [ClassGraph.IsAnnotationType, ClassGraph.declSatisfies_eq hfirst]
    exact (Bool.and_eq_true_iff.mp hinherited).1
  have hon := ClassGraph.holds_annotationsOn (ClassGraph.linked_build hkinds.distinct)
    (ClassGraph.extendsOrdinary_build hkinds diagnostics report)
    (ClassGraph.annotatesByTypes_build htypes diagnostics report) hseed
  exact (hon.contains_iff hlast).mpr ⟨first, hbears, .single hconveys⟩

/-- **Annotations.** A class is among those with an annotation iff the annotation is among those on
    the class, and then both sets mark it alike. -/
theorem contains_typesWithAnnotation_iff {decls : List ClassDecl} (hkinds : WellKinded decls)
    (htypes : AnnotatedByTypes decls) (diagnostics : Diagnostics) (report : Bool)
    (type decl : ClassDecl) (htype : type ∈ decls) (hdecl : decl ∈ decls) :
    let graph := (ClassGraph.build decls diagnostics report).1
    let annotated := graph.typesWithAnnotation type.name
    let annotations := graph.annotationsOn decl.name
    (annotated.contains decl.name = true ↔ annotations.contains type.name = true)
      ∧ (annotated.contains decl.name = true →
        annotated.isDirect? decl.name = annotations.isDirect? type.name) := by
  intro graph annotated annotations
  have hlinked : graph.Linked := ClassGraph.linked_build hkinds.distinct
  have hordinary : graph.ExtendsOrdinary :=
    ClassGraph.extendsOrdinary_build hkinds diagnostics report
  have hannotates : graph.AnnotatesByTypes :=
    ClassGraph.annotatesByTypes_build htypes diagnostics report
  obtain ⟨target, node, hnode, rfl⟩ := ClassGraph.exists_node htype diagnostics report
  obtain ⟨source, other, hother, rfl⟩ := ClassGraph.exists_node hdecl diagnostics report
  have hwith := ClassGraph.holds_annotated hlinked hordinary hnode
  have hon := ClassGraph.holds_annotationsOn hlinked hordinary hannotates hother
  refine ⟨?_, fun hcontains => ?_⟩
  · rw [hwith.contains_iff hother, hon.contains_iff hnode]
  · have hrelated := (hwith.contains_iff hother).mp hcontains
    exact hwith.isDirect?_eq hon hother hnode hrelated hrelated Iff.rfl

/-- Two annotation types that annotate each other, of which one is inherited, and a subclass of a
    class with that one.  The subclass inherits it, and so has the other one as well. -/
theorem contains_typesWithAnnotation_iff_cycle :
    let marker := ClassDecl.outline "a.Marker" .annotationType none [] [inheritedMarker, "a.Meta"]
    let outer := ClassDecl.outline "a.Meta" .annotationType none [] ["a.Marker"]
    let base := ClassDecl.outline "a.Base" .ordinary (some "a.Sub") [] ["a.Marker"]
    let sub := ClassDecl.outline "a.Sub" .ordinary (some "a.Base") [] []
    let graph := (ClassGraph.build [marker, outer, base, sub] .empty false).1
    let annotated := graph.typesWithAnnotation "a.Meta"
    (annotated.contains "a.Sub" = true ↔ (graph.annotationsOn "a.Sub").contains "a.Meta" = true)
      ∧ annotated.contains "a.Sub" = true
      ∧ (graph.annotationsOn "a.Sub").contains "a.Meta" = true
      ∧ annotated.isDirect? "a.Sub" = (graph.annotationsOn "a.Sub").isDirect? "a.Meta" := by
  intro marker outer base sub graph annotated
  have hkinds : WellKinded [marker, outer, base, sub] := ⟨by decide, by decide, by decide⟩
  have htypes : AnnotatedByTypes [marker, outer, base, sub] := by
    unfold AnnotatedByTypes
    decide
  obtain ⟨hiff, hmarks⟩ := contains_typesWithAnnotation_iff hkinds htypes .empty false outer sub
    (by simp) (by simp)
  have hinherits : (graph.annotationsOn "a.Sub").contains "a.Meta" = true :=
    contains_annotationsOn_of_inherits hkinds htypes .empty false base sub marker outer (by simp)
      (by simp) (by simp) (by simp) rfl (by decide) (by decide) (by decide)
  exact ⟨hiff, hiff.mpr hinherits, hinherits, hmarks (hiff.mpr hinherits)⟩

end ClassAtlas
