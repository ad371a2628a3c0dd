import ClassAtlas.Graph.Linking
import ClassAtlas.Proofs.Graph.Links
import Mathlib.Data.List.Induction

namespace ClassAtlas

/-!
# The graph made in one pass

Linking the nodes one by one makes the graph as `ClassGraph.build` describes it: while the nodes are
linked in turn, each node lists the links from the nodes that were linked so far.

* `pushAll_eraseDups`, `eraseDups_append_eq_pushAll` — lists that grow without repetitions;
* `Node.atVisit` — what happens to a node when some node is linked;
* `linkedUpTo`, `Node.upTo` — a node after the first ones are linked;
* `ClassTable.visitTo_eq` — what a pass up to some node makes;
* `ClassGraph.assemble_eq_build` — the whole pass makes the graph.
-/

/-! ### Lists without repetitions -/

variable {nodes more : List NodeId} {id other : NodeId}

theorem pushUnique_of_mem (h : id ∈ nodes) : pushUnique nodes id = nodes := if_pos h

theorem pushUnique_of_notMem (h : id ∉ nodes) : pushUnique nodes id = nodes ++ [id] := if_neg h

theorem mem_pushUnique : other ∈ pushUnique nodes id ↔ other ∈ nodes ∨ other = id := by
  unfold pushUnique
  split
  · rename_i hmem
    refine ⟨Or.inl, fun h => h.elim (fun hold => hold) fun heq => heq ▸ hmem⟩
  · simp

/-- A node that is pushed twice is there once. -/
theorem pushUnique_pushUnique (nodes : List NodeId) (id : NodeId) :
    pushUnique (pushUnique nodes id) id = pushUnique nodes id :=
  pushUnique_of_mem (mem_pushUnique.mpr (Or.inr rfl))

theorem pushAll_concat (nodes more : List NodeId) (id : NodeId) :
    pushAll nodes (more ++ [id]) = pushUnique (pushAll nodes more) id := by
  simp [pushAll]

theorem mem_pushAll : other ∈ pushAll nodes more ↔ other ∈ nodes ∨ other ∈ more := by
  induction more using List.reverseRecOn with
  | nil => simp [pushAll]
  | append_singleton more id ih =>
    rw [pushAll_concat, mem_pushUnique, ih]
    simp [or_assoc]

theorem eraseDups_concat (nodes : List NodeId) (id : NodeId) :
    (nodes ++ [id]).eraseDups = pushUnique nodes.eraseDups id := by
  by_cases hmem : id ∈ nodes
  · rw [pushUnique_of_mem (List.mem_eraseDups.mpr hmem), eraseDups_concat_of_mem hmem]
  · rw [pushUnique_of_notMem fun h => hmem (List.mem_eraseDups.mp h),
      eraseDups_concat_of_notMem hmem]

theorem eraseDups_append_eq_pushAll (nodes more : List NodeId) :
    (nodes ++ more).eraseDups = pushAll nodes.eraseDups more := by
  induction more using List.reverseRecOn with
  | nil => rw [List.append_nil]; rfl
  | append_singleton more id ih =>
    rw [← List.append_assoc, eraseDups_concat, ih, pushAll_concat]

theorem pushAll_nil (more : List NodeId) : pushAll [] more = more.eraseDups := by
  have h := eraseDups_append_eq_pushAll [] more
  rw [List.nil_append] at h
  exact h.symm

/-- Repetitions among what is pushed do not matter. -/
theorem pushAll_eraseDups (nodes more : List NodeId) :
    pushAll nodes more.eraseDups = pushAll nodes more := by
  induction more using List.reverseRecOn with
  | nil => rfl
  | append_singleton more id ih =>
    rw [eraseDups_concat, pushAll_concat]
    by_cases hmem : id ∈ more
    · rw [pushUnique_of_mem (List.mem_eraseDups.mpr hmem), ih,
        pushUnique_of_mem (mem_pushAll.mpr (Or.inr hmem))]
    · rw [pushUnique_of_notMem fun h => hmem (List.mem_eraseDups.mp h), pushAll_concat, ih]

/-! ### One node -/

namespace NodeList

variable (field : NodeList)

/-- What happens to a node, if another one is pushed to its list or not. -/
def grow (reached : Bool) (id : NodeId) (node : Node) : Node :=
  field.put (if reached then pushUnique (field.get node) id else field.get node) node

/-- It is pushed once, for however many times the node is among the targets. -/
theorem getElem?_enter (targets : List NodeId) (id : NodeId) (nodes : Array Node)
    (place : NodeId) :
    (field.enter targets id nodes)[place]?
      = nodes[place]?.map (field.grow (place ∈ targets) id) := by
  induction targets generalizing nodes with
  | nil =>
    have hkept : field.grow false id = fun node => node := funext field.put_get
    simp [enter, hkept]
  | cons target later ih =>
    show (field.enter later id (nodes.modify target (field.push id)))[place]? = _
    rw [ih, Array.getElem?_modify]
    by_cases htarget : target = place
    · rw [if_pos htarget, Option.map_map]
      refine congrArg (nodes[place]?.map ·) (funext fun node => ?_)
      simp [grow, push, htarget, field.get_put, field.put_put, pushUnique_pushUnique]
    · rw [if_neg htarget]
      refine congrArg (nodes[place]?.map ·) (funext fun node => ?_)
      simp [grow, Ne.symm htarget]

end NodeList

/-- What happens to the node at `place` when a node is entered at its targets. -/
def Node.entered (targets : Links) (id place : NodeId) (node : Node) : Node :=
  node
    |> NodeList.subclasses.grow (place ∈ targets.superclass.toList) id
    |> NodeList.implementors.grow (place ∈ targets.interfaces) id
    |> NodeList.annotated.grow (place ∈ targets.annotations) id
    |> NodeList.methodAnnotated.grow (place ∈ targets.onMethods) id
    |> NodeList.fieldAnnotated.grow (place ∈ targets.onFields) id
    |> NodeList.inner.grow (place ∈ targets.outer.toList) id

theorem getElem?_enter (targets : Links) (id : NodeId) (nodes : Array Node) (place : NodeId) :
    (targets.enter id nodes)[place]? = nodes[place]?.map (Node.entered targets id place) := by
  unfold Links.enter
  simp only [NodeList.getElem?_enter, Option.map_map]
  rfl

/-- What happens to the node at `place` when a node is linked. -/
def Node.atVisit (targets : Links) (id place : NodeId) (node : Node) : Node :=
  if id = place then (node.entered targets id place).keep targets else node.entered targets id place

theorem getElem?_link (targets : Links) (id : NodeId) (nodes : Array Node) (place : NodeId) :
    (targets.link id nodes)[place]? = nodes[place]?.map (Node.atVisit targets id place) := by
  rw [Links.link, Array.getElem?_modify, getElem?_enter]
  by_cases hplace : id = place
  · rw [if_pos hplace, Option.map_map]
    refine congrArg (nodes[place]?.map ·) (funext fun node => ?_)
    rw [Node.atVisit, if_pos hplace]
    rfl
  · rw [if_neg hplace]
    refine congrArg (nodes[place]?.map ·) (funext fun node => ?_)
    rw [Node.atVisit, if_neg hplace]

/-! ### The first nodes -/

/-- The first nodes, as far as their links satisfy a condition. -/
def linkedUpTo (links : Array Links) (count : Nat) (condition : Links → Bool) : List NodeId :=
  (List.range count).filter fun id => condition (links[id]?.getD Links.none)

/-- The links of a class, each once. -/
def Links.distinct (targets : Links) : Links :=
  { targets with
    interfaces := targets.interfaces.eraseDups
    annotations := targets.annotations.eraseDups
    inner := targets.inner.eraseDups
    dependencies := targets.dependencies.eraseDups
    onMethods := targets.onMethods.eraseDups
    onFields := targets.onFields.eraseDups }

/-- What a node refers to, if it is among the first ones. -/
def ownUpTo (links : Array Links) (count : Nat) (id : NodeId) : Links :=
  if id < count then links[id]?.getD Links.none else Links.none

/-- The member classes of a node as the first nodes tell them, with repetitions. -/
def membersUpTo (links : Array Links) (count : Nat) (id : NodeId) : List NodeId :=
  let members := linkedUpTo links count (·.outer = some id)
  members.filter (· ≤ id) ++ (ownUpTo links count id).inner ++ members.filter (id < ·)

/-- The node of a class when the first nodes are linked. -/
def Node.upTo (links : Array Links) (count : Nat) (id : NodeId) (decl : ClassDecl) : Node where
  decl := decl
  links := ownUpTo links count id
  inner := (membersUpTo links count id).eraseDups
  subclasses := linkedUpTo links count (·.superclass = some id)
  implementors := linkedUpTo links count (id ∈ ·.interfaces)
  annotated := linkedUpTo links count (id ∈ ·.annotations)
  methodAnnotated := linkedUpTo links count (id ∈ ·.onMethods)
  fieldAnnotated := linkedUpTo links count (id ∈ ·.onFields)

variable {links : Array Links} {count place : Nat} {targets : Links}

theorem lt_of_mem_linkedUpTo {condition : Links → Bool}
    (h : id ∈ linkedUpTo links count condition) : id < count := by
  rw [linkedUpTo, List.mem_filter, List.mem_range] at h
  exact h.1

theorem linkedUpTo_succ (hlinks : links[count]? = some targets.distinct)
    (condition : Links → Bool) :
    linkedUpTo links (count + 1) condition
      = linkedUpTo links count condition ++ if condition targets.distinct then [count] else [] := by
  unfold linkedUpTo
  rw [List.range_succ, List.filter_append, List.filter_singleton, hlinks, Option.getD_some,
    cond_eq_ite]

/-- The next node comes last, and is new. -/
theorem linkedUpTo_succ_eq_pushUnique (hlinks : links[count]? = some targets.distinct)
    (condition : Links → Bool) :
    linkedUpTo links (count + 1) condition
      = if condition targets.distinct then pushUnique (linkedUpTo links count condition) count
        else linkedUpTo links count condition := by
  rw [linkedUpTo_succ hlinks]
  have hnew : count ∉ linkedUpTo links count condition := fun h =>
    absurd (lt_of_mem_linkedUpTo h) (Nat.lt_irrefl count)
  by_cases hcondition : condition targets.distinct = true
  · rw [if_pos hcondition, if_pos hcondition, pushUnique_of_notMem hnew]
  · rw [if_neg hcondition, if_neg hcondition, List.append_nil]

theorem ownUpTo_self (hlinks : links[count]? = some targets.distinct) :
    ownUpTo links count count = Links.none
      ∧ ownUpTo links (count + 1) count = targets.distinct := by
  simp [ownUpTo, hlinks]

theorem ownUpTo_succ_of_ne (hplace : count ≠ place) :
    ownUpTo links (count + 1) place = ownUpTo links count place := by
  unfold ownUpTo
  by_cases hlt : place < count
  · rw [if_pos hlt, if_pos (Nat.lt_succ_of_lt hlt)]
  · have hnext : ¬place < count + 1 := by omega
    rw [if_neg hlt, if_neg hnext]

theorem filter_of_forall_eq {added : List NodeId} (h : ∀ id ∈ added, id = count)
    (condition : NodeId → Bool) :
    added.filter condition = if condition count then added else [] := by
  split
  · rename_i hcondition
    refine List.filter_eq_self.mpr fun id hid => ?_
    rw [h id hid, hcondition]
  · rename_i hcondition
    refine List.filter_eq_nil_iff.mpr fun id hid => ?_
    rw [h id hid]
    exact hcondition

/-- The member classes that the next node tells come last: itself, if the node is its outer class,
    and those that it lists, if it is the node. -/
theorem membersUpTo_succ (hlinks : links[count]? = some targets.distinct) (place : Nat) :
    membersUpTo links (count + 1) place
      = membersUpTo links count place ++ (if targets.outer = some place then [count] else [])
        ++ if count = place then targets.inner.eraseDups else [] := by
  have hnext := linkedUpTo_succ hlinks fun links => links.outer = some place
  rw [show targets.distinct.outer = targets.outer from rfl] at hnext
  simp only [decide_eq_true_eq] at hnext
  have hbelow : ∀ id ∈ linkedUpTo links count fun links => links.outer = some place, id < count :=
    fun id => lt_of_mem_linkedUpTo
  have hadded : ∀ id ∈ if targets.outer = some place then [count] else [], id = count := by
    intro id hid
    split at hid
    · exact List.mem_singleton.mp hid
    · cases hid
  unfold membersUpTo
  dsimp only
  rw [hnext, List.filter_append, List.filter_append, filter_of_forall_eq hadded,
    filter_of_forall_eq hadded]
  simp only [decide_eq_true_eq]
  by_cases hlt : place < count
  · -- The node has been linked, so what is new comes last.
    have hplace : ¬count ≤ place := Nat.not_le.mpr hlt
    rw [if_neg hplace, if_pos hlt, ownUpTo_succ_of_ne (Ne.symm (Nat.ne_of_lt hlt)),
      if_neg (Nat.ne_of_gt hlt)]
    simp only [List.append_nil, List.append_assoc]
  · -- It comes at or after the next one, so no node behind it has been linked.
    have hplace : count ≤ place := Nat.not_lt.mp hlt
    have hbehind : (linkedUpTo links count fun links => links.outer = some place).filter
        (place < ·) = [] := by
      refine List.filter_eq_nil_iff.mpr fun id hid => ?_
      rw [decide_eq_true_eq]
      exact fun hbehind => hlt (Nat.lt_trans hbehind (hbelow id hid))
    have hown : (ownUpTo links count place).inner = [] := by
      rw [ownUpTo, if_neg hlt]
      rfl
    rw [if_pos hplace, if_neg hlt, hbehind, hown]
    by_cases hsame : count = place
    · subst hsame
      rw [(ownUpTo_self hlinks).2, if_pos rfl]
      simp only [Links.distinct, List.append_nil]
    · rw [ownUpTo_succ_of_ne hsame, hown, if_neg hsame]
      simp only [List.append_nil]

/-- The next node is entered at a node. -/
theorem Node.entered_upTo (hlinks : links[count]? = some targets.distinct) (place : Nat)
    (decl : ClassDecl) :
    (Node.upTo links count place decl).entered targets count place
      = { Node.upTo links (count + 1) place decl with
          links := ownUpTo links count place
          inner := (membersUpTo links count place
            ++ if targets.outer = some place then [count] else []).eraseDups } := by
  have hinner : (membersUpTo links count place
        ++ if targets.outer = some place then [count] else []).eraseDups
      = if targets.outer = some place then
          pushUnique (membersUpTo links count place).eraseDups count
        else (membersUpTo links count place).eraseDups := by
    split
    · exact eraseDups_concat ..
    · rw [List.append_nil]
  simp only [Node.upTo, linkedUpTo_succ_eq_pushUnique hlinks, decide_eq_true_eq, hinner]
  simp only [Links.distinct, List.mem_eraseDups, ← Option.mem_toList]
  simp only [Node.entered, NodeList.grow, NodeList.subclasses, NodeList.implementors,
    NodeList.annotated, NodeList.methodAnnotated, NodeList.fieldAnnotated, NodeList.inner,
    decide_eq_true_eq]

/-- **Step.** Linking the next node takes each node to what it is after that. -/
theorem Node.atVisit_upTo (hlinks : links[count]? = some targets.distinct) (place : Nat)
    (decl : ClassDecl) :
    (Node.upTo links count place decl).atVisit targets count place
      = Node.upTo links (count + 1) place decl := by
  have hmembers := membersUpTo_succ hlinks place
  rw [Node.atVisit, Node.entered_upTo hlinks]
  by_cases hplace : count = place
  · subst hplace
    obtain ⟨hbefore, hafter⟩ := ownUpTo_self hlinks
    have hinner : (membersUpTo links (count + 1) count).eraseDups
        = pushAll (membersUpTo links count count
            ++ if targets.outer = some count then [count] else []).eraseDups targets.inner := by
      rw [hmembers, if_pos rfl, eraseDups_append_eq_pushAll, pushAll_eraseDups]
    rw [if_pos rfl]
    simp only [Node.keep, Node.upTo, hbefore, hafter, hinner, Links.none, pushAll_nil,
      Links.distinct]
  · rw [if_neg hplace, List.append_nil] at hmembers
    rw [if_neg hplace]
    simp only [Node.upTo, hmembers, ownUpTo_succ_of_ne hplace]

/-! ### The pass -/

variable {table : ClassTable}

theorem Node.upTo_zero (links : Array Links) (id : NodeId) (decl : ClassDecl) :
    Node.upTo links 0 id decl = Node.unlinked decl := by
  simp [Node.upTo, Node.unlinked, linkedUpTo, membersUpTo, ownUpTo, Links.none]

theorem Node.upTo_size (hid : id < links.size) (decl : ClassDecl) :
    Node.upTo links links.size id decl = Node.ofLinks links id decl := by
  have hown : ownUpTo links links.size id = links[id]?.getD Links.none := if_pos hid
  simp only [Node.upTo, membersUpTo, hown]
  rfl

theorem ClassTable.report_eq_append (table : ClassTable) (diagnostics : Diagnostics)
    (decl : ClassDecl) :
    table.report diagnostics decl = diagnostics.append (table.unresolved decl) := by
  simp [report, unresolved, Diagnostics.append, List.foldl_map, List.foldl_filter]

theorem Diagnostics.append_append (diagnostics : Diagnostics) (first second : List Diagnostic) :
    (diagnostics.append first).append second = diagnostics.append (first ++ second) := by
  simp [append]

/-- The reports of the first classes. -/
def ClassTable.reportsUpTo (table : ClassTable) (report : Bool) (count : Nat) : List Diagnostic :=
  if report then (table.toList.take count).flatMap table.unresolved else []

/-- **Pass.** When the first nodes are linked, each node lists the links from these, and their
    reports are made. -/
theorem ClassTable.visitTo_eq (table : ClassTable) (diagnostics : Diagnostics) (report : Bool)
    {count : Nat} (hcount : count ≤ table.size) :
    table.visitTo diagnostics report count
      = (table.mapIdx (Node.upTo (table.map table.links) count),
          diagnostics.append (table.reportsUpTo report count)) := by
  induction count with
  | zero =>
    have hstart : table.map Node.unlinked = table.mapIdx (Node.upTo (table.map table.links) 0) := by
      refine Array.ext_getElem? fun id => ?_
      rw [Array.getElem?_map, Array.getElem?_mapIdx]
      exact congrArg (Option.map · _) (funext fun decl => (Node.upTo_zero _ id decl).symm)
    simp [visitTo, hstart, reportsUpTo, Diagnostics.append]
  | succ count ih =>
    have hdecl : table[count]? = some table[count] := Array.getElem?_eq_getElem hcount
    have hlinks : (table.map table.links)[count]? = some (table.targets table[count]).distinct := by
      rw [Array.getElem?_map, hdecl]
      rfl
    have hstep : table.visitTo diagnostics report (count + 1)
        = table.visit report (table.visitTo diagnostics report count) count := by
      simp [visitTo, List.range_succ]
    rw [hstep, ih (Nat.le_of_succ_le hcount), visit, hdecl]
    refine Prod.ext (Array.ext_getElem? fun id => ?_) ?_
    · dsimp only
      rw [getElem?_link, Array.getElem?_mapIdx, Array.getElem?_mapIdx, Option.map_map]
      exact congrArg (Option.map · _) (funext fun decl => Node.atVisit_upTo hlinks id decl)
    · have htake : table.toList.take (count + 1) = table.toList.take count ++ [table[count]] := by
        rw [List.take_add_one, Array.getElem?_toList, hdecl]
        rfl
      dsimp only
      cases report with
      | false => rfl
      | true => simp [report_eq_append, Diagnostics.append_append, reportsUpTo, htake]

namespace ClassGraph

/-- **Assembly.** Linking the nodes one by one makes the graph, with the same diagnostics. -/
theorem assemble_eq_build (decls : List ClassDecl) (diagnostics : Diagnostics) (report : Bool) :
    assemble decls diagnostics report = build decls diagnostics report := by
  have hpass := ClassTable.visitTo_eq (tableOf decls) diagnostics report (Nat.le_refl _)
  have hreports : (tableOf decls).reportsUpTo report (tableOf decls).size
      = if report then (tableOf decls).toList.flatMap (tableOf decls).unresolved else [] := by
    rw [ClassTable.reportsUpTo, ← Array.length_toList, List.take_length]
  have hnodes : (tableOf decls).mapIdx
        (Node.upTo ((tableOf decls).map (tableOf decls).links) (tableOf decls).size)
      = (tableOf decls).mapIdx (Node.ofLinks ((tableOf decls).map (tableOf decls).links)) := by
    refine Array.ext_getElem? fun id => ?_
    rw [Array.getElem?_mapIdx, Array.getElem?_mapIdx]
    by_cases hid : id < (tableOf decls).size
    · have hlinks : id < ((tableOf decls).map (tableOf decls).links).size := by
        rw [Array.size_map]
        exact hid
      have hsize := Node.upTo_size hlinks
      rw [Array.size_map] at hsize
      exact congrArg (Option.map · _) (funext hsize)
    · rw [Array.getElem?_eq_none (Nat.not_lt.mp hid)]
      rfl
  rw [hreports, hnodes] at hpass
  have hassemble : assemble decls diagnostics report
      = (⟨((tableOf decls).visitTo diagnostics report (tableOf decls).size).1⟩,
          ((tableOf decls).visitTo diagnostics report (tableOf decls).size).2) := rfl
  rw [hassemble, hpass]
  rfl

end ClassGraph

end ClassAtlas
