import AgentOS.DbGraph.Build

/-!
# What a build contains

The nodes and the edges of `build_graph`, in terms of the rows (`contains_buildGraph`).  What is assumed of NetworkX is
`MultiDiGraph.Lawful`; the key of an edge is the number of edges between the same nodes that are there before it.
-/

namespace AgentOS.DbGraph

variable {Graph : Type} {nx : MultiDiGraph Graph}

/-- The documented behaviour of `nx.MultiDiGraph`.  The order of its edges is left open. -/
structure MultiDiGraph.Lawful (nx : MultiDiGraph Graph) : Prop where
  nodes_new : ∀ attrs, nx.nodes (nx.new attrs) = []
  edges_new : ∀ attrs, nx.edges (nx.new attrs) = []
  nodes_addNode : ∀ graph node attrs, ¬ inGraph nx graph node →
    nx.nodes (nx.addNode graph node attrs) = nx.nodes graph ++ [(node, attrs)]
  edges_addNode : ∀ graph node attrs, ¬ inGraph nx graph node →
    (nx.edges (nx.addNode graph node attrs)).Perm (nx.edges graph)
  nodes_addEdge : ∀ graph source target attrs, inGraph nx graph source → inGraph nx graph target →
    nx.nodes (nx.addEdge graph source target attrs) = nx.nodes graph
  edges_addEdge : ∀ graph source target attrs, inGraph nx graph source → inGraph nx graph target →
    (nx.edges (nx.addEdge graph source target attrs)).Perm (nx.edges graph ++
      [⟨source, target, (nx.edges graph).countP fun e => e.source = source ∧ e.target = target, attrs⟩])

/-! ### Keys -/

/-- An edge without its key. -/
structure Arc where
  source : String
  target : String
  attrs : Attrs

def Arc.parallel (arc arc' : Arc) : Bool := arc'.source = arc.source ∧ arc'.target = arc.target

/-- The edges that are added for the arcs, one after the other. -/
def number (before : List Arc) : List Arc → List Edge
  | [] => []
  | arc :: arcs =>
    ⟨arc.source, arc.target, before.countP arc.parallel, arc.attrs⟩ :: number (before ++ [arc]) arcs

theorem number_append_singleton (before arcs : List Arc) (arc : Arc) :
    number before (arcs ++ [arc]) =
      number before arcs ++ [⟨arc.source, arc.target, (before ++ arcs).countP arc.parallel, arc.attrs⟩] := by
  induction arcs generalizing before with
  | nil => rw [List.append_nil]; rfl
  | cons arc' arcs ih =>
    show _ :: number (before ++ [arc']) (arcs ++ [arc]) = _ :: (number (before ++ [arc']) arcs ++ _)
    rw [ih, List.append_assoc]
    rfl

theorem countP_number (arc : Arc) (before arcs : List Arc) :
    ((number before arcs).countP fun e => e.source = arc.source ∧ e.target = arc.target) =
    arcs.countP arc.parallel := by
  induction arcs generalizing before with
  | nil => rfl
  | cons arc' arcs ih =>
    show List.countP _ (_ :: number (before ++ [arc']) arcs) = _
    rw [List.countP_cons, List.countP_cons, ih]
    rfl

/-- Where edges are left out with those that are parallel to them, the others keep their keys. -/
theorem filter_number (keep : String → String → Bool) (before arcs : List Arc) :
    (number before arcs).filter (fun e => keep e.source e.target) =
      number (before.filter fun arc => keep arc.source arc.target)
        (arcs.filter fun arc => keep arc.source arc.target) := by
  induction arcs generalizing before with
  | nil => rfl
  | cons arc arcs ih =>
    have hih := ih (before ++ [arc])
    rw [List.filter_append] at hih
    by_cases hkeep : keep arc.source arc.target
    · have hcount : (before.filter fun arc => keep arc.source arc.target).countP arc.parallel =
          before.countP arc.parallel := by
        rw [List.countP_filter]
        refine List.countP_congr fun arc' _ => ?_
        unfold Arc.parallel
        constructor
        · simp only [Bool.and_eq_true, decide_eq_true_eq]
          exact fun h => h.1
        · simp only [Bool.and_eq_true, decide_eq_true_eq]
          exact fun h => ⟨h, by rw [h.1, h.2]; exact hkeep⟩
      rw [List.filter_cons_of_pos (by exact hkeep)] at hih ⊢
      rw [number, List.filter_cons_of_pos (by exact hkeep), number, hcount, hih]
      rfl
    · rw [List.filter_cons_of_neg (by exact hkeep)] at hih ⊢
      rw [number, List.filter_cons_of_neg (by exact hkeep), hih, List.filter_nil, List.append_nil]

/-! ### Single calls -/

variable {graph : Graph} {ns : List (String × Attrs)} {es : List Arc}

/-- The graph has these nodes, in this order, and the edges of these arcs. -/
structure Contains (nx : MultiDiGraph Graph) (graph : Graph) (nodes : List (String × Attrs)) (arcs : List Arc) :
    Prop where
  nodes : nx.nodes graph = nodes
  edges : (nx.edges graph).Perm (number [] arcs)

theorem Contains.inGraph_iff (h : Contains nx graph ns es) {node : String} :
    inGraph nx graph node ↔ node ∈ ns.map Prod.fst := by
  rw [← h.nodes]
  rfl

theorem Contains.addNode (hnx : nx.Lawful) (h : Contains nx graph ns es) {node : String} (attrs : Attrs)
    (hnew : node ∉ ns.map Prod.fst) : Contains nx (nx.addNode graph node attrs) (ns ++ [(node, attrs)]) es := by
  have hnot : ¬ inGraph nx graph node := fun hin => hnew (h.inGraph_iff.1 hin)
  refine ⟨?_, (hnx.edges_addNode graph node attrs hnot).trans h.edges⟩
  rw [hnx.nodes_addNode graph node attrs hnot, h.nodes]

theorem Contains.addEdge (hnx : nx.Lawful) (h : Contains nx graph ns es) (arc : Arc)
    (hsource : arc.source ∈ ns.map Prod.fst) (htarget : arc.target ∈ ns.map Prod.fst) :
    Contains nx (nx.addEdge graph arc.source arc.target arc.attrs) ns (es ++ [arc]) := by
  have hs := h.inGraph_iff.2 hsource
  have ht := h.inGraph_iff.2 htarget
  refine ⟨(hnx.nodes_addEdge graph _ _ arc.attrs hs ht).trans h.nodes, ?_⟩
  have hedges := hnx.edges_addEdge graph _ _ arc.attrs hs ht
  rw [h.edges.countP_eq, countP_number] at hedges
  rw [number_append_singleton, List.nil_append]
  exact hedges.trans (h.edges.append_right _)

/-! ### Nodes and arcs of the rows -/

def tableNode (t : TableRow) : String × Attrs := (tableId t.schemaName t.tableName, tableAttrs t)

def columnNode (rows : Rows) (c : ColumnRow) : String × Attrs := (columnId c.key, rows.columnAttrs c)

def storesArc (c : ColumnRow) : Arc :=
  ⟨tableId c.schemaName c.tableName, columnId c.key, edgeAttrs "Stores" [("ordinal", .int c.columnId)]⟩

/-- The arc of a foreign key, where both columns are among the nodes. -/
def linkArc (nodes : List String) (fk : ForeignKeyRow) : Option Arc :=
  if columnId fk.parentKey ∈ nodes ∧ columnId fk.referencedKey ∈ nodes then
    some ⟨columnId fk.parentKey, columnId fk.referencedKey, edgeAttrs "Links" (linkAttrs fk)⟩
  else none

/-- The node of a routine, where its type is known. -/
def routineNodeId (r : RoutineRow) : Option String :=
  (nodeType r.objectTypeCode).map fun type => routineId type r.schemaName r.objectName

def routineNode (sha256Hex : String → String) (includeDefinitions : Bool) (r : RoutineRow) : Option (String × Attrs) :=
  (nodeType r.objectTypeCode).map fun type =>
    (routineId type r.schemaName r.objectName, routineAttrs sha256Hex includeDefinitions type r)

/-- `routine_node_by_object_id`. -/
def routineNodes (routines : List RoutineRow) : Int → Option String :=
  Dict.assign (fun _ => none) (routines.filterMap fun r => (routineNodeId r).map fun node => (r.objectId, node))

/-- The arc of a dependency, where its routine is known and its target is among the nodes. -/
def dependencyArc (routines : Int → Option String) (nodes : List String) (d : DependencyRow) : Option Arc :=
  match routines d.referencingObjectId, dependencyTarget d with
  | some source, some (target, kind) =>
    if target ∈ nodes then some ⟨source, target, edgeAttrs "Creates" (dependencyAttrs kind d)⟩ else none
  | _, _ => none

/-- The nodes of tables and columns. -/
def Rows.dataNodes (rows : Rows) : List (String × Attrs) :=
  rows.tables.map tableNode ++ rows.columns.map (columnNode rows)

def Rows.nodes (sha256Hex : String → String) (includeDefinitions : Bool) (rows : Rows) : List (String × Attrs) :=
  rows.dataNodes ++ rows.routines.filterMap (routineNode sha256Hex includeDefinitions)

/-- The ids of the nodes. -/
def Rows.dataIds (rows : Rows) : List String :=
  rows.tables.map (fun t => tableId t.schemaName t.tableName) ++ rows.columns.map fun c => columnId c.key

def Rows.ids (rows : Rows) : List String := rows.dataIds ++ rows.routines.filterMap routineNodeId

def Rows.arcs (rows : Rows) : List Arc :=
  rows.columns.map storesArc ++ rows.foreignKeys.filterMap (linkArc rows.dataIds) ++
    rows.dependencies.filterMap (dependencyArc (routineNodes rows.routines) rows.ids)

/-- The rows describe distinct objects, and the tables of the columns are there. -/
structure Rows.Distinct (rows : Rows) : Prop where
  ids : rows.ids.Nodup
  tables : ∀ c ∈ rows.columns, ∃ t ∈ rows.tables, t.schemaName = c.schemaName ∧ t.tableName = c.tableName

theorem map_fst_dataNodes (rows : Rows) : rows.dataNodes.map Prod.fst = rows.dataIds := by
  unfold Rows.dataNodes Rows.dataIds
  rw [List.map_append, List.map_map, List.map_map]
  rfl

theorem map_fst_nodes (sha256Hex : String → String) (includeDefinitions : Bool) (rows : Rows) :
    (rows.nodes sha256Hex includeDefinitions).map Prod.fst = rows.ids := by
  unfold Rows.nodes Rows.ids
  rw [List.map_append, map_fst_dataNodes, List.map_filterMap]
  congr 1
  refine List.filterMap_congr fun r _ => ?_
  unfold routineNode routineNodeId
  rw [Option.map_map]
  rfl

/-! ### The loops -/

/-- A loop whose steps add nodes with new ids, and arcs.  `P` is what the steps need of the ids so far. -/
private theorem contains_foldl {σ α : Type} (f : σ → α → σ) (view : σ → Graph) (as : List α) (P : List String → Prop)
    (newNodes : α → List (String × Attrs)) (newArcs : α → List Arc)
    (hstep : ∀ a ∈ as, ∀ s ns es, P (ns.map Prod.fst) → ((ns ++ newNodes a).map Prod.fst).Nodup →
      Contains nx (view s) ns es → P ((ns ++ newNodes a).map Prod.fst) ∧
        Contains nx (view (f s a)) (ns ++ newNodes a) (es ++ newArcs a))
    {s : σ} (hP : P (ns.map Prod.fst)) (hnodup : ((ns ++ as.flatMap newNodes).map Prod.fst).Nodup)
    (h : Contains nx (view s) ns es) :
    Contains nx (view (as.foldl f s)) (ns ++ as.flatMap newNodes) (es ++ as.flatMap newArcs) := by
  induction as generalizing s ns es with
  | nil =>
    rw [List.flatMap_nil, List.flatMap_nil, List.append_nil, List.append_nil]
    exact h
  | cons a as ih =>
    rw [List.flatMap_cons, ← List.append_assoc] at hnodup
    have hfirst : ((ns ++ newNodes a).map Prod.fst).Nodup := by
      rw [List.map_append] at hnodup
      exact hnodup.of_append_left
    obtain ⟨hP', hnext⟩ := hstep a List.mem_cons_self s ns es hP hfirst h
    have hrest := ih (fun b hb => hstep b (List.mem_cons_of_mem _ hb)) hP' hnodup hnext
    rw [List.flatMap_cons, List.flatMap_cons, ← List.append_assoc, ← List.append_assoc]
    exact hrest

private theorem notMem_of_nodup {node : String} {attrs : Attrs} (h : ((ns ++ [(node, attrs)]).map Prod.fst).Nodup) :
    node ∉ ns.map Prod.fst := by
  rw [List.map_append, List.map_singleton, List.nodup_append] at h
  exact fun hmem => h.2.2 node hmem node List.mem_cons_self rfl

private theorem flatMap_none {α β : Type} (as : List α) : (as.flatMap fun _ => ([] : List β)) = [] :=
  List.flatMap_eq_nil_iff.2 fun _ _ => rfl

private theorem contains_tables (hnx : nx.Lawful) {ts : List TableRow}
    (hnodup : ((ns ++ ts.map tableNode).map Prod.fst).Nodup) (h : Contains nx graph ns es) :
    Contains nx (ts.foldl (addTable nx) graph) (ns ++ ts.map tableNode) es := by
  have hnodes : ts.map tableNode = ts.flatMap fun t => [tableNode t] := List.map_eq_flatMap
  rw [hnodes] at hnodup ⊢
  have hloop := contains_foldl (addTable nx) (fun graph => graph) ts (fun _ => True)
    (fun t => [tableNode t]) (fun _ => []) (fun t _ graph ns es _ hnew h => ?_) trivial hnodup h
  · rw [flatMap_none, List.append_nil] at hloop
    exact hloop
  · rw [List.append_nil]
    exact ⟨trivial, h.addNode hnx (tableAttrs t) (notMem_of_nodup hnew)⟩

private theorem contains_columns (hnx : nx.Lawful) (rows : Rows) (cs : List ColumnRow)
    (htables : ∀ c ∈ cs, tableId c.schemaName c.tableName ∈ ns.map Prod.fst)
    (hnodup : ((ns ++ cs.map (columnNode rows)).map Prod.fst).Nodup) (h : Contains nx graph ns es) :
    Contains nx (cs.foldl (addColumn nx rows) graph) (ns ++ cs.map (columnNode rows)) (es ++ cs.map storesArc) := by
  have hnodes : cs.map (columnNode rows) = cs.flatMap fun c => [columnNode rows c] := List.map_eq_flatMap
  have harcs : cs.map storesArc = cs.flatMap fun c => [storesArc c] := List.map_eq_flatMap
  rw [hnodes] at hnodup ⊢
  rw [harcs]
  refine contains_foldl (addColumn nx rows) (fun graph => graph) cs
    (fun ids => ∀ c ∈ cs, tableId c.schemaName c.tableName ∈ ids) _ _ (fun c hc graph ns es hP hnew h => ?_)
    htables hnodup h
  have hP' : ∀ c ∈ cs, tableId c.schemaName c.tableName ∈ (ns ++ [columnNode rows c]).map Prod.fst := by
    intro c' hc'
    rw [List.map_append]
    exact List.mem_append_left _ (hP c' hc')
  refine ⟨fun c' hc' => ?_, ?_⟩
  · rw [List.map_append]
    exact List.mem_append_left _ (hP c' hc')
  · have hnode := h.addNode hnx (rows.columnAttrs c) (notMem_of_nodup hnew)
    have hcolumn : columnId c.key ∈ (ns ++ [columnNode rows c]).map Prod.fst := by
      rw [List.map_append]
      exact List.mem_append_right _ List.mem_cons_self
    exact hnode.addEdge hnx (storesArc c) (hP' c hc) hcolumn

private theorem contains_links (hnx : nx.Lawful) {ids : List String} (fks : List ForeignKeyRow)
    (hids : ns.map Prod.fst = ids) (hnodup : (ns.map Prod.fst).Nodup) (h : Contains nx graph ns es) :
    Contains nx (fks.foldl (addLink nx) graph) ns (es ++ fks.filterMap (linkArc ids)) := by
  rw [List.filterMap_eq_flatMap_toList]
  have hloop := contains_foldl (addLink nx) (fun graph => graph) fks
    (fun ids' => ids' = ids) (fun _ => []) (fun fk => (linkArc ids fk).toList) (fun fk _ graph ns es hP _ h => ?_) hids
    (by rw [flatMap_none, List.append_nil]; exact hnodup) h
  · rw [flatMap_none, List.append_nil] at hloop
    exact hloop
  · rw [List.append_nil]
    refine ⟨hP, ?_⟩
    show Contains nx (addLink nx graph fk) ns (es ++ (linkArc ids fk).toList)
    have hin : ∀ node, inGraph nx graph node ↔ node ∈ ids := fun node => hP ▸ h.inGraph_iff
    unfold addLink linkArc
    by_cases hends : columnId fk.parentKey ∈ ids ∧ columnId fk.referencedKey ∈ ids
    · rw [if_pos ⟨(hin _).2 hends.1, (hin _).2 hends.2⟩, if_pos hends]
      exact h.addEdge hnx ⟨_, _, _⟩ (hP ▸ hends.1) (hP ▸ hends.2)
    · rw [if_neg fun hboth => hends ⟨(hin _).1 hboth.1, (hin _).1 hboth.2⟩, if_neg hends, Option.toList_none,
        List.append_nil]
      exact h

private theorem contains_routines (hnx : nx.Lawful) (sha256Hex : String → String) (includeDefinitions : Bool)
    {rs : List RoutineRow}
    (hnodup : ((ns ++ rs.filterMap (routineNode sha256Hex includeDefinitions)).map Prod.fst).Nodup)
    (h : Contains nx graph ns es) (routines : Int → Option String) :
    Contains nx (rs.foldl (addRoutine nx sha256Hex includeDefinitions) (graph, routines)).1
      (ns ++ rs.filterMap (routineNode sha256Hex includeDefinitions)) es := by
  rw [List.filterMap_eq_flatMap_toList] at hnodup ⊢
  have hloop := contains_foldl (s := (graph, routines)) (addRoutine nx sha256Hex includeDefinitions) Prod.fst rs
    (fun _ => True) (fun r => (routineNode sha256Hex includeDefinitions r).toList) (fun _ => [])
    (fun r _ state ns es _ hnew h => ?_) trivial hnodup h
  · rw [flatMap_none, List.append_nil] at hloop
    exact hloop
  · rw [List.append_nil]
    refine ⟨trivial, ?_⟩
    unfold addRoutine
    unfold routineNode at hnew ⊢
    cases htype : nodeType r.objectTypeCode with
    | none =>
      rw [Option.map_none, Option.toList_none, List.append_nil]
      exact h
    | some type =>
      rw [htype] at hnew
      exact h.addNode hnx _ (notMem_of_nodup hnew)

/-- The second component of the loop over the routines. -/
private theorem routineNodes_foldl (sha256Hex : String → String) (includeDefinitions : Bool) (rs : List RoutineRow)
    (state : Graph × (Int → Option String)) :
    (rs.foldl (addRoutine nx sha256Hex includeDefinitions) state).2 =
      Dict.assign state.2 (rs.filterMap fun r => (routineNodeId r).map fun node => (r.objectId, node)) := by
  induction rs generalizing state with
  | nil => rfl
  | cons r rs ih =>
    rw [List.foldl_cons, ih]
    unfold addRoutine routineNodeId
    cases htype : nodeType r.objectTypeCode with
    | none => rw [List.filterMap_cons_none (by rw [htype]; rfl)]
    | some type =>
      rw [List.filterMap_cons_some (by rw [htype]; rfl)]
      rfl

private theorem contains_dependencies (hnx : nx.Lawful) {routines : Int → Option String} {ids : List String}
    (ds : List DependencyRow) (hsource : ∀ id node, routines id = some node → node ∈ ids)
    (hids : ns.map Prod.fst = ids) (hnodup : (ns.map Prod.fst).Nodup) (h : Contains nx graph ns es) :
    Contains nx (ds.foldl (addDependency nx routines) graph) ns (es ++ ds.filterMap (dependencyArc routines ids)) := by
  rw [List.filterMap_eq_flatMap_toList]
  have hloop := contains_foldl (addDependency nx routines) (fun graph => graph) ds
    (fun ids' => ids' = ids) (fun _ => []) (fun d => (dependencyArc routines ids d).toList)
    (fun d _ graph ns es hP _ h => ?_) hids (by rw [flatMap_none, List.append_nil]; exact hnodup) h
  · rw [flatMap_none, List.append_nil] at hloop
    exact hloop
  · rw [List.append_nil]
    refine ⟨hP, ?_⟩
    show Contains nx (addDependency nx routines graph d) ns (es ++ (dependencyArc routines ids d).toList)
    have hin : ∀ node, inGraph nx graph node ↔ node ∈ ids := fun node => hP ▸ h.inGraph_iff
    have hnone : Contains nx graph ns (es ++ (none : Option Arc).toList) := by
      rw [Option.toList_none, List.append_nil]
      exact h
    unfold addDependency dependencyArc
    cases hroutine : routines d.referencingObjectId with
    | none => exact hnone
    | some source =>
      cases htarget : dependencyTarget d with
      | none => exact hnone
      | some target =>
        dsimp only
        by_cases hmem : target.1 ∈ ids
        · rw [if_pos ((hin _).2 hmem), if_pos hmem]
          exact h.addEdge hnx ⟨_, _, _⟩ (hP ▸ hsource _ _ hroutine) (hP ▸ hmem)
        · rw [if_neg (mt (hin _).1 hmem), if_neg hmem]
          exact hnone

theorem mem_ids_of_routineNodes {rows : Rows} {id : Int} {node : String}
    (h : routineNodes rows.routines id = some node) : ∃ r ∈ rows.routines, r.objectId = id ∧
    routineNodeId r = some node := by
  have hpair := Dict.mem_of_assign h
  obtain ⟨r, hr, hnode⟩ := List.mem_filterMap.1 hpair
  obtain ⟨node', hnode', hpair⟩ := Option.map_eq_some_iff.1 hnode
  obtain ⟨rfl, rfl⟩ := Prod.mk.inj hpair
  exact ⟨r, hr, rfl, hnode'⟩

/-- What a build contains. -/
theorem contains_buildGraph (hnx : nx.Lawful) (sha256Hex : String → String) (now : String) {rows : Rows}
    (includeDefinitions : Bool) (hrows : rows.Distinct) :
    Contains nx (buildGraph nx sha256Hex now rows includeDefinitions) (rows.nodes sha256Hex includeDefinitions)
      rows.arcs := by
  have hids : ((rows.nodes sha256Hex includeDefinitions).map Prod.fst).Nodup := by
    rw [map_fst_nodes]
    exact hrows.ids
  have hdata : (rows.dataNodes.map Prod.fst).Nodup := by
    unfold Rows.nodes at hids
    rw [List.map_append] at hids
    exact hids.of_append_left
  have htables : ((rows.tables.map tableNode).map Prod.fst).Nodup := by
    unfold Rows.dataNodes at hdata
    rw [List.map_append] at hdata
    exact hdata.of_append_left
  have hstart : Contains nx (nx.new (graphAttrs now)) [] [] := by
    refine ⟨hnx.nodes_new _, ?_⟩
    rw [hnx.edges_new]
    exact List.Perm.refl _
  have h₁ := contains_tables hnx htables hstart
  have h₂ := contains_columns hnx rows rows.columns (fun c hc => ?_) hdata h₁
  · have h₃ := contains_links hnx rows.foreignKeys (map_fst_dataNodes rows) hdata h₂
    have h₄ := contains_routines hnx sha256Hex includeDefinitions hids h₃ fun _ => none
    have hsource : ∀ id node, routineNodes rows.routines id = some node → node ∈ rows.ids := by
      intro id node hnode
      obtain ⟨r, hr, -, hr'⟩ := mem_ids_of_routineNodes hnode
      exact List.mem_append_right _ (List.mem_filterMap.2 ⟨r, hr, hr'⟩)
    have h₅ := contains_dependencies hnx rows.dependencies hsource (map_fst_nodes sha256Hex includeDefinitions rows)
      hids h₄
    unfold buildGraph
    dsimp only
    rw [routineNodes_foldl]
    exact h₅
  · obtain ⟨t, ht, hschema, hname⟩ := hrows.tables c hc
    rw [← hschema, ← hname]
    exact List.mem_map.2 ⟨tableNode t, List.mem_map_of_mem ht, rfl⟩

end AgentOS.DbGraph
