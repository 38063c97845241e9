import AgentOS.DbGraph.Catalog

/-!
# The targeted graph is an induced subgraph

The objects that a targeted build selects are those within its depth in the graph of foreign keys and dependencies
(`mem_discoverObjectIds`), and its nodes and edges are those of the full build that belong to them
(`targeted_is_induced`).
-/

namespace AgentOS.DbGraph

variable {Graph : Type} {nx : MultiDiGraph Graph} {collation : Collation} {catalog : Catalog collation}
  {ids : Finset Int}

/-! ### The neighbourhood -/

/-- Tables and routines by their object ids, with foreign keys and dependencies as edges. -/
def objectGraph (rows : Rows) : SimpleGraph Int :=
  SimpleGraph.fromRel fun a b =>
    (∃ fk ∈ rows.foreignKeys, fk.parentObjectId = a ∧ fk.referencedObjectId = b) ∨
      ∃ d ∈ rows.dependencies, d.referencingObjectId = a ∧ d.referencedObjectId = b

private theorem mem_neighbors {rows : Rows} {frontier : Finset Int} {a : Int} :
    a ∈ neighbors rows frontier ↔
      (∃ fk ∈ rows.foreignKeys, (fk.parentObjectId ∈ frontier ∨ fk.referencedObjectId ∈ frontier) ∧
        (a = fk.parentObjectId ∨ a = fk.referencedObjectId)) ∨
      ∃ d ∈ rows.dependencies, (d.referencingObjectId ∈ frontier ∨ d.referencedObjectId ∈ frontier) ∧
        (a = d.referencingObjectId ∨ a = d.referencedObjectId) := by
  unfold neighbors foreignKeysIn dependenciesIn
  simp only [Finset.mem_union, List.mem_toFinset, List.mem_flatMap, List.mem_filter, decide_eq_true_eq,
    List.mem_cons, List.not_mem_nil, or_false, and_assoc]

/-- One end of a pair is `a`, the other one is in `F`. -/
private theorem ends_iff {F : Finset Int} {a x y : Int} (ha : a ∉ F) :
    ((x ∈ F ∨ y ∈ F) ∧ (a = x ∨ a = y)) ↔ ∃ b ∈ F, b ≠ a ∧ (x = b ∧ y = a ∨ x = a ∧ y = b) := by
  constructor
  · rintro ⟨hx | hy, rfl | rfl⟩
    · exact absurd hx ha
    · exact ⟨x, hx, fun h => ha (h ▸ hx), Or.inl ⟨rfl, rfl⟩⟩
    · exact ⟨y, hy, fun h => ha (h ▸ hy), Or.inr ⟨rfl, rfl⟩⟩
    · exact absurd hy ha
  · rintro ⟨b, hb, -, ⟨rfl, rfl⟩ | ⟨rfl, rfl⟩⟩
    · exact ⟨Or.inl hb, Or.inr rfl⟩
    · exact ⟨Or.inr hb, Or.inl rfl⟩

private theorem expands_neighbors (rows : Rows) : Bfs.Expands (objectGraph rows) (neighbors rows) := by
  intro F a ha
  rw [mem_neighbors]
  constructor
  · rintro (⟨fk, hfk, hends⟩ | ⟨d, hd, hends⟩)
    · obtain ⟨b, hb, hne, ⟨hp, hr⟩ | ⟨hp, hr⟩⟩ := (ends_iff ha).1 hends
      · exact ⟨b, hb, hne, Or.inl (Or.inl ⟨fk, hfk, hp, hr⟩)⟩
      · exact ⟨b, hb, hne, Or.inr (Or.inl ⟨fk, hfk, hp, hr⟩)⟩
    · obtain ⟨b, hb, hne, ⟨hp, hr⟩ | ⟨hp, hr⟩⟩ := (ends_iff ha).1 hends
      · exact ⟨b, hb, hne, Or.inl (Or.inr ⟨d, hd, hp, hr⟩)⟩
      · exact ⟨b, hb, hne, Or.inr (Or.inr ⟨d, hd, hp, hr⟩)⟩
  · rintro ⟨b, hb, hne, (⟨fk, hfk, hp, hr⟩ | ⟨d, hd, hp, hr⟩) | (⟨fk, hfk, hp, hr⟩ | ⟨d, hd, hp, hr⟩)⟩
    · exact Or.inl ⟨fk, hfk, (ends_iff ha).2 ⟨b, hb, hne, Or.inl ⟨hp, hr⟩⟩⟩
    · exact Or.inr ⟨d, hd, (ends_iff ha).2 ⟨b, hb, hne, Or.inl ⟨hp, hr⟩⟩⟩
    · exact Or.inl ⟨fk, hfk, (ends_iff ha).2 ⟨b, hb, hne, Or.inr ⟨hp, hr⟩⟩⟩
    · exact Or.inr ⟨d, hd, (ends_iff ha).2 ⟨b, hb, hne, Or.inr ⟨hp, hr⟩⟩⟩

/-- The objects that are discovered are those within the depth. -/
theorem mem_discoverObjectIds {rows : Rows} {seed maxDepth id : Int} :
    id ∈ discoverObjectIds rows seed maxDepth ↔ Bfs.Within (objectGraph rows) maxDepth.toNat seed id :=
  Bfs.mem_explore (expands_neighbors rows)

/-! ### Restriction -/

/-- The id of the object that a node belongs to: the table of a column, and otherwise the object itself. -/
def owner (attrs : Attrs) : Json :=
  match Json.get attrs "node_type" with
  | .str "Column" => Json.get attrs "table_object_id"
  | _ => Json.get attrs "object_id"

/-- The node belongs to an object that is kept. -/
def belongs (keep : Int → Prop) [DecidablePred keep] (attrs : Attrs) : Bool :=
  match owner attrs with
  | .int id => keep id
  | _ => false

/-- The nodes that belong to the objects that are kept, and the edges between them. -/
def GraphData.restrict (keep : Int → Prop) [DecidablePred keep] (data : GraphData) : GraphData :=
  let nodes := data.nodes.filter fun node => belongs keep node.2
  { data with
    nodes
    edges := data.edges.filter fun edge =>
      edge.source ∈ nodes.map Prod.fst ∧ edge.target ∈ nodes.map Prod.fst }

private theorem belongs_routine (sha256Hex : String → String) (includeDefinitions : Bool) {type : String}
    (htype : type = "Procedure" ∨ type = "Function") (r : RoutineRow) :
    belongs (· ∈ ids) (compactDict (routineAttrs sha256Hex includeDefinitions type r)) = decide (r.objectId ∈ ids) := by
  rcases htype with rfl | rfl
  · rfl
  · rfl

/-! ### Nodes -/

/-- The key of a column determines it. -/
private theorem column_of_key {c c' : ColumnRow} (hc : c ∈ catalog.columns) (hc' : c' ∈ catalog.columns)
    (h : c.key = c'.key) : c = c' :=
  List.inj_on_of_nodup_map catalog.columnKeys hc hc' h

/-- The primary keys and the foreign keys that concern a column are selected with its table. -/
private theorem columnAttrs_rowsIn {c : ColumnRow} (hc : c ∈ catalog.columns) (hin : c.tableObjectId ∈ ids) :
    (rowsIn catalog.toRows ids).columnAttrs c = catalog.toRows.columnAttrs c := by
  have hpk : pkLookup (rowsIn catalog.toRows ids).primaryKeys c.key = pkLookup catalog.primaryKeys c.key := by
    have hpairs : (rowsIn catalog.toRows ids).primaryKeys.map (fun pk => (pk.key, pk)) =
        (catalog.primaryKeys.map fun pk => (pk.key, pk)).filter fun pair => pair.2.tableObjectId ∈ ids := by
      rw [List.filter_map]
      rfl
    unfold pkLookup
    rw [hpairs]
    refine Dict.assign_filter fun pair hpair hkey => ?_
    obtain ⟨pk, hpk, rfl⟩ := List.mem_map.1 hpair
    obtain ⟨c', hc', hkey', hid⟩ := catalog.primaryKeyColumns pk hpk
    obtain rfl := column_of_key hc' hc (hkey'.trans hkey)
    exact decide_eq_true (hid ▸ hin)
  have hparent : c.key ∈ (foreignKeysIn catalog.toRows ids).map ForeignKeyRow.parentKey ↔
      c.key ∈ catalog.foreignKeys.map ForeignKeyRow.parentKey := by
    constructor
    · exact fun h => (List.filter_sublist.map _).subset h
    · intro h
      obtain ⟨fk, hfk, hkey⟩ := List.mem_map.1 h
      obtain ⟨⟨c', hc', hkey', hid⟩, -⟩ := catalog.foreignKeyColumns fk hfk
      obtain rfl := column_of_key hc' hc (hkey'.trans hkey)
      exact List.mem_map.2 ⟨fk, List.mem_filter.2 ⟨hfk, decide_eq_true (Or.inl (hid ▸ hin))⟩, hkey⟩
  have hreferenced : c.key ∈ (foreignKeysIn catalog.toRows ids).map ForeignKeyRow.referencedKey ↔
      c.key ∈ catalog.foreignKeys.map ForeignKeyRow.referencedKey := by
    constructor
    · exact fun h => (List.filter_sublist.map _).subset h
    · intro h
      obtain ⟨fk, hfk, hkey⟩ := List.mem_map.1 h
      obtain ⟨-, c', hc', hkey', hid⟩ := catalog.foreignKeyColumns fk hfk
      obtain rfl := column_of_key hc' hc (hkey'.trans hkey)
      exact List.mem_map.2 ⟨fk, List.mem_filter.2 ⟨hfk, decide_eq_true (Or.inr (hid ▸ hin))⟩, hkey⟩
  unfold Rows.columnAttrs
  rw [hpk]
  congr 1
  · exact decide_eq_decide.2 hparent
  · exact decide_eq_decide.2 hreferenced

/-- A node as `graph_to_json` shows it. -/
private def shown (node : String × Attrs) : String × Attrs := (node.1, compactDict node.2)

/-- The nodes of a targeted build are those of the full one that belong to the objects. -/
private theorem nodes_rowsIn (sha256Hex : String → String) (includeDefinitions : Bool) :
    ((rowsIn catalog.toRows ids).nodes sha256Hex includeDefinitions).map shown =
      ((catalog.toRows.nodes sha256Hex includeDefinitions).map shown).filter fun node => belongs (· ∈ ids) node.2 := by
  unfold Rows.nodes Rows.dataNodes
  rw [List.filter_map, List.filter_append, List.filter_append, List.filter_map, List.filter_map,
    List.filter_filterMap]
  congr 2
  · congr 1
    refine List.map_congr_left fun c hc => ?_
    obtain ⟨hcolumn, hin⟩ := List.mem_filter.1 hc
    exact congrArg (Prod.mk _) (columnAttrs_rowsIn hcolumn (of_decide_eq_true hin))
  · show (catalog.routines.filter _).filterMap _ = _
    rw [List.filterMap_filter]
    refine List.filterMap_congr fun r _ => ?_
    unfold routineNode
    cases htype : nodeType r.objectTypeCode with
    | none => rw [Option.map_none, ite_self]; rfl
    | some type =>
      have hbelongs : belongs (· ∈ ids) (compactDict (routineAttrs sha256Hex includeDefinitions type r)) =
          decide (r.objectId ∈ ids) := belongs_routine sha256Hex includeDefinitions (nodeType_eq_some htype) r
      rw [Option.map_some, Option.filter_some]
      show _ = if belongs (· ∈ ids) (compactDict _) = true then _ else _
      rw [hbelongs]

/-! ### Edges -/

/-- The ids of the nodes, each with the id of its object. -/
private def owned (rows : Rows) : List (String × Int) :=
  rows.tables.map (fun t => (tableId t.schemaName t.tableName, t.objectId)) ++
    rows.columns.map (fun c => (columnId c.key, c.tableObjectId)) ++
    rows.routines.filterMap fun r => (routineNodeId r).map fun node => (node, r.objectId)

private theorem map_fst_owned (rows : Rows) : (owned rows).map Prod.fst = rows.ids := by
  unfold owned Rows.ids Rows.dataIds
  rw [List.map_append, List.map_append, List.map_map, List.map_map, List.map_filterMap]
  congr 1
  refine List.filterMap_congr fun r _ => ?_
  cases routineNodeId r with
  | none => rfl
  | some node => rfl

private theorem owned_rowsIn (rows : Rows) :
    owned (rowsIn rows ids) = (owned rows).filter fun pair => pair.2 ∈ ids := by
  unfold owned
  rw [List.filter_append, List.filter_append, List.filter_map, List.filter_map, List.filter_filterMap]
  congr 1
  show (rows.routines.filter _).filterMap _ = _
  rw [List.filterMap_filter]
  refine List.filterMap_congr fun r _ => ?_
  cases routineNodeId r with
  | none => rw [Option.map_none, ite_self]; rfl
  | some node => rw [Option.map_some, Option.filter_some]

/-- A node is selected if its object is. -/
private theorem mem_ids_rowsIn {node : String} {id : Int} (h : (node, id) ∈ owned catalog.toRows) :
    node ∈ (rowsIn catalog.toRows ids).ids ↔ id ∈ ids := by
  rw [← map_fst_owned, owned_rowsIn]
  have hnodup : ((owned catalog.toRows).map Prod.fst).Nodup := by
    rw [map_fst_owned]
    exact catalog.nodup_ids
  constructor
  · intro hmem
    obtain ⟨pair, hpair, hnode⟩ := List.mem_map.1 hmem
    obtain ⟨howned, hin⟩ := List.mem_filter.1 hpair
    obtain rfl := List.inj_on_of_nodup_map hnodup howned h hnode
    exact of_decide_eq_true hin
  · intro hin
    exact List.mem_map.2 ⟨(node, id), List.mem_filter.2 ⟨h, decide_eq_true hin⟩, rfl⟩

private theorem ids_rowsIn_subset {rows : Rows} {node : String} (h : node ∈ (rowsIn rows ids).ids) :
    node ∈ rows.ids := by
  rw [← map_fst_owned, owned_rowsIn] at h
  rw [← map_fst_owned]
  exact (List.filter_sublist.map _).subset h

private theorem mem_ids_column {c : ColumnRow} (hc : c ∈ catalog.columns) :
    columnId c.key ∈ (rowsIn catalog.toRows ids).ids ↔ c.tableObjectId ∈ ids :=
  mem_ids_rowsIn (List.mem_append_left _ (List.mem_append_right _ (List.mem_map.2 ⟨c, hc, rfl⟩)))

private theorem mem_ids_table {t : TableRow} (ht : t ∈ catalog.tables) :
    tableId t.schemaName t.tableName ∈ (rowsIn catalog.toRows ids).ids ↔ t.objectId ∈ ids :=
  mem_ids_rowsIn (List.mem_append_left _ (List.mem_append_left _ (List.mem_map.2 ⟨t, ht, rfl⟩)))

private theorem mem_ids_routine {r : RoutineRow} {node : String} (hr : r ∈ catalog.routines)
    (hnode : routineNodeId r = some node) : node ∈ (rowsIn catalog.toRows ids).ids ↔ r.objectId ∈ ids :=
  mem_ids_rowsIn (List.mem_append_right _ (List.mem_filterMap.2 ⟨r, hr, by rw [hnode]; rfl⟩))

private theorem mem_dataIds_column {c : ColumnRow} (hc : c ∈ catalog.columns) :
    columnId c.key ∈ (rowsIn catalog.toRows ids).dataIds ↔ c.tableObjectId ∈ ids := by
  constructor
  · exact fun h => (mem_ids_column hc).1 (List.mem_append_left _ h)
  · intro hin
    exact List.mem_append_right _ (List.mem_map.2 ⟨c, List.mem_filter.2 ⟨hc, decide_eq_true hin⟩, rfl⟩)

/-- Both ends of an arc are selected. -/
private def kept (catalog : Catalog collation) (ids : Finset Int) (arc : Arc) : Bool :=
  arc.source ∈ (rowsIn catalog.toRows ids).ids ∧ arc.target ∈ (rowsIn catalog.toRows ids).ids

private theorem kept_iff {arc : Arc} : kept catalog ids arc = true ↔
    arc.source ∈ (rowsIn catalog.toRows ids).ids ∧ arc.target ∈ (rowsIn catalog.toRows ids).ids :=
  decide_eq_true_iff

private theorem stores_rowsIn :
    (rowsIn catalog.toRows ids).columns.map storesArc = (catalog.columns.map storesArc).filter (kept catalog ids) := by
  rw [List.filter_map]
  refine congrArg _ (List.filter_congr fun c hc => decide_eq_decide.2 ?_)
  obtain ⟨t, ht, hschema, hname, hid⟩ := catalog.columnTables c hc
  have htable : tableId t.schemaName t.tableName ∈ (rowsIn catalog.toRows ids).ids ↔ t.objectId ∈ ids :=
    mem_ids_table ht
  rw [hschema, hname, hid] at htable
  exact ⟨fun hin => ⟨htable.2 hin, (mem_ids_column hc).2 hin⟩, fun h => (mem_ids_column hc).1 h.2⟩

private theorem links_rowsIn :
    (rowsIn catalog.toRows ids).foreignKeys.filterMap (linkArc (rowsIn catalog.toRows ids).dataIds) =
      (catalog.foreignKeys.filterMap (linkArc catalog.toRows.dataIds)).filter (kept catalog ids) := by
  show (catalog.foreignKeys.filter _).filterMap _ = _
  rw [List.filterMap_filter, List.filter_filterMap]
  refine List.filterMap_congr fun fk hfk => ?_
  obtain ⟨⟨c, hc, hkey, hid⟩, c', hc', hkey', hid'⟩ := catalog.foreignKeyColumns fk hfk
  have hfull : columnId fk.parentKey ∈ catalog.toRows.dataIds ∧ columnId fk.referencedKey ∈ catalog.toRows.dataIds :=
    ⟨List.mem_append_right _ (List.mem_map.2 ⟨c, hc, by rw [hkey]⟩),
      List.mem_append_right _ (List.mem_map.2 ⟨c', hc', by rw [hkey']⟩)⟩
  have hdata : columnId fk.parentKey ∈ (rowsIn catalog.toRows ids).dataIds ∧
      columnId fk.referencedKey ∈ (rowsIn catalog.toRows ids).dataIds ↔
      fk.parentObjectId ∈ ids ∧ fk.referencedObjectId ∈ ids := by
    rw [← hkey, ← hkey', mem_dataIds_column hc, mem_dataIds_column hc', hid, hid']
  have hkept : columnId fk.parentKey ∈ (rowsIn catalog.toRows ids).ids ∧
      columnId fk.referencedKey ∈ (rowsIn catalog.toRows ids).ids ↔
      fk.parentObjectId ∈ ids ∧ fk.referencedObjectId ∈ ids := by
    rw [← hkey, ← hkey', mem_ids_column hc, mem_ids_column hc', hid, hid']
  unfold linkArc
  rw [if_pos hfull, Option.filter_some]
  by_cases hboth : fk.parentObjectId ∈ ids ∧ fk.referencedObjectId ∈ ids
  · rw [if_pos (decide_eq_true (Or.inl hboth.1)), if_pos (hdata.2 hboth), if_pos (kept_iff.2 (hkept.2 hboth))]
  · rw [if_neg (mt hdata.1 hboth), ite_self, if_neg fun h => hboth (hkept.1 (kept_iff.1 h))]

/-- A routine that is selected is found by its object id. -/
private theorem routineNodes_rowsIn {id : Int} (hin : id ∈ ids) :
    routineNodes (rowsIn catalog.toRows ids).routines id = routineNodes catalog.routines id := by
  have hpairs : ((rowsIn catalog.toRows ids).routines.filterMap fun r =>
        (routineNodeId r).map fun node => (r.objectId, node)) =
      (catalog.routines.filterMap fun r => (routineNodeId r).map fun node => (r.objectId, node)).filter
        fun pair => pair.1 ∈ ids := by
    show (catalog.routines.filter _).filterMap _ = _
    rw [List.filterMap_filter, List.filter_filterMap]
    refine List.filterMap_congr fun r _ => ?_
    cases routineNodeId r with
    | none => rw [Option.map_none, ite_self]; rfl
    | some node => rw [Option.map_some, Option.filter_some]
  unfold routineNodes
  rw [hpairs]
  refine Dict.assign_filter fun pair _ hkey => ?_
  rw [hkey]
  exact decide_eq_true hin

private theorem dependencies_rowsIn :
    (rowsIn catalog.toRows ids).dependencies.filterMap
        (dependencyArc (routineNodes (rowsIn catalog.toRows ids).routines) (rowsIn catalog.toRows ids).ids) =
      (catalog.dependencies.filterMap (dependencyArc (routineNodes catalog.routines) catalog.toRows.ids)).filter
        (kept catalog ids) := by
  show (catalog.dependencies.filter _).filterMap _ = _
  rw [List.filterMap_filter, List.filter_filterMap]
  refine List.filterMap_congr fun d _ => ?_
  by_cases hin : d.referencingObjectId ∈ ids
  · rw [if_pos (decide_eq_true (Or.inl hin))]
    unfold dependencyArc
    rw [routineNodes_rowsIn hin]
    cases hroutine : routineNodes catalog.routines d.referencingObjectId with
    | none => rfl
    | some source =>
      obtain ⟨r, hr, hid, hnode⟩ := mem_ids_of_routineNodes hroutine
      have hsource : source ∈ (rowsIn catalog.toRows ids).ids := (mem_ids_routine hr hnode).2 (hid ▸ hin)
      cases dependencyTarget d with
      | none => rfl
      | some target =>
        dsimp only
        by_cases htarget : target.1 ∈ (rowsIn catalog.toRows ids).ids
        · rw [if_pos htarget, if_pos (ids_rowsIn_subset htarget), Option.filter_some,
            if_pos (kept_iff.2 ⟨hsource, htarget⟩)]
        · rw [if_neg htarget]
          split
          · rw [Option.filter_some, if_neg fun h => htarget (kept_iff.1 h).2]
          · rfl
  · have hnone : routineNodes (rowsIn catalog.toRows ids).routines d.referencingObjectId = none := by
      rw [Option.eq_none_iff_forall_not_mem]
      intro node hnode
      obtain ⟨r, hr, hid, -⟩ := mem_ids_of_routineNodes hnode
      exact hin (hid ▸ of_decide_eq_true (List.mem_filter.1 hr).2)
    have hleft : dependencyArc (routineNodes (rowsIn catalog.toRows ids).routines) (rowsIn catalog.toRows ids).ids d =
        none := by
      unfold dependencyArc
      rw [hnone]
    rw [hleft, ite_self]
    unfold dependencyArc
    cases hroutine : routineNodes catalog.routines d.referencingObjectId with
    | none => rfl
    | some source =>
      obtain ⟨r, hr, hid, hnode⟩ := mem_ids_of_routineNodes hroutine
      have hsource : source ∉ (rowsIn catalog.toRows ids).ids :=
        fun h => hin (hid ▸ (mem_ids_routine hr hnode).1 h)
      cases dependencyTarget d with
      | none => rfl
      | some target =>
        dsimp only
        split
        · rw [Option.filter_some, if_neg fun h => hsource (kept_iff.1 h).1]
        · rfl

/-- The arcs of a targeted build are those of the full one whose ends are selected. -/
private theorem arcs_rowsIn : (rowsIn catalog.toRows ids).arcs = catalog.toRows.arcs.filter (kept catalog ids) := by
  unfold Rows.arcs
  rw [List.filter_append, List.filter_append, stores_rowsIn, links_rowsIn, dependencies_rowsIn]

/-! ### The targeted graph -/

/-- The data of a targeted build are those of the full one, restricted to the objects that it selects. -/
private theorem graphData_rowsIn (hnx : nx.Lawful) (sha256Hex : String → String) (now now' : String)
    (includeDefinitions : Bool) :
    (buildGraphData nx sha256Hex now (rowsIn catalog.toRows ids) includeDefinitions).nodes =
        ((buildGraphData nx sha256Hex now' catalog.toRows includeDefinitions).restrict (· ∈ ids)).nodes ∧
      (buildGraphData nx sha256Hex now (rowsIn catalog.toRows ids) includeDefinitions).edges.Perm
        ((buildGraphData nx sha256Hex now' catalog.toRows includeDefinitions).restrict (· ∈ ids)).edges := by
  have hpart := contains_buildGraph hnx sha256Hex now includeDefinitions (catalog.distinct_rowsIn ids)
  have hfull := contains_buildGraph hnx sha256Hex now' includeDefinitions catalog.distinct
  have hnodes : (buildGraphData nx sha256Hex now (rowsIn catalog.toRows ids) includeDefinitions).nodes =
      (buildGraphData nx sha256Hex now' catalog.toRows includeDefinitions).nodes.filter
        fun node => belongs (· ∈ ids) node.2 := by
    show (nx.nodes _).map shown = ((nx.nodes _).map shown).filter _
    rw [hpart.nodes, hfull.nodes]
    exact nodes_rowsIn sha256Hex includeDefinitions
  refine ⟨hnodes, ?_⟩
  have hids : ((buildGraphData nx sha256Hex now' catalog.toRows includeDefinitions).nodes.filter
      fun node => belongs (· ∈ ids) node.2).map Prod.fst = (rowsIn catalog.toRows ids).ids := by
    rw [← hnodes]
    show ((nx.nodes _).map shown).map Prod.fst = _
    rw [hpart.nodes, List.map_map, ← map_fst_nodes sha256Hex includeDefinitions]
    rfl
  have hedges : ((buildGraphData nx sha256Hex now' catalog.toRows includeDefinitions).restrict (· ∈ ids)).edges =
      ((nx.edges (buildGraph nx sha256Hex now' catalog.toRows includeDefinitions)).filter fun edge =>
        edge.source ∈ (rowsIn catalog.toRows ids).ids ∧ edge.target ∈ (rowsIn catalog.toRows ids).ids).map fun edge =>
          { edge with attrs := compactDict edge.attrs } := by
    unfold GraphData.restrict
    dsimp only
    rw [hids]
    show List.filter _ (List.map _ _) = _
    rw [List.filter_map]
    rfl
  have hnumber := filter_number (fun source target => source ∈ (rowsIn catalog.toRows ids).ids ∧
    target ∈ (rowsIn catalog.toRows ids).ids) [] catalog.toRows.arcs
  rw [hedges]
  refine List.Perm.map _ (hpart.edges.trans ?_)
  rw [arcs_rowsIn]
  exact (List.Perm.of_eq hnumber.symm).trans (hfull.edges.symm.filter _)

open scoped Classical in
/-- **The targeted graph is induced.**  For every entry point of a catalog and every depth, a targeted build has the
nodes of the full build that belong to objects within the depth of the entry object, in the same order, and the edges
between them, keys and attributes included. -/
theorem targeted_is_induced (hnx : nx.Lawful) (sha256Hex : String → String) (now now' : String)
    (includeDefinitions : Bool) {entryPoint : String} {entryType : EntryType} {seed : Int} (maxDepth : Int)
    (hentry : catalog.Names entryPoint entryType seed) : ∃ data,
      buildTargetedGraphData nx sha256Hex now collation.same catalog.toRows entryPoint entryType maxDepth
        includeDefinitions = .ok data ∧
      let induced := (buildGraphData nx sha256Hex now' catalog.toRows includeDefinitions).restrict
        (Bfs.Within (objectGraph catalog.toRows) maxDepth.toNat seed)
      data.nodes = induced.nodes ∧ data.edges.Perm induced.edges := by
  obtain ⟨schema, name, hsplit, hresolve⟩ := catalog.resolve_entry hentry
  refine ⟨buildGraphData nx sha256Hex now (rowsIn catalog.toRows (discoverObjectIds catalog.toRows seed maxDepth))
    includeDefinitions, ?_, ?_⟩
  · unfold buildTargetedGraphData
    rw [hsplit, Except.map]
    simp only [hresolve]
    rfl
  · have hwithin : Bfs.Within (objectGraph catalog.toRows) maxDepth.toNat seed =
        fun id => id ∈ discoverObjectIds catalog.toRows seed maxDepth :=
      funext fun id => propext mem_discoverObjectIds.symm
    have hrestrict : ∀ data : GraphData, data.restrict (Bfs.Within (objectGraph catalog.toRows) maxDepth.toNat seed) =
        data.restrict (· ∈ discoverObjectIds catalog.toRows seed maxDepth) := by
      intro data
      congr 1
    dsimp only
    rw [hrestrict]
    exact graphData_rowsIn hnx sha256Hex now now' includeDefinitions

/-! ### A catalog of two tables and a procedure -/

/-- A graph as the lists of its nodes and edges. -/
def listGraph : MultiDiGraph (Attrs × List (String × Attrs) × List Edge) where
  new attrs := (attrs, [], [])
  addNode graph node attrs := (graph.1, graph.2.1 ++ [(node, attrs)], graph.2.2)
  addEdge graph source target attrs :=
    (graph.1, graph.2.1, graph.2.2 ++
      [⟨source, target, graph.2.2.countP fun e => e.source = source ∧ e.target = target, attrs⟩])
  graph graph := graph.1
  nodes graph := graph.2.1
  edges graph := graph.2.2

theorem lawful_listGraph : listGraph.Lawful where
  nodes_new _ := rfl
  edges_new _ := rfl
  nodes_addNode _ _ _ _ := rfl
  edges_addNode _ _ _ _ := List.Perm.refl _
  nodes_addEdge _ _ _ _ _ _ := rfl
  edges_addEdge _ _ _ _ _ _ := List.Perm.refl _

def exactly : Collation := ⟨fun a b => a = b, fun _ => decide_eq_true rfl⟩

private def shop : Catalog exactly where
  tables := [⟨"dbo", "customers", 1, "2026-01-01", "2026-01-01", false, "NON_TEMPORAL_TABLE"⟩,
    ⟨"dbo", "orders", 2, "2026-01-01", "2026-01-01", false, "NON_TEMPORAL_TABLE"⟩]
  columns := [⟨"dbo", "customers", 1, 1, "id", "int", 4, 10, 0, false, true, false, none, none, none⟩,
    ⟨"dbo", "orders", 2, 1, "customer", "int", 4, 10, 0, false, false, false, none, none, none⟩]
  primaryKeys := [⟨"dbo", "customers", "id", "PK_customers", 1, 1⟩]
  foreignKeys := [⟨"FK_orders_customers", "dbo", "orders", "customer", "dbo", "customers", "id", 1, "NO_ACTION",
    "NO_ACTION", false, false, 2, 1⟩]
  routines := [⟨"dbo", "purge", 3, "P", "SQL_STORED_PROCEDURE", "2026-01-01", "2026-01-01", none, none, none, none⟩]
  dependencies := [⟨3, some "dbo", some "customers", none, false, false, 1⟩]
  tableNames := by decide
  routineNames := by decide
  columnKeys := by decide
  routineIds := by decide
  dotlessTables := by unfold Dotless; decide +kernel
  dotlessColumns := by unfold Dotless; decide +kernel
  dotlessRoutines := by unfold Dotless; decide +kernel
  columnTables := by decide
  primaryKeyColumns := by decide
  foreignKeyColumns := by decide

open scoped Classical in
/-- One hop from the table of orders: the procedure, two hops away, is left out with its edge. -/
theorem targeted_is_induced_shop : ∃ data,
    buildTargetedGraphData listGraph id "2026-01-02" exactly.same shop.toRows "dbo.orders" .table 1 false = .ok data ∧
      let induced := (buildGraphData listGraph id "2026-01-03" shop.toRows false).restrict
        (Bfs.Within (objectGraph shop.toRows) 1 2)
      data.nodes = induced.nodes ∧ data.edges.Perm induced.edges :=
  targeted_is_induced lawful_listGraph id "2026-01-02" "2026-01-03" false 1
    (@Catalog.Names.table _ shop _ (List.mem_cons_of_mem _ List.mem_cons_self))

end AgentOS.DbGraph
