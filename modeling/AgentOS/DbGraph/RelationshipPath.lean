import AgentOS.DbGraph.Induced
import AgentOS.GraphTools.FindPath
import AgentOS.Lib.Rank

/-!
# Paths between tables

`db_find_relationship_path` of `mcp/db_graph_tools.py` is meant to find foreign-key paths, but searches the whole graph,
in which routines connect tables too, and stops after five paths.  A name with a colon is cut at it.

* `relationship_path_iff`: when it returns foreign-key paths only, and one if there is one.
-/

namespace AgentOS.DbGraph

open GraphTools

/-- `_strip_type_prefix` of a text. -/
def stripTypePrefix (nodeId : String) : String :=
  match nodeId.toList.dropWhile (· ≠ ':') with
  | [] => nodeId
  | _ :: rest => String.ofList rest

/-- What is read of the edges. -/
def searchEdges (data : GraphData) : List (GraphTools.Edge String Json) :=
  data.edges.map fun edge => ⟨edge.source, edge.target, Json.get edge.attrs "relationship"⟩

/-- The node at which the search starts or ends. -/
def searchNode (table : String) : String := "table:" ++ stripTypePrefix table

/-- A path as it is returned, with the prefixes stripped. -/
def strippedPath (found : FoundPath String Json) : FoundPath String Json where
  path := found.path.map stripTypePrefix
  relationships := found.relationships

/-- `db_find_relationship_path`, with a bound on the rounds of its loop. -/
def dbFindRelationshipPath (rounds : Nat) (data : GraphData) (table1 table2 : String) :
    Option (List (FoundPath String Json)) :=
  (searchPaths (adjacent (searchEdges data) false) (searchNode table2) (fun n => n > 10) 5 rounds
    [⟨searchNode table1, [searchNode table1], []⟩] []).map (List.map strippedPath)

/-! ### Foreign-key paths -/

/-- The name of a table, as a caller gives it. -/
def TableRow.qualifiedName (t : TableRow) : String := t.schemaName ++ "." ++ t.tableName

def TableRow.node (t : TableRow) : String := tableId t.schemaName t.tableName

section

variable (data : GraphData)

/-- A simple path of at most ten nodes. -/
def IsShortPath (source target : String) (p : List (String × Fin (searchEdges data).length)) : Prop :=
  IsPathWithin (searchEdges data) false source target 9 p

/-- The path uses only `Stores` and `Links` edges. -/
def UsesKeys (p : List (String × Fin (searchEdges data).length)) : Prop :=
  ∀ step ∈ p, ((searchEdges data).get step.2).relationship = .str "Stores" ∨
    ((searchEdges data).get step.2).relationship = .str "Links"

def IsForeignKeyPath (t t' : TableRow) (p : List (String × Fin (searchEdges data).length)) : Prop :=
  IsShortPath data t.node t'.node p ∧ UsesKeys data p

/-- The path that is returned is a foreign-key path between the tables. -/
def ShowsForeignKeyPath (t t' : TableRow) (found : FoundPath String Json) : Prop :=
  ∃ p, IsForeignKeyPath data t t' p ∧ found = strippedPath (GraphTools.shown (searchEdges data) t.node p)

/-- At least five paths come before every path that uses another edge: they are shorter, or as long and their edges come
first in the graph. -/
def Uncrowded (t t' : TableRow) : Prop :=
  ∀ p, IsShortPath data t.node t'.node p → ¬ UsesKeys data p →
    5 ≤ {q | IsShortPath data t.node t'.node q ∧ List.Shortlex (· < ·) (Paths.edges q) (Paths.edges p)}.encard

/-- The nodes that the search goes by are not those of the tables, but nothing connects them or the tables. -/
def Unconnected (t t' : TableRow) : Prop :=
  (∀ p, ¬ IsShortPath data (searchNode t.qualifiedName) (searchNode t'.qualifiedName) p) ∧
    ∀ p, ¬ IsForeignKeyPath data t t' p

end

/-! ### Names -/

theorem stripTypePrefix_of_notMem {name : String} (h : ':' ∉ name.toList) : stripTypePrefix name = name := by
  have hdrop : name.toList.dropWhile (· ≠ ':') = [] := by
    rw [List.dropWhile_eq_nil_iff]
    intro c hc
    simpa using fun heq : c = ':' => h (heq ▸ hc)
  rw [stripTypePrefix, hdrop]

theorem stripTypePrefix_table (name : String) : stripTypePrefix ("table:" ++ name) = name := by
  have hdrop : ("table:" ++ name).toList.dropWhile (· ≠ ':') = ':' :: name.toList := by
    rw [String.toList_append]
    rfl
  rw [stripTypePrefix, hdrop]
  exact String.ofList_toList

theorem stripTypePrefix_ne {name : String} (h : ':' ∈ name.toList) : stripTypePrefix name ≠ name := by
  intro heq
  have hdrop : name.toList.dropWhile (· ≠ ':') ≠ [] := by
    rw [Ne, List.dropWhile_eq_nil_iff]
    intro hall
    exact absurd (hall ':' h) (by decide)
  obtain ⟨c, rest, hrest⟩ := List.exists_cons_of_ne_nil hdrop
  rw [stripTypePrefix, hrest] at heq
  have hlength := (List.dropWhile_suffix (· ≠ ':') (l := name.toList)).length_le
  rw [hrest, List.length_cons, ← heq, String.toList_ofList] at hlength
  omega

theorem node_eq (t : TableRow) : t.node = "table:" ++ t.qualifiedName := by
  rw [TableRow.node, tableId, TableRow.qualifiedName, String.append_assoc, String.append_assoc, String.append_assoc]

theorem searchNode_of_notMem {t : TableRow} (h : ':' ∉ t.qualifiedName.toList) :
    searchNode t.qualifiedName = t.node := by
  rw [searchNode, stripTypePrefix_of_notMem h, node_eq]

theorem searchNode_strip (name : String) : stripTypePrefix (searchNode name) = stripTypePrefix name :=
  stripTypePrefix_table _

theorem stripTypePrefix_node (t : TableRow) : stripTypePrefix t.node = t.qualifiedName := by
  rw [node_eq, stripTypePrefix_table]

/-! ### What is returned -/

variable {data : GraphData} {t t' : TableRow}

/-- The search, without its cap. -/
private def allPaths (data : GraphData) (source target : String) :
    List (List (String × Fin (searchEdges data).length)) :=
  Paths.paths (steps (searchEdges data) false) source target 9

private theorem mem_allPaths {source target : String} {p : List (String × Fin (searchEdges data).length)} :
    p ∈ allPaths data source target ↔ IsShortPath data source target p := Paths.mem_paths_iff

private theorem dbFindRelationshipPath_eq (data : GraphData) (table1 table2 : String) : ∃ rounds, ∀ more,
    dbFindRelationshipPath (rounds + more) data table1 table2 =
      some (((allPaths data (searchNode table1) (searchNode table2)).take 5).map fun p =>
        strippedPath (GraphTools.shown (searchEdges data) (searchNode table1) p)) := by
  have hbound : ∀ n : Nat, decide (n + 1 > 10) = true ↔ 9 < n := by
    intro n
    rw [decide_eq_true_eq]
    omega
  have hsearch : ∃ rounds, ∀ more,
      searchPaths (adjacent (searchEdges data) false) (searchNode table2) (fun n => n > 10) 5
      (rounds + more) [⟨searchNode table1, [searchNode table1], []⟩] [] =
        some (((allPaths data (searchNode table1) (searchNode table2)).take 5).map
          (GraphTools.shown (searchEdges data) (searchNode table1))) := searchPaths_eq _ _ _ _ hbound 5
  obtain ⟨rounds, h⟩ := hsearch
  refine ⟨rounds, fun more => ?_⟩
  rw [dbFindRelationshipPath, h more, Option.map_some, List.map_map]
  rfl

/-- The first five paths use keys only just in case five paths come before each of the others. -/
private theorem uncrowded_iff :
    (∀ p ∈ (allPaths data t.node t'.node).take 5, UsesKeys data p) ↔ Uncrowded data t t' := by
  have hasymm : Std.Asymm fun p q : List (String × Fin (searchEdges data).length) =>
      List.Shortlex (· < ·) (Paths.edges p) (Paths.edges q) := ⟨fun _ _ h h' => Std.Asymm.asymm _ _ h h'⟩
  have hplace : ∀ p ∈ allPaths data t.node t'.node, p ∈ (allPaths data t.node t'.node).take 5 ↔
      {q | IsShortPath data t.node t'.node q ∧ List.Shortlex (· < ·) (Paths.edges q) (Paths.edges p)}.encard < 5 := by
    intro p hp
    have hset : {q | IsShortPath data t.node t'.node q ∧ List.Shortlex (· < ·) (Paths.edges q) (Paths.edges p)} =
        {q | q ∈ allPaths data t.node t'.node ∧ List.Shortlex (· < ·) (Paths.edges q) (Paths.edges p)} := by
      ext q
      exact and_congr_left fun _ => mem_allPaths.symm
    rw [hset]
    exact Rank.mem_take_iff (Paths.paths_sorted (ordered_steps _ _)) hp 5
  constructor
  · intro h p hp hother
    by_contra hfew
    exact hother (h p ((hplace p (mem_allPaths.2 hp)).2 (not_le.1 hfew)))
  · intro h p hp
    by_contra hother
    have hmem := List.mem_of_mem_take hp
    exact absurd ((hplace p hmem).1 hp) (not_lt.2 (h p (mem_allPaths.1 hmem) hother))

/-- A path between the tables that is returned shows a foreign-key path just in case it is one. -/
private theorem shows_iff {p : List (String × Fin (searchEdges data).length)} (hp : IsShortPath data t.node t'.node p) :
    ShowsForeignKeyPath data t t' (strippedPath (GraphTools.shown (searchEdges data) t.node p)) ↔ UsesKeys data p := by
  constructor
  · rintro ⟨q, ⟨-, hkeys⟩, heq⟩ step hstep
    have hrelationships : (p.map fun step => ((searchEdges data).get step.2).relationship) =
        q.map fun step => ((searchEdges data).get step.2).relationship := congrArg FoundPath.relationships heq
    have hmem : ((searchEdges data).get step.2).relationship ∈
        q.map fun step => ((searchEdges data).get step.2).relationship := hrelationships ▸ List.mem_map_of_mem hstep
    obtain ⟨other, hother, hsame⟩ := List.mem_map.1 hmem
    rw [← hsame]
    exact hkeys other hother
  · exact fun hkeys => ⟨p, ⟨hp, hkeys⟩, rfl⟩

/-- Where a name is cut at a colon, no path that is returned is one between the tables. -/
private theorem notMem_colon_of_shows {p : List (String × Fin (searchEdges data).length)}
    (hp : IsShortPath data (searchNode t.qualifiedName) (searchNode t'.qualifiedName) p)
    (h : ShowsForeignKeyPath data t t'
      (strippedPath (GraphTools.shown (searchEdges data) (searchNode t.qualifiedName) p))) :
    ':' ∉ t.qualifiedName.toList ∧ ':' ∉ t'.qualifiedName.toList := by
  obtain ⟨q, ⟨hq, -⟩, heq⟩ := h
  have hpath : (Paths.nodes (searchNode t.qualifiedName) p).map stripTypePrefix =
      (Paths.nodes t.node q).map stripTypePrefix := congrArg FoundPath.path heq
  constructor
  · have hhead : stripTypePrefix (searchNode t.qualifiedName) = stripTypePrefix t.node := (List.cons.inj hpath).1
    rw [searchNode_strip, stripTypePrefix_node] at hhead
    exact fun hcolon => stripTypePrefix_ne hcolon hhead
  · have hlast := congrArg List.getLast? hpath
    rw [List.getLast?_map, List.getLast?_map, Paths.getLast?_nodes, Paths.getLast?_nodes, hp.1.ends, hq.1.ends,
      Option.map_some, Option.map_some, searchNode_strip, stripTypePrefix_node] at hlast
    exact fun hcolon => stripTypePrefix_ne hcolon (Option.some.inj hlast)

/-- Every path that is returned between two tables is a foreign-key path, and one is returned if there is one, just in
case at least five paths come before every other path; where a colon is in a name, nothing may connect the tables, and
nothing may be found. -/
theorem relationship_path_iff (data : GraphData) (t t' : TableRow) : ∃ found,
    (∃ rounds, ∀ more, dbFindRelationshipPath (rounds + more) data t.qualifiedName t'.qualifiedName = some found) ∧
    (((∀ path ∈ found, ShowsForeignKeyPath data t t' path) ∧
        ((∃ p, IsForeignKeyPath data t t' p) → ∃ path ∈ found, ShowsForeignKeyPath data t t' path)) ↔
      (':' ∉ t.qualifiedName.toList ∧ ':' ∉ t'.qualifiedName.toList → Uncrowded data t t') ∧
        (¬ (':' ∉ t.qualifiedName.toList ∧ ':' ∉ t'.qualifiedName.toList) → Unconnected data t t')) := by
  refine ⟨_, dbFindRelationshipPath_eq data t.qualifiedName t'.qualifiedName, ?_⟩
  rw [List.forall_mem_map]
  simp only [List.mem_map, exists_exists_and_eq_and]
  by_cases hcolon : ':' ∉ t.qualifiedName.toList ∧ ':' ∉ t'.qualifiedName.toList
  · rw [searchNode_of_notMem hcolon.1, searchNode_of_notMem hcolon.2]
    have hshows : (∀ p ∈ (allPaths data t.node t'.node).take 5,
        ShowsForeignKeyPath data t t' (strippedPath (GraphTools.shown (searchEdges data) t.node p))) ↔
        Uncrowded data t t' := by
      rw [← uncrowded_iff]
      exact forall₂_congr fun p hp => shows_iff (mem_allPaths.1 (List.mem_of_mem_take hp))
    rw [hshows]
    refine ⟨fun h => ⟨fun _ => h.1, fun hnot => absurd hcolon hnot⟩, fun h => ⟨h.1 hcolon, ?_⟩⟩
    rintro ⟨q, hq⟩
    have hne : (allPaths data t.node t'.node).take 5 ≠ [] := by
      have hmem : q ∈ allPaths data t.node t'.node := mem_allPaths.2 hq.1
      cases hall : allPaths data t.node t'.node with
      | nil =>
        rw [hall] at hmem
        cases hmem
      | cons first rest => exact List.cons_ne_nil _ _
    obtain ⟨p, hp⟩ := List.exists_mem_of_ne_nil _ hne
    exact ⟨p, hp, hshows.2 (h.1 hcolon) p hp⟩
  · have hnone : ∀ p ∈ (allPaths data (searchNode t.qualifiedName) (searchNode t'.qualifiedName)).take 5,
        ¬ ShowsForeignKeyPath data t t'
          (strippedPath (GraphTools.shown (searchEdges data) (searchNode t.qualifiedName) p)) :=
      fun p hp hshows => hcolon (notMem_colon_of_shows (mem_allPaths.1 (List.mem_of_mem_take hp)) hshows)
    constructor
    · rintro ⟨hall, hsome⟩
      refine ⟨fun h => absurd h hcolon, fun _ => ⟨fun p hp => ?_, fun q hq => ?_⟩⟩
      · cases hpaths : allPaths data (searchNode t.qualifiedName) (searchNode t'.qualifiedName) with
        | nil =>
          have hmem := mem_allPaths.2 hp
          rw [hpaths] at hmem
          cases hmem
        | cons first rest =>
          have hfirst : first ∈ (allPaths data (searchNode t.qualifiedName) (searchNode t'.qualifiedName)).take 5 := by
            rw [hpaths]
            exact List.mem_cons_self
          exact hnone first hfirst (hall first hfirst)
      · obtain ⟨p, hp, hshows⟩ := hsome ⟨q, hq⟩
        exact hnone p hp hshows
    · rintro ⟨-, h⟩
      obtain ⟨hsearch, hkeys⟩ := h hcolon
      refine ⟨fun p hp => absurd (mem_allPaths.1 (List.mem_of_mem_take hp)) (hsearch p), ?_⟩
      rintro ⟨q, hq⟩
      exact absurd hq (hkeys q)

/-! ### Edges of a build -/

private theorem attrs_of_mem_number {before arcs : List Arc} {edge : Edge} (h : edge ∈ number before arcs) :
    ∃ arc ∈ arcs, edge.attrs = arc.attrs := by
  induction arcs generalizing before with
  | nil => cases h
  | cons arc arcs ih =>
    rcases List.mem_cons.1 h with rfl | h
    · exact ⟨arc, List.mem_cons_self, rfl⟩
    · obtain ⟨arc', harc', hattrs⟩ := ih h
      exact ⟨arc', List.mem_cons_of_mem _ harc', hattrs⟩

private theorem attrs_of_mem_arcs {rows : Rows} {arc : Arc} (h : arc ∈ rows.arcs) :
    ∃ relationship ∈ ["Stores", "Links", "Creates"], ∃ attrs, arc.attrs = edgeAttrs relationship attrs := by
  rcases List.mem_append.1 h with h | h
  · rcases List.mem_append.1 h with h | h
    · obtain ⟨c, -, rfl⟩ := List.mem_map.1 h
      exact ⟨"Stores", by simp, _, rfl⟩
    · obtain ⟨fk, -, hfk⟩ := List.mem_filterMap.1 h
      unfold linkArc at hfk
      split at hfk
      · obtain rfl := Option.some.inj hfk
        exact ⟨"Links", by simp, _, rfl⟩
      · cases hfk
  · obtain ⟨d, -, hd⟩ := List.mem_filterMap.1 h
    unfold dependencyArc at hd
    split at hd
    · split at hd
      · obtain rfl := Option.some.inj hd
        exact ⟨"Creates", by simp, _, rfl⟩
      · cases hd
    · cases hd

/-- In a build, an edge that is neither a `Stores` nor a `Links` edge is a `Creates` edge. -/
theorem relationship_of_build {Graph : Type} {nx : MultiDiGraph Graph} (hnx : nx.Lawful) (sha256Hex : String → String)
    (now : String) {rows : Rows} (includeDefinitions : Bool) (hrows : rows.Distinct) :
    ∀ edge ∈ searchEdges (buildGraphData nx sha256Hex now rows includeDefinitions),
      ∃ relationship ∈ ["Stores", "Links", "Creates"], edge.relationship = .str relationship := by
  have hcontains := contains_buildGraph hnx sha256Hex now includeDefinitions hrows
  unfold searchEdges
  rw [List.forall_mem_map]
  intro edge hedge
  obtain ⟨edge', hedge', rfl⟩ := List.mem_map.1 hedge
  obtain ⟨arc, harc, hattrs⟩ := attrs_of_mem_number (hcontains.edges.mem_iff.1 hedge')
  obtain ⟨relationship, hmem, attrs, hrelationship⟩ := attrs_of_mem_arcs harc
  refine ⟨relationship, hmem, ?_⟩
  show Json.get (compactDict edge'.attrs) "relationship" = _
  rw [hattrs, hrelationship]
  rfl

/-! ### Tables that a procedure reads -/

/-- Two tables without keys, and a procedure that reads both. -/
private def unrelated : Rows where
  tables := [⟨"dbo", "customers", 1, "2026-01-01", "2026-01-01", false, "NON_TEMPORAL_TABLE"⟩,
    ⟨"dbo", "orders", 2, "2026-01-01", "2026-01-01", false, "NON_TEMPORAL_TABLE"⟩]
  columns := []
  primaryKeys := []
  foreignKeys := []
  routines := [⟨"dbo", "report", 3, "P", "SQL_STORED_PROCEDURE", "2026-01-01", "2026-01-01", none, none, none, none⟩]
  dependencies := [⟨3, some "dbo", some "customers", none, false, false, 1⟩,
    ⟨3, some "dbo", some "orders", none, false, false, 2⟩]

private def unrelatedData : GraphData := buildGraphData listGraph id "2026-01-02" unrelated false

private def customers : TableRow := ⟨"dbo", "customers", 1, "2026-01-01", "2026-01-01", false, "NON_TEMPORAL_TABLE"⟩

private def orders : TableRow := ⟨"dbo", "orders", 2, "2026-01-01", "2026-01-01", false, "NON_TEMPORAL_TABLE"⟩

/-- The text of a relationship. -/
private def relationshipText : Json → Option String
  | .str text => some text
  | _ => none

/-- The path through the procedure is returned. -/
theorem relationship_path_through_routine : ∃ found,
    dbFindRelationshipPath 20 unrelatedData customers.qualifiedName orders.qualifiedName = some found ∧
      ∃ path ∈ found, ¬ ShowsForeignKeyPath unrelatedData customers orders path := by
  have hrun : (dbFindRelationshipPath 20 unrelatedData customers.qualifiedName orders.qualifiedName).map
      (List.map fun path => path.relationships.map relationshipText) = some [[some "Creates", some "Creates"]] := by
    decide +kernel
  obtain ⟨found, hfound, hshown⟩ := Option.map_eq_some_iff.1 hrun
  obtain ⟨path, hpath, hrelationships⟩ := List.mem_map.1 (hshown ▸ List.mem_singleton_self _)
  refine ⟨found, hfound, path, hpath, ?_⟩
  rintro ⟨p, ⟨-, hkeys⟩, rfl⟩
  have hmem : some "Creates" ∈ (p.map fun step => ((searchEdges unrelatedData).get step.2).relationship).map
      relationshipText := hrelationships ▸ List.mem_cons_self
  rw [List.map_map] at hmem
  obtain ⟨step, hstep, hcreates⟩ := List.mem_map.1 hmem
  rcases hkeys step hstep with h | h
  · rw [Function.comp_apply, h] at hcreates
    exact absurd hcreates (by decide)
  · rw [Function.comp_apply, h] at hcreates
    exact absurd hcreates (by decide)

end AgentOS.DbGraph
