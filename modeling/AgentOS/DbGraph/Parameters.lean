import AgentOS.DbGraph.Induced
import Mathlib.Data.Finset.Sort
import Mathlib.Data.Set.Card

/-!
# The parameters of the queries

Every filtered query of `build_targeted_graph_data` binds the ids of a frontier, or of all objects that were discovered,
once for each slot of its template.  SQL Server refuses a statement with more than 2100 parameters.

* `targeted_parameters_iff`: all queries are answered just in case at most 1050 objects are within the depth.
-/

namespace AgentOS.DbGraph

/-! ### Queries -/

/-- The templates of the filtered queries. -/
inductive Template where
  | tables
  | columns
  | primaryKeys
  | foreignKeys
  | routines
  | dependencies

/-- The condition of a template that has slots. -/
def Template.condition : Template → String
  | .tables | .columns | .primaryKeys => "t.object_id IN (\x7bplaceholders\x7d)"
  | .foreignKeys => "(pt.object_id IN (\x7bplaceholders\x7d) OR rt.object_id IN (\x7bplaceholders\x7d))"
  | .routines => "o.object_id IN (\x7bplaceholders\x7d)"
  | .dependencies => "(ro.object_id IN (\x7bplaceholders\x7d) OR tt.object_id IN (\x7bplaceholders\x7d))"

/-- `sql_template.count("{placeholders}")`. -/
def Template.repeats (template : Template) : Nat :=
  template.condition.toList.tails.countP fun rest => "\x7bplaceholders\x7d".toList.isPrefixOf rest

inductive Param where
  | name (text : String)
  | id (id : Int)

inductive Statement where
  /-- `RESOLVE_TABLE_OBJECT_ID_SQL`. -/
  | resolveTable
  /-- `RESOLVE_ROUTINE_OBJECT_ID_SQL`. -/
  | resolveRoutine
  | filtered (template : Template)

/-- A call of `cursor.execute`. -/
structure Query where
  statement : Statement
  params : List Param

/-- What `_resolve_entry_object_id` issues. -/
def resolveQuery (schema name : String) (entryType : EntryType) : Query where
  statement := if entryType = .table ∨ entryType = .column then .resolveTable else .resolveRoutine
  params := [.name schema, .name name]

/-- What `_fetch_rows_in` issues: nothing for an empty frontier. -/
def fetchRowsIn (objectIds : List Int) (template : Template) : List Query :=
  if objectIds = [] then []
  else [⟨.filtered template, (List.replicate template.repeats (objectIds.map Param.id)).flatten⟩]

/-- `sorted(ids)`. -/
def sorted (ids : Finset Int) : List Int := ids.sort (· ≤ ·)

/-- What the rounds of `_discover_object_ids` issue, and what they discover. -/
def discover (rows : Rows) : Nat → Finset Int → Finset Int → List Query × Finset Int
  | 0, discovered, _ => ([], discovered)
  | rounds + 1, discovered, frontier =>
    if frontier = ∅ then ([], discovered)
    else
      let new := neighbors rows frontier \ discovered
      let rest := discover rows rounds (discovered ∪ new) new
      ([Template.foreignKeys, .dependencies].flatMap (fetchRowsIn (sorted frontier)) ++ rest.1, rest.2)

/-- What `build_targeted_graph_data` issues. -/
def targetedQueries (same : String → String → Bool) (rows : Rows) (entryPoint : String) (entryType : EntryType)
    (maxDepth : Int) : Except EntryError (List Query) :=
  (splitEntryPoint entryPoint entryType).map fun (schema, name) =>
    resolveQuery schema name entryType ::
      match resolveEntryObjectId same rows schema name entryType with
      | none => []
      | some seed =>
        let discovered := discover rows maxDepth.toNat {seed} {seed}
        discovered.1 ++ [Template.tables, .columns, .primaryKeys, .foreignKeys, .routines, .dependencies].flatMap
          (fetchRowsIn (sorted discovered.2))

/-- What a targeted build raises. -/
inductive TargetedError where
  | entry (error : EntryError)
  /-- The database refuses a query. -/
  | refused (query : Query)

section

variable {Graph : Type} (nx : MultiDiGraph Graph) (sha256Hex : String → String) (now : String)

/-- `build_targeted_graph_data` over a database that refuses statements with more than `limit` parameters. -/
def buildTargetedWithin (limit : Nat) (same : String → String → Bool) (rows : Rows) (entryPoint : String)
    (entryType : EntryType) (maxDepth : Int) (includeDefinitions : Bool) : Except TargetedError GraphData := do
  let queries ← (targetedQueries same rows entryPoint entryType maxDepth).mapError .entry
  match queries.find? fun query => limit < query.params.length with
  | some query => throw (.refused query)
  | none =>
    (buildTargetedGraphData nx sha256Hex now same rows entryPoint entryType maxDepth includeDefinitions).mapError .entry

end

/-! ### Counts -/

theorem repeats_le (template : Template) : template.repeats ≤ 2 := by
  cases template with
  | tables | columns | primaryKeys | foreignKeys | routines | dependencies => decide +kernel

private theorem repeats_foreignKeys : Template.foreignKeys.repeats = 2 := by decide +kernel

/-- A filtered query binds every id once for each slot. -/
private theorem length_params (ids : Finset Int) (template : Template) :
    ∀ query ∈ fetchRowsIn (sorted ids) template, query.params.length = template.repeats * ids.card := by
  intro query hquery
  unfold fetchRowsIn at hquery
  split at hquery
  · cases hquery
  · obtain rfl := List.mem_singleton.1 hquery
    show (List.replicate template.repeats ((sorted ids).map Param.id)).flatten.length = _
    rw [List.length_flatten, List.map_replicate, List.sum_replicate, List.length_map, sorted, Finset.length_sort,
      smul_eq_mul]

private theorem fetchRowsIn_ne_nil {ids : Finset Int} (hne : ids.Nonempty) (template : Template) :
    ∃ query, query ∈ fetchRowsIn (sorted ids) template := by
  have hsorted : sorted ids ≠ [] := by
    intro hnil
    have hcard := Finset.length_sort (· ≤ ·) (s := ids)
    rw [show ids.sort (· ≤ ·) = [] from hnil] at hcard
    exact absurd hcard (Nat.ne_of_lt hne.card_pos)
  unfold fetchRowsIn
  rw [if_neg hsorted]
  exact ⟨_, List.mem_singleton_self _⟩

theorem snd_discover (rows : Rows) (n : Nat) (D F : Finset Int) :
    (discover rows n D F).2 = Bfs.explore (neighbors rows) n D F := by
  induction n generalizing D F with
  | zero => rfl
  | succ n ih =>
    rw [discover, Bfs.explore]
    split
    · rfl
    · exact ih _ _

private theorem subset_discover (rows : Rows) (n : Nat) (D F : Finset Int) : D ⊆ (discover rows n D F).2 := by
  induction n generalizing D F with
  | zero => exact Finset.Subset.refl D
  | succ n ih =>
    rw [discover]
    split
    · exact Finset.Subset.refl D
    · exact Finset.subset_union_left.trans (ih _ _)

/-- No query of the rounds binds more ids than are discovered in the end. -/
private theorem length_params_discover (rows : Rows) (n : Nat) {D F : Finset Int} (hF : F ⊆ D) :
    ∀ query ∈ (discover rows n D F).1, query.params.length ≤ 2 * (discover rows n D F).2.card := by
  induction n generalizing D F with
  | zero => exact fun query hquery => absurd hquery List.not_mem_nil
  | succ n ih =>
    rw [discover]
    split
    · exact fun query hquery => absurd hquery List.not_mem_nil
    · intro query hquery
      rcases List.mem_append.1 hquery with hquery | hquery
      · obtain ⟨template, -, hquery⟩ := List.mem_flatMap.1 hquery
        have hcard : F.card ≤ (discover rows n (D ∪ (neighbors rows F \ D)) (neighbors rows F \ D)).2.card :=
          Finset.card_le_card (hF.trans (Finset.subset_union_left.trans (subset_discover rows n _ _)))
        rw [length_params F template query hquery]
        exact Nat.mul_le_mul (repeats_le template) hcard
      · exact ih Finset.subset_union_right query hquery

/-- The queries for an object are answered just in case twice the number of the objects that are discovered is within
the limit. -/
private theorem forall_params_iff (rows : Rows) (schema name : String) (entryType : EntryType) (seed : Int) (n : Nat)
    {limit : Nat} (hlimit : 2 ≤ limit) :
    (∀ query ∈ resolveQuery schema name entryType :: ((discover rows n {seed} {seed}).1 ++
        [Template.tables, .columns, .primaryKeys, .foreignKeys, .routines, .dependencies].flatMap
          (fetchRowsIn (sorted (discover rows n {seed} {seed}).2))), query.params.length ≤ limit) ↔
      2 * (discover rows n {seed} {seed}).2.card ≤ limit := by
  have hne : (discover rows n {seed} {seed}).2.Nonempty :=
    ⟨seed, subset_discover rows n _ _ (Finset.mem_singleton_self seed)⟩
  rw [List.forall_mem_cons, List.forall_mem_append]
  constructor
  · rintro ⟨-, -, h⟩
    obtain ⟨query, hquery⟩ := fetchRowsIn_ne_nil hne .foreignKeys
    have hlength := h query (List.mem_flatMap.2 ⟨.foreignKeys, by simp, hquery⟩)
    rwa [length_params _ _ query hquery, repeats_foreignKeys] at hlength
  · intro h
    refine ⟨hlimit, fun query hquery => ?_, fun query hquery => ?_⟩
    · exact (length_params_discover rows n (Finset.Subset.refl _) query hquery).trans h
    · obtain ⟨template, -, hquery⟩ := List.mem_flatMap.1 hquery
      rw [length_params _ template query hquery]
      exact (Nat.mul_le_mul_right _ (repeats_le template)).trans h

private theorem card_discover (rows : Rows) (seed maxDepth : Int) :
    2 * (discover rows maxDepth.toNat {seed} {seed}).2.card ≤ 2100 ↔
      {id | Bfs.Within (objectGraph rows) maxDepth.toNat seed id}.encard ≤ 1050 := by
  have hset : {id | Bfs.Within (objectGraph rows) maxDepth.toNat seed id} =
      ((discover rows maxDepth.toNat {seed} {seed}).2 : Set Int) := by
    ext id
    rw [snd_discover]
    exact mem_discoverObjectIds.symm
  rw [hset, Set.encard_coe_eq_coe_finsetCard]
  have hcast : (((discover rows maxDepth.toNat {seed} {seed}).2.card : Nat) : ℕ∞) ≤ ((1050 : Nat) : ℕ∞) ↔
      (discover rows maxDepth.toNat {seed} {seed}).2.card ≤ 1050 := Nat.cast_le
  refine Iff.trans ?_ hcast.symm
  omega

/-- What is issued for an entry point of a catalog. -/
private theorem targetedQueries_eq {collation : Collation} {catalog : Catalog collation} {entryPoint : String}
    {entryType : EntryType} {seed : Int} (maxDepth : Int) (hentry : catalog.Names entryPoint entryType seed) :
    ∃ queries, targetedQueries collation.same catalog.toRows entryPoint entryType maxDepth = .ok queries ∧
      ((∀ query ∈ queries, query.params.length ≤ 2100) ↔
        {id | Bfs.Within (objectGraph catalog.toRows) maxDepth.toNat seed id}.encard ≤ 1050) := by
  obtain ⟨schema, name, hsplit, hresolve⟩ := catalog.resolve_entry hentry
  have hcount := forall_params_iff catalog.toRows schema name entryType seed maxDepth.toNat
    (show 2 ≤ 2100 by omega)
  refine ⟨_, ?_, hcount.trans (card_discover catalog.toRows seed maxDepth)⟩
  unfold targetedQueries
  rw [hsplit, Except.map]
  simp only [hresolve]

/-! ### The limit -/

/-- For every entry point of a catalog and every depth, each query stays within 2100 parameters, and the build gives its
graph, just in case at most 1050 objects are within the depth of the entry object. -/
theorem targeted_parameters_iff {Graph : Type} (nx : MultiDiGraph Graph) (sha256Hex : String → String) (now : String)
    {collation : Collation} (catalog : Catalog collation) {entryPoint : String} {entryType : EntryType} {seed : Int}
    (maxDepth : Int) (includeDefinitions : Bool) (hentry : catalog.Names entryPoint entryType seed) :
    ∃ queries data,
      targetedQueries collation.same catalog.toRows entryPoint entryType maxDepth = .ok queries ∧
      buildTargetedGraphData nx sha256Hex now collation.same catalog.toRows entryPoint entryType maxDepth
        includeDefinitions = .ok data ∧
      ((∀ query ∈ queries, query.params.length ≤ 2100) ↔
        {id | Bfs.Within (objectGraph catalog.toRows) maxDepth.toNat seed id}.encard ≤ 1050) ∧
      (buildTargetedWithin nx sha256Hex now 2100 collation.same catalog.toRows entryPoint entryType maxDepth
        includeDefinitions = .ok data ↔
          {id | Bfs.Within (objectGraph catalog.toRows) maxDepth.toNat seed id}.encard ≤ 1050) := by
  obtain ⟨schema, name, hsplit, -⟩ := catalog.resolve_entry hentry
  obtain ⟨data, hdata⟩ : ∃ data, buildTargetedGraphData nx sha256Hex now collation.same catalog.toRows entryPoint
      entryType maxDepth includeDefinitions = .ok data := by
    unfold buildTargetedGraphData
    rw [hsplit]
    exact ⟨_, rfl⟩
  obtain ⟨queries, hqueries, hparams⟩ := targetedQueries_eq maxDepth hentry
  refine ⟨queries, data, hqueries, hdata, hparams, Iff.trans ?_ hparams⟩
  unfold buildTargetedWithin
  rw [hqueries, hdata]
  dsimp only [Except.mapError, bind, Except.bind]
  split
  · rename_i query hquery
    refine iff_of_false (fun h => by cases h) fun h => ?_
    have hfound := List.find?_some hquery
    exact absurd (of_decide_eq_true hfound) (Nat.not_lt.2 (h query (List.mem_of_find?_eq_some hquery)))
  · rename_i hnone
    refine iff_of_true rfl fun query hquery => Nat.not_lt.1 fun hlarge => ?_
    exact List.find?_eq_none.1 hnone query hquery (decide_eq_true hlarge)

/-! ### A table that many tables refer to -/

/-- The name of a table of a star. -/
private def starName (i : Nat) : String := String.ofList (List.replicate (i + 1) 'a')

private theorem starName_inj {i j : Nat} (h : starName i = starName j) : i = j := by
  have hlength := congrArg List.length (String.ofList_injective h)
  rw [List.length_replicate, List.length_replicate] at hlength
  omega

private theorem dotless_starName (i : Nat) : Dotless (starName i) := by
  unfold Dotless starName
  rw [String.toList_ofList]
  intro hdot
  exact absurd (List.eq_of_mem_replicate hdot) (by decide)

private theorem dotless_dbo : Dotless "dbo" := by
  unfold Dotless
  decide +kernel

private theorem dotless_id : Dotless "id" := by
  unfold Dotless
  decide +kernel

private def starTable (i : Nat) : TableRow :=
  ⟨"dbo", starName i, i, "2026-01-01", "2026-01-01", false, "NON_TEMPORAL_TABLE"⟩

private def starColumn (i : Nat) : ColumnRow :=
  ⟨"dbo", starName i, i, 1, "id", "int", 4, 10, 0, false, false, false, none, none, none⟩

/-- From the table `i + 1` to the first one. -/
private def starKey (i : Nat) : ForeignKeyRow :=
  ⟨"FK_" ++ starName i, "dbo", starName (i + 1), "id", "dbo", starName 0, "id", 1, "NO_ACTION", "NO_ACTION",
    false, false, (i + 1 : Nat), (0 : Nat)⟩

private theorem starColumn_mem {n i : Nat} (h : i ≤ n) : starColumn i ∈ (List.range (n + 1)).map starColumn :=
  List.mem_map_of_mem (List.mem_range.2 (Nat.lt_succ_of_le h))

/-- A table to which `n` tables refer. -/
def star (n : Nat) : Catalog exactly where
  tables := (List.range (n + 1)).map starTable
  columns := (List.range (n + 1)).map starColumn
  primaryKeys := []
  foreignKeys := (List.range n).map starKey
  routines := []
  dependencies := []
  tableNames := by
    refine List.pairwise_map.2 (List.nodup_range.imp fun hne hsame => hne ?_)
    exact starName_inj (of_decide_eq_true hsame.2)
  routineNames := List.Pairwise.nil
  columnKeys := by
    rw [List.map_map]
    refine List.Nodup.map (fun i j h => ?_) List.nodup_range
    exact starName_inj (congrArg (fun key : ColumnKey => key.2.1) h)
  routineIds := List.nodup_nil
  dotlessTables := by
    rw [List.forall_mem_map]
    exact fun i _ => ⟨dotless_dbo, dotless_starName i⟩
  dotlessColumns := by
    rw [List.forall_mem_map]
    exact fun i _ => dotless_id
  dotlessRoutines := by simp
  columnTables := by
    rw [List.forall_mem_map]
    exact fun i hi => ⟨starTable i, List.mem_map_of_mem hi, rfl, rfl, rfl⟩
  primaryKeyColumns := by simp
  foreignKeyColumns := by
    rw [List.forall_mem_map]
    intro i hi
    exact ⟨⟨starColumn (i + 1), starColumn_mem (List.mem_range.1 hi), rfl, rfl⟩,
      starColumn 0, starColumn_mem (Nat.zero_le n), rfl, rfl⟩

theorem star_names (n : Nat) : (star n).Names "dbo.a" .table 0 :=
  @Catalog.Names.table _ (star n) (starTable 0) (List.mem_map_of_mem (List.mem_range.2 (Nat.succ_pos n)))

private theorem within_star_one : {id | Bfs.Within (objectGraph (star 1).toRows) 1 0 id} ⊆ {0, 1} := by
  intro id hid
  rcases Bfs.within_succ.1 hid with rfl | ⟨b, hadj, hb⟩
  · exact Or.inl rfl
  · obtain rfl := Bfs.within_zero.1 hb
    obtain ⟨-, hkey⟩ := (SimpleGraph.fromRel_adj _ _ _).1 hadj
    right
    rcases hkey with (⟨fk, hfk, hparent, href⟩ | ⟨d, hd, -⟩) | ⟨fk, hfk, hparent, href⟩ | ⟨d, hd, -⟩
    · obtain rfl := List.mem_singleton.1 hfk
      cases hparent
    · cases hd
    · obtain rfl := List.mem_singleton.1 hfk
      exact hparent.symm
    · cases hd

/-- A build around the orders of one customer. -/
theorem targeted_parameters_star : ∃ queries data,
    targetedQueries exactly.same (star 1).toRows "dbo.a" .table 1 = .ok queries ∧
    buildTargetedGraphData listGraph id "2026-01-02" exactly.same (star 1).toRows "dbo.a" .table 1 false = .ok data ∧
    (∀ query ∈ queries, query.params.length ≤ 2100) ∧
    buildTargetedWithin listGraph id "2026-01-02" 2100 exactly.same (star 1).toRows "dbo.a" .table 1 false =
      .ok data := by
  obtain ⟨queries, data, hqueries, hdata, hparams, hwithin⟩ :=
    targeted_parameters_iff listGraph id "2026-01-02" (star 1) 1 false (star_names 1)
  have htwo : ((2 : ℕ) : ℕ∞) ≤ ((1050 : ℕ) : ℕ∞) := Nat.cast_le.2 (by decide)
  have hfew : {id | Bfs.Within (objectGraph (star 1).toRows) 1 0 id}.encard ≤ 1050 :=
    (Set.encard_le_encard within_star_one).trans ((Set.encard_pair (by decide)).le.trans htwo)
  exact ⟨queries, data, hqueries, hdata, hparams.2 hfew, hwithin.2 hfew⟩

private theorem within_star {n i : Nat} (hi : i ≤ n) : Bfs.Within (objectGraph (star n).toRows) 1 0 i := by
  cases i with
  | zero => exact Bfs.Within.refl _ _ _
  | succ i =>
    have hkey : starKey i ∈ (star n).foreignKeys := List.mem_map_of_mem (List.mem_range.2 hi)
    have hadj : (objectGraph (star n).toRows).Adj 0 ((i + 1 : Nat) : Int) := by
      refine (SimpleGraph.fromRel_adj _ _ _).2 ⟨by omega, Or.inr (Or.inl ⟨starKey i, hkey, rfl, rfl⟩)⟩
    exact Bfs.Within.cons hadj (Bfs.Within.refl _ _ _)

private theorem encard_star (n : Nat) :
    ((n + 1 : Nat) : ℕ∞) ≤ {id | Bfs.Within (objectGraph (star n).toRows) 1 0 id}.encard := by
  have hsubset : (((Finset.range (n + 1)).image fun i : Nat => (i : Int)) : Set Int) ⊆
      {id | Bfs.Within (objectGraph (star n).toRows) 1 0 id} := by
    intro id hid
    obtain ⟨i, hi, rfl⟩ := Finset.mem_image.1 (Finset.mem_coe.1 hid)
    exact within_star (Nat.le_of_lt_succ (Finset.mem_range.1 hi))
  have hinj : Function.Injective fun i : Nat => (i : Int) := fun i j h => by
    simpa using h
  have hcard := Set.encard_le_encard hsubset
  rwa [Set.encard_coe_eq_coe_finsetCard, Finset.card_image_of_injective _ hinj, Finset.card_range] at hcard

/-- With 1050 tables that refer to the entry table, a query binds too many parameters. -/
theorem targeted_parameters_exceeded : (star 1050).Names "dbo.a" .table 0 ∧
    ∃ queries, targetedQueries exactly.same (star 1050).toRows "dbo.a" .table 1 = .ok queries ∧
      ∃ query ∈ queries, 2100 < query.params.length := by
  obtain ⟨queries, hqueries, hparams⟩ := targetedQueries_eq 1 (star_names 1050)
  refine ⟨star_names 1050, queries, hqueries, ?_⟩
  by_contra hnone
  have hall : ∀ query ∈ queries, query.params.length ≤ 2100 := by
    intro query hquery
    by_contra hlarge
    exact hnone ⟨query, hquery, Nat.lt_of_not_le hlarge⟩
  have hcard := (encard_star 1050).trans (hparams.1 hall)
  have hle : 1050 + 1 ≤ 1050 := Nat.cast_le.1 hcard
  omega

end AgentOS.DbGraph
