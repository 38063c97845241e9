import AgentOS.DbGraph.Contents
import AgentOS.DbGraph.Targeted

/-!
# Catalogs

The row sets of a catalog, with what holds of its objects: their names and ids are distinct, names have no dot, and keys
and foreign keys are those of columns that are there (`Catalog`).  A set of object ids then selects rows of distinct
objects (`distinct_rowsIn`), and an entry point is resolved to the object that it names (`resolve_entry`).
-/

namespace AgentOS.DbGraph

/-- How a catalog compares names. -/
structure Collation where
  same : String → String → Bool
  refl : ∀ name, same name name = true

/-- The name of an object has no dot. -/
def Dotless (name : String) : Prop := '.' ∉ name.toList

structure Catalog (collation : Collation) extends Rows where
  tableNames : tables.Pairwise fun t t' =>
    ¬ (collation.same t.schemaName t'.schemaName = true ∧ collation.same t.tableName t'.tableName = true)
  routineNames : routines.Pairwise fun r r' =>
    ¬ (collation.same r.schemaName r'.schemaName = true ∧ collation.same r.objectName r'.objectName = true)
  columnKeys : (columns.map ColumnRow.key).Nodup
  routineIds : (routines.map RoutineRow.objectId).Nodup
  dotlessTables : ∀ t ∈ tables, Dotless t.schemaName ∧ Dotless t.tableName
  dotlessColumns : ∀ c ∈ columns, Dotless c.columnName
  dotlessRoutines : ∀ r ∈ routines, Dotless r.schemaName ∧ Dotless r.objectName
  columnTables : ∀ c ∈ columns, ∃ t ∈ tables,
    t.schemaName = c.schemaName ∧ t.tableName = c.tableName ∧ t.objectId = c.tableObjectId
  primaryKeyColumns : ∀ pk ∈ primaryKeys, ∃ c ∈ columns, c.key = pk.key ∧ c.tableObjectId = pk.tableObjectId
  foreignKeyColumns : ∀ fk ∈ foreignKeys,
    (∃ c ∈ columns, c.key = fk.parentKey ∧ c.tableObjectId = fk.parentObjectId) ∧
      ∃ c ∈ columns, c.key = fk.referencedKey ∧ c.tableObjectId = fk.referencedObjectId

/-! ### Node ids -/

/-- Text in front of the last dot and behind it. -/
private theorem dot_inj {a b a' b' : String} (hb : Dotless b) (hb' : Dotless b') (h : a ++ "." ++ b = a' ++ "." ++ b') :
    a = a' ∧ b = b' :=
  append_sep_inj '.' hb hb' h

theorem tableId_inj {schema table schema' table' : String} (htable : Dotless table) (htable' : Dotless table')
    (h : tableId schema table = tableId schema' table') : schema = schema' ∧ table = table' := by
  obtain ⟨hschema, hname⟩ := dot_inj htable htable' h
  exact ⟨(String.append_right_inj "table:").1 hschema, hname⟩

theorem columnId_inj {key key' : ColumnKey} (htable : Dotless key.2.1) (htable' : Dotless key'.2.1)
    (hcolumn : Dotless key.2.2) (hcolumn' : Dotless key'.2.2) (h : columnId key = columnId key') : key = key' := by
  obtain ⟨hfront, hname⟩ := dot_inj hcolumn hcolumn' h
  obtain ⟨hschema, htable⟩ := dot_inj htable htable' hfront
  exact Prod.ext ((String.append_right_inj "column:").1 hschema) (Prod.ext htable hname)

/-- The first letter of the id of a node tells tables, columns and routines apart. -/
private def firstLetter (node : String) : Option Char := node.toList.head?

private theorem firstLetter_append {start : String} (hstart : start ≠ "") (rest : String) :
    firstLetter (start ++ rest) = firstLetter start := by
  unfold firstLetter
  rw [String.toList_append]
  exact List.head?_append_of_ne_nil _ fun hnil => hstart (String.toList_eq_nil_iff.1 hnil)

private theorem firstLetter_tableId (schema table : String) : firstLetter (tableId schema table) = some 't' := by
  unfold tableId
  rw [String.append_assoc, String.append_assoc]
  exact firstLetter_append (by decide) _

private theorem firstLetter_columnId (key : ColumnKey) : firstLetter (columnId key) = some 'c' := by
  unfold columnId
  rw [String.append_assoc, String.append_assoc, String.append_assoc, String.append_assoc]
  exact firstLetter_append (by decide) _

/-- A routine is a procedure or a function. -/
theorem nodeType_eq_some {code type : String} (h : nodeType code = some type) :
    type = "Procedure" ∨ type = "Function" := by
  unfold nodeType at h
  split at h
  · exact Or.inl (Option.some.inj h).symm
  · split at h
    · exact Or.inr (Option.some.inj h).symm
    · cases h

/-- What stands in front of the schema in the id of a routine. -/
private theorem routineId_eq {r : RoutineRow} {node : String} (h : routineNodeId r = some node) :
    ∃ start, (start = "procedure:" ∨ start = "function:") ∧ node = start ++ r.schemaName ++ "." ++ r.objectName := by
  obtain ⟨type, htype, rfl⟩ := Option.map_eq_some_iff.1 h
  rcases nodeType_eq_some htype with rfl | rfl
  · have hstart : "Procedure".toLower ++ ":" = "procedure:" := by decide +kernel
    refine ⟨"procedure:", Or.inl rfl, ?_⟩
    rw [← hstart]
    rfl
  · have hstart : "Function".toLower ++ ":" = "function:" := by decide +kernel
    refine ⟨"function:", Or.inr rfl, ?_⟩
    rw [← hstart]
    rfl

private theorem firstLetter_routineNodeId {r : RoutineRow} {node : String} (h : routineNodeId r = some node) :
    firstLetter node = some 'p' ∨ firstLetter node = some 'f' := by
  obtain ⟨start, hstart, rfl⟩ := routineId_eq h
  rw [String.append_assoc, String.append_assoc]
  rcases hstart with rfl | rfl
  · exact Or.inl (firstLetter_append (by decide) _)
  · exact Or.inr (firstLetter_append (by decide) _)

private theorem routineNodeId_inj {r r' : RoutineRow} {node : String} (hr : Dotless r.objectName)
    (hr' : Dotless r'.objectName) (h : routineNodeId r = some node) (h' : routineNodeId r' = some node) :
    r.schemaName = r'.schemaName ∧ r.objectName = r'.objectName := by
  obtain ⟨start, hstart, rfl⟩ := routineId_eq h
  obtain ⟨start', hstart', hnode⟩ := routineId_eq h'
  obtain ⟨hfront, hname⟩ := dot_inj hr hr' hnode
  have hletter := congrArg firstLetter hfront
  rcases hstart with rfl | rfl <;> rcases hstart' with rfl | rfl
  · exact ⟨(String.append_right_inj _).1 hfront, hname⟩
  · rw [firstLetter_append (by decide), firstLetter_append (by decide)] at hletter
    exact absurd hletter (by decide)
  · rw [firstLetter_append (by decide), firstLetter_append (by decide)] at hletter
    exact absurd hletter (by decide)
  · exact ⟨(String.append_right_inj _).1 hfront, hname⟩

/-! ### Distinct objects -/

variable {collation : Collation} (catalog : Catalog collation)

/-- Names that the collation tells apart are different. -/
private theorem Collation.ne_of_not_same {schema name schema' name' : String}
    (h : ¬ (collation.same schema schema' = true ∧ collation.same name name' = true)) :
    ¬ (schema = schema' ∧ name = name') := by
  rintro ⟨rfl, rfl⟩
  exact h ⟨collation.refl schema, collation.refl name⟩

theorem Catalog.nodup_tableIds :
    (catalog.tables.map fun t => tableId t.schemaName t.tableName).Nodup := by
  refine List.pairwise_map.2 (catalog.tableNames.imp_of_mem fun ht ht' hnames h => ?_)
  exact Collation.ne_of_not_same hnames
    (tableId_inj (catalog.dotlessTables _ ht).2 (catalog.dotlessTables _ ht').2 h)

theorem Catalog.dotless_column {c : ColumnRow} (hc : c ∈ catalog.columns) :
    Dotless c.schemaName ∧ Dotless c.tableName ∧ Dotless c.columnName := by
  obtain ⟨t, ht, hschema, hname, -⟩ := catalog.columnTables c hc
  have hdotless := catalog.dotlessTables t ht
  exact ⟨hschema ▸ hdotless.1, hname ▸ hdotless.2, catalog.dotlessColumns c hc⟩

theorem Catalog.nodup_columnIds : (catalog.columns.map fun c => columnId c.key).Nodup := by
  refine List.pairwise_map.2 ((List.pairwise_map.1 catalog.columnKeys).imp_of_mem fun hc hc' hkeys h => ?_)
  obtain ⟨-, htable, hcolumn⟩ := catalog.dotless_column hc
  obtain ⟨-, htable', hcolumn'⟩ := catalog.dotless_column hc'
  exact hkeys (columnId_inj htable htable' hcolumn hcolumn' h)

theorem Catalog.nodup_routineIds : (catalog.routines.filterMap routineNodeId).Nodup := by
  refine List.pairwise_filterMap.2 (catalog.routineNames.imp_of_mem fun hr hr' hnames node hnode node' hnode' h => ?_)
  subst h
  exact Collation.ne_of_not_same hnames
    (routineNodeId_inj (catalog.dotlessRoutines _ hr).2 (catalog.dotlessRoutines _ hr').2 hnode hnode')

theorem Catalog.nodup_ids : catalog.toRows.ids.Nodup := by
  unfold Rows.ids Rows.dataIds
  rw [List.nodup_append, List.nodup_append]
  refine ⟨⟨catalog.nodup_tableIds, catalog.nodup_columnIds, fun a ha b hb => ?_⟩, catalog.nodup_routineIds,
    fun a ha b hb => ?_⟩
  · obtain ⟨t, -, rfl⟩ := List.mem_map.1 ha
    obtain ⟨c, -, rfl⟩ := List.mem_map.1 hb
    intro h
    have hletter := congrArg firstLetter h
    rw [firstLetter_tableId, firstLetter_columnId] at hletter
    exact absurd hletter (by decide)
  · obtain ⟨r, -, hr⟩ := List.mem_filterMap.1 hb
    intro h
    subst h
    rcases List.mem_append.1 ha with ha | ha
    · obtain ⟨t, -, rfl⟩ := List.mem_map.1 ha
      rcases firstLetter_routineNodeId hr with hletter | hletter
      · rw [firstLetter_tableId] at hletter
        exact absurd hletter (by decide)
      · rw [firstLetter_tableId] at hletter
        exact absurd hletter (by decide)
    · obtain ⟨c, -, rfl⟩ := List.mem_map.1 ha
      rcases firstLetter_routineNodeId hr with hletter | hletter
      · rw [firstLetter_columnId] at hletter
        exact absurd hletter (by decide)
      · rw [firstLetter_columnId] at hletter
        exact absurd hletter (by decide)

theorem Catalog.distinct : catalog.toRows.Distinct := by
  refine ⟨catalog.nodup_ids, fun c hc => ?_⟩
  obtain ⟨t, ht, hschema, hname, -⟩ := catalog.columnTables c hc
  exact ⟨t, ht, hschema, hname⟩

/-- The rows that a set of object ids selects describe distinct objects. -/
theorem Catalog.distinct_rowsIn (ids : Finset Int) : (rowsIn catalog.toRows ids).Distinct := by
  refine ⟨?_, fun c hc => ?_⟩
  · refine catalog.nodup_ids.sublist (List.Sublist.append (List.Sublist.append ?_ ?_) ?_)
    · exact List.filter_sublist.map _
    · exact List.filter_sublist.map _
    · exact List.filter_sublist.filterMap _
  · obtain ⟨hcolumn, hin⟩ := List.mem_filter.1 hc
    obtain ⟨t, ht, hschema, hname, hid⟩ := catalog.columnTables c hcolumn
    exact ⟨t, List.mem_filter.2 ⟨ht, hid ▸ hin⟩, hschema, hname⟩

/-! ### Entry points -/

/-- An entry point of a type names an object: a table, the table of a column, or a routine. -/
inductive Catalog.Names : String → EntryType → Int → Prop
  | table {t : TableRow} (ht : t ∈ catalog.tables) : Names (t.schemaName ++ "." ++ t.tableName) .table t.objectId
  | column {c : ColumnRow} (hc : c ∈ catalog.columns) :
    Names (c.schemaName ++ "." ++ c.tableName ++ "." ++ c.columnName) .column c.tableObjectId
  | routine {r : RoutineRow} {type : EntryType} (hr : r ∈ catalog.routines)
    (htype : type = .function ∨ type = .procedure) : Names (r.schemaName ++ "." ++ r.objectName) type r.objectId

/-- A text with a dot is not blank. -/
private theorem strip_ne_empty {text : String} (h : '.' ∈ text.toList) : strip text ≠ "" := by
  intro hempty
  have hnil := String.ofList_injective (hempty.trans String.ofList_nil.symm)
  rw [List.rdropWhile_eq_nil_iff] at hnil
  rw [← List.takeWhile_append_dropWhile (p := isspace) (l := text.toList)] at h
  rcases List.mem_append.1 h with hfront | hrest
  · exact absurd (List.mem_takeWhile_imp hfront) (by decide)
  · exact absurd (hnil '.' hrest) (by decide)

private theorem splitOn_two {a b : String} (ha : Dotless a) (hb : Dotless b) :
    splitOn '.' (a ++ "." ++ b) = [a, b] := by
  have hlist : (a ++ "." ++ b).toList = ['.'].intercalate [a.toList, b.toList] := by
    simp [List.intercalate]
  unfold splitOn
  rw [hlist, List.splitOn_intercalate '.' (by simpa using ⟨ha, hb⟩) (by simp)]
  simp

private theorem splitOn_three {a b c : String} (ha : Dotless a) (hb : Dotless b) (hc : Dotless c) :
    splitOn '.' (a ++ "." ++ b ++ "." ++ c) = [a, b, c] := by
  have hlist : (a ++ "." ++ b ++ "." ++ c).toList = ['.'].intercalate [a.toList, b.toList, c.toList] := by
    simp [List.intercalate]
  unfold splitOn
  rw [hlist, List.splitOn_intercalate '.' (by simpa using ⟨ha, hb, hc⟩) (by simp)]
  simp

/-- The first row whose names are the same as those of a row is that row. -/
private theorem find?_same {α : Type} {rows : List α} {schema name : α → String} (id : α → Int)
    (hnames : rows.Pairwise fun a b =>
      ¬ (collation.same (schema a) (schema b) = true ∧ collation.same (name a) (name b) = true))
    {a : α} (ha : a ∈ rows) :
    (rows.find? fun b => collation.same (schema b) (schema a) && collation.same (name b) (name a)).map id =
      some (id a) := by
  induction rows with
  | nil => cases ha
  | cons b rows ih =>
    obtain ⟨hfirst, hrest⟩ := List.pairwise_cons.1 hnames
    rcases List.mem_cons.1 ha with rfl | ha
    · rw [List.find?_cons_of_pos (by rw [collation.refl, collation.refl]; rfl)]
      rfl
    · rw [List.find?_cons_of_neg (by rw [Bool.and_eq_true]; exact hfirst a ha)]
      exact ih hrest ha

/-- An entry point is split into the names of its object, and the object is found by them. -/
theorem Catalog.resolve_entry {entryPoint : String} {entryType : EntryType} {seed : Int}
    (h : catalog.Names entryPoint entryType seed) : ∃ schema name,
      splitEntryPoint entryPoint entryType = .ok (schema, name) ∧
      resolveEntryObjectId collation.same catalog.toRows schema name entryType = some seed := by
  cases h with
  | @table t ht =>
    have hdotless := catalog.dotlessTables t ht
    refine ⟨t.schemaName, t.tableName, ?_, find?_same TableRow.objectId catalog.tableNames ht⟩
    unfold splitEntryPoint
    rw [if_neg (strip_ne_empty (by simp)), if_neg (by decide), splitOn_two hdotless.1 hdotless.2]
  | @column c hc =>
    obtain ⟨hschema, htable, hcolumn⟩ := catalog.dotless_column hc
    obtain ⟨t, ht, hs, hn, hid⟩ := catalog.columnTables c hc
    refine ⟨c.schemaName, c.tableName, ?_, ?_⟩
    · unfold splitEntryPoint
      rw [if_neg (strip_ne_empty (by simp)), if_pos rfl, splitOn_three hschema htable hcolumn]
    · rw [← hs, ← hn, ← hid]
      exact find?_same TableRow.objectId catalog.tableNames ht
  | @routine r _ hr htype =>
    have hdotless := catalog.dotlessRoutines r hr
    refine ⟨r.schemaName, r.objectName, ?_, ?_⟩
    · unfold splitEntryPoint
      rw [if_neg (strip_ne_empty (by simp)), if_neg (by rcases htype with rfl | rfl <;> decide),
        splitOn_two hdotless.1 hdotless.2]
    · unfold resolveEntryObjectId
      rw [if_neg (by rcases htype with rfl | rfl <;> decide)]
      exact find?_same RoutineRow.objectId catalog.routineNames hr

end AgentOS.DbGraph
