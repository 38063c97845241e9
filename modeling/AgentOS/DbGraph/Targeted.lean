import AgentOS.DbGraph.Build
import AgentOS.Python.Strings
import AgentOS.Lib.Bfs

/-!
# The targeted database graph

`build_targeted_graph_data` of `mcp/db_tools/build_db_graph.py` and the functions that it calls.  A query filtered by
object ids returns the rows of the query over the whole schema that have one of them, in the same order.
-/

namespace AgentOS.DbGraph

/-! ### Entry points -/

/-- `TARGETED_ENTRY_TYPES`; a call with another type raises `ValueError`. -/
inductive EntryType where
  | table
  | column
  | function
  | procedure
deriving DecidableEq

/-- The `ValueError` that an entry point raises. -/
inductive EntryError where
  | empty
  | notColumn (entryPoint : String)
  | notObject (entryType : EntryType) (entryPoint : String)

/-- `_split_entry_point`; the name of a column, which nothing reads, is left out. -/
def splitEntryPoint (entryPoint : String) (entryType : EntryType) : Except EntryError (String × String) :=
  if strip entryPoint = "" then .error .empty
  else if entryType = .column then
    match splitOn '.' entryPoint with
    | [schema, table, _] => .ok (schema, table)
    | _ => .error (.notColumn entryPoint)
  else
    match splitOn '.' entryPoint with
    | [schema, name] => .ok (schema, name)
    | _ => .error (.notObject entryType entryPoint)

/-- `_resolve_entry_object_id`.  `same` compares names in the collation of the catalog. -/
def resolveEntryObjectId (same : String → String → Bool) (rows : Rows) (schema name : String) (entryType : EntryType) :
    Option Int :=
  if entryType = .table ∨ entryType = .column then
    (rows.tables.find? fun t => same t.schemaName schema && same t.tableName name).map TableRow.objectId
  else (rows.routines.find? fun r => same r.schemaName schema && same r.objectName name).map RoutineRow.objectId

/-! ### Filtered queries -/

/-- `FOREIGN_KEYS_FILTERED_SQL`. -/
def foreignKeysIn (rows : Rows) (ids : Finset Int) : List ForeignKeyRow :=
  rows.foreignKeys.filter fun fk => fk.parentObjectId ∈ ids ∨ fk.referencedObjectId ∈ ids

/-- `DEPENDENCIES_FILTERED_SQL`. -/
def dependenciesIn (rows : Rows) (ids : Finset Int) : List DependencyRow :=
  rows.dependencies.filter fun d => d.referencingObjectId ∈ ids ∨ d.referencedObjectId ∈ ids

/-- The six filtered queries. -/
def rowsIn (rows : Rows) (ids : Finset Int) : Rows where
  tables := rows.tables.filter fun t => t.objectId ∈ ids
  columns := rows.columns.filter fun c => c.tableObjectId ∈ ids
  primaryKeys := rows.primaryKeys.filter fun pk => pk.tableObjectId ∈ ids
  foreignKeys := foreignKeysIn rows ids
  routines := rows.routines.filter fun r => r.objectId ∈ ids
  dependencies := dependenciesIn rows ids

/-! ### The neighbourhood -/

/-- The `neighbors` of a round of `_discover_object_ids`. -/
def neighbors (rows : Rows) (frontier : Finset Int) : Finset Int :=
  ((foreignKeysIn rows frontier).flatMap fun fk => [fk.parentObjectId, fk.referencedObjectId]).toFinset ∪
    ((dependenciesIn rows frontier).flatMap fun d => [d.referencingObjectId, d.referencedObjectId]).toFinset

/-- `_discover_object_ids`. -/
def discoverObjectIds (rows : Rows) (seed : Int) (maxDepth : Int) : Finset Int :=
  Bfs.explore (neighbors rows) maxDepth.toNat {seed} {seed}

def Rows.none : Rows := ⟨[], [], [], [], [], []⟩

variable {Graph : Type} (nx : MultiDiGraph Graph) (sha256Hex : String → String) (now : String)

/-- `build_targeted_graph_data`. -/
def buildTargetedGraphData (same : String → String → Bool) (rows : Rows) (entryPoint : String) (entryType : EntryType)
    (maxDepth : Int) (includeDefinitions : Bool) : Except EntryError GraphData :=
  (splitEntryPoint entryPoint entryType).map fun (schema, name) =>
    match resolveEntryObjectId same rows schema name entryType with
    | none => graphToJson nx (buildGraph nx sha256Hex now Rows.none includeDefinitions)
    | some seed =>
      let ids := discoverObjectIds rows seed maxDepth
      graphToJson nx (buildGraph nx sha256Hex now (rowsIn rows ids) includeDefinitions)

end AgentOS.DbGraph
