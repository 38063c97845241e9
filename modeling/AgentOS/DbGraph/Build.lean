import AgentOS.Python.Json
import AgentOS.Lib.Dict

/-!
# Building the database graph

`build_graph` and `graph_to_json` of `mcp/db_tools/build_db_graph.py`.  NetworkX is given by the operations of a
`MultiDiGraph` that they call.  A row is what a catalog query returns, and the object ids that a filtered query selects
it by; a date is its `isoformat()`.
-/

namespace AgentOS.DbGraph

/-! ### Rows -/

structure TableRow where
  schemaName : String
  tableName : String
  objectId : Int
  createDate : String
  modifyDate : String
  isMemoryOptimized : Bool
  temporalTypeDesc : String

structure ColumnRow where
  schemaName : String
  tableName : String
  tableObjectId : Int
  columnId : Int
  columnName : String
  dataType : String
  maxLength : Int
  precision : Int
  scale : Int
  isNullable : Bool
  isIdentity : Bool
  isComputed : Bool
  defaultDefinition : Option String
  computedDefinition : Option String
  collationName : Option String

/-- `tableObjectId` is the `t.object_id` of the joined table, which the query does not return. -/
structure PrimaryKeyRow where
  schemaName : String
  tableName : String
  columnName : String
  constraintName : String
  keyOrdinal : Int
  tableObjectId : Int

/-- The query over the whole schema does not return the two object ids. -/
structure ForeignKeyRow where
  foreignKeyName : String
  parentSchema : String
  parentTable : String
  parentColumn : String
  referencedSchema : String
  referencedTable : String
  referencedColumn : String
  constraintColumnId : Int
  deleteReferentialActionDesc : String
  updateReferentialActionDesc : String
  isDisabled : Bool
  isNotTrusted : Bool
  parentObjectId : Int
  referencedObjectId : Int

structure RoutineRow where
  schemaName : String
  objectName : String
  objectId : Int
  objectTypeCode : String
  typeDesc : String
  createDate : String
  modifyDate : String
  definition : Option String
  isSchemaBound : Option Bool
  usesAnsiNulls : Option Bool
  usesQuotedIdentifier : Option Bool

/-- `referencedObjectId` is `tt.object_id`, which the query requires not to be NULL.  Columns that nothing reads are
left out. -/
structure DependencyRow where
  referencingObjectId : Int
  referencedSchema : Option String
  referencedTable : Option String
  referencedColumn : Option String
  isSchemaBoundReference : Bool
  isAmbiguous : Bool
  referencedObjectId : Int

/-- The six row sets. -/
structure Rows where
  tables : List TableRow
  columns : List ColumnRow
  primaryKeys : List PrimaryKeyRow
  foreignKeys : List ForeignKeyRow
  routines : List RoutineRow
  dependencies : List DependencyRow

/-- A column by its names. -/
abbrev ColumnKey := String × String × String

def ColumnRow.key (c : ColumnRow) : ColumnKey := (c.schemaName, c.tableName, c.columnName)

def PrimaryKeyRow.key (pk : PrimaryKeyRow) : ColumnKey := (pk.schemaName, pk.tableName, pk.columnName)

def ForeignKeyRow.parentKey (fk : ForeignKeyRow) : ColumnKey := (fk.parentSchema, fk.parentTable, fk.parentColumn)

def ForeignKeyRow.referencedKey (fk : ForeignKeyRow) : ColumnKey :=
  (fk.referencedSchema, fk.referencedTable, fk.referencedColumn)

/-! ### NetworkX -/

/-- The attributes of a node or of an edge. -/
abbrev Attrs := List (String × Json)

/-- An edge, as `graph.edges(keys=True, data=True)` lists it. -/
structure Edge where
  source : String
  target : String
  key : Nat
  attrs : Attrs

/-- What is used of `nx.MultiDiGraph`.  A `Graph` is one that these calls have made. -/
structure MultiDiGraph (Graph : Type) where
  new : Attrs → Graph
  addNode : Graph → String → Attrs → Graph
  addEdge : Graph → String → String → Attrs → Graph
  graph : Graph → Attrs
  nodes : Graph → List (String × Attrs)
  edges : Graph → List Edge

/-! ### Names and attributes -/

/-- `compact_dict`. -/
def compactDict (attrs : Attrs) : Attrs := attrs.filter fun attr => match attr.2 with
  | .null => false
  | _ => true

/-- `table_id`. -/
def tableId (schema table : String) : String := "table:" ++ schema ++ "." ++ table

/-- `column_id`. -/
def columnId (key : ColumnKey) : String := "column:" ++ key.1 ++ "." ++ key.2.1 ++ "." ++ key.2.2

/-- `routine_id`. -/
def routineId (nodeType schema name : String) : String := nodeType.toLower ++ ":" ++ schema ++ "." ++ name

/-- `sql_type_display`. -/
def sqlTypeDisplay (c : ColumnRow) : String :=
  if c.dataType ∈ ["varchar", "nvarchar", "char", "nchar", "binary", "varbinary"] then
    if c.maxLength = -1 then c.dataType ++ "(max)" else c.dataType ++ "(" ++ toString c.maxLength ++ ")"
  else if c.dataType ∈ ["decimal", "numeric"] then
    c.dataType ++ "(" ++ toString c.precision ++ "," ++ toString c.scale ++ ")"
  else if c.dataType ∈ ["datetime2", "datetimeoffset", "time"] then c.dataType ++ "(" ++ toString c.scale ++ ")"
  else c.dataType

/-- A string or `None`. -/
def optional (value : Option String) : Json := (value.map Json.str).getD .null

def graphAttrs (now : String) : Attrs :=
  [("name", .str "SQL Server Database Structure"), ("directed", .bool true), ("generated_at", .str now)]

def tableAttrs (t : TableRow) : Attrs :=
  [("node_type", .str "Table"), ("name", .str t.tableName),
    ("qualified_name", .str (t.schemaName ++ "." ++ t.tableName)), ("schema", .str t.schemaName),
    ("object_id", .int t.objectId), ("created_at", .str t.createDate), ("modified_at", .str t.modifyDate),
    ("is_memory_optimized", .bool t.isMemoryOptimized), ("temporal_type", .str t.temporalTypeDesc)]

/-- `pk` is what `pk_lookup` has for the column, and the flags tell whether it is in `fk_source_columns` and in
`fk_target_columns`. -/
def columnAttrs (pk : Option PrimaryKeyRow) (isForeignKey isReferencedKey : Bool) (c : ColumnRow) : Attrs :=
  [("node_type", .str "Column"), ("name", .str c.columnName),
    ("qualified_name", .str (c.schemaName ++ "." ++ c.tableName ++ "." ++ c.columnName)),
    ("schema", .str c.schemaName), ("table", .str c.tableName), ("table_object_id", .int c.tableObjectId),
    ("column_id", .int c.columnId), ("data_type", .str c.dataType), ("type_display", .str (sqlTypeDisplay c)),
    ("max_length", .int c.maxLength), ("precision", .int c.precision), ("scale", .int c.scale),
    ("nullable", .bool c.isNullable), ("identity", .bool c.isIdentity), ("computed", .bool c.isComputed),
    ("default_definition", optional c.defaultDefinition), ("computed_definition", optional c.computedDefinition),
    ("collation", optional c.collationName), ("is_primary_key", .bool pk.isSome),
    ("primary_key_name", optional (pk.map PrimaryKeyRow.constraintName)),
    ("primary_key_ordinal", (pk.map fun pk => Json.int pk.keyOrdinal).getD .null),
    ("is_foreign_key", .bool isForeignKey), ("is_referenced_key", .bool isReferencedKey)]

def linkAttrs (fk : ForeignKeyRow) : Attrs :=
  [("foreign_key_name", .str fk.foreignKeyName), ("constraint_column_id", .int fk.constraintColumnId),
    ("delete_action", .str fk.deleteReferentialActionDesc), ("update_action", .str fk.updateReferentialActionDesc),
    ("is_disabled", .bool fk.isDisabled), ("is_not_trusted", .bool fk.isNotTrusted)]

/-- `PROCEDURE_TYPES` and `FUNCTION_TYPES`: the node type of a routine. -/
def nodeType (code : String) : Option String :=
  if code ∈ ["P", "PC"] then some "Procedure"
  else if code ∈ ["FN", "IF", "TF", "FS", "FT"] then some "Function"
  else none

/-- `sha256Hex` is the digest of the text in UTF-8. -/
def routineAttrs (sha256Hex : String → String) (includeDefinitions : Bool) (type : String) (r : RoutineRow) : Attrs :=
  let definition := r.definition.getD ""
  [("node_type", .str type), ("name", .str r.objectName),
    ("qualified_name", .str (r.schemaName ++ "." ++ r.objectName)), ("schema", .str r.schemaName),
    ("object_id", .int r.objectId), ("sql_object_type", .str r.objectTypeCode),
    ("sql_object_type_desc", .str r.typeDesc), ("created_at", .str r.createDate), ("modified_at", .str r.modifyDate),
    ("is_schema_bound", .bool (r.isSchemaBound.getD false)), ("uses_ansi_nulls", .bool (r.usesAnsiNulls.getD false)),
    ("uses_quoted_identifier", .bool (r.usesQuotedIdentifier.getD false)),
    ("has_definition", .bool (definition ≠ "")),
    ("definition_sha256", if definition ≠ "" then .str (sha256Hex definition) else .null)] ++
  if includeDefinitions then [("definition", .str definition)] else []

def dependencyAttrs (targetKind : String) (d : DependencyRow) : Attrs :=
  [("target_kind", .str targetKind), ("dependency_source", .str "sys.sql_expression_dependencies"),
    ("is_schema_bound_reference", .bool d.isSchemaBoundReference), ("is_ambiguous", .bool d.isAmbiguous)]

/-- The node that a dependency names, and its kind; none where a name is missing. -/
def dependencyTarget (d : DependencyRow) : Option (String × String) :=
  match d.referencedSchema.getD "", d.referencedTable.getD "" with
  | "", _ => none
  | _, "" => none
  | schema, table => match d.referencedColumn.getD "" with
    | "" => some (tableId schema table, "Table")
    | column => some (columnId (schema, table, column), "Column")

/-- The attributes of an edge that `add_edge` adds. -/
def edgeAttrs (relationship : String) (attrs : Attrs) : Attrs :=
  ("relationship", .str relationship) :: compactDict attrs

/-! ### The graph -/

variable {Graph : Type} (nx : MultiDiGraph Graph)

/-- `node in graph`. -/
def inGraph (graph : Graph) (node : String) : Prop := node ∈ (nx.nodes graph).map Prod.fst

instance (graph : Graph) (node : String) : Decidable (inGraph nx graph node) :=
  inferInstanceAs (Decidable (node ∈ (nx.nodes graph).map Prod.fst))

def addTable (graph : Graph) (t : TableRow) : Graph :=
  nx.addNode graph (tableId t.schemaName t.tableName) (tableAttrs t)

/-- `pk_lookup`. -/
def pkLookup (primaryKeys : List PrimaryKeyRow) : ColumnKey → Option PrimaryKeyRow :=
  Dict.assign (fun _ => none) (primaryKeys.map fun pk => (pk.key, pk))

/-- The attributes of a column, given the keys. -/
def Rows.columnAttrs (rows : Rows) (c : ColumnRow) : Attrs :=
  DbGraph.columnAttrs (pkLookup rows.primaryKeys c.key) (c.key ∈ rows.foreignKeys.map ForeignKeyRow.parentKey)
    (c.key ∈ rows.foreignKeys.map ForeignKeyRow.referencedKey) c

def addColumn (rows : Rows) (graph : Graph) (c : ColumnRow) : Graph :=
  nx.addEdge (nx.addNode graph (columnId c.key) (rows.columnAttrs c)) (tableId c.schemaName c.tableName)
    (columnId c.key) (edgeAttrs "Stores" [("ordinal", .int c.columnId)])

def addLink (graph : Graph) (fk : ForeignKeyRow) : Graph :=
  if inGraph nx graph (columnId fk.parentKey) ∧ inGraph nx graph (columnId fk.referencedKey) then
    nx.addEdge graph (columnId fk.parentKey) (columnId fk.referencedKey) (edgeAttrs "Links" (linkAttrs fk))
  else graph

/-- The graph, and `routine_node_by_object_id`. -/
def addRoutine (sha256Hex : String → String) (includeDefinitions : Bool) (state : Graph × (Int → Option String))
    (r : RoutineRow) : Graph × (Int → Option String) :=
  match nodeType r.objectTypeCode with
  | none => state
  | some type =>
    let node := routineId type r.schemaName r.objectName
    (nx.addNode state.1 node (routineAttrs sha256Hex includeDefinitions type r),
      Function.update state.2 r.objectId (some node))

def addDependency (routineNodes : Int → Option String) (graph : Graph) (d : DependencyRow) : Graph :=
  match routineNodes d.referencingObjectId, dependencyTarget d with
  | some source, some (target, kind) =>
    if inGraph nx graph target then nx.addEdge graph source target (edgeAttrs "Creates" (dependencyAttrs kind d))
    else graph
  | _, _ => graph

variable (sha256Hex : String → String) (now : String)

/-- `build_graph`. -/
def buildGraph (rows : Rows) (includeDefinitions : Bool) : Graph :=
  let graph := nx.new (graphAttrs now)
  let graph := rows.tables.foldl (addTable nx) graph
  let graph := rows.columns.foldl (addColumn nx rows) graph
  let graph := rows.foreignKeys.foldl (addLink nx) graph
  let state := rows.routines.foldl (addRoutine nx sha256Hex includeDefinitions) (graph, fun _ => none)
  rows.dependencies.foldl (addDependency nx state.2) state.1

/-- What `graph_to_json` returns. -/
structure GraphData where
  metadata : Attrs
  nodes : List (String × Attrs)
  edges : List Edge

/-- `graph_to_json`. -/
def graphToJson (graph : Graph) : GraphData where
  metadata := compactDict (nx.graph graph)
  nodes := (nx.nodes graph).map fun node => (node.1, compactDict node.2)
  edges := (nx.edges graph).map fun edge => { edge with attrs := compactDict edge.attrs }

/-- `build_graph_data`. -/
def buildGraphData (rows : Rows) (includeDefinitions : Bool) : GraphData :=
  graphToJson nx (buildGraph nx sha256Hex now rows includeDefinitions)

end AgentOS.DbGraph
