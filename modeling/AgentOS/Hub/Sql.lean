import AgentOS.Contracts
import AgentOS.Python.Dumps
import AgentOS.Lib.Table

/-!
# The central database

What the hub relies on of SQL Server and its driver is a structure `Sql`: when two strings are equal for the database
(its collation ignores case and trailing blanks), what a parameter becomes in an `NVARCHAR` column, and whether an event
row fits `ops.events`.  The tables of `database/migrations` are lists of rows with their primary keys; foreign keys and
the natural key of `registry.repositories` are checked where a statement would check them.
-/

namespace AgentOS

/-- SQL Server and the driver. -/
structure Sql where
  /-- Two strings are equal under the database collation where their keys are. -/
  key : String → String
  /-- A parameter as an `NVARCHAR(width)` column holds it (`NVARCHAR(MAX)` without a width); `none` is an error. -/
  text : Option Nat → Json → Option (Option String)
  /-- The row of an envelope fits `ops.events`. -/
  fitsLog : EventEnvelope → Bool
  /-- `HASHBYTES('SHA2_256', …)`. -/
  sha256 : String → String
  /-- `float.__repr__`. -/
  reprFloat : PyFloat → String
  text_null : ∀ width, text width .null = some none
  text_str : ∀ {width s value}, text width (.str s) = some value → value = some s

/-- A nullable string as a value. -/
def optStr : Option String → Json
  | none => .null
  | some s => .str s

namespace Sql

variable (sql : Sql)

/-- A parameter for a `NOT NULL` column. -/
def textNotNull (width : Option Nat) (value : Json) : Option String := (sql.text width value).join

/-- A string that a column of this width can hold. -/
def fits (width : Nat) (s : String) : Bool := (sql.text (some width) (.str s)).isSome

/-- A nullable string that a column of this width can hold. -/
def fitsOpt (width : Nat) (s : Option String) : Bool := (sql.text (some width) (optStr s)).isSome

theorem text_optStr {width : Option Nat} {s value : Option String} (h : sql.text width (optStr s) = some value) :
    value = s := by
  cases s with
  | none => exact (Option.some.inj ((sql.text_null width).symm.trans h)).symm
  | some s => exact sql.text_str h

/-- How many UTF-16 code units a string has. -/
def utf16Length (s : String) : Nat := (s.toList.map fun c => if c.toNat < 0x10000 then 1 else 2).sum

/-- The string columns of `ops.events` are wide enough for an envelope, and its version is an `INT`. -/
def fitsColumns (env : EventEnvelope) : Bool :=
  let fits (width : Nat) (s : String) : Bool := utf16Length s ≤ width
  fits 64 env.eventId && fits 200 env.eventType && fits 64 env.machineId &&
    env.agentId.all (fits 64) && env.sessionId.all (fits 64) && env.projectId.all (fits 64) &&
    env.repositoryId.all (fits 64) && env.taskId.all (fits 64) &&
    decide (-2147483648 ≤ env.schemaVersion ∧ env.schemaVersion ≤ 2147483647)

/-- A database whose collation ignores the case of letters and whose driver binds strings and numbers. -/
def sample : Sql where
  key s := String.ofList (s.toList.map Char.toUpper)
  text
    | _, .null => some none
    | width, .str s => if width.all (utf16Length s ≤ ·) then some (some s) else none
    | _, .int n => some (some (toString n))
    | _, _ => none
  fitsLog := fitsColumns
  sha256 s := s
  reprFloat _ := "0.0"
  text_null := fun _ => rfl
  text_str := by
    intro width s value h
    dsimp only at h
    split at h
    · exact (Option.some.inj h).symm
    · cases h

end Sql

/-- `registry.machines`. -/
structure MachineRow where
  machineId : String
  name : String
  os : String
  createdAt : Int
  registeredAt : Int
  lastSeenAt : Option Int

/-- `registry.repositories`. -/
structure RepositoryRow where
  repositoryId : String
  machineId : String
  canonicalRemote : Option String
  projectId : Option String
  repoRoot : String
  createdAt : Int
  registeredAt : Int
  lastSeenAt : Option Int

/-- `registry.agent_sessions`. -/
structure SessionRow where
  sessionId : String
  agentId : String
  machineId : String
  repositoryId : Option String
  agentType : String
  parentAgentId : Option String
  status : String
  capabilities : String
  currentTaskId : Option String
  modelRuntime : Option String
  startedAt : Int
  lastHeartbeatAt : Option Int
  expiresAt : Option Int
  endedAt : Option Int

/-- The columns of `registry.tasks` that `_materialize_task` writes. -/
structure TaskRow where
  globalId : String
  localCardId : Option String
  repositoryId : Option String
  projectId : Option String
  title : Option String
  description : Option String
  priority : Option String
  status : String
  version : Int
  originatingClient : Option String
  updatedAt : Int
  lastStatusEventId : Option String

/-- `registry.tasks`; `change_seq` is set by the database. -/
structure StoredTask extends TaskRow where
  changeSeq : Nat

/-- `ops.ingest_errors`. -/
structure IngestError where
  sourceMachineId : Option String
  reason : String
  raw : Option String

/-- The tables of the schema `registry`; `dbts` is the last row version that the database gave. -/
structure Registry (sql : Sql) where
  machines : Table fun row : MachineRow => sql.key row.machineId
  repositories : Table fun row : RepositoryRow => sql.key row.repositoryId
  sessions : Table fun row : SessionRow => sql.key row.sessionId
  tasks : Table fun row : StoredTask => sql.key row.globalId
  dbts : Nat

/-- The database: the registry, the event log and the ingest errors. -/
structure Db (sql : Sql) extends Registry sql where
  events : Table fun env : EventEnvelope => sql.key env.eventId
  ingestErrors : List IngestError

namespace Registry

variable {sql : Sql}

def empty : Registry sql where
  machines := Table.empty
  repositories := Table.empty
  sessions := Table.empty
  tasks := Table.empty
  dbts := 0

/-- A foreign key to `registry.machines`. -/
def hasMachine (reg : Registry sql) (machineId : String) : Bool := (reg.machines.lookup (sql.key machineId)).isSome

/-- A nullable foreign key to `registry.repositories`. -/
def hasRepository (reg : Registry sql) (repositoryId : Option String) : Bool :=
  repositoryId.all fun id => (reg.repositories.lookup (sql.key id)).isSome

end Registry

def Db.empty {sql : Sql} : Db sql where
  toRegistry := Registry.empty
  events := Table.empty
  ingestErrors := []

end AgentOS
