import AgentOS.Hub.Ingest

/-!
# The routes that write

The handlers of `services/api/app.py` that register machines, repositories and sessions, take heartbeats and ingest
events, after authentication and the validation of the body.  A per-machine caller acts for its own machine only: each
handler has a guard of its own.
-/

namespace AgentOS

/-- `AuthContext`. -/
structure AuthContext where
  isAdmin : Bool
  machineId : Option String

/-- A request, its body validated; `invalid` is one whose body does not validate. -/
inductive Request where
  | registerMachine (ident : MachineIdentity)
  | registerRepository (ident : RepositoryIdentity) (repoRoot : Json)
  | registerSession (agent : AgentRegistration)
  | heartbeatSession (sessionId : String) (status currentTaskId : Json)
  | ingestBatch (prepared : List PreparedEvent) (fault : Option DbStep)
  | invalid

/-- The kind of a response: success, or the status and the code of an error. -/
inductive Response where
  | ok
  | error (status : Nat) (code : String)
  deriving DecidableEq

/-- A response of `ingest_batch`. -/
inductive BatchResponse where
  | results (outcomes : List Outcome)
  | error (status : Nat) (code : String)
  deriving DecidableEq

/-- The kind of a response of `ingest_batch`. -/
def BatchResponse.kind : BatchResponse → Response
  | .results _ => .ok
  | .error status code => .error status code

/-- `_caller_owner_machine_id`. -/
def callerOwnerMachineId (auth : AuthContext) : Option String := if auth.isAdmin then none else auth.machineId

/-- `_require_machine_match`. -/
def requireMachineMatch (auth : AuthContext) (bodyMachineId : Option String) : Option Response :=
  if auth.isAdmin then none
  else if bodyMachineId.isSome ∧ bodyMachineId ≠ auth.machineId then some (.error 403 "forbidden")
  else none

/-- `_bind_event`. -/
def bindEvent (item : PreparedEvent) (callerMachineId : Option String) : PreparedEvent :=
  if item.envelope.isNone then item
  else if item.sourceMachineId ≠ callerMachineId then
    .rejected item.raw (some "machine binding: event machine_id does not match caller") item.sourceMachineId
  else item

/-- `ALLOWED_STATUSES`. -/
def allowedStatuses : List String := ["starting", "running", "waiting", "failed", "finished"]

/-- The batch as `ingest_batch` hands it to the store. -/
def boundBatch (auth : AuthContext) (prepared : List PreparedEvent) : List PreparedEvent :=
  if auth.isAdmin then prepared else prepared.map fun item => bindEvent item auth.machineId

/-- `_MAX_BATCH_EVENTS`. -/
def maxBatchEvents : Nat := 500

variable {sql : Sql}

/-- An exception that a handler does not catch. -/
def internalError : Response := .error 500 "internal_error"

/-- `ingest_batch` from the list of events on, each of them prepared. -/
def ingestPrepared (fault : Option DbStep) (db : Db sql) (auth : AuthContext) (prepared : List PreparedEvent) :
    Db sql × BatchResponse :=
  if maxBatchEvents < prepared.length then (db, .error 413 "batch_too_large")
  else match SqlStore.ingestEvents fault db (boundBatch auth prepared) with
    | (db, some outcomes) => (db, .results outcomes)
    | (db, none) => (db, .error 500 "internal_error")

/-- The handlers. -/
def handle (db : Db sql) (auth : AuthContext) (now : Int) : Request → Db sql × Response
  | .registerMachine ident => match requireMachineMatch auth (some ident.machineId) with
    | some refused => (db, refused)
    | none => match SqlStore.upsertMachine db.toRegistry now ident with
      | none => (db, internalError)
      | some (_, reg) => ({ db with toRegistry := reg }, .ok)
  | .registerRepository ident repoRoot => match repoRoot with
    | .str root =>
      if isBlank root then (db, .error 400 "invalid_payload")
      else match ident.machineId.filter (· ≠ "") with
        | none => (db, .error 400 "invalid_payload")
        | some machineId => match requireMachineMatch auth (some machineId) with
          | some refused => (db, refused)
          | none => match SqlStore.upsertRepository db.toRegistry now ident.repositoryId machineId root
              ident.canonicalRemote ident.projectId ident.createdAt (callerOwnerMachineId auth) with
            | none => (db, internalError)
            | some (none, _) => (db, .error 403 "forbidden")
            | some (some _, reg) => ({ db with toRegistry := reg }, .ok)
    | _ => (db, .error 400 "invalid_payload")
  | .registerSession agent => match requireMachineMatch auth (some agent.machineId) with
    | some refused => (db, refused)
    | none => match SqlStore.upsertSession db.toRegistry agent (callerOwnerMachineId auth) with
      | none => (db, internalError)
      | some (none, _) => (db, .error 403 "forbidden")
      | some (some _, reg) => ({ db with toRegistry := reg }, .ok)
  | .heartbeatSession sessionId status currentTaskId =>
    let known := match status with
      | .null => some none
      | .str s => if s ∈ allowedStatuses then some (some s) else none
      | _ => none
    match known with
    | none => (db, .error 400 "invalid_status")
    | some status => match SqlStore.heartbeatSession db.toRegistry now sessionId status currentTaskId
        (callerOwnerMachineId auth) with
      | none => (db, internalError)
      | some (false, _) => (db, .error 404 "not_found")
      | some (true, reg) => ({ db with toRegistry := reg }, .ok)
  | .ingestBatch prepared fault =>
    let (db, response) := ingestPrepared fault db auth prepared
    (db, response.kind)
  | .invalid => (db, .error 400 "invalid_payload")

/-- A batch request leaves the database as it is, or as the store does. -/
theorem ingestPrepared_db (fault : Option DbStep) (db : Db sql) (auth : AuthContext) (prepared : List PreparedEvent) :
    (ingestPrepared fault db auth prepared).1 = db ∨
      (ingestPrepared fault db auth prepared).1 = (SqlStore.ingestEvents fault db (boundBatch auth prepared)).1 := by
  unfold ingestPrepared
  split
  · exact .inl rfl
  · right
    split
    case h_1 hingest => rw [hingest]
    case h_2 hingest => rw [hingest]

end AgentOS
