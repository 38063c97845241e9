import AgentOS.Hub.Sql
import Mathlib.Algebra.Group.Int.Defs
import Mathlib.Data.List.Sort

/-!
# `SqlStore`

The store behind the endpoints.  A method is one transaction on one connection, so it either changes the database or
raises and leaves it alone.  `ingest_events` is different: it commits the event log on one connection and then derives
sessions and tasks on two later ones, one small transaction per event.  Its model takes the database step that fails,
if one does (`fault`).
-/

namespace AgentOS

/-- What a statement that fails raises: `IntegrityError` for a violated constraint, any other error for data that does
not fit. -/
inductive DbError where
  | integrity
  | data

namespace SqlStore

variable {sql : Sql}

/-! ### Machines -/

/-- `upsert_machine`; `none` where it raises. -/
def upsertMachine (reg : Registry sql) (now : Int) (ident : MachineIdentity) : Option (Bool × Registry sql) :=
  let matched := fun row : MachineRow => sql.key row.machineId = sql.key ident.machineId
  let updated : Registry sql := { reg with
    machines := reg.machines.update matched
      (fun row => { row with name := ident.name, os := ident.os, lastSeenAt := some now }) fun _ => rfl }
  if !(sql.fits 200 ident.name && sql.fits 100 ident.os) then none
  else if reg.machines.rowcount matched ≠ 0 then some (false, updated)
  else if !sql.fits 64 ident.machineId then none
  else match reg.machines.insert ⟨ident.machineId, ident.name, ident.os, ident.createdAt, now, some now⟩ with
    | some machines => some (true, { reg with machines := machines })
    | none => some (false, updated)

/-! ### Repositories -/

/-- What `upsert_repository` returns. -/
structure UpsertedRepository where
  repositoryId : String
  created : Bool
  remapped : Bool
  deriving DecidableEq

/-- `_find_repo_by_natural_key`. -/
def findRepoByNaturalKey (reg : Registry sql) (machineId repoRoot : String) : Option String :=
  (reg.repositories.rows.find? fun row =>
    sql.key row.machineId = sql.key machineId ∧ sql.sha256 row.repoRoot = sql.sha256 repoRoot).map (·.repositoryId)

/-- `_repo_id_exists`. -/
def repoIdExists (reg : Registry sql) (repositoryId : String) : Bool :=
  (reg.repositories.lookup (sql.key repositoryId)).isSome

/-- `_update_repo`. -/
def updateRepo (reg : Registry sql) (now : Int) (repositoryId : String) (canonicalRemote projectId : Option String) :
    Option (Registry sql) :=
  if sql.fitsOpt 500 canonicalRemote && sql.fitsOpt 64 projectId then
    some { reg with
      repositories := reg.repositories.update (fun row => sql.key row.repositoryId = sql.key repositoryId)
        (fun row => { row with canonicalRemote := canonicalRemote, projectId := projectId, lastSeenAt := some now })
        fun _ => rfl }
  else none

/-- `_update_repo_machine`; the foreign key and the natural key are checked. -/
def updateRepoMachine (reg : Registry sql) (now : Int) (repositoryId machineId repoRoot : String)
    (canonicalRemote projectId : Option String) : Option (Registry sql) :=
  if sql.fits 64 machineId && sql.fits 1000 repoRoot && sql.fitsOpt 500 canonicalRemote && sql.fitsOpt 64 projectId &&
      reg.hasMachine machineId && (findRepoByNaturalKey reg machineId repoRoot).isNone then
    some { reg with
      repositories := reg.repositories.update (fun row => sql.key row.repositoryId = sql.key repositoryId)
        (fun row => { row with
          machineId := machineId, repoRoot := repoRoot, canonicalRemote := canonicalRemote, projectId := projectId,
          lastSeenAt := some now })
        fun _ => rfl }
  else none

/-- `INSERT INTO registry.repositories`. -/
def insertRepo (reg : Registry sql) (row : RepositoryRow) : Except DbError (Registry sql) :=
  if !(sql.fits 64 row.repositoryId && sql.fits 64 row.machineId && sql.fitsOpt 500 row.canonicalRemote &&
      sql.fitsOpt 64 row.projectId && sql.fits 1000 row.repoRoot) then .error .data
  else if !reg.hasMachine row.machineId || (findRepoByNaturalKey reg row.machineId row.repoRoot).isSome then
    .error .integrity
  else match reg.repositories.insert row with
    | some repositories => .ok { reg with repositories := repositories }
    | none => .error .integrity

/-- `upsert_repository`; `none` where it raises, `(none, _)` where the owner guard refuses. -/
def upsertRepository (reg : Registry sql) (now : Int) (repositoryId machineId repoRoot : String)
    (canonicalRemote projectId : Option String) (createdAt : Int) (owner : Option String) :
    Option (Option UpsertedRepository × Registry sql) :=
  let ownerRow := reg.repositories.lookup (sql.key repositoryId)
  if owner.isSome ∧ ownerRow.isSome ∧ ownerRow.map (·.machineId) ≠ owner then some (none, reg)
  else match findRepoByNaturalKey reg machineId repoRoot with
    | some existing =>
      (updateRepo reg now existing canonicalRemote projectId).map fun reg =>
        (some ⟨existing, false, existing ≠ repositoryId⟩, reg)
    | none =>
      match insertRepo reg ⟨repositoryId, machineId, canonicalRemote, projectId, repoRoot, createdAt, now,
        some now⟩ with
      | .ok reg => some (some ⟨repositoryId, true, false⟩, reg)
      | .error .data => none
      | .error .integrity => match findRepoByNaturalKey reg machineId repoRoot with
        | some winner =>
          (updateRepo reg now winner canonicalRemote projectId).map fun reg =>
            (some ⟨winner, false, winner ≠ repositoryId⟩, reg)
        | none =>
          if repoIdExists reg repositoryId then
            (updateRepoMachine reg now repositoryId machineId repoRoot canonicalRemote projectId).map fun reg =>
              (some ⟨repositoryId, false, false⟩, reg)
          else none

/-! ### Sessions -/

/-- `WHERE session_id = ?`. -/
def sessionIs (sql : Sql) (sessionId : String) (row : SessionRow) : Bool := sql.key row.sessionId = sql.key sessionId

/-- `UPDATE registry.agent_sessions SET … WHERE …`. -/
def updateSession (reg : Registry sql) (p : SessionRow → Bool) (f : SessionRow → SessionRow)
    (hf : ∀ row, (f row).sessionId = row.sessionId) : Registry sql :=
  { reg with sessions := reg.sessions.update p f fun row => congrArg sql.key (hf row) }

/-- The foreign keys of `registry.agent_sessions`. -/
def sessionRefs (reg : Registry sql) (row : SessionRow) : Bool :=
  reg.hasMachine row.machineId && reg.hasRepository row.repositoryId

/-- `INSERT INTO registry.agent_sessions` of values that fit the other columns. -/
def insertSession (reg : Registry sql) (row : SessionRow) : Except DbError (Registry sql) :=
  if !sql.fits 64 row.sessionId then .error .data
  else if !sessionRefs reg row then .error .integrity
  else match reg.sessions.insert row with
    | some sessions => .ok { reg with sessions := sessions }
    | none => .error .integrity

/-- The columns other than `session_id` can hold the values of a registration. -/
def registrationFits (sql : Sql) (agent : AgentRegistration) : Bool :=
  sql.fits 64 agent.agentId && sql.fits 64 agent.machineId && sql.fitsOpt 64 agent.repositoryId &&
    sql.fits 100 agent.agentType && sql.fitsOpt 64 agent.parentAgentId && sql.fitsOpt 64 agent.currentTaskId &&
    sql.fitsOpt 200 agent.runtime

/-- The row that `upsert_session` inserts. -/
def registrationRow (sql : Sql) (agent : AgentRegistration) : SessionRow where
  sessionId := agent.sessionId
  agentId := agent.agentId
  machineId := agent.machineId
  repositoryId := agent.repositoryId
  agentType := agent.agentType
  parentAgentId := agent.parentAgentId
  status := agent.status.value
  capabilities := dumps sql.reprFloat (.arr (agent.capabilities.map .str))
  currentTaskId := agent.currentTaskId
  modelRuntime := agent.runtime
  startedAt := agent.startedAt
  lastHeartbeatAt := agent.heartbeatAt
  expiresAt := agent.expectedExpirationAt
  endedAt := none

/-- `upsert_session`; `none` where it raises, `(none, _)` where the owner guard refuses. -/
def upsertSession (reg : Registry sql) (agent : AgentRegistration) (owner : Option String) :
    Option (Option Bool × Registry sql) :=
  let ownerRow := reg.sessions.lookup (sql.key agent.sessionId)
  let row := registrationRow sql agent
  let updated := updateSession reg (sessionIs sql agent.sessionId)
    (fun old => { row with sessionId := old.sessionId, startedAt := old.startedAt, endedAt := old.endedAt }) fun _ => rfl
  if owner.isSome ∧ ownerRow.isSome ∧ ownerRow.map (·.machineId) ≠ owner then some (none, reg)
  else if !registrationFits sql agent then none
  else if reg.sessions.rowcount (sessionIs sql agent.sessionId) ≠ 0 then
    if sessionRefs reg row then some (some false, updated) else none
  else match insertSession reg row with
    | .ok reg => some (some true, reg)
    | .error .integrity => some (some false, updated)
    | .error .data => none

/-- `heartbeat_session`; `none` where it raises, `(false, _)` where no row matches. -/
def heartbeatSession (reg : Registry sql) (now : Int) (sessionId : String) (status : Option String)
    (currentTaskId : Json) (owner : Option String) : Option (Bool × Registry sql) :=
  let matched := fun row : SessionRow =>
    sessionIs sql sessionId row && owner.all fun machineId => sql.key row.machineId = sql.key machineId
  if reg.sessions.rowcount matched = 0 then some (false, reg)
  else (sql.text (some 64) currentTaskId).map fun taskId =>
    (true, updateSession reg matched
      (fun row => { row with
        lastHeartbeatAt := some now, status := status.getD row.status, currentTaskId := taskId.or row.currentTaskId })
      fun _ => rfl)

/-- `payload.get(key) or default`. -/
def getOr (payload : List (String × Json)) (key : String) (default : Json) : Json :=
  if (Json.get payload key).truthy then Json.get payload key else default

/-- `_materialize_session_started`; `none` where it raises. -/
def materializeSessionStarted (env : EventEnvelope) (reg : Registry sql) : Option (Registry sql) := do
  let sessionId ← env.sessionId
  let agentId ← sql.textNotNull (some 64) (optStr env.agentId)
  let machineId ← sql.textNotNull (some 64) (.str env.machineId)
  let repositoryId ← sql.text (some 64) (optStr env.repositoryId)
  let agentType ← sql.textNotNull (some 100) (getOr env.payload "agent_type" (.str "agent"))
  let parentAgentId ← sql.text (some 64) (Json.get env.payload "parent_agent_id")
  let currentTaskId ← sql.text (some 64) (optStr env.taskId)
  let modelRuntime ← sql.text (some 200) (Json.get env.payload "runtime")
  let row : SessionRow := {
    sessionId := sessionId, agentId := agentId, machineId := machineId, repositoryId := repositoryId
    agentType := agentType, parentAgentId := parentAgentId, status := "running"
    capabilities := dumps sql.reprFloat (getOr env.payload "capabilities" (.arr [])), currentTaskId := currentTaskId
    modelRuntime := modelRuntime, startedAt := env.occurredAt, lastHeartbeatAt := some env.occurredAt
    expiresAt := none, endedAt := none }
  if reg.sessions.rowcount (sessionIs sql sessionId) ≠ 0 then
    if sessionRefs reg row then
      some (updateSession reg (sessionIs sql sessionId)
        (fun old => { row with
          sessionId := old.sessionId, startedAt := old.startedAt, expiresAt := old.expiresAt, endedAt := old.endedAt })
        fun _ => rfl)
    else none
  else (insertSession reg row).toOption

/-- `_materialize_session_finished`; `none` where it raises. -/
def materializeSessionFinished (env : EventEnvelope) (reg : Registry sql) : Option (Registry sql) := do
  let sessionId ← env.sessionId
  if reg.sessions.rowcount (sessionIs sql sessionId) ≠ 0 then
    some (updateSession reg (sessionIs sql sessionId)
      (fun old => { old with
        status := "finished", endedAt := some env.occurredAt, lastHeartbeatAt := some env.occurredAt })
      fun _ => rfl)
  else
    let agentId ← sql.textNotNull (some 64) (optStr env.agentId)
    let machineId ← sql.textNotNull (some 64) (.str env.machineId)
    let repositoryId ← sql.text (some 64) (optStr env.repositoryId)
    let agentType ← sql.textNotNull (some 100) (getOr env.payload "agent_type" (.str "agent"))
    (insertSession reg {
      sessionId := sessionId, agentId := agentId, machineId := machineId, repositoryId := repositoryId
      agentType := agentType, parentAgentId := none, status := "finished", capabilities := "[]", currentTaskId := none
      modelRuntime := none, startedAt := env.occurredAt, lastHeartbeatAt := some env.occurredAt, expiresAt := none
      endedAt := some env.occurredAt }).toOption

/-- The events that `_materialize_sessions` writes. -/
def isSessionEvent (env : EventEnvelope) : Bool :=
  (env.eventType = "agent.started" || env.eventType = "agent.finished") && env.sessionId.any (· ≠ "")

/-- The body of the loop in `_materialize_sessions`. -/
def materializeSession (env : EventEnvelope) (reg : Registry sql) : Option (Registry sql) :=
  if env.eventType = "agent.started" then materializeSessionStarted env reg else materializeSessionFinished env reg

/-! ### Tasks -/

/-- The events that `_materialize_tasks` writes. -/
def isTaskEvent (env : EventEnvelope) : Bool :=
  (env.eventType = "task.created" || env.eventType = "task.updated" || env.eventType = "task.completed") &&
    (Json.get env.payload "global_id").truthy

/-- `int(payload.get("version") or 1)`; `none` where it raises. -/
def taskVersion (payload : List (String × Json)) : Option Int := (getOr payload "version" (.int 1)).toInt?

/-- The values that `_materialize_task` writes, as their columns hold them; `none` where a step raises. -/
def taskRow (sql : Sql) (env : EventEnvelope) : Option TaskRow := do
  let version ← taskVersion env.payload
  let status ← localStatusToSync (Json.get env.payload "status")
  let globalId ← sql.textNotNull (some 64) (Json.get env.payload "global_id")
  let localCardId ← sql.text (some 64) (Json.get env.payload "card_id")
  let repositoryId ← sql.text (some 64) (optStr env.repositoryId)
  let projectId ← sql.text (some 64) (optStr env.projectId)
  let title ← sql.text (some 1000) (Json.get env.payload "title")
  let description ← sql.text none (Json.get env.payload "description")
  let priority ← sql.text (some 50) (Json.get env.payload "priority")
  let originatingClient ← sql.text (some 64) (.str env.machineId)
  let lastStatusEventId ← sql.text (some 64) (.str env.eventId)
  if -2 ^ 63 ≤ version ∧ version < 2 ^ 63 then
    some {
      globalId := globalId, localCardId := localCardId, repositoryId := repositoryId, projectId := projectId
      title := title, description := description, priority := priority, status := status, version := version
      originatingClient := originatingClient, updatedAt := env.occurredAt, lastStatusEventId := lastStatusEventId }
  else none

/-- `_materialize_task`; `none` where it raises. -/
def materializeTask (env : EventEnvelope) (reg : Registry sql) : Option (Registry sql) :=
  if !(Json.get env.payload "global_id").truthy then some reg
  else (taskRow sql env).bind fun row =>
    let matched := fun old : StoredTask => sql.key old.globalId = sql.key row.globalId ∧ old.version ≤ row.version
    if reg.tasks.rowcount matched ≠ 0 then
      some { reg with
        dbts := reg.dbts + 1
        tasks := reg.tasks.update matched
          (fun old => { row with globalId := old.globalId, changeSeq := reg.dbts + 1 }) fun _ => rfl }
    else if (reg.tasks.lookup (sql.key row.globalId)).isSome then some reg
    else (reg.tasks.insert { row with changeSeq := reg.dbts + 1 }).map fun tasks =>
      { reg with dbts := reg.dbts + 1, tasks := tasks }

/-- `list_tasks`. -/
def listTasks (reg : Registry sql) (repositoryId : Option String) (since : Option Int) (limit : Nat) :
    List StoredTask :=
  let rows := reg.tasks.rows.filter fun row =>
    (since.all fun seq => seq < row.changeSeq) &&
      repositoryId.all fun id => row.repositoryId.any fun r => sql.key r = sql.key id
  (rows.insertionSort fun a b => a.changeSeq ≤ b.changeSeq).take limit

/-! ### What a task event writes -/

/-- The row of a key after a task event whose values are `row`. -/
def upserted (old : Option StoredTask) (row : TaskRow) (changeSeq : Nat) : StoredTask :=
  match old with
  | none => { row with changeSeq := changeSeq }
  | some old => if old.version ≤ row.version then { row with globalId := old.globalId, changeSeq := changeSeq } else old

/-- A task event upserts the row of its key and leaves every other row alone. -/
theorem materializeTask_lookup (reg : Registry sql) {env : EventEnvelope} {row : TaskRow}
    (hgid : (Json.get env.payload "global_id").truthy = true) (hrow : taskRow sql env = some row) :
    ∃ tasks dbts, materializeTask env reg = some { reg with tasks := tasks, dbts := dbts } ∧
      ∀ k, tasks.lookup k = if sql.key row.globalId = k then
        some (upserted (reg.tasks.lookup k) row (reg.dbts + 1)) else reg.tasks.lookup k := by
  unfold materializeTask
  simp only [hgid, hrow, Bool.not_true, Bool.false_eq_true, if_false, Option.bind_some, Table.rowcount_ne_zero]
  split
  case isTrue h =>
    -- the UPDATE meets the row of the key
    obtain ⟨old, hold, hmatched⟩ := h
    obtain ⟨hkey, hle⟩ := of_decide_eq_true hmatched
    refine ⟨_, _, rfl, fun k => ?_⟩
    rw [Table.lookup_update]
    have hlookup := Table.lookup_eq_some.2 ⟨hold, hkey⟩
    by_cases hk : sql.key row.globalId = k
    · subst hk
      rw [if_pos rfl, hlookup, Option.map_some, if_pos hmatched, upserted, if_pos hle]
    · rw [if_neg hk]
      cases hother : reg.tasks.lookup k with
      | none => rfl
      | some other =>
        have hne : sql.key other.globalId ≠ sql.key row.globalId := by
          rw [(Table.lookup_eq_some.1 hother).2]
          exact Ne.symm hk
        simp [hne]
  case isFalse h =>
    split
    case isTrue hsome =>
      -- the row is there, and newer
      obtain ⟨old, hlookup⟩ := Option.isSome_iff_exists.1 hsome
      obtain ⟨hold, hkey⟩ := Table.lookup_eq_some.1 hlookup
      have hlt : ¬ old.version ≤ row.version := fun hle => h ⟨old, hold, decide_eq_true ⟨hkey, hle⟩⟩
      refine ⟨reg.tasks, reg.dbts, rfl, fun k => ?_⟩
      by_cases hk : sql.key row.globalId = k
      · subst hk
        rw [if_pos rfl, hlookup, upserted, if_neg hlt]
      · rw [if_neg hk]
    case isFalse hnone =>
      have hfree := Option.not_isSome_iff_eq_none.1 hnone
      obtain ⟨tasks, htasks⟩ := Table.exists_insert (t := reg.tasks) (r := { row with changeSeq := reg.dbts + 1 }) hfree
      refine ⟨tasks, reg.dbts + 1, by rw [htasks]; rfl, fun k => ?_⟩
      rw [Table.lookup_insert htasks]
      by_cases hk : sql.key row.globalId = k
      · subst hk
        rw [if_pos rfl, if_pos rfl, hfree, upserted]
      · rw [if_neg hk, if_neg hk]

end SqlStore

end AgentOS
