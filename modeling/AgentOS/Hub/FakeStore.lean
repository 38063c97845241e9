import AgentOS.Hub.Ingest
import Mathlib.Algebra.Order.Ring.Unbundled.Rat

/-!
# `FakeStore`

The in-memory store of the endpoint tests, as far as repositories, sessions, credentials and the ingest of events
concern it.  Its tables are dicts; values are kept as they arrive, and an exception is not caught.
-/

namespace AgentOS

/-- What a value is as the key of a dict: equal numbers are one key, whatever their type. -/
inductive DictKey where
  | none
  | text (s : String)
  | number (q : ℚ)
  | inf
  | negInf
  deriving DecidableEq

/-- The key of a value; `none` where the value cannot be hashed.  A NaN, which equals no key, is left out. -/
def Json.dictKey? : Json → Option DictKey
  | .null => some .none
  | .bool b => some (.number (if b then 1 else 0))
  | .int n => some (.number n)
  | .float (.finite negative mantissa exponent) =>
    let magnitude : ℚ := mantissa * 2 ^ exponent
    some (.number (if negative then -magnitude else magnitude))
  | .float .inf => some .inf
  | .float .negInf => some .negInf
  | .float .nan => Option.none
  | .str s => some (.text s)
  | .arr _ => Option.none
  | .obj _ => Option.none

/-- An entry of `FakeStore.tasks`. -/
structure FakeTask where
  globalId : Json
  localCardId : Json
  repositoryId : Option String
  projectId : Option String
  title : Json
  description : Json
  priority : Json
  status : String
  version : Int
  originatingClient : String
  updatedAt : Int
  lastStatusEventId : String
  changeSeq : Nat

/-- An entry of `FakeStore.sessions`. -/
structure FakeSession where
  sessionId : String
  agentId : Option String
  machineId : String
  repositoryId : Option String
  agentType : Json
  parentAgentId : Json
  status : String
  capabilities : List Json
  currentTaskId : Option String
  modelRuntime : Json
  startedAt : Int
  lastHeartbeatAt : Option Int
  expiresAt : Option Int
  endedAt : Option Int

/-- An entry of `FakeStore.credentials`. -/
structure CredentialRecord where
  keyId : String
  machineId : String
  secretHash : String
  label : Option String
  createdAt : Int
  lastUsedAt : Option Int
  revokedAt : Option Int

/-- What the methods on repositories, sessions and credentials and `ingest_events` read and write; of the machines, the
ids. -/
structure FakeStore where
  machines : List String
  repositories : String → Option RepositoryRow
  repoNatural : String × String → Option String
  sessions : String → Option FakeSession
  eventIds : List String
  events : List (EventEnvelope × Nat)
  ingestErrors : List (String × String)
  raiseOnIngest : Bool
  seq : Nat
  tasks : DictKey → Option FakeTask
  taskSeq : Nat
  credentials : String → Option CredentialRecord

namespace FakeStore

def empty : FakeStore where
  machines := []
  repositories _ := none
  repoNatural _ := none
  sessions _ := none
  eventIds := []
  events := []
  ingestErrors := []
  raiseOnIngest := false
  seq := 0
  tasks _ := none
  taskSeq := 0
  credentials _ := none

/-- `upsert_repository`; `none` where it raises, `(none, _)` where the owner guard refuses. -/
def upsertRepository (store : FakeStore) (now : Int) (repositoryId machineId repoRoot : String)
    (canonicalRemote projectId : Option String) (createdAt : Int) (owner : Option String) :
    Option (Option SqlStore.UpsertedRepository × FakeStore) :=
  let existingRec := store.repositories repositoryId
  if owner.isSome ∧ existingRec.isSome ∧ existingRec.map (·.machineId) ≠ owner then some (none, store)
  else match store.repoNatural (machineId, repoRoot) with
    | some existing =>
      -- `self.repositories[existing]` raises where the index is ahead of the table.
      (store.repositories existing).map fun record =>
        (some ⟨existing, false, existing ≠ repositoryId⟩, { store with
          repositories := Function.update store.repositories existing (some { record with
            canonicalRemote := canonicalRemote, projectId := projectId, lastSeenAt := some now }) })
    | none => match existingRec with
      | some record =>
        let unhooked := Function.update store.repoNatural (record.machineId, record.repoRoot) none
        some (some ⟨repositoryId, false, false⟩, { store with
          repositories := Function.update store.repositories repositoryId (some { record with
            machineId := machineId, repoRoot := repoRoot, canonicalRemote := canonicalRemote, projectId := projectId,
            lastSeenAt := some now })
          repoNatural := Function.update unhooked (machineId, repoRoot) (some repositoryId) })
      | none => some (some ⟨repositoryId, true, false⟩, { store with
          repositories := Function.update store.repositories repositoryId
            (some ⟨repositoryId, machineId, canonicalRemote, projectId, repoRoot, createdAt, now, some now⟩)
          repoNatural := Function.update store.repoNatural (machineId, repoRoot) (some repositoryId) })

/-- `list(value)` of a truthy value; `none` where it raises. -/
def listOf : Json → Option (List Json)
  | .arr items => some items
  | .str s => some (s.toList.map fun c => .str c.toString)
  | .obj fields => some (fields.map fun field => .str field.1)
  | _ => none

/-- `_materialize_session`; `false` where it raises. -/
def materializeSession (env : EventEnvelope) (store : FakeStore) : FakeStore × Bool :=
  match env.sessionId.filter (· ≠ "") with
  | none => (store, true)
  | some sid =>
    let record := store.sessions sid
    let agentType := SqlStore.getOr env.payload "agent_type" (.str "agent")
    if env.eventType = "agent.started" then
      match listOf (SqlStore.getOr env.payload "capabilities" (.arr [])) with
      | none => (store, false)
      | some capabilities =>
        ({ store with sessions := Function.update store.sessions sid (some {
            sessionId := sid, agentId := env.agentId, machineId := env.machineId, repositoryId := env.repositoryId
            agentType := agentType, parentAgentId := Json.get env.payload "parent_agent_id", status := "running"
            capabilities := capabilities, currentTaskId := env.taskId, modelRuntime := Json.get env.payload "runtime"
            startedAt := (record.map (·.startedAt)).getD env.occurredAt, lastHeartbeatAt := some env.occurredAt
            expiresAt := record.bind (·.expiresAt), endedAt := none }) }, true)
    else if env.eventType = "agent.finished" then
      let base : FakeSession := record.getD {
        sessionId := sid, agentId := env.agentId, machineId := env.machineId, repositoryId := env.repositoryId
        agentType := agentType, parentAgentId := .null, status := "finished", capabilities := []
        currentTaskId := env.taskId, modelRuntime := .null, startedAt := env.occurredAt, lastHeartbeatAt := none
        expiresAt := none, endedAt := none }
      ({ store with sessions := Function.update store.sessions sid (some { base with
        status := "finished", endedAt := some env.occurredAt, lastHeartbeatAt := some env.occurredAt }) }, true)
    else (store, true)

/-- The entry that `upsert_session` writes over `record`. -/
def registrationRecord (agent : AgentRegistration) (record : Option FakeSession) : FakeSession where
  sessionId := agent.sessionId
  agentId := some agent.agentId
  machineId := agent.machineId
  repositoryId := agent.repositoryId
  agentType := .str agent.agentType
  parentAgentId := optStr agent.parentAgentId
  status := agent.status.value
  capabilities := agent.capabilities.map .str
  currentTaskId := agent.currentTaskId
  modelRuntime := optStr agent.runtime
  startedAt := (record.map (·.startedAt)).getD agent.startedAt
  lastHeartbeatAt := agent.heartbeatAt
  expiresAt := agent.expectedExpirationAt
  endedAt := record.bind (·.endedAt)

/-- `upsert_session`; `none` where the owner guard refuses. -/
def upsertSession (store : FakeStore) (agent : AgentRegistration) (owner : Option String) : Option Bool × FakeStore :=
  let record := store.sessions agent.sessionId
  if owner.isSome ∧ record.isSome ∧ record.map (·.machineId) ≠ owner then (none, store)
  else (some record.isNone, { store with
    sessions := Function.update store.sessions agent.sessionId (some (registrationRecord agent record)) })

/-- `heartbeat_session`: `heartbeat_at` and `status`, or `none` where there is no such session of the owner. -/
def heartbeatSession (store : FakeStore) (now : Int) (sessionId : String) (status currentTaskId owner : Option String) :
    Option (Int × String) × FakeStore :=
  match store.sessions sessionId with
  | none => (none, store)
  | some record =>
    if owner.isSome ∧ some record.machineId ≠ owner then (none, store)
    else
      let status := status.getD record.status
      (some (now, status), { store with sessions := Function.update store.sessions sessionId (some { record with
        lastHeartbeatAt := some now, status := status, currentTaskId := currentTaskId.or record.currentTaskId }) })

/-- The entry that `_materialize_task` writes. -/
def taskEntry (env : EventEnvelope) (version : Int) (status : String) (changeSeq : Nat) : FakeTask where
  globalId := Json.get env.payload "global_id"
  localCardId := Json.get env.payload "card_id"
  repositoryId := env.repositoryId
  projectId := env.projectId
  title := Json.get env.payload "title"
  description := Json.get env.payload "description"
  priority := Json.get env.payload "priority"
  status := status
  version := version
  originatingClient := env.machineId
  updatedAt := env.occurredAt
  lastStatusEventId := env.eventId
  changeSeq := changeSeq

/-- `_materialize_task`; `false` where it raises. -/
def materializeTask (env : EventEnvelope) (store : FakeStore) : FakeStore × Bool :=
  if !SqlStore.isTaskEvent env then (store, true)
  else match SqlStore.taskVersion env.payload, (Json.get env.payload "global_id").dictKey? with
    | some version, some key =>
      -- `existing.get("version") or 1`
      let newer := (store.tasks key).any fun existing =>
        version < if existing.version = 0 then 1 else existing.version
      if newer then (store, true)
      else
        let store := { store with taskSeq := store.taskSeq + 1 }
        match localStatusToSync (Json.get env.payload "status") with
        | none => (store, false)
        | some status =>
          let entry := taskEntry env version status store.taskSeq
          ({ store with tasks := Function.update store.tasks key (some entry) }, true)
    | _, _ => (store, false)

/-- The first loop of `ingest_events` over the envelopes that are accepted. -/
def record (store : FakeStore) (envs : List EventEnvelope) : FakeStore :=
  envs.foldl (fun store env => { store with
    eventIds := env.eventId :: store.eventIds, seq := store.seq + 1, events := store.events ++ [(env, store.seq + 1)] })
    store

/-- The second loop of `ingest_events`; `false` where it raises. -/
def materialize : List EventEnvelope → FakeStore → FakeStore × Bool
  | [], store => (store, true)
  | env :: envs, store =>
    let (store, finished) := materializeSession env store
    if !finished then (store, false)
    else
      let (store, finished) := materializeTask env store
      if !finished then (store, false) else materialize envs store

/-- `ingest_events`; no outcomes where it raises. -/
def ingestEvents (store : FakeStore) (prepared : List PreparedEvent) : FakeStore × Option (List Outcome) :=
  if store.raiseOnIngest then (store, none)
  else
    let accepted := toInsert store.eventIds [] (validEnvelopes prepared)
    let errors := (rejectedRows prepared).map (·.2)
    let recorded := record { store with ingestErrors := store.ingestErrors ++ errors } accepted
    let (final, finished) := materialize accepted recorded
    (final, if finished then some (outcomes store.eventIds 0 [] prepared) else none)

/-! ### Credentials -/

/-- `machine_exists`. -/
def machineExists (store : FakeStore) (machineId : String) : Bool := machineId ∈ store.machines

/-- `insert_credential`. -/
def insertCredential (store : FakeStore) (now : Int) (keyId machineId secretHash : String) (label : Option String) :
    FakeStore :=
  { store with
    credentials := Function.update store.credentials keyId
      (some ⟨keyId, machineId, secretHash, label, now, none, none⟩) }

/-- `revoke_credential`. -/
def revokeCredential (store : FakeStore) (now : Int) (keyId : String) : FakeStore × Bool :=
  match store.credentials keyId with
  | none => (store, false)
  | some record => ({ store with
      credentials := Function.update store.credentials keyId
        (some { record with revokedAt := record.revokedAt.or (some now) }) }, true)

/-- `touch_credential_last_used`. -/
def touchCredentialLastUsed (store : FakeStore) (now : Int) (keyId : String) : FakeStore :=
  match store.credentials keyId with
  | none => store
  | some record => { store with
      credentials := Function.update store.credentials keyId (some { record with lastUsedAt := some now }) }

/-- Recording touches the log only. -/
theorem record_frame (store : FakeStore) (envs : List EventEnvelope) : ∃ seq events, store.record envs = { store with
    eventIds := (envs.map (·.eventId)).reverse ++ store.eventIds, seq := seq, events := events } := by
  induction envs generalizing store with
  | nil => exact ⟨store.seq, store.events, rfl⟩
  | cons env envs ih =>
    obtain ⟨seq, events, hrest⟩ := ih { store with
      eventIds := env.eventId :: store.eventIds, seq := store.seq + 1, events := store.events ++ [(env, store.seq + 1)] }
    refine ⟨seq, events, ?_⟩
    rw [List.map_cons, List.reverse_cons, List.append_assoc]
    exact hrest

/-- `list_tasks` over the entries. -/
def listTasks (entries : List FakeTask) (repositoryId : Option String) (since : Option Int) (limit : Nat) :
    List FakeTask :=
  let rows := entries.filter fun row =>
    (since.all fun seq => seq < row.changeSeq) && repositoryId.all fun id => row.repositoryId = some id
  (rows.insertionSort fun a b => a.changeSeq ≤ b.changeSeq).take limit

end FakeStore

end AgentOS
