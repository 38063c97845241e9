import AgentOS.Python.Loads
import Mathlib.Algebra.Group.Nat.Defs

/-!
# Contracts

The event envelope as the hub holds it after validation, the task statuses on both sides of the sync boundary, and
`int(value)` on what a payload may hold.
-/

namespace AgentOS

/-- `EventEnvelope`; `occurredAt` is the instant, which `to_utc` never changes, in microseconds from the beginning of
the year 1. -/
structure EventEnvelope where
  eventId : String
  eventType : String
  occurredAt : Int
  machineId : String
  agentId : Option String
  sessionId : Option String
  projectId : Option String
  repositoryId : Option String
  taskId : Option String
  payload : List (String × Json)
  schemaVersion : Int

/-- `PreparedEvent`; a valid envelope has the machine id of the item it was parsed from. -/
structure PreparedEvent where
  envelope : Option EventEnvelope
  raw : String
  error : Option String
  sourceMachineId : Option String
  source : ∀ env, envelope = some env → sourceMachineId = some env.machineId

/-- An item that is recorded as an ingest error. -/
def PreparedEvent.rejected (raw : String) (error sourceMachineId : Option String) : PreparedEvent where
  envelope := none
  raw := raw
  error := error
  sourceMachineId := sourceMachineId
  source := fun _ => nofun

/-- An item that is a valid envelope. -/
def PreparedEvent.valid (env : EventEnvelope) (raw : String) : PreparedEvent where
  envelope := some env
  raw := raw
  error := none
  sourceMachineId := some env.machineId
  source := fun _ h => congrArg some (congrArg EventEnvelope.machineId (Option.some.inj h))

/-- `MachineIdentity`. -/
structure MachineIdentity where
  machineId : String
  name : String
  os : String
  createdAt : Int

/-- `RepositoryIdentity`. -/
structure RepositoryIdentity where
  repositoryId : String
  projectId : Option String
  canonicalRemote : Option String
  machineId : Option String
  createdAt : Int

inductive AgentStatus where
  | starting
  | running
  | waiting
  | failed
  | finished
  deriving DecidableEq

/-- The value string of an `AgentStatus`. -/
def AgentStatus.value : AgentStatus → String
  | starting => "starting"
  | running => "running"
  | waiting => "waiting"
  | failed => "failed"
  | finished => "finished"

/-- `AgentRegistration`. -/
structure AgentRegistration where
  agentId : String
  sessionId : String
  agentType : String
  machineId : String
  repositoryId : Option String
  parentAgentId : Option String
  capabilities : List String
  currentTaskId : Option String
  status : AgentStatus
  runtime : Option String
  startedAt : Int
  heartbeatAt : Option Int
  expectedExpirationAt : Option Int

inductive TaskSyncStatus where
  | created
  | inProgress
  | blocked
  | complete
  deriving DecidableEq

/-- The value string of a `TaskSyncStatus`. -/
def TaskSyncStatus.value : TaskSyncStatus → String
  | created => "created"
  | inProgress => "in_progress"
  | blocked => "blocked"
  | complete => "complete"

/-- `TaskSyncStatus(value)`; `none` is a `ValueError`. -/
def TaskSyncStatus.ofValue (value : String) : Option TaskSyncStatus :=
  [created, inProgress, blocked, complete].find? fun member => member.value = value

/-- `_LOCAL_TO_SYNC`. -/
def localToSync : String → Option TaskSyncStatus
  | "Created" => some .created
  | "In Progress" => some .inProgress
  | "Complete" => some .complete
  | _ => none

/-- `_SYNC_TO_LOCAL`. -/
def syncToLocal : TaskSyncStatus → String
  | .created => "Created"
  | .inProgress => "In Progress"
  | .blocked => "In Progress"
  | .complete => "Complete"

/-- `local_status_to_sync`; `none` is the `TypeError` for a value that cannot be hashed. -/
def localStatusToSync (localStatus : Json) : Option String :=
  match localStatus with
  | .str s => some ((localToSync s).getD .created).value
  | .arr (_ :: _) => none
  | .obj (_ :: _) => none
  | _ => some TaskSyncStatus.created.value

/-- `sync_status_to_local` on a value string, or on no string at all. -/
def syncStatusToLocal (status : Option String) : String :=
  match status.bind TaskSyncStatus.ofValue with
  | none => "Created"
  | some member => syncToLocal member

/-- `card_tools.VALID_STATUSES`. -/
def validStatuses : List String := ["Created", "In Progress", "Complete"]

/-- A local status survives the way up and down. -/
theorem syncStatusToLocal_localStatusToSync {s : String} (hs : s ∈ validStatuses) :
    (localStatusToSync (.str s)).map (fun status => syncStatusToLocal (some status)) = some s := by
  simp only [validStatuses, List.mem_cons, List.not_mem_nil, or_false] at hs
  rcases hs with rfl | rfl | rfl
  · decide
  · decide
  · decide

/-- What comes down is always a valid local status. -/
theorem syncStatusToLocal_mem (status : Option String) : syncStatusToLocal status ∈ validStatuses := by
  unfold syncStatusToLocal
  cases status.bind TaskSyncStatus.ofValue with
  | none => decide
  | some member => cases member <;> decide

/-- `int(value)`; `none` where it raises. -/
def Json.toInt? : Json → Option Int
  | .bool b => some (if b then 1 else 0)
  | .int n => some n
  | .float f => (Py.intOfFloat f).toOption
  | .str s => pyInt s
  | _ => none

end AgentOS
