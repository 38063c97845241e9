import AgentOS.Cards.Inbox
import AgentOS.Cards.Writers
import AgentOS.Hub.Prepare
import AgentOS.Outbox.RequestSize

/-!
# From a card of one machine to a card of another

The parts of the task synchronization put together.  Calls write the cards of the first machine and emit their events
into its outbox; drainers post batches of them to the hub, which materializes the tasks; on the second machine any
number of `poll_once` runs pull pages of tasks and apply them to its own cards, statement by statement, and move the
cursor.

`TaskSync` is the product of the models of these parts, and `TaskSync.next` one step of any of them.  A request of a
drainer fails before the hub's commit, is ingested and answered, or is ingested without the answer arriving, after which
the drainer posts its batch again.

The hub takes a request in one step.  Requests that overlap there, and requests of which a step fails behind the commit
of the log (`AgentOS.Hub.Redelivery`), are no steps of this system.
-/

namespace AgentOS

/-- What carries an event outside of the repository: `model_dump_json` and `model_validate_json`, `json.loads` on the
text of a float, and pydantic with the text of an instant. -/
structure Wire where
  dumpJson : EventEnvelope → String
  codec : Codec EventEnvelope
  floats : FloatText
  isoformat : Int → String
  pydantic : Pydantic

/-- The fields of an envelope, in the order in which `model_dump_json` writes them. -/
def EventEnvelope.fields (isoformat : Int → String) (env : EventEnvelope) : List (String × Json) :=
  [("schema_version", .int env.schemaVersion), ("event_id", .str env.eventId), ("event_type", .str env.eventType),
    ("occurred_at", .str (isoformat env.occurredAt)), ("machine_id", .str env.machineId),
    ("agent_id", optStr env.agentId), ("session_id", optStr env.sessionId), ("project_id", optStr env.projectId),
    ("repository_id", optStr env.repositoryId), ("task_id", optStr env.taskId), ("payload", .obj env.payload)]

/-- The first machine: the identities of its checkout, the id under which the hub knows the repository, the batch size
of each drainer and the credential they present, which is an admin's or the machine's own. -/
structure SyncSite where
  context : EmitContext
  repositoryId : String
  wire : Wire
  batchSize : Nat → Int
  auth : AuthContext
  bound : auth.isAdmin = true ∨ auth.machineId = some context.machineId

/-- `_local_repo_id` and `_canonical_repo_id` of a drainer that has registered. -/
def SyncSite.ids (site : SyncSite) : RepoIds where
  localId := some site.context.repositoryId
  canonicalId := .str site.repositoryId

/-- An entry of `results`. -/
def Outcome.toJson (outcome : Outcome) : Json :=
  .obj ([("index", .int outcome.index)] ++ (outcome.eventId.map fun id => ("event_id", Json.str id)).toList ++
    [("outcome", .str outcome.outcome)] ++
    if outcome.outcome = "rejected" then [("reason", optStr outcome.reason)] else [])

/-- The answer as the drain receives it. -/
def BatchResponse.reply : BatchResponse → Reply
  | .results outcomes => .response 200 (some (.obj [("results", .arr (outcomes.map Outcome.toJson))]))
  | .error status code => .response status (some (.obj [("error", .obj [("code", .str code)])]))

/-- A row of `GET /v1/tasks`, as `apply_task_projection` reads it. -/
def StoredTask.projection (row : StoredTask) : TaskProjection where
  globalId := some row.globalId
  title := row.title
  description := row.description
  priority := row.priority
  status := some row.status
  version := some row.version

/-- What becomes of a request: it fails before the hub's commit, or it is ingested and the answer arrives or not. -/
inductive Fate where
  | lost (reply : Reply)
  | answered
  | unanswered

/-- The cards of the first machine, its outbox, the hub, the cards and the inbox cursors of the second machine, and
where its pollers are. -/
structure TaskSync (sql : Sql) where
  writers : Writers
  outbox : Sys EventEnvelope
  hub : Db sql
  cards : CardDb
  cursors : String → Option Int
  pollers : Nat → PollPc StoredTask

namespace TaskSync

variable {sql : Sql}

/-- The hub and the cards of the second machine are there, and `globalIds` exist. -/
def start (globalIds : List String) (hub : Db sql) (cards : Cards) : TaskSync sql where
  writers := Writers.start globalIds
  outbox := Sys.init
  hub := hub
  cards := CardDb.start cards
  cursors _ := none
  pollers _ := .idle none

inductive Act where
  | write (a : Writers.Act)
  | drain (i : Nat) (fate : Fate)
  | crashDrain (i : Nat)
  | poll (i : Nat) (args : PollArgs)
  | step (i : Nat) (newCardId : String)
  | fail (i : Nat)
  | crash (i : Nat)

def goto (s : TaskSync sql) (i : Nat) (pc : PollPc StoredTask) : TaskSync sql :=
  { s with pollers := Function.update s.pollers i pc }

variable (site : SyncSite)

/-- `append_envelope` of the events that a step of a call has emitted. -/
def append (outbox : Sys EventEnvelope) (envs : List EventEnvelope) : Sys EventEnvelope :=
  envs.foldl (fun outbox env => appendLine site.wire.codec outbox (site.wire.dumpJson env)) outbox

/-- The events of a request. -/
def outgoing (pending : List (PendingEvent EventEnvelope)) : Option (List Json) :=
  (toSend pending).mapM fun event => outgoingEvent site.wire.floats site.ids event.raw

/-- The hub on a batch request, with the answer that the drainer gets. -/
def post (hub : Db sql) (pending : List (PendingEvent EventEnvelope)) : Fate → Option (Db sql × Reply)
  | .lost (.response status body) => if status = 200 then none else some (hub, .response status body)
  | .lost .failure => some (hub, .failure)
  | .answered => (outgoing site pending).map fun events =>
    let (hub, response) := ingestBatch site.wire.pydantic none hub site.auth (batchPayload events)
    (hub, response.reply)
  | .unanswered => (outgoing site pending).map fun events =>
    ((ingestBatch site.wire.pydantic none hub site.auth (batchPayload events)).1, .failure)

/-- Poller `i` makes its next access. -/
def pollStep (s : TaskSync sql) (i : Nat) (newCardId : String) : Option (TaskSync sql) :=
  match s.pollers i with
  | .idle _ => none
  | .fetch args since left =>
    let page := SqlStore.listTasks s.hub.toRegistry (argOrNone (some args.source)) since (parseLimit args.limit)
    if page = [] then some (s.goto i (.idle (some (args, .returned))))
    else some (s.goto i (.apply args since left page page))
  | .apply args since left page [] => some (s.goto i (@Inbox.afterPage (SqlStore.hub sql) args since left page))
  | .apply args since left page (task :: todo) => match s.cards.calls i with
    | .idle => (s.cards.next (.call i task.projection)).map fun cards => { s with cards := cards }
    | .returned none => some ({ s with cards := s.cards.goto i .idle }.goto i (.idle (some (args, .raised))))
    | .returned (some _) => some ({ s with cards := s.cards.goto i .idle }.goto i (.apply args since left page todo))
    | _ => (s.cards.next (.step i newCardId)).map fun cards => { s with cards := cards }
  | .write args since left page nextSince =>
    some ({ s with cursors := Function.update s.cursors args.source (some nextSince) }.goto i
      (@Inbox.afterWrite (SqlStore.hub sql) args since left page nextSince))

/-- One step: a call on the first machine makes a step of its own, a drainer or a poller makes its next access, a poll
begins, an access of a poll fails, or a process dies. -/
def next (s : TaskSync sql) : Act → Option (TaskSync sql)
  | .write a => (s.writers.next site.context a).map fun writers =>
    { s with
      writers := writers
      outbox := append site s.outbox (writers.emitted.drop s.writers.emitted.length) }
  | .drain i fate => match (s.outbox.drainers i).pc with
    | .request pending _ => (post site s.hub pending fate).map fun (hub, reply) =>
      { s with hub := hub, outbox := drainStep site.wire.codec site.batchSize s.outbox i reply }
    | _ => some { s with outbox := drainStep site.wire.codec site.batchSize s.outbox i .failure }
  | .crashDrain i => some { s with outbox := s.outbox.setDrainer i ((s.outbox.drainers i).goto .idle) }
  | .poll i args => match s.pollers i with
    | .idle _ => match args.maxPages with
      | 0 => some (s.goto i (.idle (some (args, .hitMaxPages))))
      | left + 1 => some (s.goto i (.fetch args (s.cursors args.source) left))
    | _ => none
  | .step i newCardId => s.pollStep i newCardId
  | .fail i => match s.pollers i with
    | .fetch args _ _ => some (s.goto i (.idle (some (args, .raised))))
    | .write args _ _ _ _ => some (s.goto i (.idle (some (args, .raised))))
    | .apply _ _ _ _ _ => (s.cards.next (.fail i)).map fun cards => { s with cards := cards }
    | .idle _ => none
  | .crash i => (s.cards.next (.crash i)).map fun cards =>
    { s with cards := cards }.goto i (match s.pollers i with
      | .idle last => .idle last
      | .fetch args _ _ => .idle (some (args, .raised))
      | .apply args _ _ _ _ => .idle (some (args, .raised))
      | .write args _ _ _ _ => .idle (some (args, .raised)))

end TaskSync

end AgentOS
