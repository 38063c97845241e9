import AgentOS.Hub.Prepare
import AgentOS.Outbox.Worker
import AgentOS.Sync.TaskSync

/-!
# Workers at the hub

Any number of workers register at the hub and send it their events, while other callers make requests of their own.  A
request or its answer can be lost; the hub takes each request in one step.

The hub may know a checkout under another repository id than its identity file does.  A worker takes the id that its
registration returned, and the hub never drops the row of a repository; so no event of the checkout is stored under an
id that the registry does not know (`no_orphaned_events`).
-/

namespace AgentOS

open SqlStore

variable {sql : Sql} {Envelope : Type}

/-- The answer to a request, its body where it succeeds. -/
def Response.reply (body : List (String × Json)) : Response → Reply
  | .ok => .response 200 (some (.obj body))
  | .error status code => .response status (some (.obj [("error", .obj [("code", .str code)])]))

/-- The body of `register_repository`. -/
def repositoryBody (reg : Registry sql) (auth : AuthContext) (now : Int) (repo : RepositoryIdentity)
    (repoRoot : String) : List (String × Json) :=
  match upsertRepository reg now repo.repositoryId (repo.machineId.getD "") repoRoot repo.canonicalRemote
      repo.projectId repo.createdAt (callerOwnerMachineId auth) with
  | some (some result, _) => [("repository_id", .str result.repositoryId),
    ("status", .str (if result.created then "created" else "updated")), ("remapped", .bool result.remapped)]
  | _ => []

/-- `AgentRegistration.model_validate` of a session payload. -/
def SessionPayload.request (payload : SessionPayload) : Request :=
  let registration (repositoryId : Option String) : AgentRegistration := {
    agentId := payload.agentId, sessionId := payload.sessionId, agentType := "sync-drain"
    machineId := payload.machineId, repositoryId := repositoryId, parentAgentId := none, capabilities := []
    currentTaskId := none, status := .running, runtime := some "outbox.drain", startedAt := payload.startedAt
    heartbeatAt := none, expectedExpirationAt := none }
  match payload.repositoryId with
  | .str id => .registerSession (registration (some id))
  | .null => .registerSession (registration none)
  | _ => .invalid

/-- The hub on a request of a worker.  Of the answers to the other registrations and to a heartbeat a worker reads the
status only. -/
def Post.handle (pydantic : Pydantic) (post : Post) (hub : Db sql) (auth : AuthContext) (now : Int)
    (fault : Option DbStep) : Db sql × Reply :=
  match post with
  | .machine ident =>
    let result := AgentOS.handle hub auth now (.registerMachine ident)
    (result.1, result.2.reply [])
  | .repository repo repoRoot =>
    let result := AgentOS.handle hub auth now (.registerRepository repo (.str repoRoot))
    (result.1, result.2.reply (repositoryBody hub.toRegistry auth now repo repoRoot))
  | .session payload =>
    let result := AgentOS.handle hub auth now payload.request
    (result.1, result.2.reply [])
  | .events sent =>
    let result := ingestBatch pydantic fault hub auth (batchPayload (sent.map Prod.snd))
    (result.1, result.2.reply)
  | .heartbeat sessionId =>
    let result := AgentOS.handle hub auth now (.heartbeatSession sessionId (.str "running") .null)
    (result.1, result.2.reply [])

/-- What becomes of a request of a worker: it does not reach the hub, or the hub handles it and the answer arrives or
not. -/
inductive PostFate where
  | lost (reply : Reply)
  | handled (auth : AuthContext) (now : Int) (fault : Option DbStep) (arrives : Bool)

/-- The hub after a request of a worker, and the answer that the worker gets; only the hub answers with 200. -/
def PostFate.answer (pydantic : Pydantic) (post : Post) (hub : Db sql) : PostFate → Option (Db sql × Reply)
  | .lost reply => if reply.isOk then none else some (hub, reply)
  | .handled auth now fault arrives =>
    let result := post.handle pydantic hub auth now fault
    some (result.1, if arrives then result.2 else .failure)

/-- The hub, the workers and what the workers have done. -/
structure Fleet (sql : Sql) where
  hub : Db sql
  workers : Nat → Worker
  log : List (Nat × WorkerEntry)

/-- A worker makes a step or is stopped, or another caller makes a request. -/
inductive FleetAct (Envelope : Type) where
  | worker (i : Nat) (input : WorkerInput Envelope) (fate : PostFate)
  | stop (i : Nat) (code : Option Nat)
  | request (auth : AuthContext) (now : Int) (request : Request)

namespace Fleet

variable (config : Nat → DrainConfig) (floats : FloatText) (pydantic : Pydantic)

/-- No worker has started. -/
def start (hub : Db sql) : Fleet sql where
  hub := hub
  workers _ := Worker.init
  log := []

/-- Worker `i` makes its step. -/
def react (s : Fleet sql) (i : Nat) (input : WorkerInput Envelope) : Fleet sql where
  hub := s.hub
  workers := Function.update s.workers i ((s.workers i).react (config i) floats input).1
  log := s.log ++ ((s.workers i).entries (config i) floats input).map fun entry => (i, entry)

def next (s : Fleet sql) : FleetAct Envelope → Option (Fleet sql)
  | .worker i input fate => match (s.workers i).post? (config i) floats input with
    | none => some (s.react config floats i input)
    | some post => (fate.answer pydantic post s.hub).map fun (hub, reply) =>
      ({ s with hub := hub } : Fleet sql).react config floats i { input with reply := reply }
  | .stop i code => some { s with workers := Function.update s.workers i ((s.workers i).goto (.exited code)) }
  | .request auth now request => some { s with hub := (handle s.hub auth now request).1 }

end Fleet

/-! ### The rows of the repositories -/

/-- The registry has a row for the id. -/
def RegisteredId (reg : Registry sql) (id : String) : Prop := (reg.repositories.lookup (sql.key id)).isSome = true

/-- No row of a repository has an empty id. -/
def IdsNonempty (reg : Registry sql) : Prop := ∀ row ∈ reg.repositories.rows, row.repositoryId ≠ ""

/-- No repository of before is gone, and none has got an empty id. -/
structure KeepsRepositories (before after : Registry sql) : Prop where
  rows : ∀ k, (before.repositories.lookup k).isSome = true → (after.repositories.lookup k).isSome = true
  ids : IdsNonempty before → IdsNonempty after

theorem KeepsRepositories.of_eq {before after : Registry sql} (h : after.repositories = before.repositories) :
    KeepsRepositories before after where
  rows k hk := by rwa [h]
  ids hids := by rwa [IdsNonempty, h]

theorem RegisteredId.keep {before after : Registry sql} {id : String} (h : RegisteredId before id)
    (hkeep : KeepsRepositories before after) : RegisteredId after id := hkeep.rows _ h

/-- An `UPDATE` of repositories. -/
private theorem KeepsRepositories.update (reg : Registry sql) {p : RepositoryRow → Bool}
    {f : RepositoryRow → RepositoryRow} (hf : ∀ row, (f row).repositoryId = row.repositoryId) :
    KeepsRepositories reg { reg with
      repositories := reg.repositories.update p f fun row => congrArg sql.key (hf row) } where
  rows k hk := by simpa [Table.lookup_update] using hk
  ids hids row hrow := by
    obtain ⟨old, hold, rfl⟩ := List.mem_map.1 hrow
    split
    · rw [hf]
      exact hids old hold
    · exact hids old hold

private theorem updateRepo_spec {reg reg' : Registry sql} {now : Int} {repositoryId : String}
    {canonicalRemote projectId : Option String}
    (h : updateRepo reg now repositoryId canonicalRemote projectId = some reg') : KeepsRepositories reg reg' := by
  unfold updateRepo at h
  split at h
  · obtain rfl := Option.some.inj h
    refine KeepsRepositories.update reg ?_
    intro row
    rfl
  · cases h

private theorem updateRepoMachine_spec {reg reg' : Registry sql} {now : Int}
    {repositoryId machineId repoRoot : String} {canonicalRemote projectId : Option String}
    (h : updateRepoMachine reg now repositoryId machineId repoRoot canonicalRemote projectId = some reg') :
    KeepsRepositories reg reg' := by
  unfold updateRepoMachine at h
  split at h
  · obtain rfl := Option.some.inj h
    refine KeepsRepositories.update reg ?_
    intro row
    rfl
  · cases h

private theorem insertRepo_spec {reg reg' : Registry sql} {row : RepositoryRow} (hid : row.repositoryId ≠ "")
    (h : insertRepo reg row = .ok reg') : KeepsRepositories reg reg' ∧ RegisteredId reg' row.repositoryId := by
  unfold insertRepo at h
  split at h
  · cases h
  · split at h
    · cases h
    · split at h
      case h_1 repositories hinsert =>
        obtain rfl := Except.ok.inj h
        refine ⟨⟨fun k hk => ?_, fun hids old hold => ?_⟩, ?_⟩
        · rw [Table.lookup_insert hinsert]
          by_cases hkey : sql.key row.repositoryId = k
          · simp [hkey]
          · simpa [hkey] using hk
        · simp only [Table.insert_rows hinsert, List.mem_append, List.mem_singleton] at hold
          rcases hold with hold | rfl
          · exact hids old hold
          · exact hid
        · rw [RegisteredId, Table.lookup_insert hinsert]
          simp
      case h_2 => cases h

private theorem findRepoByNaturalKey_spec {reg : Registry sql} {machineId repoRoot id : String}
    (h : findRepoByNaturalKey reg machineId repoRoot = some id) :
    RegisteredId reg id ∧ (IdsNonempty reg → id ≠ "") := by
  obtain ⟨row, hrow, rfl⟩ := Option.map_eq_some_iff.1 h
  have hmem := List.mem_of_find?_eq_some hrow
  have hlookup := Table.lookup_eq_some.2 ⟨hmem, rfl⟩
  refine ⟨?_, fun hids => hids row hmem⟩
  rw [RegisteredId, hlookup]
  rfl

/-- The id that a registration returns is registered, and no other is lost. -/
theorem upsertRepository_spec {reg reg' : Registry sql} {now : Int} {repositoryId machineId repoRoot : String}
    {canonicalRemote projectId : Option String} {createdAt : Int} {owner : Option String}
    {result : Option UpsertedRepository} (hid : repositoryId ≠ "")
    (h : upsertRepository reg now repositoryId machineId repoRoot canonicalRemote projectId createdAt owner =
      some (result, reg')) :
    KeepsRepositories reg reg' ∧ ∀ upserted, result = some upserted →
      RegisteredId reg' upserted.repositoryId ∧ (IdsNonempty reg → upserted.repositoryId ≠ "") := by
  unfold upsertRepository at h
  dsimp only at h
  split at h
  · obtain ⟨rfl, rfl⟩ := Prod.mk.inj (Option.some.inj h)
    refine ⟨KeepsRepositories.of_eq rfl, fun upserted hupserted => ?_⟩
    cases hupserted
  · split at h
    case h_1 existing hfind =>
      obtain ⟨after, hupdate, hpair⟩ := Option.map_eq_some_iff.1 h
      obtain ⟨rfl, rfl⟩ := Prod.mk.inj hpair
      have hkeep := updateRepo_spec hupdate
      refine ⟨hkeep, fun upserted hupserted => ?_⟩
      obtain rfl := Option.some.inj hupserted
      obtain ⟨hregistered, hne⟩ := findRepoByNaturalKey_spec hfind
      exact ⟨hregistered.keep hkeep, hne⟩
    case h_2 =>
      split at h
      case h_1 after hinsert =>
        obtain ⟨rfl, rfl⟩ := Prod.mk.inj (Option.some.inj h)
        obtain ⟨hkeep, hnew⟩ := insertRepo_spec hid hinsert
        refine ⟨hkeep, fun upserted hupserted => ?_⟩
        obtain rfl := Option.some.inj hupserted
        exact ⟨hnew, fun _ => hid⟩
      case h_2 => cases h
      case h_3 =>
        split at h
        case h_1 hfind => cases hfind
        case h_2 =>
          split at h
          case isTrue hexists =>
            obtain ⟨after, hupdate, hpair⟩ := Option.map_eq_some_iff.1 h
            obtain ⟨rfl, rfl⟩ := Prod.mk.inj hpair
            have hkeep := updateRepoMachine_spec hupdate
            refine ⟨hkeep, fun upserted hupserted => ?_⟩
            obtain rfl := Option.some.inj hupserted
            have hold : RegisteredId reg _ := hexists
            exact ⟨hold.keep hkeep, fun _ => hid⟩
          case isFalse => cases h

/-- An ingest writes no repositories. -/
theorem ingestEvents_repositories (fault : Option DbStep) (db : Db sql) (prepared : List PreparedEvent) :
    (ingestEvents fault db prepared).1.repositories = db.repositories := by
  obtain ⟨sessionEvents, -, taskEvents, -, hreg⟩ := ingestEvents_registry fault db prepared
  obtain ⟨sessions, hsessions⟩ := writeEach_sessions_frame sessionEvents db.toRegistry
  obtain ⟨tasks, dbts, htasks⟩ :=
    writeEach_tasks_frame taskEvents (writeEach materializeSession sessionEvents db.toRegistry)
  rw [hreg, htasks, hsessions]

private theorem ingestPrepared_repositories (fault : Option DbStep) (db : Db sql) (auth : AuthContext)
    (prepared : List PreparedEvent) : (ingestPrepared fault db auth prepared).1.repositories = db.repositories := by
  rcases ingestPrepared_db fault db auth prepared with hdb | hdb
  · rw [hdb]
  · rw [hdb]
    exact ingestEvents_repositories fault db _

private theorem upsertMachine_repositories {reg reg' : Registry sql} {now : Int} {ident : MachineIdentity}
    {created : Bool} (h : upsertMachine reg now ident = some (created, reg')) :
    reg'.repositories = reg.repositories := by
  unfold upsertMachine at h
  dsimp only at h
  split at h
  · cases h
  · split at h
    · obtain ⟨-, rfl⟩ := Prod.mk.inj (Option.some.inj h)
      rfl
    · split at h
      · cases h
      · split at h
        · obtain ⟨-, rfl⟩ := Prod.mk.inj (Option.some.inj h)
          rfl
        · obtain ⟨-, rfl⟩ := Prod.mk.inj (Option.some.inj h)
          rfl

private theorem upsertSession_repositories {reg reg' : Registry sql} {agent : AgentRegistration}
    {owner : Option String} {result : Option Bool} (h : upsertSession reg agent owner = some (result, reg')) :
    reg'.repositories = reg.repositories := by
  unfold upsertSession at h
  dsimp only at h
  split at h
  · obtain ⟨-, rfl⟩ := Prod.mk.inj (Option.some.inj h)
    rfl
  · split at h
    · cases h
    · split at h
      · split at h
        · obtain ⟨-, rfl⟩ := Prod.mk.inj (Option.some.inj h)
          rfl
        · cases h
      · split at h
        case h_1 after hinsert =>
          obtain ⟨-, rfl⟩ := Prod.mk.inj (Option.some.inj h)
          unfold insertSession at hinsert
          split at hinsert
          · cases hinsert
          · split at hinsert
            · cases hinsert
            · split at hinsert
              · obtain rfl := Except.ok.inj hinsert
                rfl
              · cases hinsert
        case h_2 =>
          obtain ⟨-, rfl⟩ := Prod.mk.inj (Option.some.inj h)
          rfl
        case h_3 => cases h

private theorem heartbeatSession_repositories {reg reg' : Registry sql} {now : Int} {sessionId : String}
    {status : Option String} {currentTaskId : Json} {owner : Option String} {found : Bool}
    (h : heartbeatSession reg now sessionId status currentTaskId owner = some (found, reg')) :
    reg'.repositories = reg.repositories := by
  unfold heartbeatSession at h
  dsimp only at h
  split at h
  · obtain ⟨-, rfl⟩ := Prod.mk.inj (Option.some.inj h)
    rfl
  · obtain ⟨taskId, -, hpair⟩ := Option.map_eq_some_iff.1 h
    obtain ⟨-, rfl⟩ := Prod.mk.inj hpair
    rfl

/-- The repository id of a request is not empty. -/
def Request.NamesRepository : Request → Prop
  | .registerRepository ident _ => ident.repositoryId ≠ ""
  | _ => True

/-- No request drops a repository. -/
theorem handle_keepsRepositories (db : Db sql) (auth : AuthContext) (now : Int) {request : Request}
    (hrequest : request.NamesRepository) :
    KeepsRepositories db.toRegistry (handle db auth now request).1.toRegistry := by
  cases request with
  | registerMachine ident =>
    simp only [handle]
    split
    · exact KeepsRepositories.of_eq rfl
    · split
      · exact KeepsRepositories.of_eq rfl
      case h_2 hupsert => exact KeepsRepositories.of_eq (upsertMachine_repositories hupsert)
  | registerRepository ident repoRoot =>
    simp only [handle]
    split
    · split
      · exact KeepsRepositories.of_eq rfl
      · split
        · exact KeepsRepositories.of_eq rfl
        · split
          · exact KeepsRepositories.of_eq rfl
          · split
            · exact KeepsRepositories.of_eq rfl
            · exact KeepsRepositories.of_eq rfl
            case h_3 hupsert => exact (upsertRepository_spec hrequest hupsert).1
    · exact KeepsRepositories.of_eq rfl
  | registerSession agent =>
    simp only [handle]
    split
    · exact KeepsRepositories.of_eq rfl
    · split
      · exact KeepsRepositories.of_eq rfl
      · exact KeepsRepositories.of_eq rfl
      case h_3 hupsert => exact KeepsRepositories.of_eq (upsertSession_repositories hupsert)
  | heartbeatSession sessionId status currentTaskId =>
    simp only [handle]
    split
    · exact KeepsRepositories.of_eq rfl
    · split
      · exact KeepsRepositories.of_eq rfl
      · exact KeepsRepositories.of_eq rfl
      case h_3 hbeat => exact KeepsRepositories.of_eq (heartbeatSession_repositories hbeat)
  | ingestBatch prepared fault =>
    exact KeepsRepositories.of_eq (ingestPrepared_repositories fault db auth prepared)
  | invalid => exact KeepsRepositories.of_eq rfl

theorem ingestBatch_repositories (pydantic : Pydantic) (fault : Option DbStep) (db : Db sql) (auth : AuthContext)
    (data : Json) : (ingestBatch pydantic fault db auth data).1.repositories = db.repositories := by
  unfold ingestBatch
  split
  · split
    · exact ingestPrepared_repositories fault db auth _
    · rfl
  · rfl

/-! ### The ids of the workers -/

/-- The id that a worker takes from the answer to its registration. -/
private theorem canonicalRepoId_handle {pydantic : Pydantic} {hub : Db sql} {auth : AuthContext} {now : Int}
    {fault : Option DbStep} {repo : RepositoryIdentity} {repoRoot : String} (hid : repo.repositoryId ≠ "")
    (hids : IdsNonempty hub.toRegistry)
    (hok : ((Post.repository repo repoRoot).handle pydantic hub auth now fault).2.isOk = true) :
    ∃ id, canonicalRepoId ((Post.repository repo repoRoot).handle pydantic hub auth now fault).2 repo.repositoryId =
        .str id ∧
      RegisteredId ((Post.repository repo repoRoot).handle pydantic hub auth now fault).1.toRegistry id := by
  revert hok
  simp only [Post.handle, handle]
  split
  case isTrue => simp [Response.reply, Reply.isOk]
  case isFalse =>
    cases hmachine : repo.machineId.filter (· ≠ "") with
    | none => simp [Response.reply, Reply.isOk]
    | some machineId =>
      have hmachineId : repo.machineId = some machineId := by
        obtain ⟨h, -⟩ := Option.filter_eq_some_iff.1 hmachine
        exact h
      simp only
      split
      case h_1 refused hmatch =>
        unfold requireMachineMatch at hmatch
        split at hmatch
        · cases hmatch
        · split at hmatch
          · obtain rfl := Option.some.inj hmatch
            simp [Response.reply, Reply.isOk]
          · cases hmatch
      case h_2 =>
        split
        case h_1 => simp [Response.reply, Reply.isOk, internalError]
        case h_2 => simp [Response.reply, Reply.isOk]
        case h_3 result reg hupsert =>
          intro _
          obtain ⟨-, hresult⟩ := upsertRepository_spec hid hupsert
          obtain ⟨hregistered, hne⟩ := hresult result rfl
          refine ⟨result.repositoryId, ?_, hregistered⟩
          simp [canonicalRepoId, Response.reply, Reply.fields, parsedBody, repositoryBody, hmachineId, hupsert,
            Json.get, Json.truthy, hne hids]

/-- The worker holds the ids of its repository, and the hub knows the second. -/
def Worker.TakesId (reg : Registry sql) (w : Worker) : Prop :=
  ∃ identity id, w.identity = some identity ∧ w.ids = ⟨some identity.repo.repositoryId, .str id⟩ ∧ RegisteredId reg id

/-- What holds of every worker: the identity it works under is the one it has loaded, and once its repository has been
registered, it holds the id that the hub knows. -/
structure Worker.Settled (reg : Registry sql) (w : Worker) : Prop where
  names : ∀ identity, w.identity = some identity → identity.repo.repositoryId ≠ ""
  pc : match w.pc with
    | .machine identity _ => w.identity = some identity
    | .repository identity _ => w.identity = some identity
    | .session identity _ => w.identity = some identity ∧ w.TakesId reg
    | .drain => w.TakesId reg
    | .heartbeat => w.TakesId reg
    | _ => True

theorem Worker.TakesId.keep {before after : Registry sql} {w : Worker} (h : w.TakesId before)
    (hkeep : KeepsRepositories before after) : w.TakesId after := by
  obtain ⟨identity, id, hidentity, hids, hregistered⟩ := h
  exact ⟨identity, id, hidentity, hids, hregistered.keep hkeep⟩

theorem Worker.Settled.keep {before after : Registry sql} {w : Worker} (h : w.Settled before)
    (hkeep : KeepsRepositories before after) : w.Settled after := by
  obtain ⟨hnames, hpc⟩ := h
  refine ⟨hnames, ?_⟩
  revert hpc
  split
  · exact id
  · exact id
  · exact fun hpc => ⟨hpc.1, hpc.2.keep hkeep⟩
  · exact fun hpc => hpc.keep hkeep
  · exact fun hpc => hpc.keep hkeep
  · exact id

section

variable {reg : Registry sql} {w : Worker} {config : DrainConfig} {floats : FloatText} {input : WorkerInput Envelope}

/-- A worker that goes where nothing has to hold. -/
private theorem Worker.Settled.backOff (h : w.Settled reg) : (w.backOff config).1.Settled reg := ⟨h.names, trivial⟩

private theorem Worker.Settled.registerFailed (h : w.Settled reg) (attempt : Nat) :
    (w.registerFailed config attempt).1.Settled reg := by
  unfold Worker.registerFailed
  split
  · split
    · exact ⟨h.names, trivial⟩
    · exact ⟨h.names, trivial⟩
  · exact h.backOff

private theorem Worker.Settled.drainFailed (h : w.Settled reg) : (w.drainFailed config).1.Settled reg := by
  unfold Worker.drainFailed
  split
  · exact ⟨h.names, trivial⟩
  · exact ⟨h.names, trivial⟩

/-- A step of a worker, where the answer to the registration of its repository names an id that the hub knows. -/
theorem Worker.Settled.react (h : w.Settled reg)
    (hload : ∀ identity, input.load = .loaded identity → identity.repo.repositoryId ≠ "")
    (hanswer : ∀ identity attempt, w.pc = .repository identity attempt → input.reply.isOk = true →
      ∃ id, canonicalRepoId input.reply identity.repo.repositoryId = .str id ∧ RegisteredId reg id) :
    (w.react config floats input).1.Settled reg := by
  have hat := h.pc
  cases hpc : w.pc with
  | start =>
    simp only [Worker.react, hpc]
    split
    · exact ⟨h.names, trivial⟩
    · exact ⟨h.names, trivial⟩
  | identity attempt =>
    simp only [Worker.react, hpc]
    split
    case h_1 identity hidentity => exact ⟨h.names, hidentity⟩
    case h_2 =>
      split
      · exact ⟨h.names, trivial⟩
      · exact h.registerFailed attempt
      case h_3 identity hloaded =>
        refine ⟨fun loaded hidentity => ?_, rfl⟩
        obtain rfl := Option.some.inj hidentity
        exact hload identity hloaded
  | machine identity attempt =>
    simp only [hpc] at hat
    simp only [Worker.react, hpc]
    split
    · exact ⟨h.names, hat⟩
    · exact h.registerFailed attempt
  | repository identity attempt =>
    simp only [hpc] at hat
    simp only [Worker.react, hpc]
    split
    case isTrue hok =>
      obtain ⟨id, hid, hregistered⟩ := hanswer identity attempt hpc hok
      refine ⟨h.names, hat, identity, id, hat, ?_, hregistered⟩
      simp [WorkerIdentity.ids, hid]
    case isFalse => exact h.registerFailed attempt
  | session identity attempt =>
    simp only [hpc] at hat
    simp only [Worker.react, hpc]
    split
    · exact ⟨h.names, hat.2⟩
    · exact h.registerFailed attempt
  | drain =>
    simp only [hpc] at hat
    have hstay : (if input.written then w else w.goto (.exited none)).Settled reg := by
      split
      · exact h
      · exact ⟨h.names, trivial⟩
    simp only [Worker.react, hpc]
    split
    · exact ⟨h.names, trivial⟩
    · exact ⟨h.names, hat⟩
    · split
      · exact hstay
      · split
        · exact ⟨h.names, trivial⟩
        · split
          · exact h.drainFailed
          · exact hstay
  | heartbeat =>
    simp only [hpc] at hat
    simp only [Worker.react, hpc]
    split
    · exact ⟨h.names, trivial⟩
    · cases w.registered with
      | true => exact ⟨h.names, hat⟩
      | false => exact ⟨h.names, trivial⟩
  | exited code =>
    simp only [Worker.react, hpc]
    exact ⟨h.names, trivial⟩

private theorem identity_registerFailed {identity : WorkerIdentity} (h : w.identity = some identity) (attempt : Nat) :
    (w.registerFailed config attempt).1.identity = some identity := by
  unfold Worker.registerFailed
  split
  · split
    · exact h
    · exact h
  · exact h

/-- A worker loads its identity once. -/
theorem Worker.react_identity {identity : WorkerIdentity} (h : w.identity = some identity) :
    (w.react config floats input).1.identity = some identity := by
  unfold Worker.react
  split
  · split
    · exact h
    · exact h
  · simp only [h]
    exact h
  · split
    · exact h
    · exact identity_registerFailed h _
  · split
    · exact h
    · exact identity_registerFailed h _
  · split
    · exact h
    · exact identity_registerFailed h _
  · have hstay : (if input.written then w else w.goto (.exited none)).identity = some identity := by
      split
      · exact h
      · exact h
    split
    · exact h
    · exact h
    · simp only
      split
      · exact hstay
      · split
        · exact h
        · split
          · unfold Worker.drainFailed
            split
            · exact h
            · exact h
          · exact hstay
  · split
    · exact h
    · exact h
  · exact h

end

/-! ### The fleet -/

/-- An event that was sent for a line of the checkout of `identity` names a repository that the hub knows. -/
def SentRegistered (floats : FloatText) (reg : Registry sql) (identity : WorkerIdentity) (sent : String × Json) :
    Prop :=
  ∀ fields, loads floats.parse sent.1 = some (.obj fields) →
    (Json.get fields "repository_id").asStr = some identity.repo.repositoryId →
    ∃ fields' id, sent.2 = .obj fields' ∧ Json.get fields' "repository_id" = .str id ∧ RegisteredId reg id

theorem SentRegistered.keep {floats : FloatText} {before after : Registry sql} {identity : WorkerIdentity}
    {sent : String × Json} (h : SentRegistered floats before identity sent) (hkeep : KeepsRepositories before after) :
    SentRegistered floats after identity sent := by
  intro fields hloads hlocal
  obtain ⟨fields', id, hsent, hget, hregistered⟩ := h fields hloads hlocal
  exact ⟨fields', id, hsent, hget, hregistered.keep hkeep⟩

/-- An event of the checkout is sent under the id that the worker has taken. -/
theorem sentRegistered_outgoingEvent {floats : FloatText} {reg : Registry sql} {identity : WorkerIdentity}
    {id line : String} {event : Json} (hregistered : RegisteredId reg id)
    (hevent : outgoingEvent floats ⟨some identity.repo.repositoryId, .str id⟩ line = some event) :
    SentRegistered floats reg identity (line, event) := by
  intro fields hloads hlocal
  rw [outgoingEvent, hloads, Option.map_some] at hevent
  obtain rfl := Option.some.inj hevent
  dsimp only
  by_cases hsame : id = identity.repo.repositoryId
  · rw [if_neg (by simp [Json.asStr, hsame])]
    cases hget : Json.get fields "repository_id" with
    | str s =>
      rw [hget] at hlocal
      obtain rfl := Option.some.inj hlocal
      exact ⟨fields, _, rfl, hget, hsame ▸ hregistered⟩
    | _ => simp [hget, Json.asStr] at hlocal
  · rw [if_pos ⟨by simpa [Json.asStr] using hsame, hlocal⟩]
    exact ⟨_, id, rfl, Json.get_set _ _ _, hregistered⟩

/-- An identity that is loaded and a request of another caller name a repository. -/
def FleetAct.Valid : FleetAct Envelope → Prop
  | .worker _ input _ => ∀ identity, input.load = .loaded identity → identity.repo.repositoryId ≠ ""
  | .stop _ _ => True
  | .request _ _ asked => asked.NamesRepository

namespace Fleet

variable {config : Nat → DrainConfig} {floats : FloatText} {pydantic : Pydantic} {s s' : Fleet sql}

structure Inv (floats : FloatText) (s : Fleet sql) : Prop where
  ids : IdsNonempty s.hub.toRegistry
  settled : ∀ i, (s.workers i).Settled s.hub.toRegistry
  sent : ∀ i sent reply, (i, .post (.events sent) reply) ∈ s.log → ∃ identity,
    (s.workers i).identity = some identity ∧ ∀ x ∈ sent, SentRegistered floats s.hub.toRegistry identity x

/-- The hub moves on. -/
theorem Inv.hub (h : s.Inv floats) {hub : Db sql} (hkeep : KeepsRepositories s.hub.toRegistry hub.toRegistry) :
    ({ s with hub := hub } : Fleet sql).Inv floats where
  ids := hkeep.ids h.ids
  settled i := (h.settled i).keep hkeep
  sent i sent reply hmem := by
    obtain ⟨identity, hidentity, hsent⟩ := h.sent i sent reply hmem
    exact ⟨identity, hidentity, fun x hx => (hsent x hx).keep hkeep⟩

/-- The pauses of a worker are no requests. -/
private theorem react_pauses {w : Worker} {config : DrainConfig} {input : WorkerInput Envelope} {post : Post}
    {reply : Reply} : WorkerEntry.post post reply ∉ (w.react config floats input).2 := by
  have hpause : ∀ (w : Worker) attempt, WorkerEntry.post post reply ∉ (w.registerFailed config attempt).2 := by
    intro w attempt
    unfold Worker.registerFailed Worker.backOff
    split
    · split <;> simp
    · simp
  have hdrain : WorkerEntry.post post reply ∉ (w.drainFailed config).2 := by
    unfold Worker.drainFailed Worker.backOff
    split <;> simp
  unfold Worker.react
  split
  · split <;> simp
  · split
    · simp
    · split
      · simp
      · exact hpause _ _
      · simp
  · split
    · simp
    · exact hpause _ _
  · split
    · simp
    · exact hpause _ _
  · split
    · simp
    · exact hpause _ _
  · split
    · simp
    · simp
    · simp only
      split
      · simp
      · split
        · simp
        · split
          · exact hdrain
          · simp
  · split <;> simp
  · simp

/-- The events of a worker's request are those of its batch, under its ids. -/
private theorem post?_events {w : Worker} {config : DrainConfig} {input : WorkerInput Envelope}
    {sent : List (String × Json)} (h : w.post? config floats input = some (.events sent)) :
    w.pc = .drain ∧ ∀ x ∈ sent, outgoingEvent floats w.ids x.1 = some x.2 := by
  unfold Worker.post? at h
  split at h
  case h_4 hpc =>
    obtain ⟨pending, -, h⟩ := Option.bind_eq_some_iff.1 h
    split at h
    · cases h
    · obtain ⟨events, hevents, heq⟩ := Option.map_eq_some_iff.1 h
      cases heq
      exact ⟨hpc, fun x hx => outgoingEvents_spec hevents hx⟩
  case h_5 => simp [Option.map_eq_some_iff] at h
  all_goals cases h

/-- A step of a worker keeps the invariant. -/
theorem Inv.react (h : s.Inv floats) (i : Nat) {input : WorkerInput Envelope}
    (hload : ∀ identity, input.load = .loaded identity → identity.repo.repositoryId ≠ "")
    (hanswer : ∀ identity attempt, (s.workers i).pc = .repository identity attempt → input.reply.isOk = true →
      ∃ id, canonicalRepoId input.reply identity.repo.repositoryId = .str id ∧ RegisteredId s.hub.toRegistry id) :
    (s.react config floats i input).Inv floats where
  ids := h.ids
  settled j := by
    by_cases hj : j = i
    · subst hj
      simp only [Fleet.react, Function.update_self]
      exact (h.settled j).react hload hanswer
    · simp only [Fleet.react, Function.update_of_ne hj]
      exact h.settled j
  sent j sent reply hmem := by
    have hidentity : ∀ k identity, (s.workers k).identity = some identity →
        ((s.react config floats i input).workers k).identity = some identity := by
      intro k identity hk
      by_cases hki : k = i
      · subst hki
        simp only [Fleet.react, Function.update_self]
        exact Worker.react_identity hk
      · simpa only [Fleet.react, Function.update_of_ne hki] using hk
    rcases List.mem_append.1 hmem with hold | hnew
    · obtain ⟨identity, hj, hsent⟩ := h.sent j sent reply hold
      exact ⟨identity, hidentity j identity hj, hsent⟩
    · obtain ⟨entry, hentry, heq⟩ := List.mem_map.1 hnew
      obtain ⟨rfl, rfl⟩ := Prod.mk.inj heq
      rcases List.mem_append.1 hentry with hpost | hpause
      · obtain ⟨post, hpost, heq⟩ := Option.map_eq_some_iff.1 (Option.mem_toList.1 hpost)
        obtain ⟨rfl, -⟩ := WorkerEntry.post.inj heq
        obtain ⟨hpc, hsent⟩ := post?_events hpost
        have htakes := (h.settled i).pc
        simp only [hpc] at htakes
        obtain ⟨identity, id, hj, hids, hregistered⟩ := htakes
        refine ⟨identity, hidentity i identity hj, fun x hx => ?_⟩
        exact sentRegistered_outgoingEvent hregistered (hids ▸ hsent x hx)
      · exact absurd hpause react_pauses

/-- The request that a worker makes where its repository is to be registered. -/
private theorem post?_repository {w : Worker} {config : DrainConfig} {input : WorkerInput Envelope}
    {identity : WorkerIdentity} {attempt : Nat} (hpc : w.pc = .repository identity attempt) :
    w.post? config floats input = some (.repository identity.repoPayload config.repoRoot) := by
  simp only [Worker.post?, hpc]

/-- A request of a worker names a repository. -/
private theorem post?_names {reg : Registry sql} {w : Worker} {config : DrainConfig} {input : WorkerInput Envelope}
    {repo : RepositoryIdentity} {repoRoot : String} (h : w.Settled reg)
    (hpost : w.post? config floats input = some (.repository repo repoRoot)) : repo.repositoryId ≠ "" := by
  unfold Worker.post? at hpost
  split at hpost
  case h_2 identity attempt hpc =>
    have hidentity := h.pc
    simp only [hpc] at hidentity
    cases hpost
    exact h.names identity hidentity
  case h_4 =>
    obtain ⟨pending, -, hpost⟩ := Option.bind_eq_some_iff.1 hpost
    split at hpost
    · cases hpost
    · simp [Option.map_eq_some_iff] at hpost
  case h_5 => simp [Option.map_eq_some_iff] at hpost
  all_goals cases hpost

/-- A request of a worker drops no repository. -/
private theorem handle_keeps {post : Post} {hub : Db sql} {auth : AuthContext} {now : Int} {fault : Option DbStep}
    (hnames : ∀ repo repoRoot, post = .repository repo repoRoot → repo.repositoryId ≠ "") :
    KeepsRepositories hub.toRegistry (post.handle pydantic hub auth now fault).1.toRegistry := by
  cases post with
  | machine ident =>
    have hrequest : (Request.registerMachine ident).NamesRepository := trivial
    exact handle_keepsRepositories hub auth now hrequest
  | repository repo repoRoot =>
    have hrequest : (Request.registerRepository repo (.str repoRoot)).NamesRepository := hnames repo repoRoot rfl
    exact handle_keepsRepositories hub auth now hrequest
  | session payload =>
    have hrequest : payload.request.NamesRepository := by
      unfold SessionPayload.request
      dsimp only
      split <;> trivial
    exact handle_keepsRepositories hub auth now hrequest
  | events sent => exact KeepsRepositories.of_eq (ingestBatch_repositories pydantic fault hub auth _)
  | heartbeat sessionId =>
    have hrequest : (Request.heartbeatSession sessionId (.str "running") .null).NamesRepository := trivial
    exact handle_keepsRepositories hub auth now hrequest

/-- What the worker learns from an answer that is ok, the hub knows. -/
private theorem answer_spec {post : Post} {hub hub' : Db sql} {fate : PostFate} {reply : Reply}
    (hids : IdsNonempty hub.toRegistry)
    (hnames : ∀ repo repoRoot, post = .repository repo repoRoot → repo.repositoryId ≠ "")
    (h : fate.answer pydantic post hub = some (hub', reply)) :
    KeepsRepositories hub.toRegistry hub'.toRegistry ∧
      ∀ repo repoRoot, post = .repository repo repoRoot → reply.isOk = true →
        ∃ id, canonicalRepoId reply repo.repositoryId = .str id ∧ RegisteredId hub'.toRegistry id := by
  cases fate with
  | lost lostReply =>
    simp only [PostFate.answer] at h
    split at h
    · cases h
    case isFalse hlost =>
      obtain ⟨rfl, rfl⟩ := Prod.mk.inj (Option.some.inj h)
      exact ⟨KeepsRepositories.of_eq rfl, fun _ _ _ hok => absurd hok hlost⟩
  | handled auth now fault arrives =>
    obtain ⟨rfl, rfl⟩ := Prod.mk.inj (Option.some.inj h)
    refine ⟨handle_keeps hnames, fun repo repoRoot hpost hok => ?_⟩
    subst hpost
    cases arrives with
    | false => cases hok
    | true => exact canonicalRepoId_handle (hnames repo repoRoot rfl) hids hok

/-- Every step keeps the invariant. -/
theorem Inv.next (h : s.Inv floats) {a : FleetAct Envelope} (hvalid : a.Valid)
    (hnext : s.next config floats pydantic a = some s') : s'.Inv floats := by
  cases a with
  | worker i input fate =>
    simp only [Fleet.next] at hnext
    cases hpost : (s.workers i).post? (config i) floats input with
    | none =>
      rw [hpost] at hnext
      obtain rfl := Option.some.inj hnext
      refine h.react i hvalid fun identity attempt hpc => ?_
      rw [post?_repository hpc] at hpost
      cases hpost
    | some post =>
      rw [hpost] at hnext
      obtain ⟨⟨hub, reply⟩, hanswer, rfl⟩ := Option.map_eq_some_iff.1 hnext
      have hnames : ∀ repo repoRoot, post = .repository repo repoRoot → repo.repositoryId ≠ "" :=
        fun repo repoRoot heq => post?_names (h.settled i) (heq ▸ hpost)
      obtain ⟨hkeep, hlearns⟩ := answer_spec h.ids hnames hanswer
      refine (h.hub hkeep).react i hvalid fun identity attempt hpc hok => ?_
      rw [post?_repository hpc] at hpost
      exact hlearns identity.repoPayload (config i).repoRoot (Option.some.inj hpost).symm hok
  | stop i code =>
    obtain rfl := Option.some.inj hnext
    refine ⟨h.ids, fun j => ?_, fun j sent reply hmem => ?_⟩
    · by_cases hj : j = i
      · subst hj
        simp only [Function.update_self]
        exact ⟨(h.settled j).names, trivial⟩
      · simp only [Function.update_of_ne hj]
        exact h.settled j
    · obtain ⟨identity, hidentity, hsent⟩ := h.sent j sent reply hmem
      refine ⟨identity, ?_, hsent⟩
      by_cases hj : j = i
      · subst hj
        simp only [Function.update_self]
        exact hidentity
      · simpa only [Function.update_of_ne hj] using hidentity
  | request auth now asked =>
    obtain rfl := Option.some.inj hnext
    exact h.hub (handle_keepsRepositories s.hub auth now hvalid)

end Fleet

/-- **No event is orphaned.**  Any number of workers and of other callers, whatever is lost: an event of a line that
carries the repository id of the worker's checkout was sent under an id that the registry of the hub has, and still
has. -/
theorem no_orphaned_events {config : Nat → DrainConfig} (floats : FloatText) (pydantic : Pydantic) {hub : Db sql}
    (hids : IdsNonempty hub.toRegistry) {acts : List (FleetAct Envelope)} (hvalid : ∀ a ∈ acts, a.Valid)
    {s : Fleet sql} (hrun : Run.exec (Fleet.next config floats pydantic) (Fleet.start hub) acts = some s) {i : Nat}
    {sent : List (String × Json)} {reply : Reply} (hmem : (i, .post (.events sent) reply) ∈ s.log) :
    ∃ identity, (s.workers i).identity = some identity ∧
      ∀ x ∈ sent, SentRegistered floats s.hub.toRegistry identity x := by
  have hstart : (Fleet.start hub).Inv floats := by
    refine ⟨hids, fun i => ⟨fun identity h => ?_, trivial⟩, fun i sent reply h => ?_⟩
    · cases h
    · cases h
  have hmeets : Run.Meets (Fleet.next config floats pydantic) (fun _ a => a.Valid) (Fleet.start hub) acts :=
    Run.meets_of_forall _ hvalid
  exact (Run.invariant_of_meets (fun _ _ _ h ha hnext => h.next ha hnext) hstart hmeets hrun).sent i sent reply hmem

/-! ### A checkout that the hub knows under another id -/

private def deskMachine : MachineIdentity := ⟨"mach_1", "desk", "linux", 0⟩

private def remintedIdentity : WorkerIdentity :=
  ⟨deskMachine, ⟨"repo_2", none, none, some "mach_1", 0⟩, "sess_1", "agent_1", 0⟩

private def noNumber (_ : Json) : Except String Int := .error "Input should be a valid integer"

private theorem noNumber_message (v : Json) (msg : String) (h : noNumber v = .error msg) : Bmp msg := by
  obtain rfl := Except.error.inj h
  exact bmp_of_all (by decide)

/-- pydantic on values that are no numbers and no times. -/
private def noNumbers : Pydantic := ⟨noNumber, noNumber, noNumber_message, noNumber_message⟩

private def remintedConfig : Nat → DrainConfig := fun _ => ⟨false, false, "/src", 1, 60⟩

private def remintedFloats : FloatText := ⟨fun _ => .nan, fun _ => "NaN"⟩

private def remintedStep (pending : List (PendingEvent Unit)) : FleetAct Unit :=
  .worker 0 ⟨.loaded remintedIdentity, .failure, some pending, true⟩ (.handled ⟨true, none⟩ 1 none true)

/-- The checkout is registered, then its id is minted anew, and a worker sends a line. -/
private def remintedActs : List (FleetAct Unit) :=
  [.request ⟨true, none⟩ 0 (.registerMachine deskMachine),
    .request ⟨true, none⟩ 0 (.registerRepository ⟨"repo_1", none, none, some "mach_1", 0⟩ (.str "/src")),
    remintedStep [], remintedStep [], remintedStep [], remintedStep [], remintedStep [],
    remintedStep [⟨some (), "\x7b\"repository_id\": \"repo_2\"\x7d", 28, none⟩]]

private def WorkerEntry.isEvents : WorkerEntry → Bool
  | .post (.events sent) _ => !sent.isEmpty
  | _ => false

theorem reminted_registered : ∃ s : Fleet Sql.sample,
    Run.exec (Fleet.next remintedConfig remintedFloats noNumbers) (Fleet.start Db.empty) remintedActs = some s ∧
    ∃ i sent reply, (i, .post (.events sent) reply) ∈ s.log ∧ sent ≠ [] ∧
      ∃ identity, (s.workers i).identity = some identity ∧
        ∀ x ∈ sent, SentRegistered remintedFloats s.hub.toRegistry identity x := by
  have hsent : (Run.exec (Fleet.next remintedConfig remintedFloats noNumbers)
      (Fleet.start (Db.empty : Db Sql.sample)) remintedActs).any (fun s => s.log.any fun e => e.2.isEvents) = true := by
    decide +kernel
  have hvalid : ∀ a ∈ remintedActs, a.Valid := by
    have hstep : ∀ pending, (remintedStep pending).Valid := by
      intro pending identity hload
      obtain rfl := IdentityLoad.loaded.inj hload
      decide
    intro a ha
    simp only [remintedActs, List.mem_cons, List.not_mem_nil, or_false] at ha
    rcases ha with rfl | rfl | rfl | rfl | rfl | rfl | rfl | rfl
    · trivial
    · exact (by decide : "repo_1" ≠ "")
    all_goals exact hstep _
  cases hrun : Run.exec (Fleet.next remintedConfig remintedFloats noNumbers)
      (Fleet.start (Db.empty : Db Sql.sample)) remintedActs with
  | none =>
    rw [hrun] at hsent
    cases hsent
  | some s =>
    rw [hrun, Option.any_some] at hsent
    obtain ⟨⟨i, entry⟩, hmem, hevents⟩ := List.any_eq_true.1 hsent
    have hids : IdsNonempty (Db.empty : Db Sql.sample).toRegistry := fun row hrow => absurd hrow List.not_mem_nil
    cases entry with
    | post post reply =>
      cases post with
      | events sent =>
        have hne : sent ≠ [] := by
          rintro rfl
          cases hevents
        exact ⟨s, rfl, i, sent, reply, hmem, hne,
          no_orphaned_events remintedFloats noNumbers hids hvalid hrun hmem⟩
      | _ => cases hevents
    | _ => cases hevents

end AgentOS
