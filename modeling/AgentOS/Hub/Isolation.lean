import AgentOS.Hub.Routes
import AgentOS.Lib.Run

/-!
# Machine isolation

What the requests of other machines do to the sessions and repositories of a machine `M`.  The owner guards of the
register routes and of the heartbeat keep other machines out.  The event route binds the `machine_id` of an event to
its caller, but the session that an `agent.started` or `agent.finished` event names is looked up by its id alone, so
another machine can take over or finish a session of `M` (`session_taken_over`).

Runs in which no event does that leave the rows of `M` as they are (`machine_isolation`).
-/

namespace AgentOS

open SqlStore

variable {sql : Sql}

/-- A row of the machine `M`. -/
def ownedBy (sql : Sql) (M machineId : String) : Bool := sql.key machineId = sql.key M

/-- The sessions of `M`. -/
def sessionsOf (M : String) (reg : Registry sql) : List SessionRow :=
  reg.sessions.rows.filter fun row => ownedBy sql M row.machineId

/-- The repositories of `M`. -/
def repositoriesOf (M : String) (reg : Registry sql) : List RepositoryRow :=
  reg.repositories.rows.filter fun row => ownedBy sql M row.machineId

/-- A request of a per-machine caller, at an instant. -/
structure Call where
  caller : String
  now : Int
  request : Request

/-- The credentials of a per-machine caller. -/
def Call.auth (call : Call) : AuthContext := ⟨false, some call.caller⟩

/-- The hub handles a call. -/
def Db.handleCall (db : Db sql) (call : Call) : Option (Db sql) := some (handle db call.auth call.now call.request).1

/-- No new agent event of the request names a session of `M`. -/
def SparesRequest (M : String) (db : Db sql) (auth : AuthContext) : Request → Prop
  | .ingestBatch prepared _ => ∀ env ∈ newEnvelopes db (boundBatch auth prepared), isSessionEvent env = true →
      env.sessionId.all fun sessionId =>
        (db.sessions.lookup (sql.key sessionId)).all fun row => !ownedBy sql M row.machineId
  | _ => True

/-- No new agent event of the call names a session of `M`. -/
def Spares (M : String) (db : Db sql) (call : Call) : Prop := SparesRequest M db call.auth call.request

/-- The rows of `M` are those of before. -/
private structure Kept (M : String) (before after : Registry sql) : Prop where
  sessions : sessionsOf M after = sessionsOf M before
  repositories : repositoriesOf M after = repositoriesOf M before

private theorem Kept.refl (M : String) (reg : Registry sql) : Kept M reg reg := ⟨rfl, rfl⟩

private theorem Kept.trans {M : String} {a b c : Registry sql} (h₁ : Kept M a b) (h₂ : Kept M b c) : Kept M a c :=
  ⟨h₂.sessions.trans h₁.sessions, h₂.repositories.trans h₁.repositories⟩

variable {M caller : String}

/-! ### Sessions -/

/-- An update that meets no session of `M` and makes none. -/
private theorem Kept.updateSession (reg : Registry sql) {p : SessionRow → Bool} {f : SessionRow → SessionRow}
    {hf : ∀ row, (f row).sessionId = row.sessionId}
    (h : ∀ row ∈ reg.sessions.rows, p row = true →
      ¬ ownedBy sql M row.machineId ∧ ¬ ownedBy sql M (f row).machineId) :
    Kept M reg (SqlStore.updateSession reg p f hf) := by
  refine ⟨?_, rfl⟩
  unfold sessionsOf SqlStore.updateSession
  exact Table.filter_update (t := reg.sessions) (fun row => congrArg sql.key (hf row)) h

private theorem Kept.insertSession {reg reg' : Registry sql} {row : SessionRow}
    (hinsert : SqlStore.insertSession reg row = .ok reg') (h : ¬ ownedBy sql M row.machineId) : Kept M reg reg' := by
  unfold SqlStore.insertSession at hinsert
  split at hinsert
  · cases hinsert
  split at hinsert
  · cases hinsert
  split at hinsert
  case h_1 sessions hsessions =>
    cases hinsert
    exact ⟨Table.filter_insert hsessions h, rfl⟩
  case h_2 => cases hinsert

private theorem Kept.toOption {reg reg' : Registry sql} {row : SessionRow}
    (hinsert : (SqlStore.insertSession reg row).toOption = some reg') (h : ¬ ownedBy sql M row.machineId) :
    Kept M reg reg' := by
  cases hok : SqlStore.insertSession reg row with
  | error e =>
    rw [hok] at hinsert
    cases hinsert
  | ok reg₁ =>
    rw [hok] at hinsert
    obtain rfl := Option.some.inj hinsert
    exact Kept.insertSession hok h

/-- The sessions that an id names, found in the table. -/
private theorem notOwned_of_lookup {reg : Registry sql} {sessionId : String}
    (h : (reg.sessions.lookup (sql.key sessionId)).all fun row => !ownedBy sql M row.machineId) :
    ∀ row ∈ reg.sessions.rows, sessionIs sql sessionId row = true → ¬ ownedBy sql M row.machineId := by
  intro row hrow his
  have hlookup := Table.lookup_eq_some.2 ⟨hrow, of_decide_eq_true his⟩
  rw [hlookup] at h
  simpa using h

/-- An agent event of another machine that names no session of `M`. -/
private theorem Kept.materializeSession {env : EventEnvelope} {reg reg' : Registry sql}
    (hwrite : SqlStore.materializeSession env reg = some reg') (hcaller : ¬ ownedBy sql M env.machineId)
    (hspares : ∀ sessionId, env.sessionId = some sessionId →
      ∀ row ∈ reg.sessions.rows, sessionIs sql sessionId row = true → ¬ ownedBy sql M row.machineId) :
    Kept M reg reg' := by
  unfold SqlStore.materializeSession at hwrite
  split at hwrite
  · simp only [materializeSessionStarted, Option.bind_eq_bind, Option.bind_eq_some_iff] at hwrite
    obtain ⟨sessionId, hid, _, _, machineId, hmachine, _, _, _, _, _, _, _, _, _, _, hwrite⟩ := hwrite
    obtain rfl := Option.some.inj (sql.text_str (Option.join_eq_some_iff.1 hmachine))
    split at hwrite
    · split at hwrite
      · obtain rfl := Option.some.inj hwrite
        exact Kept.updateSession reg fun row hrow his => ⟨hspares sessionId hid row hrow his, hcaller⟩
      · cases hwrite
    · exact Kept.toOption hwrite hcaller
  · simp only [materializeSessionFinished, Option.bind_eq_bind, Option.bind_eq_some_iff] at hwrite
    obtain ⟨sessionId, hid, hwrite⟩ := hwrite
    split at hwrite
    · obtain rfl := Option.some.inj hwrite
      exact Kept.updateSession reg fun row hrow his =>
        ⟨hspares sessionId hid row hrow his, hspares sessionId hid row hrow his⟩
    · simp only [Option.bind_eq_some_iff] at hwrite
      obtain ⟨_, _, machineId, hmachine, _, _, _, _, hwrite⟩ := hwrite
      obtain rfl := Option.some.inj (sql.text_str (Option.join_eq_some_iff.1 hmachine))
      exact Kept.toOption hwrite hcaller

/-- A row of `M` is not made by keeping the rows of `M`. -/
private theorem Kept.notOwned {reg reg' : Registry sql} (h : Kept M reg reg') {p : SessionRow → Bool}
    (hreg : ∀ row ∈ reg.sessions.rows, p row = true → ¬ ownedBy sql M row.machineId) :
    ∀ row ∈ reg'.sessions.rows, p row = true → ¬ ownedBy sql M row.machineId := by
  intro row hrow hp howned
  have hmem : row ∈ sessionsOf M reg' := List.mem_filter.2 ⟨hrow, howned⟩
  rw [h.sessions] at hmem
  exact hreg row (List.mem_filter.1 hmem).1 hp howned

/-- The session events of a batch, one after the other. -/
private theorem Kept.writeEach_sessions {envs : List EventEnvelope} {reg : Registry sql}
    (hcaller : ∀ env ∈ envs, ¬ ownedBy sql M env.machineId)
    (hspares : ∀ env ∈ envs, ∀ sessionId, env.sessionId = some sessionId →
      ∀ row ∈ reg.sessions.rows, sessionIs sql sessionId row = true → ¬ ownedBy sql M row.machineId) :
    Kept M reg (writeEach SqlStore.materializeSession envs reg) := by
  refine writeEach_invariant (I := Kept M reg) (fun env henv reg₁ reg₂ h hwrite => h.trans ?_) (Kept.refl M reg)
  exact Kept.materializeSession hwrite (hcaller env henv) fun sessionId hid =>
    h.notOwned (hspares env henv sessionId hid)

/-- A bound event names its caller as its machine. -/
private theorem machineId_of_bound {prepared : List PreparedEvent} {env : EventEnvelope}
    (h : env ∈ validEnvelopes (boundBatch ⟨false, some caller⟩ prepared)) : env.machineId = caller := by
  obtain ⟨item, hitem, henv⟩ := List.mem_filterMap.1 h
  obtain ⟨raw, -, rfl⟩ := List.mem_map.1 hitem
  unfold bindEvent at henv
  split at henv
  case isTrue hnone =>
    rw [Option.isNone_iff_eq_none.1 hnone] at henv
    cases henv
  case isFalse =>
    split at henv
    · cases henv
    case isFalse hsource =>
      have hmachine := raw.source env henv
      rw [not_not.1 hsource] at hmachine
      exact (Option.some.inj hmachine).symm

/-! ### The owner guards -/

/-- The owner guard: the row that an id names, if there is one, is not one of `M`. -/
private theorem notOwned_of_guard {ρ : Type} {owner : ρ → String} {row : Option ρ} (hcaller : ¬ ownedBy sql M caller)
    (hguard : ¬ ((some caller).isSome = true ∧ row.isSome = true ∧ row.map owner ≠ some caller)) :
    row.all fun r => !ownedBy sql M (owner r) := by
  cases row with
  | none => rfl
  | some r =>
    have hid : owner r = caller := by
      by_contra hne
      exact hguard ⟨rfl, rfl, fun h => hne (Option.some.inj h)⟩
    rw [Option.all_some, hid]
    simpa using hcaller

private theorem Kept.upsertSession {reg reg' : Registry sql} {agent : AgentRegistration} {result : Option Bool}
    (h : SqlStore.upsertSession reg agent (some caller) = some (result, reg')) (hcaller : ¬ ownedBy sql M caller)
    (hmachine : agent.machineId = caller) : Kept M reg reg' := by
  have hrow : ¬ ownedBy sql M (registrationRow sql agent).machineId := by
    rw [registrationRow, hmachine]
    exact hcaller
  unfold SqlStore.upsertSession at h
  dsimp only at h
  split at h
  case isTrue =>
    cases h
    exact Kept.refl M reg
  case isFalse hguard =>
    -- the row that the id names, if there is one, is the caller's
    have hnotOwned := notOwned_of_lookup (notOwned_of_guard hcaller hguard)
    have hupdated : Kept M reg (SqlStore.updateSession reg (sessionIs sql agent.sessionId)
        (fun old => { registrationRow sql agent with
          sessionId := old.sessionId, startedAt := old.startedAt, endedAt := old.endedAt }) fun _ => rfl) := by
      exact Kept.updateSession reg fun row hrow' his => ⟨hnotOwned row hrow' his, hrow⟩
    split at h
    · cases h
    split at h
    · split at h
      · cases h
        exact hupdated
      · cases h
    · split at h
      case h_1 reg₁ hinsert =>
        cases h
        exact Kept.insertSession hinsert hrow
      case h_2 =>
        cases h
        exact hupdated
      case h_3 => cases h

private theorem Kept.heartbeatSession {reg reg' : Registry sql} {now : Int} {sessionId : String}
    {status : Option String} {currentTaskId : Json} {result : Bool}
    (h : SqlStore.heartbeatSession reg now sessionId status currentTaskId (some caller) = some (result, reg'))
    (hcaller : ¬ ownedBy sql M caller) : Kept M reg reg' := by
  unfold SqlStore.heartbeatSession at h
  dsimp only at h
  split at h
  · cases h
    exact Kept.refl M reg
  · obtain ⟨taskId, -, h⟩ := Option.map_eq_some_iff.1 h
    cases h
    refine Kept.updateSession reg fun row _ hmatched => ?_
    have hsame : sql.key row.machineId = sql.key caller := by
      have := (Bool.and_eq_true _ _ ▸ hmatched : _ ∧ _).2
      simpa using this
    have hrow : ¬ ownedBy sql M row.machineId := by
      rw [ownedBy, hsame]
      exact hcaller
    exact ⟨hrow, hrow⟩

/-! ### Repositories -/

/-- An update of the row that an id names, which is not one of `M` before or after. -/
private theorem Kept.updateRepository (reg : Registry sql) {repositoryId : String} {f : RepositoryRow → RepositoryRow}
    (hf : ∀ row, (f row).repositoryId = row.repositoryId)
    (h : ∀ row ∈ reg.repositories.rows, sql.key row.repositoryId = sql.key repositoryId →
      ¬ ownedBy sql M row.machineId ∧ ¬ ownedBy sql M (f row).machineId) :
    Kept M reg { reg with
      repositories := (reg.repositories.update (fun row => sql.key row.repositoryId = sql.key repositoryId) f
        fun row => congrArg sql.key (hf row)) } := by
  refine ⟨rfl, ?_⟩
  unfold repositoriesOf
  exact Table.filter_update (t := reg.repositories) (fun row => congrArg sql.key (hf row))
    fun row hrow his => h row hrow (of_decide_eq_true his)

/-- The row that the natural key of the caller's machine finds is not one of `M`. -/
private theorem notOwned_of_naturalKey {reg : Registry sql} {repoRoot existing : String}
    (hfind : findRepoByNaturalKey reg caller repoRoot = some existing) (hcaller : ¬ ownedBy sql M caller) :
    ∀ row ∈ reg.repositories.rows, sql.key row.repositoryId = sql.key existing → ¬ ownedBy sql M row.machineId := by
  obtain ⟨found, hfound, rfl⟩ := Option.map_eq_some_iff.1 hfind
  have hmachine : sql.key found.machineId = sql.key caller := by
    have := List.find?_some hfound
    exact (of_decide_eq_true this).1
  intro row hrow hkey
  -- the primary key makes it the row that was found
  have hsame : row = found :=
    List.inj_on_of_nodup_map reg.repositories.unique hrow (List.mem_of_find?_eq_some hfound) hkey
  rw [hsame, ownedBy, hmachine]
  exact hcaller

private theorem Kept.updateRepo {reg reg' : Registry sql} {now : Int} {repositoryId : String}
    {canonicalRemote projectId : Option String}
    (h : SqlStore.updateRepo reg now repositoryId canonicalRemote projectId = some reg')
    (hrow : ∀ row ∈ reg.repositories.rows, sql.key row.repositoryId = sql.key repositoryId →
      ¬ ownedBy sql M row.machineId) : Kept M reg reg' := by
  unfold SqlStore.updateRepo at h
  split at h
  · obtain rfl := Option.some.inj h
    refine Kept.updateRepository reg ?_ fun row hmem hkey => ⟨hrow row hmem hkey, hrow row hmem hkey⟩
    exact fun _ => rfl
  · cases h

private theorem Kept.updateRepoMachine {reg reg' : Registry sql} {now : Int} {repositoryId repoRoot : String}
    {canonicalRemote projectId : Option String}
    (h : SqlStore.updateRepoMachine reg now repositoryId caller repoRoot canonicalRemote projectId = some reg')
    (hcaller : ¬ ownedBy sql M caller)
    (hrow : ∀ row ∈ reg.repositories.rows, sql.key row.repositoryId = sql.key repositoryId →
      ¬ ownedBy sql M row.machineId) : Kept M reg reg' := by
  unfold SqlStore.updateRepoMachine at h
  split at h
  · obtain rfl := Option.some.inj h
    refine Kept.updateRepository reg ?_ fun row hmem hkey => ⟨hrow row hmem hkey, hcaller⟩
    exact fun _ => rfl
  · cases h

private theorem Kept.insertRepo {reg reg' : Registry sql} {row : RepositoryRow}
    (h : SqlStore.insertRepo reg row = .ok reg') (hrow : ¬ ownedBy sql M row.machineId) : Kept M reg reg' := by
  unfold SqlStore.insertRepo at h
  split at h
  · cases h
  split at h
  · cases h
  split at h
  case h_1 repositories hinsert =>
    cases h
    exact ⟨rfl, Table.filter_insert hinsert hrow⟩
  case h_2 => cases h

private theorem Kept.upsertRepository {reg reg' : Registry sql} {now createdAt : Int}
    {repositoryId repoRoot : String} {canonicalRemote projectId : Option String} {result : Option UpsertedRepository}
    (h : SqlStore.upsertRepository reg now repositoryId caller repoRoot canonicalRemote projectId createdAt
      (some caller) = some (result, reg')) (hcaller : ¬ ownedBy sql M caller) : Kept M reg reg' := by
  unfold SqlStore.upsertRepository at h
  dsimp only at h
  split at h
  case isTrue =>
    cases h
    exact Kept.refl M reg
  case isFalse hguard =>
    have hguarded := notOwned_of_guard hcaller hguard
    split at h
    case h_1 existing hfind =>
      obtain ⟨reg₁, hupdate, h⟩ := Option.map_eq_some_iff.1 h
      cases h
      exact Kept.updateRepo hupdate (notOwned_of_naturalKey hfind hcaller)
    case h_2 =>
      split at h
      case h_1 reg₁ hinsert =>
        cases h
        exact Kept.insertRepo hinsert hcaller
      case h_2 => cases h
      case h_3 =>
        split at h
        case h_1 hfind => cases hfind
        case h_2 =>
          split at h
          · obtain ⟨reg₁, hupdate, h⟩ := Option.map_eq_some_iff.1 h
            cases h
            refine Kept.updateRepoMachine hupdate hcaller fun row hrow hkey => ?_
            rw [Table.lookup_eq_some.2 ⟨hrow, hkey⟩, Option.all_some] at hguarded
            simpa using hguarded
          · cases h

private theorem Kept.upsertMachine {reg reg' : Registry sql} {now : Int} {ident : MachineIdentity} {created : Bool}
    (h : SqlStore.upsertMachine reg now ident = some (created, reg')) : Kept M reg reg' := by
  unfold SqlStore.upsertMachine at h
  dsimp only at h
  split at h
  · cases h
  split at h
  · cases h
    exact ⟨rfl, rfl⟩
  split at h
  · cases h
  split at h
  · cases h
    exact ⟨rfl, rfl⟩
  · cases h
    exact ⟨rfl, rfl⟩

/-! ### The result -/

private theorem Kept.ingestEvents {db : Db sql} {prepared : List PreparedEvent} (fault : Option DbStep)
    (hcaller : ¬ ownedBy sql M caller)
    (hspares : ∀ env ∈ newEnvelopes db (boundBatch ⟨false, some caller⟩ prepared), isSessionEvent env = true →
      env.sessionId.all fun sessionId =>
        (db.sessions.lookup (sql.key sessionId)).all fun row => !ownedBy sql M row.machineId) :
    Kept M db.toRegistry
      (SqlStore.ingestEvents fault db (boundBatch ⟨false, some caller⟩ prepared)).1.toRegistry := by
  obtain ⟨sessionEvents, hsessions, taskEvents, -, hreg⟩ :=
    ingestEvents_registry fault db (boundBatch ⟨false, some caller⟩ prepared)
  rw [hreg]
  have hfirst : Kept M db.toRegistry (writeEach SqlStore.materializeSession sessionEvents db.toRegistry) := by
    refine Kept.writeEach_sessions (fun env henv => ?_) fun env henv sessionId hid => ?_
    · have hnew := (mem_toInsert (List.mem_filter.1 (hsessions henv)).1).1
      rw [machineId_of_bound hnew]
      exact hcaller
    · obtain ⟨hnew, hevent⟩ := List.mem_filter.1 (hsessions henv)
      have hnamed := hspares env hnew hevent
      rw [hid] at hnamed
      exact notOwned_of_lookup hnamed
  refine writeEach_invariant (I := Kept M db.toRegistry) (fun env _ reg₁ reg₂ h hwrite => h.trans ?_) hfirst
  obtain ⟨tasks, dbts, rfl⟩ := materializeTask_frame hwrite
  exact ⟨rfl, rfl⟩

/-- A call of another machine that spares the sessions of `M`. -/
private theorem handleCall_keeps {db db' : Db sql} {call : Call} (h : db.handleCall call = some db')
    (hcaller : sql.key call.caller ≠ sql.key M) (hspares : Spares M db call) : Kept M db.toRegistry db'.toRegistry := by
  have hcaller : ¬ ownedBy sql M call.caller := by
    rw [ownedBy]
    simpa using hcaller
  obtain rfl := Option.some.inj h
  obtain ⟨caller, now, request⟩ := call
  have hmatch : ∀ machineId, requireMachineMatch ⟨false, some caller⟩ (some machineId) = none → machineId = caller := by
    intro machineId hnone
    by_contra hne
    have hsome : requireMachineMatch ⟨false, some caller⟩ (some machineId) = some (.error 403 "forbidden") := by
      simp [requireMachineMatch, hne]
    rw [hsome] at hnone
    cases hnone
  cases request with
  | registerMachine ident =>
    simp only [handle, Call.auth]
    split
    · exact Kept.refl M _
    · split
      · exact Kept.refl M _
      case h_2 hupsert => exact Kept.upsertMachine hupsert
  | registerRepository ident repoRoot =>
    simp only [handle, Call.auth]
    split
    case h_1 root =>
      split
      · exact Kept.refl M _
      split
      · exact Kept.refl M _
      split
      · exact Kept.refl M _
      case h_2 machineId _ _ hbound =>
        obtain rfl := hmatch machineId hbound
        split
        · exact Kept.refl M _
        · exact Kept.refl M _
        case h_3 hupsert => exact Kept.upsertRepository hupsert hcaller
    case h_2 => exact Kept.refl M _
  | registerSession agent =>
    simp only [handle, Call.auth]
    split
    · exact Kept.refl M _
    case h_2 hbound =>
      split
      · exact Kept.refl M _
      · exact Kept.refl M _
      case h_3 hupsert => exact Kept.upsertSession hupsert hcaller (hmatch _ hbound)
  | heartbeatSession sessionId status currentTaskId =>
    simp only [handle, Call.auth]
    split
    · exact Kept.refl M _
    · split
      · exact Kept.refl M _
      · exact Kept.refl M _
      case h_3 hbeat => exact Kept.heartbeatSession hbeat hcaller
  | ingestBatch prepared fault =>
    show Kept M db.toRegistry (ingestPrepared fault db _ prepared).1.toRegistry
    rcases ingestPrepared_db fault db _ prepared with hdb | hdb
    · rw [hdb]
      exact Kept.refl M _
    · rw [hdb]
      exact Kept.ingestEvents fault hcaller hspares
  | invalid => exact Kept.refl M _

/-- **Machine isolation.**  Machines other than `M` make any number of calls, and none of the calls holds a new agent
event that names a session of `M`.  Then every session and every repository of `M` is as it was. -/
theorem machine_isolation {M : String} {db db' : Db sql} {calls : List Call}
    (hcallers : ∀ call ∈ calls, sql.key call.caller ≠ sql.key M)
    (hspares : Run.Meets Db.handleCall (Spares M) db calls) (hrun : Run.exec Db.handleCall db calls = some db') :
    sessionsOf M db'.toRegistry = sessionsOf M db.toRegistry ∧
      repositoriesOf M db'.toRegistry = repositoriesOf M db.toRegistry := by
  have hkept : Kept M db.toRegistry db'.toRegistry := by
    induction calls generalizing db with
    | nil =>
      obtain rfl := Option.some.inj hrun
      exact Kept.refl M _
    | cons call calls ih =>
      obtain ⟨db₁, hstep, hrest⟩ := Run.exec_cons.1 hrun
      have hfirst := handleCall_keeps hstep (hcallers call List.mem_cons_self) hspares.1
      exact hfirst.trans (ih (fun c hc => hcallers c (List.mem_cons_of_mem _ hc)) (hspares.2 db₁ hstep) hrest)
  exact ⟨hkept.sessions, hkept.repositories⟩

/-! ### Two runs -/

instance (M : String) (db : Db sql) (auth : AuthContext) :
    ∀ request, Decidable (SparesRequest M db auth request)
  | .ingestBatch prepared _ => inferInstanceAs (Decidable (∀ env ∈ newEnvelopes db (boundBatch auth prepared), _ → _))
  | .registerMachine _ => isTrue trivial
  | .registerRepository _ _ => isTrue trivial
  | .registerSession _ => isTrue trivial
  | .heartbeatSession _ _ _ => isTrue trivial
  | .invalid => isTrue trivial

instance (M : String) (db : Db sql) (call : Call) : Decidable (Spares M db call) :=
  inferInstanceAs (Decidable (SparesRequest M db call.auth call.request))

private def sessionRow (sessionId machineId : String) : SessionRow where
  sessionId := sessionId
  agentId := "agent_1"
  machineId := machineId
  repositoryId := none
  agentType := "implementer"
  parentAgentId := none
  status := "running"
  capabilities := "[]"
  currentTaskId := none
  modelRuntime := none
  startedAt := 0
  lastHeartbeatAt := some 0
  expiresAt := none
  endedAt := none

/-- Two machines, each with a session. -/
private def twoMachines : Db Sql.sample where
  machines := ⟨[⟨"mach_a", "a", "Linux", 0, 0, none⟩, ⟨"mach_m", "m", "Linux", 0, 0, none⟩], by decide +kernel⟩
  repositories := Table.empty
  sessions := ⟨[sessionRow "sess_a" "mach_a", sessionRow "sess_m" "mach_m"], by decide +kernel⟩
  tasks := Table.empty
  dbts := 0
  events := Table.empty
  ingestErrors := []

private def agentEvent (eventType sessionId : String) : EventEnvelope where
  eventId := "evt_1"
  eventType := eventType
  occurredAt := 1
  machineId := "mach_a"
  agentId := some "agent_a"
  sessionId := some sessionId
  projectId := none
  repositoryId := none
  taskId := none
  payload := []
  schemaVersion := 1

/-- Machine `mach_a` finishes its own session, and sends a heartbeat for the session of `mach_m`. -/
private def ownSession : List Call :=
  [⟨"mach_a", 1, .ingestBatch [.valid (agentEvent "agent.finished" "sess_a") ""] none⟩,
    ⟨"mach_a", 2, .heartbeatSession "sess_m" (.str "failed") .null⟩]

theorem own_session_finished :
    ∃ db', Run.exec Db.handleCall twoMachines ownSession = some db' ∧
      sessionsOf "mach_m" db'.toRegistry = sessionsOf "mach_m" twoMachines.toRegistry := by
  have hcallers : ∀ call ∈ ownSession, Sql.sample.key call.caller ≠ Sql.sample.key "mach_m" := by
    intro call hcall
    rcases List.mem_cons.1 hcall with rfl | hcall
    · decide +kernel
    · rw [List.mem_singleton.1 hcall]
      decide +kernel
  have hspares : Run.Meets Db.handleCall (Spares "mach_m") twoMachines ownSession := by decide +kernel
  have hsome : (Run.exec Db.handleCall twoMachines ownSession).isSome = true := rfl
  obtain ⟨db', hrun⟩ := Option.isSome_iff_exists.1 hsome
  exact ⟨db', hrun, (machine_isolation hcallers hspares hrun).1⟩

/-- Machine `mach_a` starts an agent under the session id of `mach_m`: the session now belongs to `mach_a`. -/
theorem session_taken_over :
    ∃ db', Run.exec Db.handleCall twoMachines
        [⟨"mach_a", 1, .ingestBatch [.valid (agentEvent "agent.started" "sess_m") ""] none⟩] = some db' ∧
      Sql.sample.key "mach_a" ≠ Sql.sample.key "mach_m" ∧
        (sessionsOf "mach_m" twoMachines.toRegistry).length = 1 ∧ (sessionsOf "mach_m" db'.toRegistry).length = 0 := by
  exact ⟨_, rfl, by decide +kernel, by decide +kernel, by decide +kernel⟩

end AgentOS
