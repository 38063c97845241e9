import AgentOS.Hub.PoisonBatch
import AgentOS.Hub.FakeStore
import AgentOS.Lib.Run

/-!
# The sessions of the two stores

`upsert_session`, `heartbeat_session` and `ingest_events` are called on `SqlStore` and on `FakeStore` with the same
arguments.  The stores answer the same and hold the same sessions as long as no call is one on which they are known to
part (`Compatible`): above all, no `agent.started` may come for a session that has ended, because `SqlStore` keeps its
`ended_at` and `FakeStore` clears it (`stores_agree`).
-/

namespace AgentOS

/-- A call of one of the three methods; `now` is the time of the server. -/
inductive SessionCall where
  | upsertSession (agent : AgentRegistration) (owner : Option String)
  | heartbeatSession (now : Int) (sessionId : String) (status currentTaskId owner : Option String)
  | ingestEvents (prepared : List PreparedEvent)

/-- What a call returns: `created` or the refusal, `heartbeat_at` with `status` or `None`, the outcomes. -/
inductive SessionResponse where
  | upserted (created : Option Bool)
  | heartbeat (seen : Option (Option Int × String))
  | verdicts (outcomes : List Outcome)
  | raised
  deriving DecidableEq

variable {sql : Sql}

def SqlStore.sessionCall (db : Db sql) : SessionCall → Db sql × SessionResponse
  | .upsertSession agent owner => match upsertSession db.toRegistry agent owner with
    | some (created, reg) => ({ db with toRegistry := reg }, .upserted created)
    | none => (db, .raised)
  | .heartbeatSession now sessionId status currentTaskId owner =>
    match heartbeatSession db.toRegistry now sessionId status (optStr currentTaskId) owner with
    | some (true, reg) =>
      let row := reg.sessions.lookup (sql.key sessionId)
      ({ db with toRegistry := reg }, .heartbeat (row.map fun row => (row.lastHeartbeatAt, row.status)))
    | some (false, reg) => ({ db with toRegistry := reg }, .heartbeat none)
    | none => (db, .raised)
  | .ingestEvents prepared => match ingestEvents none db prepared with
    | (db, some outcomes) => (db, .verdicts outcomes)
    | (db, none) => (db, .raised)

def FakeStore.sessionCall (store : FakeStore) : SessionCall → FakeStore × SessionResponse
  | .upsertSession agent owner =>
    let (created, store) := store.upsertSession agent owner
    (store, .upserted created)
  | .heartbeatSession now sessionId status currentTaskId owner =>
    let (seen, store) := store.heartbeatSession now sessionId status currentTaskId owner
    (store, .heartbeat (seen.map fun (time, status) => (some time, status)))
  | .ingestEvents prepared => match store.ingestEvents prepared with
    | (store, some outcomes) => (store, .verdicts outcomes)
    | (store, none) => (store, .raised)

/-- The two stores side by side. -/
structure Stores (sql : Sql) where
  db : Db sql
  fake : FakeStore

/-- Both stores are called. -/
def Stores.call (stores : Stores sql) (call : SessionCall) : Option (Stores sql) :=
  some ⟨(SqlStore.sessionCall stores.db call).1, (stores.fake.sessionCall call).1⟩

/-- Both stores give the same response. -/
def SameResponse (stores : Stores sql) (call : SessionCall) : Prop :=
  (SqlStore.sessionCall stores.db call).2 = (stores.fake.sessionCall call).2

/-! ### Agreement -/

/-- A row and a record say the same; the column `capabilities` holds JSON. -/
structure SameSession (sql : Sql) (row : SessionRow) (record : FakeSession) : Prop where
  status : row.status = record.status
  startedAt : row.startedAt = record.startedAt
  endedAt : row.endedAt = record.endedAt
  machineId : row.machineId = record.machineId
  repositoryId : row.repositoryId = record.repositoryId
  capabilities : row.capabilities = dumps sql.reprFloat (.arr record.capabilities)

/-- The stores hold the same sessions. -/
structure SameSessions (reg : Registry sql) (store : FakeStore) : Prop where
  row : ∀ row ∈ reg.sessions.rows, ∃ record, store.sessions row.sessionId = some record ∧ SameSession sql row record
  record : ∀ sid, (store.sessions sid).isSome → ∃ row ∈ reg.sessions.rows, row.sessionId = sid

/-- The stores agree: they hold the same sessions, and know the same events. -/
structure Stores.Agree (stores : Stores sql) : Prop where
  sessions : SameSessions stores.db.toRegistry stores.fake
  eventIds : ∀ id, id ∈ stores.fake.eventIds ↔ ∃ stored ∈ stores.db.events.rows, stored.eventId = id
  quiet : stores.fake.raiseOnIngest = false

/-- No two of the ids are different spellings of one. -/
def OneSpelling (sql : Sql) (ids : List String) : Prop := ∀ id ∈ ids, ∀ id' ∈ ids, sql.key id = sql.key id' → id = id'

/-! ### The calls -/

/-- The `session_id`s of the table. -/
def sessionIds (reg : Registry sql) : List String := reg.sessions.rows.map (·.sessionId)

/-- The columns of `registry.agent_sessions` can hold what an agent event says. -/
def fitsSession (sql : Sql) (env : EventEnvelope) : Bool :=
  env.sessionId.any (sql.fits 64) && (sql.textNotNull (some 64) (optStr env.agentId)).isSome &&
    sql.fits 64 env.machineId && sql.fitsOpt 64 env.repositoryId &&
    (sql.textNotNull (some 100) (SqlStore.getOr env.payload "agent_type" (.str "agent"))).isSome &&
    (sql.text (some 64) (Json.get env.payload "parent_agent_id")).isSome && sql.fitsOpt 64 env.taskId &&
    (sql.text (some 200) (Json.get env.payload "runtime")).isSome

/-- Valid arguments: machine and repository are registered, the status is known, and the values fit their columns. -/
def ValidCall (db : Db sql) : SessionCall → Prop
  | .upsertSession agent _ => SqlStore.registrationFits sql agent = true ∧ sql.fits 64 agent.sessionId = true ∧
      SqlStore.sessionRefs db.toRegistry (SqlStore.registrationRow sql agent) = true
  | .heartbeatSession _ _ status currentTaskId _ =>
      status.all (· ∈ allowedStatuses) = true ∧ sql.fitsOpt 64 currentTaskId = true
  | .ingestEvents prepared =>
      (∀ row ∈ rejectedRows prepared, SqlStore.ErrorRowFits sql row) ∧
      (∀ env ∈ validEnvelopes prepared, sendable env = true ∧ sql.fitsLog env = true) ∧
      ∀ env ∈ validEnvelopes prepared, SqlStore.isSessionEvent env = true → fitsSession sql env = true ∧
        db.hasMachine env.machineId = true ∧ db.hasRepository env.repositoryId = true

/-- No `agent.started` of the list is for a session that has ended before; `ended` are those that have at the
beginning. -/
def noRestart : List String → List EventEnvelope → Bool
  | _, [] => true
  | ended, env :: envs =>
    if env.eventType = "agent.started" then env.sessionId.all (· ∉ ended) && noRestart ended envs
    else noRestart (env.sessionId.toList ++ ended) envs

/-- The sessions that have ended. -/
def endedSessions (reg : Registry sql) : List String :=
  (reg.sessions.rows.filter fun row => row.endedAt.isSome).map (·.sessionId)

/-- The capabilities are a list, or none are given. -/
def capabilityList (env : EventEnvelope) : Bool :=
  match SqlStore.getOr env.payload "capabilities" (.arr []) with
  | .arr _ => true
  | _ => false

/-- A task event that `FakeStore` can materialize. -/
def taskTyped (env : EventEnvelope) : Bool :=
  (SqlStore.taskVersion env.payload).isSome && (Json.get env.payload "global_id").dictKey?.isSome &&
    (localStatusToSync (Json.get env.payload "status")).isSome

/-- The calls on which the stores do not part. -/
def Compatible (db : Db sql) : SessionCall → Prop
  | .upsertSession agent _ => OneSpelling sql (agent.sessionId :: sessionIds db.toRegistry)
  | .heartbeatSession _ sessionId _ _ owner =>
      OneSpelling sql (sessionId :: sessionIds db.toRegistry) ∧
        OneSpelling sql (owner.toList ++ db.sessions.rows.map (·.machineId))
  | .ingestEvents prepared =>
      OneSpelling sql ((validEnvelopes prepared).map (·.eventId) ++ db.events.rows.map (·.eventId)) ∧
      OneSpelling sql ((validEnvelopes prepared).filterMap (·.sessionId) ++ sessionIds db.toRegistry) ∧
      (∀ env ∈ validEnvelopes prepared, env.eventType = "agent.started" → capabilityList env = true) ∧
      (∀ env ∈ validEnvelopes prepared, SqlStore.isTaskEvent env = true → taskTyped env = true) ∧
      noRestart (endedSessions db.toRegistry)
        ((SqlStore.newEnvelopes db prepared).filter SqlStore.isSessionEvent) = true

instance (ids : List String) : Decidable (OneSpelling sql ids) :=
  inferInstanceAs (Decidable (∀ id ∈ ids, ∀ id' ∈ ids, sql.key id = sql.key id' → id = id'))

instance decidableValidCall (db : Db sql) : ∀ call, Decidable (ValidCall db call)
  | .upsertSession .. => inferInstanceAs (Decidable (_ ∧ _ ∧ _))
  | .heartbeatSession .. => inferInstanceAs (Decidable (_ ∧ _))
  | .ingestEvents prepared => inferInstanceAs (Decidable ((∀ row ∈ rejectedRows prepared, _) ∧
      (∀ env ∈ validEnvelopes prepared, _ ∧ _) ∧ ∀ env ∈ validEnvelopes prepared, _ → _ ∧ _ ∧ _))

instance decidableCompatible (db : Db sql) : ∀ call, Decidable (Compatible db call)
  | .upsertSession .. => inferInstanceAs (Decidable (OneSpelling _ _))
  | .heartbeatSession .. => inferInstanceAs (Decidable (OneSpelling _ _ ∧ OneSpelling _ _))
  | .ingestEvents prepared => inferInstanceAs (Decidable (OneSpelling _ _ ∧ OneSpelling _ _ ∧
      (∀ env ∈ validEnvelopes prepared, _ → _) ∧ (∀ env ∈ validEnvelopes prepared, _ → _) ∧ _ = true))

/-! ### One session -/

namespace SameSessions

variable {reg : Registry sql} {store : FakeStore}

/-- Both stores write the session of one id. -/
theorem put (h : SameSessions reg store) (row : SessionRow) (record : FakeSession) {sid : String}
    (hsid : row.sessionId = sid) (hsame : SameSession sql row record)
    (hspelling : ∀ old ∈ reg.sessions.rows, sql.key old.sessionId = sql.key sid → old.sessionId = sid) :
    SameSessions { reg with sessions := reg.sessions.put row }
      { store with sessions := Function.update store.sessions sid (some record) } := by
  subst hsid
  constructor
  · intro x hx
    rcases Table.mem_put.1 hx with rfl | ⟨hx, hne⟩
    · exact ⟨record, Function.update_self .., hsame⟩
    · obtain ⟨old, hold, hsame⟩ := h.row x hx
      have hsid : x.sessionId ≠ row.sessionId := fun hid => hne (congrArg sql.key hid)
      refine ⟨old, ?_, hsame⟩
      rw [← hold]
      exact Function.update_of_ne hsid _ _
  · intro sid hsome
    by_cases hsid : sid = row.sessionId
    · exact ⟨row, Table.mem_put.2 (Or.inl rfl), hsid.symm⟩
    · have hold : (store.sessions sid).isSome := by
        dsimp only at hsome
        rwa [Function.update_of_ne hsid] at hsome
      obtain ⟨old, hmem, rfl⟩ := h.record sid hold
      exact ⟨old, Table.mem_put.2 (Or.inr ⟨hmem, fun hkey => hsid (hspelling old hmem hkey)⟩), rfl⟩

/-- Either both stores hold the session or neither does. -/
theorem find (h : SameSessions reg store) {sid : String}
    (hspelling : ∀ old ∈ reg.sessions.rows, sql.key old.sessionId = sql.key sid → old.sessionId = sid) :
    (∃ old record, old ∈ reg.sessions.rows ∧ old.sessionId = sid ∧ reg.sessions.lookup (sql.key sid) = some old ∧
      store.sessions sid = some record ∧ SameSession sql old record) ∨
    reg.sessions.lookup (sql.key sid) = none ∧ store.sessions sid = none := by
  cases hlookup : reg.sessions.lookup (sql.key sid) with
  | some old =>
    obtain ⟨hold, hkey⟩ := Table.lookup_eq_some.1 hlookup
    obtain rfl := hspelling old hold hkey
    obtain ⟨record, hrecord, hsame⟩ := h.row old hold
    exact Or.inl ⟨old, record, hold, rfl, rfl, hrecord, hsame⟩
  | none =>
    refine Or.inr ⟨rfl, Option.not_isSome_iff_eq_none.1 fun hsome => ?_⟩
    obtain ⟨old, hold, rfl⟩ := h.record sid hsome
    exact Table.lookup_eq_none.1 hlookup old hold rfl

end SameSessions

/-! ### The statements of `SqlStore` -/

namespace SqlStore

variable {reg : Registry sql} {sid : String}

theorem rowcount_sessionIs : reg.sessions.rowcount (sessionIs sql sid) ≠ 0 ↔
    (reg.sessions.lookup (sql.key sid)).isSome := by
  rw [Table.rowcount_ne_zero, Table.lookup_isSome, List.mem_map]
  exact exists_congr fun row => and_congr_right fun _ => decide_eq_true_iff

/-- An `UPDATE` that meets one session. -/
theorem updateSession_eq_put {p : SessionRow → Bool} {f : SessionRow → SessionRow}
    (hf : ∀ row, (f row).sessionId = row.sessionId) {old : SessionRow}
    (hold : reg.sessions.lookup (sql.key sid) = some old)
    (hp : p old = true) (hone : ∀ row, p row = true → sessionIs sql sid row = true) :
    updateSession reg p f hf = { reg with sessions := reg.sessions.put (f old) } := by
  obtain ⟨hmem, hkey⟩ := Table.lookup_eq_some.1 hold
  unfold updateSession
  rw [Table.update_eq_put _ hmem hp]
  intro row hrow hprow
  refine Table.eq_of_key hrow hmem ?_
  rw [hkey]
  exact of_decide_eq_true (hone row hprow)

theorem insertSession_eq_put {row : SessionRow} (hfits : sql.fits 64 row.sessionId = true)
    (hrefs : sessionRefs reg row = true) (hnew : reg.sessions.lookup (sql.key row.sessionId) = none) :
    insertSession reg row = .ok { reg with sessions := reg.sessions.put row } := by
  obtain ⟨sessions, hinsert⟩ := Table.exists_insert hnew
  unfold insertSession
  rw [hfits, hrefs, hinsert, Table.insert_eq_put hinsert]
  rfl

end SqlStore

/-! ### Registrations and heartbeats -/

private theorem SameSessions.upsertSession {reg : Registry sql} {store : FakeStore} (h : SameSessions reg store)
    {agent : AgentRegistration} (owner : Option String) (hfits : SqlStore.registrationFits sql agent = true)
    (hsid : sql.fits 64 agent.sessionId = true)
    (hrefs : SqlStore.sessionRefs reg (SqlStore.registrationRow sql agent) = true)
    (hspelling : ∀ old ∈ reg.sessions.rows, sql.key old.sessionId = sql.key agent.sessionId →
      old.sessionId = agent.sessionId) :
    ∃ created sessions entries,
      SqlStore.upsertSession reg agent owner = some (created, { reg with sessions := sessions }) ∧
      store.upsertSession agent owner = (created, { store with sessions := entries }) ∧
      SameSessions { reg with sessions := sessions } { store with sessions := entries } := by
  rcases h.find hspelling with ⟨old, record, hold, hid, hlookup, hrecord, hsame⟩ | ⟨hlookup, hrecord⟩
  · have hcount := SqlStore.rowcount_sessionIs.2 (hlookup ▸ rfl : (reg.sessions.lookup (sql.key agent.sessionId)).isSome)
    by_cases hguard : owner.isSome ∧ some old.machineId ≠ owner
    · -- another machine owns the session
      refine ⟨none, reg.sessions, store.sessions, ?_, ?_, h⟩
      · unfold SqlStore.upsertSession
        simp only [hlookup, Option.isSome_some, Option.map_some, true_and, if_pos hguard]
      · unfold FakeStore.upsertSession
        simp only [hrecord, Option.isSome_some, Option.map_some, true_and, ← hsame.machineId, if_pos hguard]
    · let row : SessionRow := { SqlStore.registrationRow sql agent with
        sessionId := old.sessionId, startedAt := old.startedAt, endedAt := old.endedAt }
      refine ⟨some false, _, _, ?_, ?_, h.put row (FakeStore.registrationRecord agent (some record)) hid
        ⟨rfl, hsame.startedAt, hsame.endedAt, rfl, rfl, rfl⟩ hspelling⟩
      · unfold SqlStore.upsertSession
        simp only [hlookup, Option.isSome_some, Option.map_some, true_and, if_neg hguard, hfits, Bool.not_true,
          Bool.false_eq_true, if_false, if_pos hcount, hrefs, if_true]
        rw [SqlStore.updateSession_eq_put _ hlookup (decide_eq_true (congrArg sql.key hid)) fun _ h => h]
      · unfold FakeStore.upsertSession
        simp only [hrecord, Option.isSome_some, Option.map_some, true_and, ← hsame.machineId, if_neg hguard]
        rfl
  · have hcount : ¬ reg.sessions.rowcount (SqlStore.sessionIs sql agent.sessionId) ≠ 0 := by
      rw [SqlStore.rowcount_sessionIs, hlookup]
      exact Bool.false_ne_true
    refine ⟨some true, _, _, ?_, ?_,
      h.put (SqlStore.registrationRow sql agent) (FakeStore.registrationRecord agent none) rfl
        ⟨rfl, rfl, rfl, rfl, rfl, rfl⟩ hspelling⟩
    · unfold SqlStore.upsertSession
      simp only [hlookup, Option.isSome_none, Bool.false_eq_true, false_and, and_false, if_false, hfits, Bool.not_true,
        if_neg hcount]
      rw [SqlStore.insertSession_eq_put hsid hrefs hlookup]
    · unfold FakeStore.upsertSession
      simp only [hrecord, Option.isSome_none, Bool.false_eq_true, false_and, and_false, if_false]
      rfl

private theorem SameSessions.heartbeatSession {reg : Registry sql} {store : FakeStore} (h : SameSessions reg store)
    (now : Int) {sid : String} (status : Option String) {currentTaskId owner : Option String}
    (htask : sql.fitsOpt 64 currentTaskId = true)
    (hspelling : ∀ old ∈ reg.sessions.rows, sql.key old.sessionId = sql.key sid → old.sessionId = sid)
    (howner : ∀ old ∈ reg.sessions.rows, ∀ m, owner = some m → sql.key old.machineId = sql.key m → old.machineId = m) :
    ∃ seen sessions entries,
      SqlStore.heartbeatSession reg now sid status (optStr currentTaskId) owner =
        some (seen.isSome, { reg with sessions := sessions }) ∧
      store.heartbeatSession now sid status currentTaskId owner = (seen, { store with sessions := entries }) ∧
      SameSessions { reg with sessions := sessions } { store with sessions := entries } ∧
      ∀ r, seen = some r →
        (sessions.lookup (sql.key sid)).map (fun row => (row.lastHeartbeatAt, row.status)) = some (some r.1, r.2) := by
  let matched := fun row : SessionRow =>
    SqlStore.sessionIs sql sid row && owner.all fun machineId => sql.key row.machineId = sql.key machineId
  have hmatched : ∀ row, matched row = true → SqlStore.sessionIs sql sid row = true :=
    fun row hrow => (Bool.and_eq_true_iff.1 hrow).1
  rcases h.find hspelling with ⟨old, record, hold, hid, hlookup, hrecord, hsame⟩ | ⟨hlookup, hrecord⟩
  · have hsession : SqlStore.sessionIs sql sid old = true := decide_eq_true (congrArg sql.key hid)
    have hmachine : matched old = true ↔ ¬ (owner.isSome ∧ some old.machineId ≠ owner) := by
      cases owner with
      | none => simp [matched, hsession]
      | some m =>
        have hkey : sql.key old.machineId = sql.key m ↔ old.machineId = m :=
          ⟨howner old hold m rfl, congrArg sql.key⟩
        simp [matched, hsession, hkey]
    by_cases hguard : owner.isSome ∧ some old.machineId ≠ owner
    · -- another machine owns the session
      have hcount : reg.sessions.rowcount matched = 0 := by
        by_contra hcount
        obtain ⟨row, hrow, hp⟩ := Table.rowcount_ne_zero.1 hcount
        have hkey : sql.key row.sessionId = sql.key old.sessionId := by
          rw [hid]
          exact of_decide_eq_true (hmatched row hp)
        obtain rfl := Table.eq_of_key hrow hold hkey
        exact hmachine.1 hp hguard
      refine ⟨none, reg.sessions, store.sessions, ?_, ?_, h, fun _ => by simp⟩
      · unfold SqlStore.heartbeatSession
        exact if_pos hcount
      · unfold FakeStore.heartbeatSession
        simp only [hrecord, ← hsame.machineId, if_pos hguard]
    · have hp := hmachine.2 hguard
      have hcount : reg.sessions.rowcount matched ≠ 0 := Table.rowcount_ne_zero.2 ⟨old, hold, hp⟩
      obtain ⟨taskId, htext⟩ := Option.isSome_iff_exists.1 htask
      obtain rfl := sql.text_optStr htext
      let beat := fun old : SessionRow => { old with
        lastHeartbeatAt := some now, status := status.getD old.status, currentTaskId := taskId.or old.currentTaskId }
      let entry : FakeSession := { record with
        lastHeartbeatAt := some now, status := status.getD record.status
        currentTaskId := taskId.or record.currentTaskId }
      have hstatus : (beat old).status = entry.status := by
        show status.getD old.status = status.getD record.status
        rw [hsame.status]
      refine ⟨some (now, entry.status), _, _, ?_, ?_, h.put (beat old) entry hid
        ⟨hstatus, hsame.startedAt, hsame.endedAt, hsame.machineId, hsame.repositoryId,
        hsame.capabilities⟩ hspelling, ?_⟩
      · unfold SqlStore.heartbeatSession
        dsimp only
        rw [if_neg hcount, htext]
        exact congrArg (fun reg => some (true, reg))
          (SqlStore.updateSession_eq_put (f := beat) (fun _ => rfl) hlookup hp hmatched)
      · rw [hsame.machineId] at hguard
        unfold FakeStore.heartbeatSession
        simp only [hrecord, if_neg hguard]
        rfl
      · intro r hr
        obtain rfl := Option.some.inj hr
        have hput : (reg.sessions.put (beat old)).lookup (sql.key sid) = some (beat old) :=
          Table.lookup_eq_some.2 ⟨Table.mem_put.2 (Or.inl rfl), congrArg sql.key hid⟩
        rw [hput, Option.map_some, hstatus]
  · have hcount : reg.sessions.rowcount matched = 0 := by
      by_contra hcount
      obtain ⟨row, hrow, hp⟩ := Table.rowcount_ne_zero.1 hcount
      exact Table.lookup_eq_none.1 hlookup row hrow (of_decide_eq_true (hmatched row hp))
    refine ⟨none, reg.sessions, store.sessions, ?_, ?_, h, fun _ => by simp⟩
    · unfold SqlStore.heartbeatSession
      exact if_pos hcount
    · unfold FakeStore.heartbeatSession
      simp only [hrecord]

/-! ### Agent events -/

/-- The values that the statements of an agent event write. -/
private structure SessionValues (sql : Sql) (env : EventEnvelope) (sid agentId agentType : String)
    (parentAgentId modelRuntime : Option String) : Prop where
  session : env.sessionId = some sid
  fits : sql.fits 64 sid = true
  agent : sql.textNotNull (some 64) (optStr env.agentId) = some agentId
  machine : sql.textNotNull (some 64) (.str env.machineId) = some env.machineId
  repository : sql.text (some 64) (optStr env.repositoryId) = some env.repositoryId
  agentType : sql.textNotNull (some 100) (SqlStore.getOr env.payload "agent_type" (.str "agent")) = some agentType
  parent : sql.text (some 64) (Json.get env.payload "parent_agent_id") = some parentAgentId
  task : sql.text (some 64) (optStr env.taskId) = some env.taskId
  runtime : sql.text (some 200) (Json.get env.payload "runtime") = some modelRuntime

private theorem exists_sessionValues {env : EventEnvelope} (h : fitsSession sql env = true) :
    ∃ sid agentId agentType parentAgentId modelRuntime,
      SessionValues sql env sid agentId agentType parentAgentId modelRuntime := by
  simp only [fitsSession, Bool.and_eq_true, Option.any_eq_true] at h
  obtain ⟨⟨⟨⟨⟨⟨⟨⟨sid, hsid, hfits⟩, hagent⟩, hmachine⟩, hrepository⟩, htype⟩, hparent⟩, htask⟩, hruntime⟩ := h
  obtain ⟨agentId, hagent⟩ := Option.isSome_iff_exists.1 hagent
  obtain ⟨machineId, hmachine⟩ := Option.isSome_iff_exists.1 hmachine
  obtain ⟨repositoryId, hrepository⟩ := Option.isSome_iff_exists.1 hrepository
  obtain ⟨agentType, htype⟩ := Option.isSome_iff_exists.1 htype
  obtain ⟨parentAgentId, hparent⟩ := Option.isSome_iff_exists.1 hparent
  obtain ⟨taskId, htask⟩ := Option.isSome_iff_exists.1 htask
  obtain ⟨modelRuntime, hruntime⟩ := Option.isSome_iff_exists.1 hruntime
  have hmachine' : sql.textNotNull (some 64) (.str env.machineId) = some env.machineId := by
    rw [Sql.textNotNull, hmachine, sql.text_str hmachine]
    rfl
  have hrepository' : repositoryId = env.repositoryId := sql.text_optStr hrepository
  have htask' : taskId = env.taskId := sql.text_optStr htask
  exact ⟨sid, agentId, agentType, parentAgentId, modelRuntime, hsid, hfits, hagent, hmachine',
    hrepository' ▸ hrepository,
    htype, hparent, htask' ▸ htask, hruntime⟩

/-- Both stores materialize the event, and write the session `sid` only; an `agent.started` leaves it without an
end. -/
private structure Materialized (env : EventEnvelope) (reg : Registry sql) (store : FakeStore) (sid : String)
    (sessions : Table fun row : SessionRow => sql.key row.sessionId)
    (entries : String → Option FakeSession) : Prop where
  sql : SqlStore.materializeSession env reg = some { reg with sessions := sessions }
  fake : FakeStore.materializeSession env store = ({ store with sessions := entries }, true)
  same : SameSessions { reg with sessions := sessions } { store with sessions := entries }
  rows : ∀ row ∈ sessions.rows, row ∈ reg.sessions.rows ∨
    row.sessionId = sid ∧ (env.eventType = "agent.started" → row.endedAt = none)

private theorem SameSessions.materializeStarted {reg : Registry sql} {store : FakeStore} (h : SameSessions reg store)
    {env : EventEnvelope} {sid agentId agentType : String} {parentAgentId modelRuntime : Option String}
    (hvalues : SessionValues sql env sid agentId agentType parentAgentId modelRuntime) (hsid : sid ≠ "")
    (hstarted : env.eventType = "agent.started") (hcaps : capabilityList env = true)
    (hmachine : reg.hasMachine env.machineId = true) (hrepository : reg.hasRepository env.repositoryId = true)
    (hspelling : ∀ old ∈ reg.sessions.rows, sql.key old.sessionId = sql.key sid → old.sessionId = sid)
    (hopen : ∀ old ∈ reg.sessions.rows, old.sessionId = sid → old.endedAt = none) :
    ∃ sessions entries, Materialized env reg store sid sessions entries := by
  obtain ⟨items, hitems⟩ : ∃ items, SqlStore.getOr env.payload "capabilities" (.arr []) = .arr items := by
    unfold capabilityList at hcaps
    split at hcaps
    case h_1 items hitems => exact ⟨items, hitems⟩
    case h_2 => cases hcaps
  let row : SessionRow := {
    sessionId := sid, agentId := agentId, machineId := env.machineId, repositoryId := env.repositoryId
    agentType := agentType, parentAgentId := parentAgentId, status := "running"
    capabilities := dumps sql.reprFloat (.arr items), currentTaskId := env.taskId, modelRuntime := modelRuntime
    startedAt := env.occurredAt, lastHeartbeatAt := some env.occurredAt, expiresAt := none, endedAt := none }
  have hrefs : SqlStore.sessionRefs reg row = true := by
    show (reg.hasMachine env.machineId && reg.hasRepository env.repositoryId) = true
    rw [hmachine, hrepository]
    rfl
  have hfilter : env.sessionId.filter (· ≠ "") = some sid := by
    rw [hvalues.session, Option.filter_some, if_pos (decide_eq_true hsid)]
  have hsql : SqlStore.materializeSession env reg =
      if reg.sessions.rowcount (SqlStore.sessionIs sql sid) ≠ 0 then
        some (SqlStore.updateSession reg (SqlStore.sessionIs sql sid)
          (fun old => { row with
            sessionId := old.sessionId, startedAt := old.startedAt, expiresAt := old.expiresAt, endedAt := old.endedAt })
          fun _ => rfl)
      else (SqlStore.insertSession reg row).toOption := by
    unfold SqlStore.materializeSession
    rw [if_pos hstarted]
    simp only [SqlStore.materializeSessionStarted, hvalues.session, hvalues.agent, hvalues.machine, hvalues.repository,
      hvalues.agentType, hvalues.parent, hvalues.task, hvalues.runtime, hitems, Option.bind_eq_bind, Option.bind_some]
    exact if_congr Iff.rfl (if_pos hrefs) rfl
  rcases h.find hspelling with ⟨old, record, hold, hid, hlookup, hrecord, hsame⟩ | ⟨hlookup, hrecord⟩
  · have hcount := SqlStore.rowcount_sessionIs.2 (hlookup ▸ rfl : (reg.sessions.lookup (sql.key sid)).isSome)
    have hended : old.endedAt = none := hopen old hold hid
    let restarted := fun old : SessionRow => { row with
      sessionId := old.sessionId, startedAt := old.startedAt, expiresAt := old.expiresAt, endedAt := old.endedAt }
    let entry : FakeSession := {
      sessionId := sid, agentId := env.agentId, machineId := env.machineId, repositoryId := env.repositoryId
      agentType := SqlStore.getOr env.payload "agent_type" (.str "agent")
      parentAgentId := Json.get env.payload "parent_agent_id", status := "running", capabilities := items
      currentTaskId := env.taskId, modelRuntime := Json.get env.payload "runtime", startedAt := record.startedAt
      lastHeartbeatAt := some env.occurredAt, expiresAt := record.expiresAt, endedAt := none }
    refine ⟨_, _, ?_, ?_, h.put (restarted old) entry hid ⟨rfl, hsame.startedAt, hended, rfl, rfl, rfl⟩ hspelling, ?_⟩
    · rw [hsql, if_pos hcount]
      exact congrArg some (SqlStore.updateSession_eq_put (f := restarted) (fun _ => rfl) hlookup
        (decide_eq_true (congrArg sql.key hid)) fun _ h => h)
    · unfold FakeStore.materializeSession
      simp only [hfilter, if_pos hstarted, hitems, FakeStore.listOf, hrecord, Option.map_some, Option.getD_some,
        Option.bind_some]
      rfl
    · intro x hx
      rcases Table.mem_put.1 hx with rfl | ⟨hx, -⟩
      · exact Or.inr ⟨hid, fun _ => hended⟩
      · exact Or.inl hx
  · have hcount : ¬ reg.sessions.rowcount (SqlStore.sessionIs sql sid) ≠ 0 := by
      rw [SqlStore.rowcount_sessionIs, hlookup]
      exact Bool.false_ne_true
    let entry : FakeSession := {
      sessionId := sid, agentId := env.agentId, machineId := env.machineId, repositoryId := env.repositoryId
      agentType := SqlStore.getOr env.payload "agent_type" (.str "agent")
      parentAgentId := Json.get env.payload "parent_agent_id", status := "running", capabilities := items
      currentTaskId := env.taskId, modelRuntime := Json.get env.payload "runtime", startedAt := env.occurredAt
      lastHeartbeatAt := some env.occurredAt, expiresAt := none, endedAt := none }
    refine ⟨_, _, ?_, ?_, h.put row entry rfl ⟨rfl, rfl, rfl, rfl, rfl, rfl⟩ hspelling, ?_⟩
    · rw [hsql, if_neg hcount, SqlStore.insertSession_eq_put hvalues.fits hrefs hlookup]
      rfl
    · unfold FakeStore.materializeSession
      simp only [hfilter, if_pos hstarted, hitems, FakeStore.listOf, hrecord, Option.map_none, Option.getD_none,
        Option.bind_none]
      rfl
    · intro x hx
      rcases Table.mem_put.1 hx with rfl | ⟨hx, -⟩
      · exact Or.inr ⟨rfl, fun _ => rfl⟩
      · exact Or.inl hx

private theorem SameSessions.materializeFinished {reg : Registry sql} {store : FakeStore} (h : SameSessions reg store)
    {env : EventEnvelope} {sid agentId agentType : String} {parentAgentId modelRuntime : Option String}
    (hvalues : SessionValues sql env sid agentId agentType parentAgentId modelRuntime) (hsid : sid ≠ "")
    (hfinished : env.eventType = "agent.finished")
    (hmachine : reg.hasMachine env.machineId = true) (hrepository : reg.hasRepository env.repositoryId = true)
    (hspelling : ∀ old ∈ reg.sessions.rows, sql.key old.sessionId = sql.key sid → old.sessionId = sid) :
    ∃ sessions entries, Materialized env reg store sid sessions entries := by
  have hstarted : ¬ env.eventType = "agent.started" := by
    rw [hfinished]
    decide
  have hfilter : env.sessionId.filter (· ≠ "") = some sid := by
    rw [hvalues.session, Option.filter_some, if_pos (decide_eq_true hsid)]
  let finish := fun old : SessionRow => { old with
    status := "finished", endedAt := some env.occurredAt, lastHeartbeatAt := some env.occurredAt }
  let finishEntry := fun old : FakeSession => { old with
    status := "finished", endedAt := some env.occurredAt, lastHeartbeatAt := some env.occurredAt }
  rcases h.find hspelling with ⟨old, record, hold, hid, hlookup, hrecord, hsame⟩ | ⟨hlookup, hrecord⟩
  · have hcount := SqlStore.rowcount_sessionIs.2 (hlookup ▸ rfl : (reg.sessions.lookup (sql.key sid)).isSome)
    refine ⟨_, _, ?_, ?_, h.put (finish old) (finishEntry record) hid
      ⟨rfl, hsame.startedAt, rfl, hsame.machineId, hsame.repositoryId, hsame.capabilities⟩ hspelling, ?_⟩
    · unfold SqlStore.materializeSession
      rw [if_neg hstarted]
      simp only [SqlStore.materializeSessionFinished, hvalues.session, Option.bind_eq_bind, Option.bind_some,
        if_pos hcount]
      exact congrArg some (SqlStore.updateSession_eq_put (f := finish) (fun _ => rfl) hlookup
        (decide_eq_true (congrArg sql.key hid)) fun _ h => h)
    · unfold FakeStore.materializeSession
      simp only [hfilter, if_neg hstarted, if_pos hfinished, hrecord, Option.getD_some]
      rfl
    · intro x hx
      rcases Table.mem_put.1 hx with rfl | ⟨hx, -⟩
      · exact Or.inr ⟨hid, fun h => absurd h hstarted⟩
      · exact Or.inl hx
  · have hcount : ¬ reg.sessions.rowcount (SqlStore.sessionIs sql sid) ≠ 0 := by
      rw [SqlStore.rowcount_sessionIs, hlookup]
      exact Bool.false_ne_true
    -- an end without a beginning: a minimal row
    let row : SessionRow := {
      sessionId := sid, agentId := agentId, machineId := env.machineId, repositoryId := env.repositoryId
      agentType := agentType, parentAgentId := none, status := "finished", capabilities := "[]", currentTaskId := none
      modelRuntime := none, startedAt := env.occurredAt, lastHeartbeatAt := some env.occurredAt, expiresAt := none
      endedAt := some env.occurredAt }
    let entry : FakeSession := {
      sessionId := sid, agentId := env.agentId, machineId := env.machineId, repositoryId := env.repositoryId
      agentType := SqlStore.getOr env.payload "agent_type" (.str "agent"), parentAgentId := .null
      status := "finished", capabilities := [], currentTaskId := env.taskId, modelRuntime := .null
      startedAt := env.occurredAt, lastHeartbeatAt := none, expiresAt := none, endedAt := none }
    have hrefs : SqlStore.sessionRefs reg row = true := by
      show (reg.hasMachine env.machineId && reg.hasRepository env.repositoryId) = true
      rw [hmachine, hrepository]
      rfl
    refine ⟨_, _, ?_, ?_, h.put row (finishEntry entry) rfl ⟨rfl, rfl, rfl, rfl, rfl, rfl⟩ hspelling, ?_⟩
    · unfold SqlStore.materializeSession
      rw [if_neg hstarted]
      simp only [SqlStore.materializeSessionFinished, hvalues.session, hvalues.agent, hvalues.machine,
        hvalues.repository, hvalues.agentType, Option.bind_eq_bind, Option.bind_some, if_neg hcount]
      rw [SqlStore.insertSession_eq_put hvalues.fits hrefs hlookup]
      rfl
    · unfold FakeStore.materializeSession
      simp only [hfilter, if_neg hstarted, if_pos hfinished, hrecord, Option.getD_none]
      rfl
    · intro x hx
      rcases Table.mem_put.1 hx with rfl | ⟨hx, -⟩
      · exact Or.inr ⟨rfl, fun h => absurd h hstarted⟩
      · exact Or.inl hx

/-- An agent event of a registered machine and repository whose values fit. -/
private structure AgentEvent (reg : Registry sql) (env : EventEnvelope) : Prop where
  fits : fitsSession sql env = true
  machine : reg.hasMachine env.machineId = true
  repository : reg.hasRepository env.repositoryId = true
  capabilities : env.eventType = "agent.started" → capabilityList env = true

private theorem SameSessions.materializeSession {reg : Registry sql} {store : FakeStore} (h : SameSessions reg store)
    {env : EventEnvelope} (hevent : SqlStore.isSessionEvent env = true) (hagent : AgentEvent reg env)
    (hspelling : ∀ sid ∈ env.sessionId, ∀ old ∈ reg.sessions.rows, sql.key old.sessionId = sql.key sid →
      old.sessionId = sid)
    (hopen : env.eventType = "agent.started" → ∀ old ∈ reg.sessions.rows, env.sessionId = some old.sessionId →
      old.endedAt = none) :
    ∃ sid sessions entries, env.sessionId = some sid ∧ Materialized env reg store sid sessions entries := by
  obtain ⟨sid, agentId, agentType, parentAgentId, modelRuntime, hvalues⟩ := exists_sessionValues hagent.fits
  have hsession := hvalues.session
  simp only [SqlStore.isSessionEvent, hsession, Bool.and_eq_true, Bool.or_eq_true, decide_eq_true_eq,
    Option.any_some] at hevent
  obtain ⟨htype, hsid⟩ := hevent
  have hspelled := hspelling sid hsession
  rcases htype with hstarted | hfinished
  · obtain ⟨sessions, entries, hmat⟩ := h.materializeStarted hvalues hsid hstarted (hagent.capabilities hstarted)
      hagent.machine hagent.repository hspelled fun old hold hid => hopen hstarted old hold (hid ▸ hsession)
    exact ⟨sid, sessions, entries, hsession, hmat⟩
  · obtain ⟨sessions, entries, hmat⟩ := h.materializeFinished hvalues hsid hfinished hagent.machine hagent.repository
      hspelled
    exact ⟨sid, sessions, entries, hsession, hmat⟩

/-- An event that is none of an agent's leaves the sessions of `FakeStore` alone. -/
private theorem fake_materializeSession_other {env : EventEnvelope} (h : SqlStore.isSessionEvent env = false)
    (store : FakeStore) : FakeStore.materializeSession env store = (store, true) := by
  unfold FakeStore.materializeSession
  cases hfilter : env.sessionId.filter (· ≠ "") with
  | none => rfl
  | some sid =>
    obtain ⟨hsid, hne⟩ := Option.filter_eq_some_iff.1 hfilter
    have hne : sid ≠ "" := of_decide_eq_true hne
    have htype : ¬ env.eventType = "agent.started" ∧ ¬ env.eventType = "agent.finished" := by
      simpa [SqlStore.isSessionEvent, hsid, hne] using h
    simp only [if_neg htype.1, if_neg htype.2]

private theorem fake_materializeTask_sessions {env : EventEnvelope}
    (h : SqlStore.isTaskEvent env = true → taskTyped env = true) (store : FakeStore) : ∃ tasks taskSeq,
      FakeStore.materializeTask env store = ({ store with tasks := tasks, taskSeq := taskSeq }, true) := by
  unfold FakeStore.materializeTask
  cases htask : SqlStore.isTaskEvent env with
  | false => exact ⟨store.tasks, store.taskSeq, rfl⟩
  | true =>
    have htyped := h htask
    simp only [taskTyped, Bool.and_eq_true] at htyped
    obtain ⟨⟨hversion, hkey⟩, hstatus⟩ := htyped
    obtain ⟨version, hversion⟩ := Option.isSome_iff_exists.1 hversion
    obtain ⟨key, hkey⟩ := Option.isSome_iff_exists.1 hkey
    obtain ⟨status, hstatus⟩ := Option.isSome_iff_exists.1 hstatus
    simp only [hversion, hkey, hstatus, Bool.not_true, Bool.false_eq_true, if_false]
    split
    · exact ⟨store.tasks, store.taskSeq, rfl⟩
    · exact ⟨_, _, rfl⟩

private theorem OneSpelling.mono {ids ids' : List String} (h : OneSpelling sql ids) (hsub : ids' ⊆ ids) :
    OneSpelling sql ids' :=
  fun id hid id' hid' hkey => h id (hsub hid) id' (hsub hid') hkey

/-- The loops over the new events of a batch. -/
private theorem SameSessions.materializeEvents {new : List EventEnvelope} {reg : Registry sql} {store : FakeStore}
    (h : SameSessions reg store) {ended : List String}
    (hagent : ∀ env ∈ new, SqlStore.isSessionEvent env = true → AgentEvent reg env)
    (htask : ∀ env ∈ new, SqlStore.isTaskEvent env = true → taskTyped env = true)
    (hspelling : OneSpelling sql (new.filterMap (·.sessionId) ++ sessionIds reg))
    (hended : ∀ row ∈ reg.sessions.rows, row.endedAt ≠ none → row.sessionId ∈ ended)
    (hrestart : noRestart ended (new.filter SqlStore.isSessionEvent) = true) : ∃ sessions entries tasks taskSeq,
      SqlStore.writeEach SqlStore.materializeSession (new.filter SqlStore.isSessionEvent) reg =
        { reg with sessions := sessions } ∧
      FakeStore.materialize new store =
        ({ store with sessions := entries, tasks := tasks, taskSeq := taskSeq }, true) ∧
      SameSessions { reg with sessions := sessions } { store with sessions := entries } := by
  induction new generalizing reg store ended with
  | nil => exact ⟨reg.sessions, store.sessions, store.tasks, store.taskSeq, rfl, rfl, h⟩
  | cons env new ih =>
    have htask' := fun e he => htask e (List.mem_cons_of_mem _ he)
    have hsub : new.filterMap (·.sessionId) ⊆ (env :: new).filterMap (·.sessionId) :=
      List.filterMap_subset _ (List.subset_cons_self _ _)
    cases hevent : SqlStore.isSessionEvent env with
    | false =>
      obtain ⟨tasks₁, taskSeq₁, hwrite⟩ := fake_materializeTask_sessions (htask env List.mem_cons_self) store
      rw [List.filter_cons_of_neg (by rw [hevent]; exact Bool.false_ne_true)] at hrestart ⊢
      have hsame₁ : SameSessions reg { store with tasks := tasks₁, taskSeq := taskSeq₁ } := ⟨h.row, h.record⟩
      obtain ⟨sessions, entries, tasks, taskSeq, hsql, hfake, hsame⟩ :=
        ih hsame₁ (fun e he => hagent e (List.mem_cons_of_mem _ he)) htask'
          (hspelling.mono fun id hid => List.mem_append.2 ((List.mem_append.1 hid).imp_left fun h => hsub h))
          hended hrestart
      refine ⟨sessions, entries, tasks, taskSeq, hsql, ?_, hsame.row, hsame.record⟩
      simp only [FakeStore.materialize, fake_materializeSession_other hevent, hwrite, Bool.not_true,
        Bool.false_eq_true, if_false, hfake]
    | true =>
      rw [List.filter_cons_of_pos hevent] at hrestart ⊢
      have hids : ∀ sid ∈ env.sessionId, sid ∈ (env :: new).filterMap (·.sessionId) ++ sessionIds reg :=
        fun sid hsid => List.mem_append_left _ (List.mem_filterMap.2 ⟨env, List.mem_cons_self, hsid⟩)
      have hstored : ∀ old ∈ reg.sessions.rows, old.sessionId ∈ (env :: new).filterMap (·.sessionId) ++ sessionIds reg :=
        fun old hold => List.mem_append_right _ (List.mem_map_of_mem hold)
      have hopen : env.eventType = "agent.started" → ∀ old ∈ reg.sessions.rows, env.sessionId = some old.sessionId →
          old.endedAt = none := by
        intro hstarted old hold hid
        rw [noRestart, if_pos hstarted, Bool.and_eq_true, hid, Option.all_some] at hrestart
        by_contra hne
        exact of_decide_eq_true hrestart.1 (hended old hold hne)
      obtain ⟨sid, sessions₁, entries₁, hsid, hmat⟩ :=
        h.materializeSession hevent (hagent env List.mem_cons_self hevent)
        (fun sid hsid old hold hkey => hspelling old.sessionId (hstored old hold) sid (hids sid hsid) hkey) hopen
      obtain ⟨tasks₁, taskSeq₁, hwrite⟩ := fake_materializeTask_sessions (htask env List.mem_cons_self)
        { store with sessions := entries₁ }
      -- which sessions have ended now
      obtain ⟨ended₁, hrestart₁, hended₁⟩ : ∃ ended₁,
          noRestart ended₁ (new.filter SqlStore.isSessionEvent) = true ∧
          ∀ row ∈ sessions₁.rows, row.endedAt ≠ none → row.sessionId ∈ ended₁ := by
        by_cases hstarted : env.eventType = "agent.started"
        · rw [noRestart, if_pos hstarted, Bool.and_eq_true] at hrestart
          refine ⟨ended, hrestart.2, fun row hrow hne => ?_⟩
          rcases hmat.rows row hrow with hold | ⟨-, hopen⟩
          · exact hended row hold hne
          · exact absurd (hopen hstarted) hne
        · rw [noRestart, if_neg hstarted] at hrestart
          refine ⟨_, hrestart, fun row hrow hne => ?_⟩
          rcases hmat.rows row hrow with hold | ⟨hid, -⟩
          · exact List.mem_append_right _ (hended row hold hne)
          · rw [hsid, hid]
            exact List.mem_append_left _ List.mem_cons_self
      have hagent₁ : ∀ e ∈ new, SqlStore.isSessionEvent e = true →
          AgentEvent ({ reg with sessions := sessions₁ } : Registry sql) e := by
        intro e he hsession
        obtain ⟨hfits, hmachine, hrepository, hcaps⟩ := hagent e (List.mem_cons_of_mem _ he) hsession
        exact ⟨hfits, hmachine, hrepository, hcaps⟩
      have hspelling₁ : OneSpelling sql
          (new.filterMap (·.sessionId) ++ sessionIds ({ reg with sessions := sessions₁ } : Registry sql)) := by
        refine hspelling.mono fun id hid => ?_
        rcases List.mem_append.1 hid with hid | hid
        · exact List.mem_append_left _ (hsub hid)
        · obtain ⟨row, hrow, rfl⟩ := List.mem_map.1 hid
          rcases hmat.rows row hrow with hold | ⟨hid, -⟩
          · exact hstored row hold
          · exact hids _ (hid ▸ hsid)
      have hsame₁ : SameSessions ({ reg with sessions := sessions₁ } : Registry sql)
          { store with sessions := entries₁, tasks := tasks₁, taskSeq := taskSeq₁ } :=
        ⟨hmat.same.row, hmat.same.record⟩
      obtain ⟨sessions, entries, tasks, taskSeq, hsql, hfake, hsame⟩ :=
        ih hsame₁ hagent₁ htask' hspelling₁ hended₁ hrestart₁
      refine ⟨sessions, entries, tasks, taskSeq, ?_, ?_, hsame.row, hsame.record⟩
      · rw [SqlStore.writeEach_cons, hmat.sql]
        exact hsql
      · simp only [FakeStore.materialize, hmat.fake, hwrite, Bool.not_true, Bool.false_eq_true, if_false, hfake]

/-! ### A batch -/

/-- The ids that the stores know are the same, so they judge a batch alike. -/
private theorem Stores.Agree.known {stores : Stores sql} (h : stores.Agree) {prepared : List PreparedEvent} :
    ∀ env ∈ validEnvelopes prepared,
      env.eventId ∈ SqlStore.existingEventIds stores.db ((validEnvelopes prepared).map (·.eventId)) ↔
        env.eventId ∈ stores.fake.eventIds := by
  intro env henv
  rw [h.eventIds]
  constructor
  · exact SqlStore.exists_stored
  · rintro ⟨stored, hstored, hid⟩
    rw [← hid]
    exact SqlStore.mem_existingEventIds hstored (List.mem_map_of_mem henv) (congrArg sql.key hid.symm)

/-- The batch is written to the log, all that is new. -/
private theorem writeLog_compatible {db : Db sql} {prepared : List PreparedEvent}
    (hvalid : ValidCall db (.ingestEvents prepared)) (hok : Compatible db (.ingestEvents prepared)) :
    ∃ events errors,
      SqlStore.writeLog none db prepared = some { db with events := events, ingestErrors := errors } ∧
      events.rows = db.events.rows ++ SqlStore.newEnvelopes db prepared := by
  obtain ⟨herrors, hfits, -⟩ := hvalid
  have hspelling := hok.1
  have hid : ∀ env ∈ validEnvelopes prepared, env.eventId ∈
      (validEnvelopes prepared).map (·.eventId) ++ db.events.rows.map (·.eventId) :=
    fun env henv => List.mem_append_left _ (List.mem_map_of_mem henv)
  have hmem : ∀ env, SqlStore.Fresh db prepared env → env ∈ validEnvelopes prepared :=
    fun env hfresh => (mem_toInsert (SqlStore.mem_newEnvelopes.2 hfresh)).1
  have hsome : (SqlStore.writeLog none db prepared).isSome := by
    rw [SqlStore.isSome_writeLog, SqlStore.isSome_insertErrors, SqlStore.isSome_insertEvents]
    refine ⟨herrors, fun env hfresh => (hfits env (hmem env hfresh)).1,
      fun env hfresh _ => (hfits env (hmem env hfresh)).2, fun env env' hfresh hfresh' _ hkey => ?_⟩
    exact hspelling _ (hid env (hmem env hfresh)) _ (hid env' (hmem env' hfresh')) hkey
  obtain ⟨logged, hlog⟩ := Option.isSome_iff_exists.1 hsome
  obtain ⟨events, errors, rfl, hrows⟩ := SqlStore.writeLog_frame hlog
  have hsame : SqlStore.SameSpelling db prepared := fun env henv stored hstored hkey =>
    hspelling _ (List.mem_append_right _ (List.mem_map_of_mem hstored)) _ (hid env henv) hkey
  refine ⟨events, errors, hlog, ?_⟩
  rw [hrows, List.filter_eq_self.2 fun env henv => ?_]
  rw [SqlStore.lookup_newEnvelopes hsame henv]
  rfl

private theorem Stores.Agree.ingestEvents {stores : Stores sql} (h : stores.Agree) {prepared : List PreparedEvent}
    (hvalid : ValidCall stores.db (.ingestEvents prepared)) (hok : Compatible stores.db (.ingestEvents prepared)) :
    ∃ db fake results, SqlStore.ingestEvents none stores.db prepared = (db, some results) ∧
      stores.fake.ingestEvents prepared = (fake, some results) ∧ Stores.Agree ⟨db, fake⟩ := by
  obtain ⟨events, errors, hlog, hrows⟩ := writeLog_compatible hvalid hok
  obtain ⟨-, hspelling, hcaps, htyped, hrestart⟩ := hok
  have hnew : SqlStore.newEnvelopes stores.db prepared = toInsert stores.fake.eventIds [] (validEnvelopes prepared) :=
    toInsert_congr [] h.known
  have hmem : ∀ env ∈ SqlStore.newEnvelopes stores.db prepared, env ∈ validEnvelopes prepared :=
    fun env henv => (mem_toInsert henv).1
  have hagent : ∀ env ∈ SqlStore.newEnvelopes stores.db prepared, SqlStore.isSessionEvent env = true →
      AgentEvent stores.db.toRegistry env := by
    intro env henv hsession
    obtain ⟨hfits, hmachine, hrepository⟩ := hvalid.2.2 env (hmem env henv) hsession
    exact ⟨hfits, hmachine, hrepository, hcaps env (hmem env henv)⟩
  have hended : ∀ row ∈ stores.db.sessions.rows, row.endedAt ≠ none →
      row.sessionId ∈ endedSessions stores.db.toRegistry := by
    intro row hrow hne
    exact List.mem_map_of_mem (List.mem_filter.2 ⟨hrow, Option.isSome_iff_ne_none.2 hne⟩)
  have hspelled : OneSpelling sql ((SqlStore.newEnvelopes stores.db prepared).filterMap (·.sessionId) ++
      sessionIds stores.db.toRegistry) := by
    refine hspelling.mono fun id hid => List.mem_append.2 ((List.mem_append.1 hid).imp_left fun hid => ?_)
    exact List.filterMap_subset _ hmem hid
  obtain ⟨seq, log, hrecord⟩ := FakeStore.record_frame { stores.fake with
    ingestErrors := stores.fake.ingestErrors ++ (rejectedRows prepared).map (·.2) }
    (SqlStore.newEnvelopes stores.db prepared)
  have hrecorded : SameSessions stores.db.toRegistry { stores.fake with
      ingestErrors := stores.fake.ingestErrors ++ (rejectedRows prepared).map (·.2)
      eventIds := ((SqlStore.newEnvelopes stores.db prepared).map (·.eventId)).reverse ++ stores.fake.eventIds
      seq := seq, events := log } := ⟨h.sessions.row, h.sessions.record⟩
  obtain ⟨sessions, entries, tasks, taskSeq, hsql, hfake, hsame⟩ :=
    hrecorded.materializeEvents hagent (fun env henv => htyped env (hmem env henv)) hspelled hended hrestart
  obtain ⟨rows, dbts, htasks⟩ := SqlStore.writeEach_tasks_frame
    ((SqlStore.newEnvelopes stores.db prepared).filter SqlStore.isTaskEvent)
    ({ stores.db.toRegistry with sessions := sessions } : Registry sql)
  have hmodels : SqlStore.writeModels (SqlStore.newEnvelopes stores.db prepared) stores.db.toRegistry =
      { stores.db.toRegistry with sessions := sessions, tasks := rows, dbts := dbts } := by
    rw [SqlStore.writeModels, hsql, htasks]
  refine ⟨⟨{ stores.db.toRegistry with sessions := sessions, tasks := rows, dbts := dbts }, events, errors⟩,
    { stores.fake with
      sessions := entries
      eventIds := ((SqlStore.newEnvelopes stores.db prepared).map (·.eventId)).reverse ++ stores.fake.eventIds
      events := log, ingestErrors := stores.fake.ingestErrors ++ (rejectedRows prepared).map (·.2), seq := seq
      tasks := tasks, taskSeq := taskSeq },
    outcomes stores.fake.eventIds 0 [] prepared, ?_, ?_, ?_⟩
  · rw [SqlStore.ingestEvents_none, hlog]
    dsimp only
    rw [hmodels, outcomes_congr 0 [] h.known]
  · unfold FakeStore.ingestEvents
    rw [if_neg (by rw [h.quiet]; exact Bool.false_ne_true)]
    dsimp only
    rw [← hnew, hrecord, hfake]
    rfl
  · refine ⟨⟨hsame.row, hsame.record⟩, fun id => ?_, h.quiet⟩
    rw [List.mem_append, List.mem_reverse, List.mem_map, h.eventIds, hrows]
    constructor
    · rintro (⟨env, henv, rfl⟩ | ⟨stored, hstored, rfl⟩)
      · exact ⟨env, List.mem_append_right _ henv, rfl⟩
      · exact ⟨stored, List.mem_append_left _ hstored, rfl⟩
    · rintro ⟨stored, hstored, rfl⟩
      rcases List.mem_append.1 hstored with hstored | hstored
      · exact Or.inr ⟨stored, hstored, rfl⟩
      · exact Or.inl ⟨stored, hstored, rfl⟩

/-! ### The result -/

/-- What one call does to stores that agree. -/
theorem Stores.Agree.call {stores : Stores sql} (h : stores.Agree) {call : SessionCall}
    (hvalid : ValidCall stores.db call) (hok : Compatible stores.db call) :
    SameResponse stores call ∧ ∀ stores', stores.call call = some stores' → stores'.Agree := by
  have hcall : ∀ {stores' : Stores sql}, Stores.Agree
      ⟨(SqlStore.sessionCall stores.db call).1, (stores.fake.sessionCall call).1⟩ →
      stores.call call = some stores' → stores'.Agree := by
    intro stores' hagree hstep
    obtain rfl := Option.some.inj hstep
    exact hagree
  unfold SameResponse
  cases call with
  | upsertSession agent owner =>
    obtain ⟨hfits, hsid, hrefs⟩ := hvalid
    have hspelling : ∀ old ∈ stores.db.sessions.rows, sql.key old.sessionId = sql.key agent.sessionId →
        old.sessionId = agent.sessionId :=
      fun old hold hkey => hok _ (List.mem_cons_of_mem _ (List.mem_map_of_mem hold)) _ List.mem_cons_self hkey
    obtain ⟨created, sessions, entries, hsql, hfake, hsame⟩ :=
      h.sessions.upsertSession owner hfits hsid hrefs hspelling
    simp only [SqlStore.sessionCall, FakeStore.sessionCall, hsql, hfake, true_and]
    refine fun stores' => hcall ?_
    simp only [SqlStore.sessionCall, FakeStore.sessionCall, hsql, hfake]
    exact ⟨⟨hsame.row, hsame.record⟩, h.eventIds, h.quiet⟩
  | heartbeatSession now sessionId status currentTaskId owner =>
    have hspelling : ∀ old ∈ stores.db.sessions.rows, sql.key old.sessionId = sql.key sessionId →
        old.sessionId = sessionId :=
      fun old hold hkey => hok.1 _ (List.mem_cons_of_mem _ (List.mem_map_of_mem hold)) _ List.mem_cons_self hkey
    have howner : ∀ old ∈ stores.db.sessions.rows, ∀ m, owner = some m → sql.key old.machineId = sql.key m →
        old.machineId = m := by
      intro old hold m hm hkey
      refine hok.2 _ (List.mem_append_right _ (List.mem_map_of_mem hold)) _ (List.mem_append_left _ ?_) hkey
      rw [hm]
      exact List.mem_cons_self
    obtain ⟨seen, sessions, entries, hsql, hfake, hsame, hseen⟩ :=
      h.sessions.heartbeatSession now status hvalid.2 hspelling howner
    cases seen with
    | none =>
      simp only [SqlStore.sessionCall, FakeStore.sessionCall, hsql, hfake, Option.isSome_none,
        Option.map_none, true_and]
      refine fun stores' => hcall ?_
      simp only [SqlStore.sessionCall, FakeStore.sessionCall, hsql, hfake, Option.isSome_none]
      exact ⟨⟨hsame.row, hsame.record⟩, h.eventIds, h.quiet⟩
    | some r =>
      simp only [SqlStore.sessionCall, FakeStore.sessionCall, hsql, hfake, Option.isSome_some, hseen r rfl,
        Option.map_some, true_and]
      refine fun stores' => hcall ?_
      simp only [SqlStore.sessionCall, FakeStore.sessionCall, hsql, hfake, Option.isSome_some]
      exact ⟨⟨hsame.row, hsame.record⟩, h.eventIds, h.quiet⟩
  | ingestEvents prepared =>
    obtain ⟨db, fake, results, hsql, hfake, hagree⟩ := h.ingestEvents hvalid hok
    simp only [SqlStore.sessionCall, FakeStore.sessionCall, hsql, hfake, true_and]
    refine fun stores' => hcall ?_
    simp only [SqlStore.sessionCall, FakeStore.sessionCall, hsql, hfake]
    exact hagree

/-- **The two stores agree on sessions.**  From stores that agree, every sequence of valid and compatible calls is
answered alike by both, and leaves them in agreement. -/
theorem stores_agree {stores stores' : Stores sql} (h : stores.Agree) {calls : List SessionCall}
    (hvalid : Run.Meets Stores.call (fun s call => ValidCall s.db call) stores calls)
    (hok : Run.Meets Stores.call (fun s call => Compatible s.db call) stores calls)
    (hrun : Run.exec Stores.call stores calls = some stores') :
    stores'.Agree ∧ Run.Meets Stores.call SameResponse stores calls := by
  have hmeets := Run.meets_and hvalid hok
  have hstep : ∀ (s : Stores sql) call s', s.Agree → ValidCall s.db call ∧ Compatible s.db call →
      s.call call = some s' → s'.Agree :=
    fun s call s' hs hcall hs' => (hs.call hcall.1 hcall.2).2 s' hs'
  exact ⟨Run.invariant_of_meets hstep h hmeets hrun,
    Run.meets_of_invariant hstep (fun s call hs hcall => (hs.call hcall.1 hcall.2).1) h hmeets⟩

/-! ### A session that is resumed -/

/-- A machine and a repository are registered; no store holds a session. -/
private def freshStores : Stores Sql.sample where
  db := {
    machines := ⟨[⟨"mach_1", "desk", "linux", 0, 0, none⟩], by decide⟩
    repositories := ⟨[⟨"repo_1", "mach_1", none, none, "/src", 0, 0, none⟩], by decide⟩
    sessions := Table.empty, tasks := Table.empty, dbts := 0, events := Table.empty, ingestErrors := [] }
  fake := FakeStore.empty

private theorem freshStores_agree : freshStores.Agree where
  sessions := ⟨fun _ h => (by cases h), fun _ h => by cases h⟩
  eventIds _ := ⟨fun h => (by cases h), by rintro ⟨_, h, -⟩; cases h⟩
  quiet := rfl

private def ingestAgentEvent (eventId eventType : String) (occurredAt : Int) : SessionCall :=
  .ingestEvents [.valid {
    eventId := eventId, eventType := eventType, occurredAt := occurredAt, machineId := "mach_1"
    agentId := some "agent_1", sessionId := some "s1", projectId := none, repositoryId := some "repo_1", taskId := none
    payload := [], schemaVersion := 1 } ""]

/-- A session that is started, kept alive and finished. -/
theorem session_life_agrees : ∃ stores' : Stores Sql.sample,
    Run.exec Stores.call freshStores [ingestAgentEvent "evt_1" "agent.started" 0,
      .heartbeatSession 1 "s1" (some "waiting") none (some "mach_1"), ingestAgentEvent "evt_2" "agent.finished" 2] =
        some stores' ∧ stores'.Agree := by
  obtain ⟨stores', hrun⟩ : ∃ stores', Run.exec Stores.call freshStores [ingestAgentEvent "evt_1" "agent.started" 0,
      .heartbeatSession 1 "s1" (some "waiting") none (some "mach_1"), ingestAgentEvent "evt_2" "agent.finished" 2] =
        some stores' := ⟨_, rfl⟩
  have hvalid : Run.Meets Stores.call (fun s call => ValidCall s.db call) freshStores
      [ingestAgentEvent "evt_1" "agent.started" 0, .heartbeatSession 1 "s1" (some "waiting") none (some "mach_1"),
        ingestAgentEvent "evt_2" "agent.finished" 2] := by decide +kernel
  have hok : Run.Meets Stores.call (fun s call => Compatible s.db call) freshStores
      [ingestAgentEvent "evt_1" "agent.started" 0, .heartbeatSession 1 "s1" (some "waiting") none (some "mach_1"),
        ingestAgentEvent "evt_2" "agent.finished" 2] := by decide +kernel
  exact ⟨stores', hrun, (stores_agree freshStores_agree hvalid hok hrun).1⟩

/-- Three valid calls on stores that agree: a session is started, finished and started again.  `SqlStore` says that it
has ended, and `FakeStore` that it has not. -/
theorem resumed_session_parts : freshStores.Agree ∧ ∃ stores' : Stores Sql.sample,
    Run.exec Stores.call freshStores [ingestAgentEvent "evt_1" "agent.started" 0,
      ingestAgentEvent "evt_2" "agent.finished" 1, ingestAgentEvent "evt_3" "agent.started" 2] = some stores' ∧
    Run.Meets Stores.call (fun s call => ValidCall s.db call) freshStores [ingestAgentEvent "evt_1" "agent.started" 0,
      ingestAgentEvent "evt_2" "agent.finished" 1, ingestAgentEvent "evt_3" "agent.started" 2] ∧
    (∃ row ∈ stores'.db.sessions.rows, row.sessionId = "s1" ∧ row.endedAt = some 1) ∧
      (∃ record, stores'.fake.sessions "s1" = some record ∧ record.endedAt = none) ∧ ¬ stores'.Agree := by
  have hrun : (Run.exec Stores.call freshStores [ingestAgentEvent "evt_1" "agent.started" 0,
      ingestAgentEvent "evt_2" "agent.finished" 1, ingestAgentEvent "evt_3" "agent.started" 2]).any (fun s =>
        decide (∃ row ∈ s.db.sessions.rows, row.sessionId = "s1" ∧ row.endedAt = some 1) &&
          (s.fake.sessions "s1").any fun record => record.endedAt = none) = true := by
    decide +kernel
  obtain ⟨stores', hexec, h⟩ := (Option.any_eq_true _ _).1 hrun
  obtain ⟨hrow, hrecord⟩ := Bool.and_eq_true_iff.1 h
  obtain ⟨row, hmem, hid, hended⟩ := of_decide_eq_true hrow
  obtain ⟨record, hrecord, hopen⟩ := (Option.any_eq_true _ _).1 hrecord
  have hopen := of_decide_eq_true hopen
  refine ⟨freshStores_agree, stores', hexec, by decide +kernel, ⟨row, hmem, hid, hended⟩, ⟨record, hrecord, hopen⟩,
    fun hagree => ?_⟩
  obtain ⟨record', hrecord', hsame⟩ := hagree.sessions.row row hmem
  rw [hid, hrecord] at hrecord'
  obtain rfl := Option.some.inj hrecord'
  have hboth := hsame.endedAt
  rw [hended, hopen] at hboth
  cases hboth

end AgentOS
