import AgentOS.Hub.TaskOrder
import AgentOS.Outbox.Emit

/-!
# Active sessions

The hooks of a Claude session emit `agent.started` and `agent.finished` without an agent id.  The column `agent_id` does
not admit that, so `SqlStore` never makes a row of such a session; `FakeStore` does, and closes it at the end of any
subagent.  Both stores list the session as they should just in case it is not live (`active_iff_not_live`).
-/

namespace AgentOS

/-- The statuses that `list_sessions(active=True)` asks for. -/
def activeStatuses : List String := ["starting", "running", "waiting"]

/-- `SqlStore.list_sessions`. -/
def SqlStore.listSessions {sql : Sql} (reg : Registry sql) (active : Bool) : List SessionRow :=
  (reg.sessions.rows.filter fun row =>
    !active || activeStatuses.any fun status => sql.key row.status = sql.key status).insertionSort
      fun a b => b.startedAt ≤ a.startedAt

/-- `FakeStore.list_sessions` contains the session. -/
def FakeStore.listsSession (store : FakeStore) (active : Bool) (sid : String) : Bool :=
  (store.sessions sid).any fun record => !active || record.status ∈ activeStatuses

/-- The last `session-start` has no later `session-end`. -/
def Live : List HookFiring → Prop :=
  Run.Since (fun firing => firing.reason = "session-start") fun firing => firing.reason ≠ "session-end"

/-- No lifecycle hook has fired since a `session-start`. -/
def JustStarted : List HookFiring → Prop :=
  Run.Since (fun firing => firing.reason = "session-start") fun firing => isLifecycleReason firing.reason = false

variable {sql : Sql} {sid : String}

/-- An event that a hook of the session has emitted. -/
def FromHook (sid : String) (env : EventEnvelope) : Prop := ∃ firing, LifecycleEvent sid firing env

theorem FromHook.isTaskEvent {env : EventEnvelope} (h : FromHook sid env) : SqlStore.isTaskEvent env = false := by
  obtain ⟨firing, hevent⟩ := h
  rw [SqlStore.isTaskEvent, hevent.eventType, lifecycleEventType]
  split
  · simp
  · simp

/-! ### `SqlStore` -/

/-- An event without an agent makes no row. -/
theorem SqlStore.materializeSession_no_agent {env : EventEnvelope} {reg : Registry sql} (hagent : env.agentId = none)
    (hsession : env.sessionId = some sid) (hnew : reg.sessions.lookup (sql.key sid) = none) :
    materializeSession env reg = none := by
  have hnull : sql.textNotNull (some 64) (optStr env.agentId) = none := by
    rw [hagent, optStr, Sql.textNotNull, sql.text_null]
    rfl
  have hcount : ¬ reg.sessions.rowcount (sessionIs sql sid) ≠ 0 := by
    rw [Table.rowcount_ne_zero]
    rintro ⟨row, hrow, hkey⟩
    exact Table.lookup_eq_none.1 hnew row hrow (of_decide_eq_true hkey)
  unfold materializeSession
  split
  · simp only [materializeSessionStarted, hsession, hnull, Option.bind_eq_bind, Option.bind_some, Option.bind_none]
  · simp only [materializeSessionFinished, hsession, hnull, Option.bind_eq_bind, Option.bind_some, Option.bind_none,
      if_neg hcount]

private theorem writeEach_no_agent {envs : List EventEnvelope} (hevents : ∀ env ∈ envs, FromHook sid env)
    {reg : Registry sql} (hnew : reg.sessions.lookup (sql.key sid) = none) :
    SqlStore.writeEach SqlStore.materializeSession envs reg = reg := by
  induction envs with
  | nil => rfl
  | cons env envs ih =>
    obtain ⟨firing, hevent⟩ := hevents env List.mem_cons_self
    rw [SqlStore.writeEach_cons, SqlStore.materializeSession_no_agent hevent.agentId hevent.sessionId hnew]
    exact ih fun e he => hevents e (List.mem_cons_of_mem _ he)

private theorem receive_fromHook {db db' : Db sql} {batch : List PreparedEvent}
    (hevents : ∀ env ∈ validEnvelopes batch, FromHook sid env) (hnew : db.sessions.lookup (sql.key sid) = none)
    (hrun : SqlStore.receive db batch = some db') : db'.sessions.lookup (sql.key sid) = none := by
  obtain ⟨events, errors, rfl, -⟩ := SqlStore.receive_some hrun
  have hinserted : ∀ env ∈ SqlStore.newEnvelopes db batch, FromHook sid env :=
    fun env henv => hevents env (mem_toInsert henv).1
  have htasks : (SqlStore.newEnvelopes db batch).filter SqlStore.isTaskEvent = [] := by
    refine List.filter_eq_nil_iff.2 fun env henv => ?_
    rw [(hinserted env henv).isTaskEvent]
    exact Bool.false_ne_true
  have hsessions : SqlStore.writeModels (SqlStore.newEnvelopes db batch) db.toRegistry = db.toRegistry := by
    rw [SqlStore.writeModels, htasks,
      writeEach_no_agent (fun env henv => hinserted env (List.mem_of_mem_filter henv)) hnew]
    rfl
  show (SqlStore.writeModels _ db.toRegistry).sessions.lookup _ = none
  rw [hsessions]
  exact hnew

/-- `SqlStore` never holds a session that only hooks speak of. -/
theorem sqlStore_no_session {db db' : Db sql} {batches : List (List PreparedEvent)}
    (hevents : ∀ env ∈ delivered batches, FromHook sid env) (hnew : db.sessions.lookup (sql.key sid) = none)
    (hrun : Run.exec SqlStore.receive db batches = some db') : db'.sessions.lookup (sql.key sid) = none := by
  have hbatches : ∀ batch ∈ batches, ∀ env ∈ validEnvelopes batch, FromHook sid env :=
    fun batch hbatch env henv => hevents env (List.mem_flatMap.2 ⟨batch, hbatch, henv⟩)
  have hmeets : Run.Meets SqlStore.receive (fun _ batch => ∀ env ∈ validEnvelopes batch, FromHook sid env) db batches :=
    Run.meets_of_forall db hbatches
  exact Run.invariant_of_meets (I := fun db : Db sql => db.sessions.lookup (sql.key sid) = none)
    (fun s batch s' hs hbatch hstep => receive_fromHook hbatch hs hstep) hnew hmeets hrun

/-! ### `FakeStore` -/

/-- The status of a session after an event of a hook. -/
def statusAfter (env : EventEnvelope) : String := if env.eventType = "agent.started" then "running" else "finished"

/-- The status of the session in `FakeStore`. -/
def FakeStore.statusOf (store : FakeStore) (sid : String) : Option String := (store.sessions sid).map (·.status)

private theorem fake_materialize_fromHook (hsid : sid ≠ "") {envs : List EventEnvelope}
    (hevents : ∀ env ∈ envs, FromHook sid env) (store : FakeStore) :
    ∃ sessions, FakeStore.materialize envs store = ({ store with sessions := sessions }, true) ∧
      FakeStore.statusOf { store with sessions := sessions } sid =
        envs.foldl (fun _ env => some (statusAfter env)) (store.statusOf sid) := by
  induction envs generalizing store with
  | nil => exact ⟨store.sessions, rfl, rfl⟩
  | cons env envs ih =>
    obtain ⟨firing, hevent⟩ := hevents env List.mem_cons_self
    have htask : SqlStore.isTaskEvent env = false := FromHook.isTaskEvent ⟨firing, hevent⟩
    have hfilter : env.sessionId.filter (· ≠ "") = some sid := by
      rw [hevent.sessionId, Option.filter_some, if_pos (decide_eq_true hsid)]
    have hcaps : FakeStore.listOf (SqlStore.getOr env.payload "capabilities" (.arr [])) = some [] := by
      rw [SqlStore.getOr, hevent.capabilities]
      rfl
    have hone : ∃ sessions, FakeStore.materializeSession env store = ({ store with sessions := sessions }, true) ∧
        FakeStore.statusOf { store with sessions := sessions } sid = some (statusAfter env) := by
      unfold FakeStore.materializeSession
      simp only [hfilter]
      by_cases hstart : env.eventType = "agent.started"
      · simp only [if_pos hstart, hcaps]
        refine ⟨_, rfl, ?_⟩
        simp [FakeStore.statusOf, statusAfter, hstart]
      · have hfinished : env.eventType = "agent.finished" := by
          have htype := hevent.eventType
          unfold lifecycleEventType at htype
          split at htype
          · exact absurd htype hstart
          · exact htype
        simp only [if_neg hstart, if_pos hfinished]
        refine ⟨_, rfl, ?_⟩
        simp [FakeStore.statusOf, statusAfter, hstart]
    obtain ⟨sessions, hwrite, hstatus⟩ := hone
    obtain ⟨sessions', hrest, hstatus'⟩ := ih (fun e he => hevents e (List.mem_cons_of_mem _ he))
      { store with sessions := sessions }
    refine ⟨sessions', ?_, ?_⟩
    · simp only [FakeStore.materialize, hwrite, FakeStore.materializeTask, htask, Bool.not_false, if_true,
        Bool.not_true, Bool.false_eq_true, if_false, hrest]
    · rw [List.foldl_cons, ← hstatus]
      exact hstatus'

private theorem fake_receive_fromHook (hsid : sid ≠ "") {store store' : FakeStore} {batch : List PreparedEvent}
    (hevents : ∀ env ∈ validEnvelopes batch, FromHook sid env)
    (hnodup : ((validEnvelopes batch).map (·.eventId)).Nodup)
    (hnew : ∀ env ∈ validEnvelopes batch, env.eventId ∉ store.eventIds) (hrun : store.receive batch = some store') :
    store'.eventIds = ((validEnvelopes batch).map (·.eventId)).reverse ++ store.eventIds ∧
      store'.statusOf sid =
        (validEnvelopes batch).foldl (fun _ env => some (statusAfter env)) (store.statusOf sid) := by
  have hall : toInsert store.eventIds [] (validEnvelopes batch) = validEnvelopes batch :=
    toInsert_eq_self hnodup fun env henv => ⟨hnew env henv, List.not_mem_nil⟩
  unfold FakeStore.receive FakeStore.ingestEvents at hrun
  by_cases hraise : store.raiseOnIngest = true
  · rw [if_pos hraise] at hrun
    cases hrun
  · rw [if_neg hraise] at hrun
    dsimp only at hrun
    rw [hall] at hrun
    obtain ⟨seq, events, hrecord⟩ := FakeStore.record_frame { store with
      ingestErrors := store.ingestErrors ++ (rejectedRows batch).map (·.2) } (validEnvelopes batch)
    rw [hrecord] at hrun
    obtain ⟨sessions, hwrite, hstatus⟩ := fake_materialize_fromHook hsid hevents { store with
      ingestErrors := store.ingestErrors ++ (rejectedRows batch).map (·.2)
      eventIds := ((validEnvelopes batch).map (·.eventId)).reverse ++ store.eventIds, seq := seq, events := events }
    rw [hwrite] at hrun
    obtain rfl := Option.some.inj hrun
    exact ⟨rfl, hstatus⟩

/-- In `FakeStore` the last event decides. -/
private theorem fake_run_fromHook (hsid : sid ≠ "") {store store' : FakeStore} {batches : List (List PreparedEvent)}
    (hevents : ∀ env ∈ delivered batches, FromHook sid env) (hnodup : ((delivered batches).map (·.eventId)).Nodup)
    (hnew : ∀ env ∈ delivered batches, env.eventId ∉ store.eventIds)
    (hrun : Run.exec FakeStore.receive store batches = some store') :
    store'.statusOf sid = (delivered batches).foldl (fun _ env => some (statusAfter env)) (store.statusOf sid) := by
  induction batches generalizing store with
  | nil =>
    obtain rfl := Option.some.inj hrun
    rfl
  | cons batch batches ih =>
    have hcons : delivered (batch :: batches) = validEnvelopes batch ++ delivered batches := List.flatMap_cons
    rw [hcons] at hevents hnodup hnew ⊢
    rw [List.map_append, List.nodup_append] at hnodup
    obtain ⟨hfirst, hrest, hdisjoint⟩ := hnodup
    obtain ⟨store₁, hstep, hrun⟩ := Run.exec_cons.1 hrun
    obtain ⟨hids, hstatus⟩ := fake_receive_fromHook hsid (fun env henv => hevents env (List.mem_append_left _ henv))
      hfirst (fun env henv => hnew env (List.mem_append_left _ henv)) hstep
    rw [List.foldl_append, ← hstatus]
    refine ih (fun env henv => hevents env (List.mem_append_right _ henv)) hrest (fun env henv hmem => ?_) hrun
    rw [hids, List.mem_append, List.mem_reverse] at hmem
    rcases hmem with hmem | hmem
    · exact hdisjoint _ hmem _ (List.mem_map_of_mem henv) rfl
    · exact hnew env (List.mem_append_right _ henv) hmem

/-! ### From the firings to the status -/

/-- The status after a firing. -/
def statusAfterFiring (status : Option String) (firing : HookFiring) : Option String :=
  if isLifecycleReason firing.reason then
    some (if firing.reason = "session-start" then "running" else "finished")
  else status

private theorem foldl_emitted {context : EmitContext} {firings : List HookFiring}
    (hsession : ∀ firing ∈ firings, firing.OfSession sid) (status : Option String) :
    (firings.filterMap (emitLifecycleEvent context)).foldl (fun _ env => some (statusAfter env)) status =
      firings.foldl statusAfterFiring status := by
  induction firings generalizing status with
  | nil => rfl
  | cons firing firings ih =>
    have hrest := fun s => ih (fun f hf => hsession f (List.mem_cons_of_mem _ hf)) s
    rw [List.foldl_cons]
    cases hreason : isLifecycleReason firing.reason with
    | false =>
      rw [List.filterMap_cons_none (emitLifecycleEvent_other hreason), hrest, statusAfterFiring, hreason]
      rfl
    | true =>
      obtain ⟨env, hemit, hevent⟩ := exists_lifecycleEvent context
        (hsession firing List.mem_cons_self) hreason
      have hstatus : some (statusAfter env) = statusAfterFiring status firing := by
        rw [statusAfterFiring, hreason, if_pos rfl, statusAfter, hevent.eventType, lifecycleEventType]
        by_cases hstart : firing.reason = "session-start"
        · simp [hstart]
        · simp [hstart]
      rw [List.filterMap_cons_some hemit, List.foldl_cons, hstatus, hrest]

private theorem foldl_running {firings : List HookFiring} {status : Option String} :
    firings.foldl statusAfterFiring status = some "running" ↔ JustStarted firings ∨
      status = some "running" ∧ ∀ firing ∈ firings, isLifecycleReason firing.reason = false := by
  induction firings generalizing status with
  | nil => simp [JustStarted, Run.not_since_nil]
  | cons firing firings ih =>
    have hfirst : statusAfterFiring status firing = some "running" ↔ firing.reason = "session-start" ∨
        status = some "running" ∧ isLifecycleReason firing.reason = false := by
      unfold statusAfterFiring
      by_cases hstart : firing.reason = "session-start"
      · simp [hstart, isLifecycleReason]
      · cases isLifecycleReason firing.reason with
        | true => simp [hstart]
        | false => simp [hstart]
    rw [List.foldl_cons, ih, hfirst, JustStarted, Run.since_cons, List.forall_mem_cons]
    tauto

private theorem foldl_cases (firings : List HookFiring) {status : Option String}
    (h : status = none ∨ status = some "running" ∨ status = some "finished") :
    firings.foldl statusAfterFiring status = none ∨ firings.foldl statusAfterFiring status = some "running" ∨
      firings.foldl statusAfterFiring status = some "finished" := by
  induction firings generalizing status with
  | nil => exact h
  | cons firing firings ih =>
    refine ih ?_
    unfold statusAfterFiring
    split
    · split
      · exact Or.inr (Or.inl rfl)
      · exact Or.inr (Or.inr rfl)
    · exact h

/-! ### The result -/

private theorem emitted_ids (context : EmitContext) {firings : List HookFiring}
    (hsession : ∀ firing ∈ firings, firing.OfSession sid) :
    ((firings.filterMap (emitLifecycleEvent context)).map (·.eventId)).Sublist (firings.map (·.eventId)) ∧
      ∀ env ∈ firings.filterMap (emitLifecycleEvent context), FromHook sid env := by
  induction firings with
  | nil => exact ⟨List.Sublist.refl _, fun _ => by simp⟩
  | cons firing firings ih =>
    obtain ⟨hsub, hevents⟩ := ih fun f hf => hsession f (List.mem_cons_of_mem _ hf)
    cases hreason : isLifecycleReason firing.reason with
    | false =>
      rw [List.filterMap_cons_none (emitLifecycleEvent_other hreason), List.map_cons]
      exact ⟨hsub.cons _, hevents⟩
    | true =>
      obtain ⟨env, hemit, hevent⟩ := exists_lifecycleEvent context
        (hsession firing List.mem_cons_self) hreason
      rw [List.filterMap_cons_some hemit, List.map_cons, List.map_cons, hevent.eventId]
      exact ⟨hsub.cons_cons _, List.forall_mem_cons.2 ⟨⟨firing, hevent⟩, hevents⟩⟩

/-- The hooks of one session fire, and what they emit is delivered in order, in any batches, to both stores, which do
not know the session before. -/
structure HookRun (sid : String) (firings : List HookFiring) (db db' : Db sql) (store store' : FakeStore) : Prop where
  nonempty : sid ≠ ""
  session : ∀ firing ∈ firings, firing.OfSession sid
  distinct : (firings.map (·.eventId)).Nodup
  fresh : ∀ firing ∈ firings, firing.eventId ∉ store.eventIds
  unknown : db.sessions.lookup (sql.key sid) = none ∧ store.sessions sid = none
  ingested : ∃ context batches, delivered batches = firings.filterMap (emitLifecycleEvent context) ∧
    Run.exec SqlStore.receive db batches = some db' ∧ Run.exec FakeStore.receive store batches = some store'

variable {firings : List HookFiring} {db db' : Db sql} {store store' : FakeStore}

/-- `SqlStore` never lists the session. -/
theorem HookRun.sqlStore_lists (h : HookRun sid firings db db' store store') :
    ¬ ∃ row ∈ SqlStore.listSessions db'.toRegistry true, row.sessionId = sid := by
  obtain ⟨context, batches, hdelivered, hsql, -⟩ := h.ingested
  have hevents := (emitted_ids context h.session).2
  rw [← hdelivered] at hevents
  have hnone := sqlStore_no_session hevents h.unknown.1 hsql
  rintro ⟨row, hrow, hid⟩
  unfold SqlStore.listSessions at hrow
  rw [List.mem_insertionSort, List.mem_filter] at hrow
  exact Table.lookup_eq_none.1 hnone row hrow.1 (congrArg sql.key hid)

/-- `FakeStore` lists the session from a `session-start` to the next lifecycle hook, be it the end of a subagent. -/
theorem HookRun.fakeStore_lists (h : HookRun sid firings db db' store store') :
    store'.listsSession true sid = true ↔ JustStarted firings := by
  obtain ⟨context, batches, hdelivered, -, hfake⟩ := h.ingested
  obtain ⟨hsub, hevents⟩ := emitted_ids context h.session
  have hstatus := fake_run_fromHook h.nonempty (by rwa [hdelivered]) (by rw [hdelivered]; exact h.distinct.sublist hsub)
    (fun env henv hmem => ?_) hfake
  · have hnone : store.statusOf sid = none := by
      rw [FakeStore.statusOf, h.unknown.2]
      rfl
    rw [hdelivered, foldl_emitted h.session, hnone] at hstatus
    have hlists : store'.listsSession true sid = (store'.statusOf sid).any (· ∈ activeStatuses) := by
      rw [FakeStore.listsSession, FakeStore.statusOf, Option.any_map]
      rfl
    have hrunning : JustStarted firings ↔ firings.foldl statusAfterFiring none = some "running" := by
      rw [foldl_running]
      simp
    rw [hlists, hstatus, hrunning]
    rcases foldl_cases firings (Or.inl rfl) with h | h | h
    · simp [h]
    · simp [h, activeStatuses]
    · simp [h, activeStatuses]
  · rw [hdelivered] at henv
    obtain ⟨firing, hfiring, hid⟩ := List.mem_map.1 (hsub.subset (List.mem_map_of_mem henv))
    exact h.fresh firing hfiring (hid ▸ hmem)

/-- **Both stores list a session as they should just in case it is not live.** -/
theorem active_iff_not_live (h : HookRun sid firings db db' store store') :
    (((∃ row ∈ SqlStore.listSessions db'.toRegistry true, row.sessionId = sid) ↔ Live firings) ∧
      (store'.listsSession true sid = true ↔ Live firings)) ↔ ¬ Live firings := by
  have hlive : JustStarted firings → Live firings := by
    refine Run.Since.imp fun firing hother hend => ?_
    rw [hend] at hother
    exact absurd hother (by decide)
  rw [iff_false_left h.sqlStore_lists, h.fakeStore_lists]
  exact ⟨fun hboth => hboth.1, fun hnot => ⟨hnot, fun hstarted => hlive hstarted, fun hl => absurd hl hnot⟩⟩

/-! ### A session with a subagent -/

private def hookFiring (reason eventId : String) : HookFiring where
  reason := reason
  payload := .obj [("session_id", .str "s1"), ("source", .str "startup")]
  eventId := eventId
  firedAt := 0

private theorem nodup_key (id : String) : [Sql.sample.key id].Nodup := List.nodup_singleton _

/-- The checkout is registered. -/
private def registered : Db Sql.sample where
  machines := ⟨[⟨"mach_1", "desk", "linux", 0, 0, none⟩], nodup_key _⟩
  repositories := ⟨[⟨"repo_1", "mach_1", none, none, "/src", 0, 0, none⟩], nodup_key _⟩
  sessions := Table.empty
  tasks := Table.empty
  dbts := 0
  events := Table.empty
  ingestErrors := []

private def checkout : EmitContext := ⟨"mach_1", "repo_1", none⟩

/-- Each event in a batch of its own. -/
private def deliveries (firings : List HookFiring) : List (List PreparedEvent) :=
  (firings.filterMap (emitLifecycleEvent checkout)).map fun env => [.valid env ""]

private theorem delivered_deliveries (firings : List HookFiring) :
    delivered (deliveries firings) = firings.filterMap (emitLifecycleEvent checkout) := by
  rw [delivered, deliveries, List.flatMap_map]
  exact List.flatMap_singleton' _

private theorem hookRun (reasons : List (String × String)) (hdistinct : (reasons.map Prod.snd).Nodup)
    (hsql : (Run.exec SqlStore.receive registered
      (deliveries (reasons.map fun r => hookFiring r.1 r.2))).isSome = true)
    (hfake : (Run.exec FakeStore.receive FakeStore.empty
      (deliveries (reasons.map fun r => hookFiring r.1 r.2))).isSome = true) :
    ∃ db' store', HookRun "s1" (reasons.map fun r => hookFiring r.1 r.2) registered db' FakeStore.empty store' := by
  obtain ⟨db', hsql⟩ := Option.isSome_iff_exists.1 hsql
  obtain ⟨store', hfake⟩ := Option.isSome_iff_exists.1 hfake
  refine ⟨db', store', by decide, ?_, ?_, fun _ _ => List.not_mem_nil, ⟨rfl, rfl⟩,
    checkout, _, delivered_deliveries _, hsql, hfake⟩
  · intro firing hfiring
    obtain ⟨r, -, rfl⟩ := List.mem_map.1 hfiring
    rfl
  · rw [List.map_map]
    exact hdistinct

/-- A session that has ended is listed by neither store. -/
theorem ended_session_not_listed : ∃ db' store',
    HookRun "s1" [hookFiring "session-start" "evt_1", hookFiring "session-end" "evt_2"] registered db' FakeStore.empty
      store' ∧
    ¬ (∃ row ∈ SqlStore.listSessions db'.toRegistry true, row.sessionId = "s1") ∧
      store'.listsSession true "s1" = false := by
  obtain ⟨db', store', h⟩ := hookRun [("session-start", "evt_1"), ("session-end", "evt_2")] (by decide)
    (by decide +kernel) (by decide +kernel)
  have hnot : ¬ Live [hookFiring "session-start" "evt_1", hookFiring "session-end" "evt_2"] := by
    simp [Live, Run.since_cons, Run.not_since_nil, hookFiring]
  obtain ⟨hsql, hfake⟩ := (active_iff_not_live h).2 hnot
  exact ⟨db', store', h, fun hlisted => hnot (hsql.1 hlisted),
    Bool.eq_false_iff.2 fun hlisted => hnot (hfake.1 hlisted)⟩

/-- A subagent of a live session has stopped: neither store lists the session. -/
theorem live_session_not_listed : ∃ db' store',
    HookRun "s1" [hookFiring "session-start" "evt_1", hookFiring "subagent-stop" "evt_2"] registered db'
      FakeStore.empty store' ∧
    Live [hookFiring "session-start" "evt_1", hookFiring "subagent-stop" "evt_2"] ∧
      ¬ (∃ row ∈ SqlStore.listSessions db'.toRegistry true, row.sessionId = "s1") ∧
        ¬ store'.listsSession true "s1" = true := by
  obtain ⟨db', store', h⟩ := hookRun [("session-start", "evt_1"), ("subagent-stop", "evt_2")] (by decide)
    (by decide +kernel) (by decide +kernel)
  refine ⟨db', store', h, ?_, h.sqlStore_lists, fun hlisted => ?_⟩
  · simp [Live, Run.since_cons, Run.not_since_nil, hookFiring]
  · have hstarted := h.fakeStore_lists.1 hlisted
    simp [JustStarted, Run.since_cons, Run.not_since_nil, hookFiring, isLifecycleReason] at hstarted

end AgentOS
