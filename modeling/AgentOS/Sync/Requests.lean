import AgentOS.Hub.TaskOrder
import AgentOS.Outbox.Accounting
import AgentOS.Sync.TaskSync

/-!
# What a request brings to the hub

An event of a card gets through to the hub under the id by which the hub knows the repository (`SyncSite.Carries`).  A
request with such events is answered without a rejection or fails, and what it delivers is materialized
(`Ingested.post`).  The task of an event shows the row that the event tells of (`EmittedFor.shows`).
-/

namespace AgentOS

open Lines Newest SqlStore

/-- The event as the hub gets it: under the id by which it knows the repository. -/
def SyncSite.sent (site : SyncSite) (env : EventEnvelope) : EventEnvelope :=
  { env with repositoryId := some site.repositoryId }

/-- An event gets through: `append_line` takes its line, the line is read back and parsed as the event, and the values
of a task fit their columns. -/
structure SyncSite.Carries (site : SyncSite) (sql : Sql) (env : EventEnvelope) : Prop where
  line : OutboxLine site.wire.codec site.wire.floats (site.wire.dumpJson env)
  text : loads site.wire.floats.parse (site.wire.dumpJson env) = some (.obj (env.fields site.wire.isoformat))
  schemaVersion : site.wire.pydantic.int (.int env.schemaVersion) = .ok env.schemaVersion
  occurredAt : site.wire.pydantic.awareDatetime (.str (site.wire.isoformat env.occurredAt)) = .ok env.occurredAt
  columns : isTaskEvent env = true → (taskRow sql (site.sent env)).isSome

/-- The task shows this row of the first machine, up to the id of the card. -/
structure StoredTask.Shows (task : StoredTask) (card : CardRow) : Prop where
  globalId : card.globalId = some task.globalId
  title : task.title = some card.title
  description : task.description = card.description
  priority : task.priority = card.priority
  status : syncStatusToLocal (some task.status) = card.status
  version : card.syncVersion = some task.version

/-! ### What an event of a card says -/

/-- An event that a call emits for a row that a commit wrote. -/
structure EmittedFor (context : EmitContext) (card : CardRow) (env : EventEnvelope) : Prop where
  type : env.eventType ∈ taskEventTypes
  payload : env.payload = taskPayload card
  machineId : env.machineId = context.machineId
  repositoryId : env.repositoryId = some context.repositoryId

section

variable {site : SyncSite} {sql : Sql} {card : CardRow} {env : EventEnvelope}

theorem EmittedFor.globalId_eq (h : EmittedFor site.context card env) {g : String} (hg : card.globalId = some g) :
    env.globalId = g := by
  rw [EventEnvelope.globalId, h.payload, get_taskPayload_globalId, hg]
  rfl

theorem EmittedFor.globalId_of_get (h : EmittedFor site.context card env) {g : String}
    (hg : Json.get env.payload "global_id" = .str g) : card.globalId = some g :=
  Writers.globalId_of_get (h.payload ▸ hg)

/-- The event of a card with a global id is a task event, and no other is. -/
theorem EmittedFor.isTaskEvent_iff (h : EmittedFor site.context card env) :
    isTaskEvent env = true ↔ ∃ g, card.globalId = some g ∧ g ≠ "" := by
  have htype : (env.eventType = "task.created" || env.eventType = "task.updated" ||
      env.eventType = "task.completed") = true := by
    have := h.type
    simpa [taskEventTypes, or_assoc] using this
  rw [isTaskEvent, htype, Bool.true_and, h.payload, get_taskPayload_globalId]
  cases card.globalId with
  | none => simp [optStr, Json.truthy]
  | some g => simp [optStr, Json.truthy]

theorem EmittedFor.taskEvent (h : EmittedFor site.context card env) (hcarries : site.Carries sql env)
    (hversion : ∃ n, card.syncVersion = some n ∧ 1 ≤ n) (htask : isTaskEvent env = true) :
    TaskEvent sql (site.sent env) where
  type := by
    have := h.type
    simpa [taskEventTypes, SyncSite.sent] using this
  globalId := by
    obtain ⟨g, hg, hne⟩ := h.isTaskEvent_iff.1 htask
    refine ⟨g, ?_, hne⟩
    change Json.get env.payload "global_id" = .str g
    rw [h.payload, get_taskPayload_globalId, hg]
    rfl
  version := by
    obtain ⟨n, hn, hpos⟩ := hversion
    refine ⟨n, ?_, hpos⟩
    change Json.get env.payload "version" = .int n
    rw [h.payload, get_taskPayload_version card hn]
  fits := hcarries.columns htask

theorem EmittedFor.version_eq (h : EmittedFor site.context card env)
    (hversion : ∃ n, card.syncVersion = some n ∧ 1 ≤ n) : env.version = card.version := by
  obtain ⟨n, hn, hpos⟩ := hversion
  have htruthy : (Json.int n).truthy = true := by
    rw [Json.truthy]
    exact decide_eq_true (by omega)
  rw [EventEnvelope.version, taskVersion, getOr, h.payload, get_taskPayload_version card hn, if_pos htruthy,
    CardRow.version, hn]
  rfl

/-- A task that holds the values of an event shows the row that the event is about. -/
theorem EmittedFor.shows (h : EmittedFor site.context card env) (hevent : TaskEvent sql (site.sent env))
    {g : String} (hg : card.globalId = some g) (hstatus : card.status ∈ validStatuses)
    (hversion : ∃ n, card.syncVersion = some n ∧ 1 ≤ n) {values : TaskRow}
    (hvalues : taskRow sql (site.sent env) = some values) {task : StoredTask}
    (htask : task.toTaskRow = { values with globalId := task.globalId }) (hgid : task.globalId = g) :
    task.Shows card ∧ task.repositoryId = some site.repositoryId := by
  obtain ⟨values', hvalues', -, hver, hholds⟩ := hevent.exists_taskRow
  obtain rfl := Option.some.inj (hvalues.symm.trans hvalues')
  have htitle := hholds.title
  have hdescription := hholds.description
  have hpriority := hholds.priority
  have hsync := hholds.status
  have hrepository := hholds.repositoryId
  dsimp only [EventEnvelope.content, SyncSite.sent] at htitle hdescription hpriority hsync hrepository
  rw [h.payload] at htitle hdescription hpriority hsync
  rw [get_taskPayload_title] at htitle
  rw [get_taskPayload_description] at hdescription
  rw [get_taskPayload_priority] at hpriority
  rw [get_taskPayload_status] at hsync
  have hfields := fun {α : Type} (f : TaskRow → α) => congrArg f htask
  refine ⟨⟨by rw [hg, hgid], ?_, ?_, ?_, ?_, ?_⟩, ?_⟩
  · exact (hfields TaskRow.title).trans (sql.text_str htitle)
  · exact (hfields TaskRow.description).trans (sql.text_optStr hdescription)
  · exact (hfields TaskRow.priority).trans (sql.text_optStr hpriority)
  · have hround := syncStatusToLocal_localStatusToSync hstatus
    rw [hsync, Option.map_some] at hround
    have hstatus' : task.status = values.status := hfields TaskRow.status
    rw [hstatus']
    exact Option.some.inj hround
  · obtain ⟨n, hn, hpos⟩ := hversion
    have hversion' : task.version = values.version := hfields TaskRow.version
    have henv := h.version_eq ⟨n, hn, hpos⟩
    rw [CardRow.version, hn, Option.getD_some] at henv
    have hsent : (site.sent env).version = env.version := rfl
    rw [hn, hversion', hver, hsent, henv]
  · exact (hfields TaskRow.repositoryId).trans hrepository

end

/-! ### What a request brings to the hub -/

section

variable {site : SyncSite} {sql : Sql} {env : EventEnvelope}

/-- The id of the repository is put in the place of the local one. -/
theorem outgoingEvent_dumpJson (hcarries : site.Carries sql env)
    (hrepository : env.repositoryId = some site.context.repositoryId) :
    outgoingEvent site.wire.floats site.ids (site.wire.dumpJson env) =
      some (.obj ((site.sent env).fields site.wire.isoformat)) := by
  have hlocal : (Json.get (env.fields site.wire.isoformat) "repository_id").asStr =
      some site.context.repositoryId := by
    simp [Json.get, EventEnvelope.fields, List.lookup_cons, hrepository, optStr, Json.asStr]
  rw [outgoingEvent, hcarries.text, Option.map_some]
  dsimp only [SyncSite.ids]
  rw [hlocal]
  by_cases hsame : site.repositoryId = site.context.repositoryId
  · have hsent : site.sent env = env := by rw [SyncSite.sent, hsame, ← hrepository]
    simp [Json.asStr, hsame, hsent]
  · simp [Json.asStr, hsame, Json.set, EventEnvelope.fields, SyncSite.sent, optStr]

private theorem validOptStr_optStr (s : Option String) : validOptStr (optStr s) = .ok s := by
  cases s <;> rfl

/-- The server parses the event. -/
theorem modelValidate_sent (hcarries : site.Carries sql env) (htype : env.eventType ∈ taskEventTypes) :
    EventEnvelope.modelValidate site.wire.pydantic ((site.sent env).fields site.wire.isoformat) =
      .ok (site.sent env) := by
  have hname : isNamespacedName env.eventType = true := by
    simp only [taskEventTypes, List.mem_cons, List.not_mem_nil, or_false] at htype
    rcases htype with h | h | h <;> rw [h] <;> decide
  simp [EventEnvelope.modelValidate, EventEnvelope.fields, validField, List.lookup_cons, SyncSite.sent, validStr,
    validDotted, validDict, hname, hcarries.schemaVersion, hcarries.occurredAt, validOptStr_optStr, Except.mapError]
  rfl

/-- The events of a request. -/
def SyncSite.items (site : SyncSite) (envs : List EventEnvelope) : List Json :=
  envs.map fun env => .obj ((site.sent env).fields site.wire.isoformat)

/-- An event of the request, as the store gets it. -/
def SyncSite.prepared (site : SyncSite) (sql : Sql) (env : EventEnvelope) : PreparedEvent :=
  .valid (site.sent env) (compactJson sql.reprFloat (.obj ((site.sent env).fields site.wire.isoformat)))

/-- The events of a machine are bound to it, or the drainer is an administrator. -/
theorem boundBatch_items {envs : List EventEnvelope} (hcarries : ∀ env ∈ envs, site.Carries sql env)
    (htype : ∀ env ∈ envs, env.eventType ∈ taskEventTypes)
    (hmachine : ∀ env ∈ envs, env.machineId = site.context.machineId) :
    boundBatch site.auth ((site.items envs).map (prepareEvent sql site.wire.pydantic)) =
      envs.map (site.prepared sql) := by
  have hprepare : (site.items envs).map (prepareEvent sql site.wire.pydantic) = envs.map (site.prepared sql) := by
    rw [SyncSite.items, List.map_map]
    refine List.map_congr_left fun env henv => ?_
    rw [Function.comp_apply, prepareEvent, modelValidate_sent (hcarries env henv) (htype env henv)]
    rfl
  rw [hprepare, boundBatch]
  split
  case isTrue => rfl
  case isFalse hadmin =>
    have hbound := site.bound.resolve_left hadmin
    rw [List.map_map]
    refine List.map_congr_left fun env henv => ?_
    have hsource : ¬ (site.prepared sql env).sourceMachineId ≠ site.auth.machineId := by
      rw [hbound, not_not]
      exact congrArg some (hmachine env henv)
    have hvalid : ¬ (site.prepared sql env).envelope.isNone = true := Bool.false_ne_true
    rw [Function.comp_apply, bindEvent, if_neg hvalid, if_neg hsource]

theorem validEnvelopes_prepared (site : SyncSite) (sql : Sql) (envs : List EventEnvelope) :
    validEnvelopes (envs.map (site.prepared sql)) = envs.map site.sent := by
  rw [validEnvelopes, List.filterMap_map]
  exact congrFun (List.filterMap_eq_map (f := site.sent)) envs

end

/-! ### What the answer says -/

section

variable {sql : Sql} {Envelope : Type}

theorem outcomes_rejected {existing : List String} {index : Nat} {seen : List String} {items : List PreparedEvent}
    (h : ∀ item ∈ items, item.envelope.isSome) {outcome : Outcome}
    (hmem : outcome ∈ outcomes existing index seen items) :
    outcome.outcome = "accepted" ∨ outcome.outcome = "duplicate" := by
  induction items generalizing index seen with
  | nil => cases hmem
  | cons item items ih =>
    have hrest : ∀ i ∈ items, i.envelope.isSome := fun i hi => h i (List.mem_cons_of_mem _ hi)
    obtain ⟨env, henv⟩ := Option.isSome_iff_exists.1 (h item List.mem_cons_self)
    simp only [outcomes, henv] at hmem
    split at hmem
    · rcases List.mem_cons.1 hmem with rfl | hmem
      · exact Or.inr rfl
      · exact ih hrest hmem
    · rcases List.mem_cons.1 hmem with rfl | hmem
      · exact Or.inl rfl
      · exact ih hrest hmem

/-- Where no outcome is a rejection, nothing is rejected. -/
theorem rejectedEvents_accepted {sent : List (PendingEvent Envelope)} {results : List Outcome}
    {rejected : List (PendingEvent Envelope × Json)}
    (hresults : ∀ outcome ∈ results, outcome.outcome = "accepted" ∨ outcome.outcome = "duplicate")
    (h : rejectedEvents sent (results.map Outcome.toJson) = .ok rejected) : rejected = [] := by
  induction results generalizing sent rejected with
  | nil =>
    cases sent with
    | nil => exact (Except.ok.inj h).symm
    | cons event sent => exact (Except.ok.inj h).symm
  | cons outcome results ih =>
    cases sent with
    | nil => exact (Except.ok.inj h).symm
    | cons event sent =>
      have houtcome := hresults outcome List.mem_cons_self
      have hstr : ∀ rest, (Json.get ([("index", .int outcome.index)] ++
          (outcome.eventId.map fun id => ("event_id", Json.str id)).toList ++ [("outcome", .str outcome.outcome)] ++
            rest) "outcome").asStr = some outcome.outcome := by
        intro rest
        cases outcome.eventId <;> simp [Json.get, List.lookup_cons, Json.asStr]
      rw [List.map_cons, Outcome.toJson, rejectedEvents] at h
      dsimp only at h
      rw [hstr] at h
      have hnot : ¬ some outcome.outcome = some "rejected" := by
        rcases houtcome with h | h <;> rw [h] <;> decide
      have hyes : some outcome.outcome = some "accepted" ∨ some outcome.outcome = some "duplicate" :=
        houtcome.imp (congrArg some) (congrArg some)
      rw [if_neg hnot, if_pos hyes] at h
      exact ih (fun o ho => hresults o (List.mem_cons_of_mem _ ho)) h

end

/-! ### The tasks of the hub -/

/-- The `change_seq` of a task tells it from every other, and none is beyond the clock. -/
structure Clocked {sql : Sql} (reg : Registry sql) : Prop where
  distinct : ∀ x ∈ reg.tasks.rows, ∀ y ∈ reg.tasks.rows, x.changeSeq = y.changeSeq → x = y
  le_dbts : ∀ x ∈ reg.tasks.rows, x.changeSeq ≤ reg.dbts

/-- The tasks of `reg'` are those of `reg`, but for tasks written since. -/
structure Registry.Later {sql : Sql} (reg reg' : Registry sql) : Prop where
  dbts : reg.dbts ≤ reg'.dbts
  tasks : ∀ x ∈ reg'.tasks.rows, x ∈ reg.tasks.rows ∨ reg.dbts < x.changeSeq

section

variable {sql : Sql} {reg reg' reg'' : Registry sql}

theorem Registry.Later.refl (reg : Registry sql) : reg.Later reg := ⟨Nat.le_refl _, fun _ hx => Or.inl hx⟩

theorem Registry.Later.trans (h : reg.Later reg') (h' : reg'.Later reg'') : reg.Later reg'' where
  dbts := Nat.le_trans h.dbts h'.dbts
  tasks := by
    intro x hx
    rcases h'.tasks x hx with hx | hx
    · exact h.tasks x hx
    · exact Or.inr (Nat.lt_of_le_of_lt h.dbts hx)

/-- A task event keeps the clock, and its task is spelled as it was, or as the event spells it. -/
theorem materializeTask_later {env : EventEnvelope} (h : Clocked reg) (hevent : TaskEvent sql env)
    (hwrite : materializeTask env reg = some reg') :
    Clocked reg' ∧ reg.Later reg' ∧
      ∀ x ∈ reg'.tasks.rows, x.globalId = env.globalId ∨ ∃ y ∈ reg.tasks.rows, x.globalId = y.globalId := by
  rcases materializeTask_put hwrite with rfl | ⟨row, hseq, hgid, rfl⟩
  · exact ⟨h, Registry.Later.refl _, fun x hx => Or.inr ⟨x, hx, rfl⟩⟩
  · have hold : ∀ x ∈ reg.tasks.rows, x.changeSeq < row.changeSeq := by
      intro x hx
      have := h.le_dbts x hx
      omega
    refine ⟨⟨fun x hx y hy hxy => ?_, fun x hx => ?_⟩, ⟨Nat.le_succ _, fun x hx => ?_⟩, fun x hx => ?_⟩
    · rcases Table.mem_put.1 hx with hxrow | ⟨hxold, -⟩
      · rcases Table.mem_put.1 hy with hyrow | ⟨hyold, -⟩
        · exact hxrow.trans hyrow.symm
        · have := hold y hyold
          rw [hxrow] at hxy
          omega
      · rcases Table.mem_put.1 hy with hyrow | ⟨hyold, -⟩
        · have := hold x hxold
          rw [hyrow] at hxy
          omega
        · exact h.distinct x hxold y hyold hxy
    · rcases Table.mem_put.1 hx with rfl | ⟨hx, -⟩
      · exact Nat.le_of_eq hseq
      · exact Nat.le_succ_of_le (h.le_dbts x hx)
    · rcases Table.mem_put.1 hx with rfl | ⟨hx, -⟩
      · exact Or.inr (by omega)
      · exact Or.inl hx
    · rcases Table.mem_put.1 hx with rfl | ⟨hx, -⟩
      · obtain ⟨values, hvalues, henv, -, -⟩ := hevent.exists_taskRow
        rcases hgid with hgid | ⟨values', hvalues', hgid⟩
        · obtain ⟨y, hy, hyx⟩ := List.mem_map.1 hgid
          exact Or.inr ⟨y, hy, hyx.symm⟩
        · obtain rfl := Option.some.inj (hvalues.symm.trans hvalues')
          exact Or.inl (hgid.trans henv)
      · exact Or.inr ⟨x, hx, rfl⟩

/-- What a batch does to the tasks. -/
theorem receive_later {db db' : Db sql} {batch : List PreparedEvent} (h : Clocked db.toRegistry)
    (hevents : ∀ e ∈ validEnvelopes batch, isTaskEvent e = true → TaskEvent sql e)
    (hreceive : SqlStore.receive db batch = some db') :
    Clocked db'.toRegistry ∧ db.Later db'.toRegistry ∧ ∀ x ∈ db'.tasks.rows,
      (∃ e ∈ (newEnvelopes db batch).filter isTaskEvent, x.globalId = e.globalId) ∨
        ∃ y ∈ db.tasks.rows, x.globalId = y.globalId := by
  obtain ⟨events, errors, rfl, -⟩ := SqlStore.receive_some hreceive
  obtain ⟨sessions, hsessions⟩ := writeEach_sessions_frame ((newEnvelopes db batch).filter isSessionEvent)
    db.toRegistry
  dsimp only
  rw [writeModels, hsessions]
  refine writeEach_invariant (I := fun reg => Clocked reg ∧ db.Later reg ∧ ∀ x ∈ reg.tasks.rows,
      (∃ e ∈ (newEnvelopes db batch).filter isTaskEvent, x.globalId = e.globalId) ∨
        ∃ y ∈ db.tasks.rows, x.globalId = y.globalId) (fun env henv reg reg' hreg hwrite => ?_)
    ⟨⟨h.distinct, h.le_dbts⟩, ⟨Nat.le_refl _, fun x hx => Or.inl hx⟩, fun x hx => Or.inr ⟨x, hx, rfl⟩⟩
  obtain ⟨hclocked, hlater, hspelled⟩ := hreg
  obtain ⟨hmem, htask⟩ := List.mem_filter.1 henv
  obtain ⟨h₁, h₂, h₃⟩ := materializeTask_later hclocked (hevents env (mem_toInsert hmem).1 htask) hwrite
  refine ⟨h₁, hlater.trans h₂, fun x hx => ?_⟩
  rcases h₃ x hx with hx | ⟨y, hy, hxy⟩
  · exact Or.inl ⟨env, henv, hx⟩
  · rw [hxy]
    exact hspelled y hy

end

/-! ### The hub and the events -/

/-- An event that gets through and tells of a row that a commit wrote. -/
structure SyncSite.Tells (site : SyncSite) (sql : Sql) (card : CardRow) (env : EventEnvelope) : Prop where
  carries : site.Carries sql env
  emitted : EmittedFor site.context card env
  status : card.status ∈ validStatuses
  version : ∃ n, card.syncVersion = some n ∧ 1 ≤ n

/-- The hub has materialized the events `M`, which were emitted. -/
structure Ingested {sql : Sql} (site : SyncSite) (emitted M : List EventEnvelope) (hub : Db sql) : Prop where
  stored : ∀ e ∈ hub.events.rows, e.eventId ∈ M.map (·.eventId)
  tasks : TasksReflect (M.filter isTaskEvent) hub.toRegistry
  subset : M ⊆ emitted.map site.sent
  spelled : ∀ x ∈ hub.tasks.rows, ∃ e ∈ M.filter isTaskEvent, x.globalId = e.globalId
  clocked : Clocked hub.toRegistry

/-- Lines in the hand of a drainer that are events which were emitted. -/
def HeldEvents (site : SyncSite) (emitted : List EventEnvelope) (pending : List (PendingEvent EventEnvelope)) : Prop :=
  (∀ event ∈ pending, event.envelope.isSome) ∧
    ∃ envs ⊆ emitted, pending.map (·.raw) = envs.map site.wire.dumpJson

section

variable {site : SyncSite} {sql : Sql} {emitted M : List EventEnvelope} {history : List CardRow} {hub hub' : Db sql}

theorem SyncSite.Tells.taskEvent {card : CardRow} {env : EventEnvelope} (h : site.Tells sql card env)
    (htask : isTaskEvent env = true) : TaskEvent sql (site.sent env) :=
  h.emitted.taskEvent h.carries h.version htask

theorem Ingested.mono (h : Ingested site emitted M hub) (news : List EventEnvelope) :
    Ingested site (emitted ++ news) M hub where
  stored := h.stored
  tasks := h.tasks
  subset := by
    rw [List.map_append]
    exact List.Subset.trans h.subset (List.subset_append_left _ _)
  spelled := h.spelled
  clocked := h.clocked

theorem HeldEvents.mono {pending : List (PendingEvent EventEnvelope)} (h : HeldEvents site emitted pending)
    (news : List EventEnvelope) : HeldEvents site (emitted ++ news) pending := by
  obtain ⟨hvalid, envs, hsub, hraw⟩ := h
  exact ⟨hvalid, envs, List.Subset.trans hsub (List.subset_append_left _ _), hraw⟩

/-- A batch of events that were emitted is ingested. -/
theorem Ingested.receive (h : Ingested site emitted M hub)
    (htells : ∀ env ∈ emitted, ∃ card ∈ history, site.Tells sql card env) {envs : List EventEnvelope}
    (henvs : envs ⊆ emitted) (hreceive : SqlStore.receive hub (envs.map (site.prepared sql)) = some hub') :
    ∃ N, Ingested site emitted (M ++ N) hub' ∧ hub.Later hub'.toRegistry ∧
      ∀ env ∈ envs, env.eventId ∈ (M ++ N).map (·.eventId) := by
  have hvalid := validEnvelopes_prepared site sql envs
  have hevents : ∀ e ∈ validEnvelopes (envs.map (site.prepared sql)), isTaskEvent e = true → TaskEvent sql e := by
    intro e he htask
    rw [hvalid] at he
    obtain ⟨env, henv, rfl⟩ := List.mem_map.1 he
    obtain ⟨card, -, hcard⟩ := htells env (henvs henv)
    exact hcard.taskEvent htask
  have hnew : newEnvelopes hub (envs.map (site.prepared sql)) ⊆ envs.map site.sent := by
    rw [← hvalid]
    exact fun e he => (mem_toInsert he).1
  obtain ⟨hstored, hids⟩ := stored_receive h.stored hreceive
  obtain ⟨hclocked, hlater, hspelled⟩ := receive_later h.clocked hevents hreceive
  refine ⟨newEnvelopes hub (envs.map (site.prepared sql)), ⟨hstored, ?_, ?_, fun x hx => ?_, hclocked⟩, hlater,
    fun env henv => ?_⟩
  · rw [List.filter_append]
    exact h.tasks.receive hevents hreceive
  · exact List.append_subset.2 ⟨h.subset, List.Subset.trans hnew (List.map_subset _ henvs)⟩
  · rw [List.filter_append]
    rcases hspelled x hx with ⟨e, he, hxe⟩ | ⟨y, hy, hxy⟩
    · exact ⟨e, List.mem_append_right _ he, hxe⟩
    · obtain ⟨e, he, hye⟩ := h.spelled y hy
      exact ⟨e, List.mem_append_left _ he, hxy.trans hye⟩
  · refine hids (site.sent env) ?_
    rw [hvalid]
    exact List.mem_map_of_mem henv

/-- The hub answers a batch of prepared events with an error and leaves everything as it is, or receives it. -/
theorem ingestBatch_items {envs : List EventEnvelope} {response : BatchResponse}
    (hbound : boundBatch site.auth ((site.items envs).map (prepareEvent sql site.wire.pydantic)) =
      envs.map (site.prepared sql))
    (h : ingestBatch site.wire.pydantic none hub site.auth (batchPayload (site.items envs)) = (hub', response)) :
    (hub' = hub ∧ ∃ status code, status ≠ 200 ∧ response = .error status code) ∨
      ∃ results, SqlStore.receive hub (envs.map (site.prepared sql)) = some hub' ∧ response = .results results ∧
        ∀ outcome ∈ results, outcome.outcome = "accepted" ∨ outcome.outcome = "duplicate" := by
  have hget : Json.get [("events", .arr (site.items envs))] "events" = .arr (site.items envs) := rfl
  unfold ingestBatch ingestPrepared batchPayload at h
  simp only [hget, hbound] at h
  split at h
  case isTrue =>
    obtain ⟨rfl, rfl⟩ := Prod.mk.inj h
    exact Or.inl ⟨rfl, 413, "batch_too_large", by decide, rfl⟩
  case isFalse =>
    have hitems : ∀ item ∈ envs.map (site.prepared sql), item.envelope.isSome := by
      intro item hitem
      obtain ⟨env, -, rfl⟩ := List.mem_map.1 hitem
      rfl
    rw [ingestEvents_none] at h
    cases hlog : writeLog none hub (envs.map (site.prepared sql)) with
    | none =>
      rw [hlog] at h
      obtain ⟨rfl, rfl⟩ := Prod.mk.inj h
      exact Or.inl ⟨rfl, 500, "internal_error", by decide, rfl⟩
    | some logged =>
      rw [hlog] at h
      obtain ⟨rfl, rfl⟩ := Prod.mk.inj h
      refine Or.inr ⟨_, ?_, rfl, fun outcome hmem => outcomes_rejected hitems hmem⟩
      rw [SqlStore.receive, ingestEvents_none, hlog]

/-- What a drainer learns from an answer of the hub: nothing is rejected, and what it sent has been materialized. -/
structure Honoured (site : SyncSite) (emitted M : List EventEnvelope) (pending : List (PendingEvent EventEnvelope))
    (reply : Reply) : Prop where
  rejected : ∀ rejected, resolve (toSend pending) reply = .ok rejected → rejected = []
  materialized : ∀ body, reply = .response 200 body → ∀ event ∈ toSend pending, ∃ env ∈ emitted,
    event.raw = site.wire.dumpJson env ∧ env.eventId ∈ M.map (·.eventId)

theorem Honoured.of_not_ok {pending : List (PendingEvent EventEnvelope)} {reply : Reply}
    (h : ∀ body, reply ≠ .response 200 body) : Honoured site emitted M pending reply where
  rejected rejected hresolve := by
    obtain ⟨body, -, hreply, -⟩ := resolve_ok hresolve
    exact absurd hreply (h body)
  materialized body hreply := absurd hreply (h body)

/-- The request of a drainer. -/
theorem outgoing_held (htells : ∀ env ∈ emitted, ∃ card ∈ history, site.Tells sql card env)
    {pending : List (PendingEvent EventEnvelope)} (hpending : ∀ event ∈ pending, event.envelope.isSome)
    {envs : List EventEnvelope} (henvs : envs ⊆ emitted) (hraw : pending.map (·.raw) = envs.map site.wire.dumpJson) :
    TaskSync.outgoing site pending = some (site.items envs) := by
  have hsend : toSend pending = pending := List.filter_eq_self.2 hpending
  have houtgoing : ∀ env ∈ envs, outgoingEvent site.wire.floats site.ids (site.wire.dumpJson env) =
      some (.obj ((site.sent env).fields site.wire.isoformat)) := by
    intro env henv
    obtain ⟨card, -, hcard⟩ := htells env (henvs henv)
    exact outgoingEvent_dumpJson hcard.carries hcard.emitted.repositoryId
  rw [TaskSync.outgoing, hsend, SyncSite.items]
  have hmap : (pending.mapM fun event => outgoingEvent site.wire.floats site.ids event.raw) =
      (pending.map (·.raw)).mapM (outgoingEvent site.wire.floats site.ids) := by
    rw [List.mapM_map]
    rfl
  rw [hmap, hraw, List.mapM_map]
  clear hpending hraw hsend hmap henvs
  induction envs with
  | nil => rfl
  | cons env envs ih =>
    rw [List.mapM_cons, Function.comp_apply, houtgoing env List.mem_cons_self,
      ih fun e he => houtgoing e (List.mem_cons_of_mem _ he)]
    rfl

/-- **What a request does to the hub.** -/
theorem Ingested.post (h : Ingested site emitted M hub)
    (htells : ∀ env ∈ emitted, ∃ card ∈ history, site.Tells sql card env)
    {pending : List (PendingEvent EventEnvelope)} (hpending : HeldEvents site emitted pending) {fate : Fate}
    {reply : Reply} (hpost : TaskSync.post site hub pending fate = some (hub', reply)) :
    ∃ N, Ingested site emitted (M ++ N) hub' ∧ hub.Later hub'.toRegistry ∧
      Honoured site emitted (M ++ N) pending reply := by
  obtain ⟨hvalid, envs, hsub, hraw⟩ := hpending
  have hsend : toSend pending = pending := List.filter_eq_self.2 hvalid
  have houtgoing := outgoing_held htells hvalid hsub hraw
  have hunchanged : Ingested site emitted (M ++ []) hub ∧ hub.Later hub.toRegistry := by
    rw [List.append_nil]
    exact ⟨h, Registry.Later.refl _⟩
  have hbound : boundBatch site.auth ((site.items envs).map (prepareEvent sql site.wire.pydantic)) =
      envs.map (site.prepared sql) := by
    refine boundBatch_items (fun env henv => ?_) (fun env henv => ?_) fun env henv => ?_
    · obtain ⟨card, -, hcard⟩ := htells env (hsub henv)
      exact hcard.carries
    · obtain ⟨card, -, hcard⟩ := htells env (hsub henv)
      exact hcard.emitted.type
    · obtain ⟨card, -, hcard⟩ := htells env (hsub henv)
      exact hcard.emitted.machineId
  obtain ⟨⟨hub₁, response⟩, hingest⟩ : ∃ result, ingestBatch site.wire.pydantic none hub site.auth
    (batchPayload (site.items envs)) = result := ⟨_, rfl⟩
  have hcases := ingestBatch_items hbound hingest
  cases fate with
  | lost answer =>
    cases answer with
    | failure =>
      obtain ⟨rfl, rfl⟩ := Prod.mk.inj (Option.some.inj hpost)
      exact ⟨[], hunchanged.1, hunchanged.2, Honoured.of_not_ok fun _ => by simp⟩
    | response status body =>
      simp only [TaskSync.post] at hpost
      split at hpost
      · cases hpost
      case isFalse hstatus =>
        obtain ⟨rfl, rfl⟩ := Prod.mk.inj (Option.some.inj hpost)
        refine ⟨[], hunchanged.1, hunchanged.2, Honoured.of_not_ok fun body heq => hstatus ?_⟩
        exact (Reply.response.inj heq).1
  | answered =>
    simp only [TaskSync.post, houtgoing, Option.map_some, hingest] at hpost
    obtain ⟨rfl, rfl⟩ := Prod.mk.inj (Option.some.inj hpost)
    rcases hcases with ⟨rfl, status, code, hstatus, rfl⟩ | ⟨results, hreceive, rfl, hresults⟩
    · refine ⟨[], hunchanged.1, hunchanged.2, Honoured.of_not_ok fun body heq => hstatus ?_⟩
      exact_mod_cast (Reply.response.inj heq).1
    · obtain ⟨N, hingested, hlater, hids⟩ := h.receive htells hsub hreceive
      refine ⟨N, hingested, hlater, ⟨fun rejected hresolve => ?_, fun body _ event hevent => ?_⟩⟩
      · obtain ⟨body, items, hreply, hitems, -, hrejected⟩ := resolve_ok hresolve
        obtain ⟨-, rfl⟩ := Reply.response.inj hreply
        obtain rfl := Json.arr.inj hitems
        exact rejectedEvents_accepted hresults hrejected
      · rw [hsend] at hevent
        have hmem : event.raw ∈ envs.map site.wire.dumpJson := by
          rw [← hraw]
          exact List.mem_map_of_mem hevent
        obtain ⟨env, henv, heq⟩ := List.mem_map.1 hmem
        exact ⟨env, hsub henv, heq.symm, hids env henv⟩
  | unanswered =>
    simp only [TaskSync.post, houtgoing, Option.map_some, hingest] at hpost
    obtain ⟨rfl, rfl⟩ := Prod.mk.inj (Option.some.inj hpost)
    have hfailed : ∀ M, Honoured site emitted M pending .failure :=
      fun M => Honoured.of_not_ok fun _ => by simp
    rcases hcases with ⟨rfl, -⟩ | ⟨results, hreceive, -, -⟩
    · exact ⟨[], hunchanged.1, hunchanged.2, hfailed _⟩
    · obtain ⟨N, hingested, hlater, -⟩ := h.receive htells hsub hreceive
      exact ⟨N, hingested, hlater, hfailed _⟩

end

end AgentOS
