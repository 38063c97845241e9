import AgentOS.Hub.FakeStore
import AgentOS.Lib.Newest
import AgentOS.Lib.Run

/-!
# The order of task events does not matter

Task events reach the hub in any order, in any batches and any number of times.  In both stores the row of a task is a
version-guarded register: it holds the newest of the events that were materialized for it (`Reflects`), and every event
that was delivered has been materialized once its id is stored.  So what the row says depends only on which events were
delivered (`task_order_independent`).
-/

namespace AgentOS

open Newest SqlStore

/-- The `global_id` of a task event. -/
def EventEnvelope.globalId (env : EventEnvelope) : String := ((Json.get env.payload "global_id").asStr).getD ""

/-- The version of a task event. -/
def EventEnvelope.version (env : EventEnvelope) : Int := (taskVersion env.payload).getD 1

/-- What an event says about its task. -/
structure TaskContent where
  title : Json
  description : Json
  priority : Json
  status : Option String
  version : Int
  repositoryId : Option String
  originatingClient : String

def EventEnvelope.content (env : EventEnvelope) : TaskContent where
  title := Json.get env.payload "title"
  description := Json.get env.payload "description"
  priority := Json.get env.payload "priority"
  status := localStatusToSync (Json.get env.payload "status")
  version := env.version
  repositoryId := env.repositoryId
  originatingClient := env.machineId

/-- A `task.created`, `task.updated` or `task.completed` event with a global id and an integer version of at least 1
whose values fit `registry.tasks`. -/
structure TaskEvent (sql : Sql) (env : EventEnvelope) : Prop where
  type : env.eventType = "task.created" ∨ env.eventType = "task.updated" ∨ env.eventType = "task.completed"
  globalId : ∃ s, Json.get env.payload "global_id" = .str s ∧ s ≠ ""
  version : ∃ n : Int, Json.get env.payload "version" = .int n ∧ 1 ≤ n
  fits : (taskRow sql env).isSome

/-- The columns hold what an event says. -/
structure TaskRow.Holds (sql : Sql) (row : TaskRow) (content : TaskContent) : Prop where
  title : sql.text (some 1000) content.title = some row.title
  description : sql.text none content.description = some row.description
  priority : sql.text (some 50) content.priority = some row.priority
  status : content.status = some row.status
  version : row.version = content.version
  repositoryId : row.repositoryId = content.repositoryId
  originatingClient : row.originatingClient = some content.originatingClient

/-- What an entry of the in-memory store says about its task. -/
def FakeTask.content (entry : FakeTask) : TaskContent where
  title := entry.title
  description := entry.description
  priority := entry.priority
  status := some entry.status
  version := entry.version
  repositoryId := entry.repositoryId
  originatingClient := entry.originatingClient

/-- The envelopes of a sequence of batches. -/
def delivered (batches : List (List PreparedEvent)) : List EventEnvelope := batches.flatMap validEnvelopes

/-- A batch is ingested, every step of the database succeeding. -/
def SqlStore.receive {sql : Sql} (db : Db sql) (batch : List PreparedEvent) : Option (Db sql) :=
  match ingestEvents none db batch with
  | (db, some _) => some db
  | (_, none) => none

def FakeStore.receive (store : FakeStore) (batch : List PreparedEvent) : Option FakeStore :=
  match store.ingestEvents batch with
  | (store, some _) => some store
  | (_, none) => none

variable {sql : Sql} {env : EventEnvelope}

/-- What the reception of a batch makes of the database. -/
theorem SqlStore.receive_some {db db' : Db sql} {batch : List PreparedEvent} (h : receive db batch = some db') :
    ∃ events errors, db' = ⟨writeModels (newEnvelopes db batch) db.toRegistry, events, errors⟩ ∧
      events.rows = db.events.rows ++
        (newEnvelopes db batch).filter fun env => (db.events.lookup (sql.key env.eventId)).isNone := by
  unfold receive at h
  rw [ingestEvents_none] at h
  cases hlog : writeLog none db batch with
  | none =>
    rw [hlog] at h
    cases h
  | some logged =>
    rw [hlog] at h
    obtain rfl := Option.some.inj h
    obtain ⟨events, errors, rfl, hrows⟩ := writeLog_frame hlog
    exact ⟨events, errors, rfl, hrows⟩

namespace TaskEvent

theorem globalId_eq (h : TaskEvent sql env) : Json.get env.payload "global_id" = .str env.globalId := by
  obtain ⟨s, hs, -⟩ := h.globalId
  rw [EventEnvelope.globalId, hs]
  rfl

theorem truthy (h : TaskEvent sql env) : (Json.get env.payload "global_id").truthy = true := by
  obtain ⟨s, hs, hne⟩ := h.globalId
  rw [hs, Json.truthy]
  exact decide_eq_true hne

theorem taskVersion_eq (h : TaskEvent sql env) : taskVersion env.payload = some env.version ∧ 1 ≤ env.version := by
  obtain ⟨n, hn, hpos⟩ := h.version
  have hversion : taskVersion env.payload = some n := by
    have htruthy : (Json.int n).truthy = true := by
      rw [Json.truthy]
      exact decide_eq_true (by omega)
    rw [taskVersion, getOr, hn, if_pos htruthy, Json.toInt?]
  rw [EventEnvelope.version, hversion]
  exact ⟨rfl, hpos⟩

theorem isTaskEvent (h : TaskEvent sql env) : SqlStore.isTaskEvent env = true := by
  unfold SqlStore.isTaskEvent
  rw [h.truthy, Bool.and_true]
  rcases h.type with ht | ht | ht
  · simp [ht]
  · simp [ht]
  · simp [ht]

/-- The values that are written, and what they say. -/
theorem exists_taskRow (h : TaskEvent sql env) : ∃ row, taskRow sql env = some row ∧ row.globalId = env.globalId ∧
    row.version = env.version ∧ row.Holds sql env.content := by
  obtain ⟨row, hrow⟩ := Option.isSome_iff_exists.1 h.fits
  refine ⟨row, hrow, ?_⟩
  rw [taskRow] at hrow
  obtain ⟨version, hversion, hrow⟩ := Option.bind_eq_some_iff.1 hrow
  obtain ⟨status, hstatus, hrow⟩ := Option.bind_eq_some_iff.1 hrow
  obtain ⟨gid, hgid, hrow⟩ := Option.bind_eq_some_iff.1 hrow
  obtain ⟨cardId, -, hrow⟩ := Option.bind_eq_some_iff.1 hrow
  obtain ⟨repositoryId, hrepository, hrow⟩ := Option.bind_eq_some_iff.1 hrow
  obtain ⟨projectId, -, hrow⟩ := Option.bind_eq_some_iff.1 hrow
  obtain ⟨title, htitle, hrow⟩ := Option.bind_eq_some_iff.1 hrow
  obtain ⟨description, hdescription, hrow⟩ := Option.bind_eq_some_iff.1 hrow
  obtain ⟨priority, hpriority, hrow⟩ := Option.bind_eq_some_iff.1 hrow
  obtain ⟨client, hclient, hrow⟩ := Option.bind_eq_some_iff.1 hrow
  obtain ⟨eventId, -, hrow⟩ := Option.bind_eq_some_iff.1 hrow
  split at hrow
  case isFalse => cases hrow
  obtain rfl := Option.some.inj hrow
  have hver : version = env.version := Option.some.inj (hversion.symm.trans h.taskVersion_eq.1)
  refine ⟨?_, hver, htitle, hdescription, hpriority, hstatus, hver, sql.text_optStr hrepository, sql.text_str hclient⟩
  rw [h.globalId_eq, Sql.textNotNull] at hgid
  exact Option.some.inj (sql.text_str (Option.join_eq_some_iff.1 hgid))

end TaskEvent

/-! ### Which events are materialized -/

/-- `I M s` says that a store in state `s` has materialized the events `M`.  If one batch is received so that the ids of
all its events are among those materialized, then so are, in the end, the ids of all events delivered. -/
private theorem exec_materialized {σ : Type} {step : σ → List PreparedEvent → Option σ}
    {I : List EventEnvelope → σ → Prop}
    (hstep : ∀ M s batch s', I M s → (∀ e ∈ validEnvelopes batch, TaskEvent sql e) → step s batch = some s' →
      ∃ N, I (M ++ N) s' ∧ N ⊆ validEnvelopes batch ∧
        ∀ e ∈ validEnvelopes batch, e.eventId ∈ (M ++ N).map (·.eventId))
    {M : List EventEnvelope} {s s' : σ} (hs : I M s) {batches : List (List PreparedEvent)}
    (hevents : ∀ e ∈ delivered batches, TaskEvent sql e) (hrun : Run.exec step s batches = some s') :
    ∃ N, I (M ++ N) s' ∧ N ⊆ delivered batches ∧ ∀ e ∈ delivered batches, e.eventId ∈ (M ++ N).map (·.eventId) := by
  induction batches generalizing M s with
  | nil =>
    obtain rfl := Option.some.inj hrun
    exact ⟨[], by rwa [List.append_nil], List.nil_subset _, fun e he => by cases he⟩
  | cons batch batches ih =>
    have hdelivered : delivered (batch :: batches) = validEnvelopes batch ++ delivered batches := List.flatMap_cons
    rw [hdelivered] at hevents ⊢
    obtain ⟨s₁, h₁, h₂⟩ := Run.exec_cons.1 hrun
    obtain ⟨N₁, hI₁, hsub₁, hids₁⟩ := hstep M s batch s₁ hs (fun e he => hevents e (List.mem_append_left _ he)) h₁
    obtain ⟨N₂, hI₂, hsub₂, hids₂⟩ := ih hI₁ (fun e he => hevents e (List.mem_append_right _ he)) h₂
    rw [List.append_assoc] at hI₂ hids₂
    refine ⟨N₁ ++ N₂, hI₂, List.append_subset.2 ⟨List.Subset.trans hsub₁ (List.subset_append_left _ _),
      List.Subset.trans hsub₂ (List.subset_append_right _ _)⟩, fun e he => ?_⟩
    rcases List.mem_append.1 he with he | he
    · have hmem := hids₁ e he
      rw [← List.append_assoc, List.map_append]
      exact List.mem_append_left _ hmem
    · exact hids₂ e he

/-- When ids tell events apart, the events materialized are then exactly those delivered. -/
private theorem mem_iff_delivered {M D : List EventEnvelope} (hsub : M ⊆ D)
    (hids : ∀ e ∈ D, e.eventId ∈ M.map (·.eventId)) (hid : ∀ e ∈ D, ∀ e' ∈ D, e.eventId = e'.eventId → e = e')
    (e : EventEnvelope) : e ∈ M ↔ e ∈ D := by
  constructor
  · exact fun h => hsub h
  · intro he
    obtain ⟨e', he', heq⟩ := List.mem_map.1 (hids e he)
    rwa [← hid e' (hsub he') e he heq]

/-! ### `SqlStore` -/

/-- A row holds the values of an event, under the spelling of the global id that the row was inserted with. -/
def Reflects (sql : Sql) : Option EventEnvelope → Option StoredTask → Prop
  | none, none => True
  | some env, some row => ∃ values, taskRow sql env = some values ∧ TaskEvent sql env ∧
      row.toTaskRow = { values with globalId := row.globalId }
  | _, _ => False

/-- The global id as the database compares it. -/
def gidKey (sql : Sql) (env : EventEnvelope) : String := sql.key env.globalId

/-- The rows of `registry.tasks` hold the newest of the events `M`. -/
def TasksReflect (M : List EventEnvelope) (reg : Registry sql) : Prop :=
  ∀ k, Reflects sql (newestAt EventEnvelope.version (gidKey sql) k M) (reg.tasks.lookup k)

private theorem Reflects.upserted {old : Option EventEnvelope} {row : Option StoredTask} (h : Reflects sql old row)
    (henv : TaskEvent sql env) {values : TaskRow} (hvalues : taskRow sql env = some values) (changeSeq : Nat) :
    Reflects sql (push EventEnvelope.version old env) (some (upserted row values changeSeq)) := by
  obtain ⟨values', hvalues', -, hversion, -⟩ := henv.exists_taskRow
  obtain rfl := Option.some.inj (hvalues.symm.trans hvalues')
  cases old with
  | none =>
    cases row with
    | none => exact ⟨values, hvalues, henv, rfl⟩
    | some row => exact h.elim
  | some e =>
    cases row with
    | none => exact h.elim
    | some row =>
      obtain ⟨r, hr, he, hrow⟩ := h
      obtain ⟨r', hr', -, hrver, -⟩ := he.exists_taskRow
      obtain rfl := Option.some.inj (hr.symm.trans hr')
      have hver : row.version = e.version := by
        have := congrArg TaskRow.version hrow
        rw [this]
        exact hrver
      have hiff : row.version ≤ values.version ↔ e.version ≤ env.version := by rw [hver, hversion]
      simp only [push, SqlStore.upserted]
      by_cases hle : e.version ≤ env.version
      · rw [if_pos hle, if_pos (hiff.2 hle)]
        exact ⟨values, hvalues, henv, rfl⟩
      · rw [if_neg hle, if_neg (mt hiff.1 hle)]
        exact ⟨r, hr, he, hrow⟩

/-- Materializing one event. -/
private theorem TasksReflect.materializeTask {M : List EventEnvelope} {reg : Registry sql} (h : TasksReflect M reg)
    (henv : TaskEvent sql env) :
    ∃ reg', SqlStore.materializeTask env reg = some reg' ∧ TasksReflect (M ++ [env]) reg' := by
  obtain ⟨values, hvalues, hgid, -, -⟩ := henv.exists_taskRow
  obtain ⟨tasks, dbts, hwrite, hlookup⟩ := materializeTask_lookup reg henv.truthy hvalues
  have hkey : sql.key values.globalId = gidKey sql env := congrArg sql.key hgid
  refine ⟨_, hwrite, fun k => ?_⟩
  rw [newestAt_append_singleton, hlookup, hkey]
  by_cases hk : gidKey sql env = k
  · rw [if_pos hk, if_pos hk]
    exact (h k).upserted henv hvalues _
  · rw [if_neg hk, if_neg hk]
    exact h k

private theorem TasksReflect.writeEach {M N : List EventEnvelope} {reg : Registry sql} (h : TasksReflect M reg)
    (hN : ∀ e ∈ N, TaskEvent sql e) : TasksReflect (M ++ N) (writeEach SqlStore.materializeTask N reg) := by
  induction N generalizing M reg with
  | nil => rwa [List.append_nil]
  | cons env N ih =>
    obtain ⟨reg', hwrite, h'⟩ := h.materializeTask (hN env List.mem_cons_self)
    rw [writeEach_cons, hwrite, Option.getD_some, ← List.singleton_append, ← List.append_assoc]
    exact ih h' fun e he => hN e (List.mem_cons_of_mem _ he)

/-- A batch materializes the task events among its new envelopes. -/
theorem TasksReflect.receive {M : List EventEnvelope} {db db' : Db sql} {batch : List PreparedEvent}
    (h : TasksReflect M db.toRegistry)
    (hevents : ∀ e ∈ validEnvelopes batch, SqlStore.isTaskEvent e = true → TaskEvent sql e)
    (hrun : SqlStore.receive db batch = some db') :
    TasksReflect (M ++ (newEnvelopes db batch).filter SqlStore.isTaskEvent) db'.toRegistry := by
  obtain ⟨events, errors, rfl, -⟩ := SqlStore.receive_some hrun
  obtain ⟨sessions, hsessions⟩ := writeEach_sessions_frame ((newEnvelopes db batch).filter isSessionEvent) db.toRegistry
  have htasks : TasksReflect M ({ db.toRegistry with sessions := sessions } : Registry sql) := h
  show TasksReflect _ (writeModels (newEnvelopes db batch) db.toRegistry)
  rw [writeModels, hsessions]
  refine htasks.writeEach fun e he => ?_
  obtain ⟨hmem, htask⟩ := List.mem_filter.1 he
  exact hevents e (mem_toInsert hmem).1 htask

/-- The ids in the log are those of the events materialized, and then so are those of a batch that is received. -/
theorem stored_receive {M : List EventEnvelope} {db db' : Db sql} {batch : List PreparedEvent}
    (h : ∀ e ∈ db.events.rows, e.eventId ∈ M.map (·.eventId)) (hrun : SqlStore.receive db batch = some db') :
    (∀ e ∈ db'.events.rows, e.eventId ∈ (M ++ newEnvelopes db batch).map (·.eventId)) ∧
      ∀ e ∈ validEnvelopes batch, e.eventId ∈ (M ++ newEnvelopes db batch).map (·.eventId) := by
  obtain ⟨events, errors, rfl, hrows⟩ := SqlStore.receive_some hrun
  constructor
  · -- an envelope in the log was there before, or is one of the new ones
    intro e he
    change e ∈ events.rows at he
    rw [hrows] at he
    rw [List.map_append]
    rcases List.mem_append.1 he with he | he
    · exact List.mem_append_left _ (h e he)
    · exact List.mem_append_right _ (List.mem_map_of_mem (List.mem_of_mem_filter he))
  · intro e he
    rw [List.map_append]
    rcases exists_toInsert (existingEventIds db ((validEnvelopes batch).map (·.eventId))) [] he with h₁ | h₁ | h₁
    · obtain ⟨stored, hstored, hid⟩ := List.mem_map.1 h₁
      rw [← hid]
      exact List.mem_append_left _ (h stored (List.mem_of_mem_filter hstored))
    · cases h₁
    · obtain ⟨e', he', hid⟩ := h₁
      rw [← hid]
      exact List.mem_append_right _ (List.mem_map_of_mem he')

/-- `SqlStore` has materialized the events `M`. -/
private structure SqlMaterialized (M : List EventEnvelope) (db : Db sql) : Prop where
  stored : ∀ e ∈ db.events.rows, e.eventId ∈ M.map (·.eventId)
  tasks : TasksReflect M db.toRegistry

private theorem SqlMaterialized.receive {M : List EventEnvelope} {db db' : Db sql} {batch : List PreparedEvent}
    (h : SqlMaterialized M db) (hevents : ∀ e ∈ validEnvelopes batch, TaskEvent sql e)
    (hrun : SqlStore.receive db batch = some db') :
    ∃ N, SqlMaterialized (M ++ N) db' ∧ N ⊆ validEnvelopes batch ∧
      ∀ e ∈ validEnvelopes batch, e.eventId ∈ (M ++ N).map (·.eventId) := by
  have hnew : newEnvelopes db batch ⊆ validEnvelopes batch := fun e he => (mem_toInsert he).1
  have hfilter : (newEnvelopes db batch).filter SqlStore.isTaskEvent = newEnvelopes db batch :=
    List.filter_eq_self.2 fun e he => (hevents e (hnew he)).isTaskEvent
  have htasks := h.tasks.receive (fun e he _ => hevents e he) hrun
  rw [hfilter] at htasks
  obtain ⟨hstored, hids⟩ := stored_receive h.stored hrun
  exact ⟨newEnvelopes db batch, ⟨hstored, htasks⟩, hnew, hids⟩

/-! ### `FakeStore` -/

/-- The entries of `tasks` say what the newest of the events `M` say. -/
private structure FakeReflects (M : List EventEnvelope) (store : FakeStore) : Prop where
  tasks : ∀ k, (store.tasks (.text k)).map FakeTask.content =
    (newestAt EventEnvelope.version EventEnvelope.globalId k M).map EventEnvelope.content
  version : ∀ e ∈ M, 1 ≤ e.version

private theorem record_spec (store : FakeStore) (envs : List EventEnvelope) :
    (FakeStore.record store envs).eventIds = (envs.map (·.eventId)).reverse ++ store.eventIds ∧
      (FakeStore.record store envs).tasks = store.tasks ∧
      (FakeStore.record store envs).raiseOnIngest = store.raiseOnIngest := by
  induction envs generalizing store with
  | nil => exact ⟨rfl, rfl, rfl⟩
  | cons env envs ih =>
    obtain ⟨hids, htasks, hquiet⟩ := ih { store with
      eventIds := env.eventId :: store.eventIds, seq := store.seq + 1
      events := store.events ++ [(env, store.seq + 1)] }
    refine ⟨hids.trans ?_, htasks, hquiet⟩
    rw [List.map_cons, List.reverse_cons, List.append_assoc, List.singleton_append]

/-- A task event leaves the sessions alone. -/
private theorem fake_materializeSession (henv : TaskEvent sql env) (store : FakeStore) :
    FakeStore.materializeSession env store = (store, true) := by
  unfold FakeStore.materializeSession
  cases env.sessionId.filter (· ≠ "") with
  | none => rfl
  | some sid => rcases henv.type with ht | ht | ht <;> simp [ht]

/-- What `_materialize_task` does with a task event. -/
private theorem fake_materializeTask (henv : TaskEvent sql env) {store : FakeStore}
    (hversion : ∀ entry, store.tasks (.text env.globalId) = some entry → 1 ≤ entry.version) :
    ∃ tasks taskSeq, FakeStore.materializeTask env store = ({ store with tasks := tasks, taskSeq := taskSeq }, true) ∧
      (∀ k, k ≠ env.globalId → tasks (.text k) = store.tasks (.text k)) ∧
      (tasks (.text env.globalId)).map FakeTask.content =
        push TaskContent.version ((store.tasks (.text env.globalId)).map FakeTask.content) env.content := by
  obtain ⟨values, -, -, -, hholds⟩ := henv.exists_taskRow
  have hstatus : localStatusToSync (Json.get env.payload "status") = some values.status := hholds.status
  unfold FakeStore.materializeTask
  simp only [henv.isTaskEvent, Bool.not_true, Bool.false_eq_true, if_false, henv.taskVersion_eq.1, henv.globalId_eq,
    Json.dictKey?, hstatus]
  cases hentry : store.tasks (.text env.globalId) with
  | none =>
    refine ⟨_, _, rfl, fun k hk => ?_, ?_⟩
    · exact Function.update_of_ne (by simpa using hk) _ _
    · rw [Function.update_self, Option.map_some]
      simp [push, FakeTask.content, FakeStore.taskEntry, EventEnvelope.content, hstatus]
  | some entry =>
    have hpos := hversion entry hentry
    have hne : entry.version ≠ 0 := by omega
    by_cases hnewer : env.version < entry.version
    · refine ⟨store.tasks, store.taskSeq, by simp [hne, hnewer], fun _ _ => rfl, ?_⟩
      have hle : ¬ entry.content.version ≤ env.content.version := by
        show ¬ entry.version ≤ env.version
        omega
      rw [hentry, Option.map_some, push, if_neg hle]
    · refine ⟨Function.update store.tasks (.text env.globalId)
        (some (FakeStore.taskEntry env env.version values.status (store.taskSeq + 1))), store.taskSeq + 1,
        by simp [hne, hnewer], fun k hk => ?_, ?_⟩
      · exact Function.update_of_ne (by simpa using hk) _ _
      · have hle : entry.content.version ≤ env.content.version := by
          show entry.version ≤ env.version
          omega
        rw [Function.update_self, Option.map_some, Option.map_some, push, if_pos hle]
        simp [FakeTask.content, FakeStore.taskEntry, EventEnvelope.content, hstatus]

/-- Materializing one event. -/
private theorem FakeReflects.materializeTask {M : List EventEnvelope} {store : FakeStore} (h : FakeReflects M store)
    (henv : TaskEvent sql env) :
    ∃ tasks taskSeq, FakeStore.materializeTask env store = ({ store with tasks := tasks, taskSeq := taskSeq }, true) ∧
      FakeReflects (M ++ [env]) { store with tasks := tasks, taskSeq := taskSeq } := by
  have hversion : ∀ entry, store.tasks (.text env.globalId) = some entry → 1 ≤ entry.version := by
    intro entry hentry
    have htasks := h.tasks env.globalId
    rw [hentry, Option.map_some] at htasks
    obtain ⟨e, he, hcontent⟩ := Option.map_eq_some_iff.1 htasks.symm
    have hpos := h.version e (mem_of_newestAt he).1
    have heq : e.version = entry.version := congrArg TaskContent.version hcontent
    omega
  obtain ⟨tasks, taskSeq, hwrite, hother, hsame⟩ := fake_materializeTask henv hversion
  refine ⟨tasks, taskSeq, hwrite, ⟨fun k => ?_, ?_⟩⟩
  · rw [newestAt_append_singleton]
    by_cases hk : env.globalId = k
    · subst hk
      rw [if_pos rfl, hsame, h.tasks]
      exact push_map (fun _ => rfl) _ _
    · rw [if_neg hk]
      show (tasks (.text k)).map FakeTask.content = _
      rw [hother k (Ne.symm hk), h.tasks]
  · intro e he
    rcases List.mem_append.1 he with he | he
    · exact h.version e he
    · rw [List.mem_singleton.1 he]
      exact henv.taskVersion_eq.2

private theorem FakeReflects.materialize {M N : List EventEnvelope} {store : FakeStore} (h : FakeReflects M store)
    (hN : ∀ e ∈ N, TaskEvent sql e) :
    ∃ tasks taskSeq, FakeStore.materialize N store = ({ store with tasks := tasks, taskSeq := taskSeq }, true) ∧
      FakeReflects (M ++ N) { store with tasks := tasks, taskSeq := taskSeq } := by
  induction N generalizing M store with
  | nil => exact ⟨_, _, rfl, by rwa [List.append_nil]⟩
  | cons env N ih =>
    have henv := hN env List.mem_cons_self
    obtain ⟨tasks, taskSeq, hwrite, h₁⟩ := h.materializeTask henv
    obtain ⟨tasks', taskSeq', hrest, h₂⟩ := ih h₁ fun e he => hN e (List.mem_cons_of_mem _ he)
    refine ⟨tasks', taskSeq', ?_, ?_⟩
    · simp only [FakeStore.materialize, fake_materializeSession henv, hwrite, Bool.not_true, Bool.false_eq_true,
        if_false, hrest]
    · rwa [List.append_assoc] at h₂

/-- `FakeStore` has materialized the events `M`. -/
private structure FakeMaterialized (M : List EventEnvelope) (store : FakeStore) : Prop where
  stored : ∀ id ∈ store.eventIds, id ∈ M.map (·.eventId)
  reflects : FakeReflects M store
  quiet : store.raiseOnIngest = false

private theorem FakeMaterialized.receive {M : List EventEnvelope} {store : FakeStore} {batch : List PreparedEvent}
    (h : FakeMaterialized M store) (hevents : ∀ e ∈ validEnvelopes batch, TaskEvent sql e) :
    ∃ store' N, store.receive batch = some store' ∧ FakeMaterialized (M ++ N) store' ∧ N ⊆ validEnvelopes batch ∧
      ∀ e ∈ validEnvelopes batch, e.eventId ∈ (M ++ N).map (·.eventId) := by
  have hnew : toInsert store.eventIds [] (validEnvelopes batch) ⊆ validEnvelopes batch :=
    fun e he => (mem_toInsert he).1
  obtain ⟨recorded, hrecorded⟩ : ∃ recorded, FakeStore.record { store with
      ingestErrors := store.ingestErrors ++ (rejectedRows batch).map (·.2) }
      (toInsert store.eventIds [] (validEnvelopes batch)) = recorded := ⟨_, rfl⟩
  obtain ⟨hids, htasks, hquiet⟩ := record_spec { store with
    ingestErrors := store.ingestErrors ++ (rejectedRows batch).map (·.2) }
    (toInsert store.eventIds [] (validEnvelopes batch))
  rw [hrecorded] at hids htasks hquiet
  have hrefl : FakeReflects M recorded := ⟨fun k => by rw [htasks]; exact h.reflects.tasks k, h.reflects.version⟩
  obtain ⟨tasks, taskSeq, hwrite, hreflects⟩ := hrefl.materialize fun e he => hevents e (hnew he)
  refine ⟨_, _, ?_, ⟨?_, hreflects, hquiet.trans h.quiet⟩, hnew, ?_⟩
  · unfold FakeStore.receive FakeStore.ingestEvents
    rw [if_neg (by rw [h.quiet]; exact Bool.false_ne_true)]
    simp only [hrecorded, hwrite, if_true]
  · intro id hid
    change id ∈ recorded.eventIds at hid
    rw [hids] at hid
    rw [List.map_append]
    rcases List.mem_append.1 hid with hid | hid
    · exact List.mem_append_right _ (List.mem_reverse.1 hid)
    · exact List.mem_append_left _ (h.stored id hid)
  · intro e he
    rw [List.map_append]
    rcases exists_toInsert store.eventIds [] he with h₁ | h₁ | ⟨e', he', hid⟩
    · exact List.mem_append_left _ (h.stored _ h₁)
    · cases h₁
    · rw [← hid]
      exact List.mem_append_right _ (List.mem_map_of_mem he')

/-- Every sequence of batches of task events is received. -/
private theorem exists_exec_fake {M : List EventEnvelope} {store : FakeStore} (h : FakeMaterialized M store)
    {batches : List (List PreparedEvent)} (hevents : ∀ e ∈ delivered batches, TaskEvent sql e) :
    ∃ store', Run.exec FakeStore.receive store batches = some store' := by
  induction batches generalizing M store with
  | nil => exact ⟨store, rfl⟩
  | cons batch batches ih =>
    have hdelivered : delivered (batch :: batches) = validEnvelopes batch ++ delivered batches := List.flatMap_cons
    rw [hdelivered] at hevents
    obtain ⟨store₁, N, hstep, h₁, -, -⟩ := h.receive fun e he => hevents e (List.mem_append_left _ he)
    obtain ⟨store', hrun⟩ := ih h₁ fun e he => hevents e (List.mem_append_right _ he)
    exact ⟨store', Run.exec_cons.2 ⟨store₁, hstep, hrun⟩⟩

/-! ### The result -/

/-- **The task read model does not depend on the order of events.**  Task events are delivered to empty stores in any
order, in any batches and any number of times, and the database steps succeed.  An id stands for one event, and events
of one task and version have the same content.  Then in `SqlStore`, and in `FakeStore`, the row of each task holds the
content of its event with the highest version. -/
theorem task_order_independent {db db' : Db sql} (hlog : db.events.rows = []) (htasks : db.tasks.rows = [])
    {batches : List (List PreparedEvent)} (hevents : ∀ e ∈ delivered batches, TaskEvent sql e)
    (hid : ∀ e ∈ delivered batches, ∀ e' ∈ delivered batches, e.eventId = e'.eventId → e = e')
    (hcontent : ∀ e ∈ delivered batches, ∀ e' ∈ delivered batches,
      sql.key e.globalId = sql.key e'.globalId → e.version = e'.version → e.content = e'.content)
    (hrun : Run.exec SqlStore.receive db batches = some db') :
    ∃ store, Run.exec FakeStore.receive FakeStore.empty batches = some store ∧ ∀ e ∈ delivered batches,
      ((∀ e' ∈ delivered batches, sql.key e'.globalId = sql.key e.globalId → e'.version ≤ e.version) →
        ∃ row, db'.tasks.lookup (sql.key e.globalId) = some row ∧ row.Holds sql e.content) ∧
      ((∀ e' ∈ delivered batches, e'.globalId = e.globalId → e'.version ≤ e.version) →
        ∃ entry, store.tasks (.text e.globalId) = some entry ∧ entry.content = e.content) := by
  have hsql : SqlMaterialized [] db := by
    refine ⟨fun e he => ?_, fun k => ?_⟩
    · rw [hlog] at he
      cases he
    · have hnone : db.tasks.lookup k = none := Table.lookup_eq_none.2 fun r hr => by
        rw [htasks] at hr
        cases hr
      rw [hnone]
      trivial
  have hfake : FakeMaterialized [] FakeStore.empty :=
    ⟨fun _ h => (by cases h), ⟨fun _ => rfl, fun _ h => by cases h⟩, rfl⟩
  obtain ⟨M, hM, hsub, hids⟩ := exec_materialized
    (fun M s batch s' h hb hs => h.receive hb hs) hsql hevents hrun
  obtain ⟨store, hfakerun⟩ := exists_exec_fake hfake hevents
  obtain ⟨M', hM', hsub', hids'⟩ := exec_materialized (I := FakeMaterialized) (fun M s batch s' h hb hs => by
    obtain ⟨s'', N, hs', hN, hsubN, hidsN⟩ := h.receive hb
    obtain rfl := Option.some.inj (hs.symm.trans hs')
    exact ⟨N, hN, hsubN, hidsN⟩) hfake hevents hfakerun
  rw [List.nil_append] at hM hids hM' hids'
  have hmem := mem_iff_delivered hsub hids hid
  have hmem' := mem_iff_delivered hsub' hids' hid
  refine ⟨store, hfakerun, fun e he => ⟨fun hmax => ?_, fun hmax => ?_⟩⟩
  · obtain ⟨x, hx, hkey, hnewest, hversion⟩ := version_newestAt EventEnvelope.version
      (gidKey sql) ((hmem e).2 he) fun y hy hy' => hmax y ((hmem y).1 hy) hy'
    have hreflects := hM.tasks (gidKey sql e)
    rw [hnewest] at hreflects
    cases hrow : db'.tasks.lookup (sql.key e.globalId) with
    | none =>
      rw [gidKey, hrow] at hreflects
      exact hreflects.elim
    | some row =>
      rw [gidKey, hrow] at hreflects
      obtain ⟨values, hvalues, hxevent, hvaluesrow⟩ := hreflects
      obtain ⟨values', hvalues', -, -, hholds⟩ := hxevent.exists_taskRow
      obtain rfl := Option.some.inj (hvalues.symm.trans hvalues')
      rw [hcontent x ((hmem x).1 hx) e he hkey hversion] at hholds
      refine ⟨row, rfl, ?_⟩
      rw [hvaluesrow]
      exact ⟨hholds.title, hholds.description, hholds.priority, hholds.status, hholds.version, hholds.repositoryId,
        hholds.originatingClient⟩
  · obtain ⟨x, hx, hkey, hnewest, hversion⟩ := version_newestAt EventEnvelope.version
      EventEnvelope.globalId ((hmem' e).2 he) fun y hy hy' => hmax y ((hmem' y).1 hy) hy'
    have hreflects := hM'.reflects.tasks e.globalId
    rw [hnewest, Option.map_some] at hreflects
    obtain ⟨entry, hentry, hsame⟩ := Option.map_eq_some_iff.1 hreflects
    refine ⟨entry, hentry, ?_⟩
    rw [hsame]
    exact hcontent x ((hmem' x).1 hx) e he (congrArg sql.key hkey) hversion

/-! ### A late creation -/

private def cardEvent (eventId eventType status : String) (version : Int) : EventEnvelope where
  eventId := eventId
  eventType := eventType
  occurredAt := 0
  machineId := "mach_1"
  agentId := none
  sessionId := none
  projectId := none
  repositoryId := some "repo_1"
  taskId := none
  payload := [("global_id", .str "task_1"), ("title", .str "Model the hub"), ("status", .str status),
    ("version", .int version)]
  schemaVersion := 1

/-- The second version of a card arrives first, then the first version and the second again. -/
private def lateCreation : List (List PreparedEvent) :=
  let updated := PreparedEvent.valid (cardEvent "evt_2" "task.updated" "In Progress" 2) ""
  [[updated], [.valid (cardEvent "evt_1" "task.created" "Created" 1) "", updated]]

private theorem taskEvent_cardEvent {eventId eventType status : String} {version : Int}
    (htype : eventType = "task.created" ∨ eventType = "task.updated" ∨ eventType = "task.completed")
    (hversion : 1 ≤ version) (hfits : (taskRow Sql.sample (cardEvent eventId eventType status version)).isSome = true) :
    TaskEvent Sql.sample (cardEvent eventId eventType status version) where
  type := htype
  globalId := ⟨"task_1", rfl, by decide⟩
  version := ⟨version, rfl, hversion⟩
  fits := hfits

private theorem mem_lateCreation {e : EventEnvelope} (he : e ∈ delivered lateCreation) :
    e = cardEvent "evt_1" "task.created" "Created" 1 ∨ e = cardEvent "evt_2" "task.updated" "In Progress" 2 := by
  rcases List.mem_cons.1 he with rfl | he
  · exact Or.inr rfl
  · rcases List.mem_cons.1 he with rfl | he
    · exact Or.inl rfl
    · exact Or.inr (List.mem_singleton.1 he)

/-- The second version stays. -/
theorem late_creation_loses :
    ∃ db', Run.exec SqlStore.receive (Db.empty : Db Sql.sample) lateCreation = some db' ∧
      ∃ row, db'.tasks.lookup (Sql.sample.key "task_1") = some row ∧
        row.Holds Sql.sample (cardEvent "evt_2" "task.updated" "In Progress" 2).content := by
  have hsome : (Run.exec SqlStore.receive (Db.empty : Db Sql.sample) lateCreation).isSome = true := by decide +kernel
  obtain ⟨db', hrun⟩ := Option.isSome_iff_exists.1 hsome
  have hevents : ∀ e ∈ delivered lateCreation, TaskEvent Sql.sample e := by
    intro e he
    rcases mem_lateCreation he with rfl | rfl
    · exact taskEvent_cardEvent (by decide) (by decide) (by decide +kernel)
    · exact taskEvent_cardEvent (by decide) (by decide) (by decide +kernel)
  have hid : ∀ e ∈ delivered lateCreation, ∀ e' ∈ delivered lateCreation, e.eventId = e'.eventId → e = e' := by
    intro e he e' he' h
    rcases mem_lateCreation he with rfl | rfl <;> rcases mem_lateCreation he' with rfl | rfl
    · rfl
    · exact absurd h (by decide)
    · exact absurd h (by decide)
    · rfl
  have hcontent : ∀ e ∈ delivered lateCreation, ∀ e' ∈ delivered lateCreation,
      Sql.sample.key e.globalId = Sql.sample.key e'.globalId → e.version = e'.version → e.content = e'.content := by
    intro e he e' he' _ h
    rcases mem_lateCreation he with rfl | rfl <;> rcases mem_lateCreation he' with rfl | rfl
    · rfl
    · exact absurd h (by decide)
    · exact absurd h (by decide)
    · rfl
  obtain ⟨store, -, hstore⟩ := task_order_independent rfl rfl hevents hid hcontent hrun
  refine ⟨db', hrun, (hstore (cardEvent "evt_2" "task.updated" "In Progress" 2) (List.mem_cons_self)).1 ?_⟩
  intro e' he' _
  rcases mem_lateCreation he' with rfl | rfl
  · decide
  · decide

end AgentOS
