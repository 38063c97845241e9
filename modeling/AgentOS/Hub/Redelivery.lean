import AgentOS.Hub.Ingest

/-!
# Redelivering a batch whose ingest raised

An ingest that raises before its log is committed leaves no trace, and redelivering the batch makes up for it.  An
ingest that raises behind that commit leaves events in the log whose sessions and tasks were not written; the
redelivery finds their ids stored, judges them duplicates and writes nothing for them (`task_lost_on_redelivery`).

`redelivery_restores_iff` is exact unless the log holds an id of the batch in another spelling: behind the commit,
redelivering restores the read models just in case the turn of every new session and task event had come.
-/

namespace AgentOS

/-- The step lies behind the commit of the log. -/
def DbStep.behindLog : DbStep → Bool
  | .close _ => true
  | .connect c => c ≠ .ingest
  | .cursor c => c ≠ .ingest
  | .write c _ => c ≠ .ingest
  | .commit c _ => c ≠ .ingest
  | .rollback c _ => c ≠ .ingest
  | .existing => false
  | .insertErrors => false
  | .insertEvents => false
  | .commitLog => false

namespace SqlStore

variable {sql : Sql}

/-- The sessions agree, and so do the tasks but for `change_seq`, which the database sets. -/
def SameReadModels (reg reg' : Registry sql) : Prop :=
  reg.sessions.rows = reg'.sessions.rows ∧
    reg.tasks.rows.map StoredTask.toTaskRow = reg'.tasks.rows.map StoredTask.toTaskRow

/-- The events of a loop whose turn comes; the loop is `writeLoop`. -/
def turns (fault : Option DbStep) (c : Conn) (write : EventEnvelope → Registry sql → Option (Registry sql)) :
    Nat → List EventEnvelope → Registry sql → List EventEnvelope
  | _, [], _ => []
  | i, env :: envs, reg =>
    env :: if fault = some (.write c i) ∨ fault = some (.commit c i) then turns fault c write (i + 1) envs reg
      else match write env reg with
        | some reg => turns fault c write (i + 1) envs reg
        | none => if fault = some (.rollback c i) then [] else turns fault c write (i + 1) envs reg

/-- The events of a pass whose turn comes; the pass is `materialize`. -/
def passTurns (fault : Option DbStep) (c : Conn) (write : EventEnvelope → Registry sql → Option (Registry sql))
    (events : List EventEnvelope) (reg : Registry sql) : List EventEnvelope :=
  if fault = some (.connect c) ∨ fault = some (.cursor c) then [] else turns fault c write 0 events reg

/-- The session and task events whose turn comes; the passes are `materializeAll`. -/
def allTurns (fault : Option DbStep) (envelopes : List EventEnvelope) (reg : Registry sql) : List EventEnvelope :=
  passTurns fault .sessions materializeSession (envelopes.filter isSessionEvent) reg ++
    match materializeSessions fault envelopes reg with
    | (_, false) => []
    | (reg, true) => passTurns fault .tasks materializeTask (envelopes.filter isTaskEvent) reg

/-- The session and task events whose turn comes in an ingest. -/
def handled (fault : Option DbStep) (db : Db sql) (prepared : List PreparedEvent) : List EventEnvelope :=
  match writeLog fault db prepared with
  | none => []
  | some logged =>
    if fault = some (.close .ingest) then [] else allTurns fault (newEnvelopes db prepared) logged.toRegistry

/-- The delivery from `db` to `db₁` raised at the step `f`, and the redelivery, which led to `db₂`, makes up for it: the
sessions and tasks are as if the first delivery had succeeded, and no session or task event was put into the log without
ever getting its turn. -/
structure Restored (f : DbStep) (db db₁ db₂ : Db sql) (batch : List PreparedEvent) : Prop where
  same : SameReadModels db₂.toRegistry (ingestEvents none db batch).1.toRegistry
  handled : ∀ env ∈ db₂.events.rows, env ∉ db.events.rows → isSessionEvent env = true ∨ isTaskEvent env = true →
    env ∈ handled (some f) db batch ∨ env ∈ handled none db₁ batch

/-- The session events whose turn has come when the step `f` fails; it is a step behind the log. -/
def sessionsBefore (f : DbStep) (events : List EventEnvelope) : List EventEnvelope :=
  match f with
  | .rollback .sessions i => events.take (i + 1)
  | .close .sessions => events
  | .connect .tasks => events
  | .cursor .tasks => events
  | .rollback .tasks _ => events
  | .close .tasks => events
  | _ => []

/-- The task events whose turn has come when the step `f` fails. -/
def tasksBefore (f : DbStep) (events : List EventEnvelope) : List EventEnvelope :=
  match f with
  | .rollback .tasks i => events.take (i + 1)
  | .close .tasks => events
  | _ => []

/-- No session or task event among `envs` is outstanding when the step `f` fails. -/
def NothingOutstanding (f : DbStep) (envs : List EventEnvelope) : Prop :=
  sessionsBefore f (envs.filter isSessionEvent) = envs.filter isSessionEvent ∧
    tasksBefore f (envs.filter isTaskEvent) = envs.filter isTaskEvent

/-- The new envelopes whose id the log holds in another spelling; they are not inserted, and redelivering the batch
writes them again. -/
def respelled (db : Db sql) (prepared : List PreparedEvent) : List EventEnvelope :=
  (newEnvelopes db prepared).filter fun env => (db.events.lookup (sql.key env.eventId)).isSome

/-- The registry at the moment the step `f` fails, in a delivery that inserts `envs`. -/
private def registryBefore (f : DbStep) (envs : List EventEnvelope) (reg : Registry sql) : Registry sql :=
  writeEach materializeTask (tasksBefore f (envs.filter isTaskEvent))
    (writeEach materializeSession (sessionsBefore f (envs.filter isSessionEvent)) reg)

/-! ### Where a delivery raises -/

/-- A loop that raises: its last turn is that of an event whose write was refused. -/
private theorem writeLoop_raise {f : DbStep} {c : Conn}
    {write : EventEnvelope → Registry sql → Option (Registry sql)} {i : Nat} {envs : List EventEnvelope}
    {reg reg' : Registry sql} (h : writeLoop (some f) c write i envs reg = (reg', false)) :
    ∃ k, f = .rollback c (i + k) ∧ reg' = writeEach write (envs.take (k + 1)) reg ∧
      turns (some f) c write i envs reg = envs.take (k + 1) := by
  induction envs generalizing i reg with
  | nil => cases h
  | cons env envs ih =>
    unfold writeLoop at h
    unfold turns
    -- a skipped event: the step that failed is not a rollback, so the rest cannot raise
    by_cases hskip : some f = some (.write c i) ∨ some f = some (.commit c i)
    · rw [if_pos hskip] at h
      obtain ⟨k, rfl, -⟩ := ih h
      rcases hskip with hskip | hskip
      · cases hskip
      · cases hskip
    · rw [if_neg hskip] at h
      rw [if_neg hskip]
      cases hw : write env reg with
      | some reg₁ =>
        rw [hw] at h
        obtain ⟨k, hf, hreg, hturns⟩ := ih h
        refine ⟨k + 1, by rw [hf, Nat.add_assoc, Nat.add_comm 1], ?_, ?_⟩
        · rw [List.take_succ_cons, writeEach_cons, hw]
          exact hreg
        · rw [List.take_succ_cons]
          exact congrArg (env :: ·) hturns
      | none =>
        rw [hw] at h
        by_cases hroll : some f = some (.rollback c i)
        · simp only [if_pos hroll, Prod.mk.injEq, and_true] at h
          refine ⟨0, Option.some.inj hroll, ?_, ?_⟩
          · rw [List.take_succ_cons, List.take_zero, writeEach_cons, hw]
            exact h.symm
          · simp only [if_pos hroll]
            rfl
        · simp only [if_neg hroll] at h
          obtain ⟨k, hf, hreg, hturns⟩ := ih h
          refine ⟨k + 1, by rw [hf, Nat.add_assoc, Nat.add_comm 1], ?_, ?_⟩
          · rw [List.take_succ_cons, writeEach_cons, hw]
            exact hreg
          · simp only [if_neg hroll]
            rw [hturns, List.take_succ_cons]

private theorem writeLoop_finish {fault : Option DbStep} {c : Conn}
    {write : EventEnvelope → Registry sql → Option (Registry sql)} {i : Nat} {envs : List EventEnvelope}
    {reg reg' : Registry sql} (hf : ∀ j, fault ≠ some (.write c j) ∧ fault ≠ some (.commit c j))
    (h : writeLoop fault c write i envs reg = (reg', true)) :
    reg' = writeEach write envs reg ∧ turns fault c write i envs reg = envs := by
  induction envs generalizing i reg with
  | nil =>
    cases h
    exact ⟨rfl, rfl⟩
  | cons env envs ih =>
    unfold writeLoop at h
    unfold turns
    have hskip : ¬ (fault = some (.write c i) ∨ fault = some (.commit c i)) := by
      rintro (hs | hs)
      · exact (hf i).1 hs
      · exact (hf i).2 hs
    rw [if_neg hskip] at h
    rw [if_neg hskip, writeEach_cons]
    cases hw : write env reg with
    | some reg₁ =>
      rw [hw] at h
      obtain ⟨hreg, hturns⟩ := ih h
      exact ⟨hreg, congrArg (env :: ·) hturns⟩
    | none =>
      rw [hw] at h
      by_cases hroll : fault = some (.rollback c i)
      · simp only [if_pos hroll] at h
        cases h
      · simp only [if_neg hroll] at h ⊢
        obtain ⟨hreg, hturns⟩ := ih h
        exact ⟨hreg, congrArg (env :: ·) hturns⟩

/-- A pass that raises: which step failed, and which events had their turn before. -/
private theorem materialize_raise {f : DbStep} {c : Conn}
    {write : EventEnvelope → Registry sql → Option (Registry sql)} {events : List EventEnvelope}
    {reg reg' : Registry sql} (h : materialize (some f) c write events reg = (reg', false)) :
    ∃ before, reg' = writeEach write before reg ∧ passTurns (some f) c write events reg = before ∧
      ((f = .connect c ∨ f = .cursor c) ∧ before = [] ∨ (∃ k, f = .rollback c k ∧ before = events.take (k + 1)) ∨
        f = .close c ∧ before = events) := by
  unfold materialize at h
  unfold passTurns
  split at h
  · cases h
  split at h
  case isTrue hconn =>
    rw [if_pos hconn]
    cases h
    exact ⟨[], rfl, rfl, .inl ⟨hconn.imp Option.some.inj Option.some.inj, rfl⟩⟩
  case isFalse hconn =>
    rw [if_neg hconn]
    rcases hloop : writeLoop (some f) c write 0 events reg with ⟨reg₁, finished⟩
    rw [hloop] at h
    obtain rfl := (Prod.mk.inj h).1
    cases finished with
    | false =>
      obtain ⟨k, hf, hreg, hturns⟩ := writeLoop_raise hloop
      rw [Nat.zero_add] at hf
      exact ⟨_, hreg, hturns, .inr (.inl ⟨k, hf, rfl⟩)⟩
    | true =>
      have hclose : f = .close c := by simpa using (Prod.mk.inj h).2
      subst hclose
      obtain ⟨hreg, hturns⟩ := writeLoop_finish (fun _ => by simp) hloop
      exact ⟨_, hreg, hturns, .inr (.inr ⟨rfl, rfl⟩)⟩

/-- A pass that does not raise although a step may fail which is none of its writes or commits. -/
private theorem materialize_finish {fault : Option DbStep} {c : Conn}
    {write : EventEnvelope → Registry sql → Option (Registry sql)} {events : List EventEnvelope}
    {reg reg' : Registry sql} (hf : ∀ j, fault ≠ some (.write c j) ∧ fault ≠ some (.commit c j))
    (h : materialize fault c write events reg = (reg', true)) :
    reg' = writeEach write events reg ∧ passTurns fault c write events reg = events := by
  unfold materialize at h
  split at h
  case isTrue hnil =>
    cases h
    rw [List.isEmpty_iff.1 hnil]
    refine ⟨rfl, ?_⟩
    unfold passTurns
    split <;> rfl
  case isFalse =>
    split at h
    · cases h
    case isFalse hconn =>
      rcases hloop : writeLoop fault c write 0 events reg with ⟨reg₁, finished⟩
      rw [hloop] at h
      cases finished with
      | false => cases (Prod.mk.inj h).2
      | true =>
        rw [← (Prod.mk.inj h).1, passTurns, if_neg hconn]
        exact writeLoop_finish hf hloop

/-- In a delivery in which no step fails every session and task event has its turn. -/
private theorem allTurns_none (envs : List EventEnvelope) (reg : Registry sql) :
    allTurns none envs reg = envs.filter isSessionEvent ++ envs.filter isTaskEvent := by
  have hsessions := materialize_none .sessions materializeSession (envs.filter isSessionEvent) reg
  have htasks := materialize_none .tasks materializeTask (envs.filter isTaskEvent)
    (writeEach materializeSession (envs.filter isSessionEvent) reg)
  unfold allTurns materializeSessions
  rw [(materialize_finish (fun _ => by simp) hsessions).2, hsessions]
  exact congrArg _ (materialize_finish (fun _ => by simp) htasks).2

private theorem materializeAll_raise {f : DbStep} {envs : List EventEnvelope} {reg reg' : Registry sql}
    (h : materializeAll (some f) envs reg = (reg', false)) :
    f.behindLog = true ∧ reg' = registryBefore f envs reg ∧ allTurns (some f) envs reg =
      sessionsBefore f (envs.filter isSessionEvent) ++ tasksBefore f (envs.filter isTaskEvent) := by
  unfold materializeAll at h
  unfold allTurns
  rcases hsessions : materializeSessions (some f) envs reg with ⟨reg₁, finished⟩
  rw [hsessions] at h
  cases finished with
  | false =>
    obtain rfl := (Prod.mk.inj h).1
    obtain ⟨before, rfl, hturns, hcases⟩ := materialize_raise hsessions
    rw [hturns]
    rcases hcases with ⟨rfl | rfl, rfl⟩ | ⟨k, rfl, rfl⟩ | ⟨rfl, rfl⟩
    · exact ⟨rfl, rfl, rfl⟩
    · exact ⟨rfl, rfl, rfl⟩
    · exact ⟨rfl, rfl, rfl⟩
    · exact ⟨rfl, rfl, rfl⟩
  | true =>
    obtain ⟨before, rfl, hturns, hcases⟩ := materialize_raise h
    dsimp only
    rw [show passTurns (some f) .tasks materializeTask (envs.filter isTaskEvent) reg₁ = before from hturns]
    rcases hcases with ⟨rfl | rfl, rfl⟩ | ⟨k, rfl, rfl⟩ | ⟨rfl, rfl⟩
    all_goals
      obtain ⟨rfl, hfirst⟩ := materialize_finish (fun _ => by simp) hsessions
      rw [hfirst]
      exact ⟨rfl, rfl, rfl⟩

private theorem writeLog_behindLog {f : DbStep} (hf : f.behindLog = true) (db : Db sql)
    (prepared : List PreparedEvent) : writeLog (some f) db prepared = writeLog none db prepared := by
  have h : ∀ g : DbStep, g.behindLog = false → some f ≠ some g := by
    rintro g hg h
    rw [Option.some.inj h, hg] at hf
    cases hf
  simp only [writeLog, logErrors, logEvents, h (.connect .ingest) rfl, h (.cursor .ingest) rfl, h .existing rfl,
    h .insertErrors rfl, h .insertEvents rfl, h .commitLog rfl, reduceCtorEq]

/-- A delivery that raises: without a trace, or behind the commit of the log. -/
private theorem ingestEvents_raise {f : DbStep} {db db₁ : Db sql} {batch : List PreparedEvent}
    (h : ingestEvents (some f) db batch = (db₁, none)) :
    (db₁ = db ∧ writeLog (some f) db batch = none) ∨
      ∃ logged, writeLog (some f) db batch = some logged ∧ f.behindLog = true ∧
        db₁ = { logged with toRegistry := registryBefore f (newEnvelopes db batch) logged.toRegistry } ∧
        handled (some f) db batch = sessionsBefore f ((newEnvelopes db batch).filter isSessionEvent) ++
          tasksBefore f ((newEnvelopes db batch).filter isTaskEvent) := by
  unfold ingestEvents at h
  unfold handled
  cases hlog : writeLog (some f) db batch with
  | none =>
    rw [hlog] at h
    exact Or.inl ⟨(Prod.mk.inj h).1.symm, rfl⟩
  | some logged =>
    right
    rw [hlog] at h
    refine ⟨logged, rfl, ?_⟩
    by_cases hclose : f = .close .ingest
    · subst hclose
      exact ⟨rfl, (Prod.mk.inj h).1.symm, rfl⟩
    · have hne : ¬ some f = some (.close .ingest) := fun heq => hclose (Option.some.inj heq)
      simp only [if_neg hne] at h ⊢
      rcases hall : materializeAll (some f) (newEnvelopes db batch) logged.toRegistry with ⟨reg₁, finished⟩
      rw [hall] at h
      cases finished with
      | true => cases (Prod.mk.inj h).2
      | false =>
        obtain ⟨hbehind, rfl, hturns⟩ := materializeAll_raise hall
        exact ⟨hbehind, (Prod.mk.inj h).1.symm, hturns⟩

/-- In a delivery in which no step fails every new session and task event has its turn. -/
private theorem mem_handled_none {db db' : Db sql} {batch : List PreparedEvent} {results : List Outcome}
    (h : ingestEvents none db batch = (db', some results)) (env : EventEnvelope) :
    env ∈ handled none db batch ↔
      env ∈ newEnvelopes db batch ∧ (isSessionEvent env = true ∨ isTaskEvent env = true) := by
  unfold handled
  rw [ingestEvents_none] at h
  cases hlog : writeLog none db batch with
  | none =>
    rw [hlog] at h
    cases h
  | some logged =>
    show env ∈ allTurns none (newEnvelopes db batch) logged.toRegistry ↔ _
    rw [allTurns_none, List.mem_append, List.mem_filter, List.mem_filter]
    exact and_or_left.symm

/-- The read models behind an ingest in which no step fails. -/
private theorem registry_ingestEvents {db db' : Db sql} {batch : List PreparedEvent} {results : List Outcome}
    (h : ingestEvents none db batch = (db', some results)) :
    db'.toRegistry = writeModels (newEnvelopes db batch) db.toRegistry := by
  rw [ingestEvents_none] at h
  cases hlog : writeLog none db batch with
  | none =>
    rw [hlog] at h
    cases h
  | some logged =>
    rw [hlog] at h
    obtain ⟨events, errors, rfl, -⟩ := writeLog_frame hlog
    rw [← (Prod.mk.inj h).1]

/-- The log behind it. -/
private theorem rows_ingestEvents {db db' : Db sql} {batch : List PreparedEvent} {results : List Outcome}
    (h : ingestEvents none db batch = (db', some results)) : db'.events.rows = db.events.rows ++
      (newEnvelopes db batch).filter fun env => (db.events.lookup (sql.key env.eventId)).isNone := by
  rw [ingestEvents_none] at h
  cases hlog : writeLog none db batch with
  | none =>
    rw [hlog] at h
    cases h
  | some logged =>
    rw [hlog] at h
    obtain ⟨events, errors, rfl, hrows⟩ := writeLog_frame hlog
    rw [← (Prod.mk.inj h).1]
    exact hrows

/-! ### The order of the turns -/

private theorem prefix_sessionsBefore (f : DbStep) (events : List EventEnvelope) :
    sessionsBefore f events <+: events := by
  unfold sessionsBefore
  split
  · exact List.take_prefix _ _
  all_goals first | exact List.prefix_rfl | exact List.nil_prefix

private theorem prefix_tasksBefore (f : DbStep) (events : List EventEnvelope) : tasksBefore f events <+: events := by
  unfold tasksBefore
  split
  · exact List.take_prefix _ _
  · exact List.prefix_rfl
  · exact List.nil_prefix

/-- A first part of a list without repetitions that has all its elements is the list. -/
private theorem prefix_all {before events : List EventEnvelope} (h : before <+: events) (hnodup : events.Nodup)
    (hall : ∀ env ∈ events, env ∈ before) : before = events :=
  h.eq_of_length_le (List.subperm_of_subset hnodup hall).length_le

private theorem newEnvelopes_nodup (db : Db sql) (batch : List PreparedEvent) : (newEnvelopes db batch).Nodup :=
  (toInsert_nodup _ [] _).of_map

/-- An event of the one kind is none of the other. -/
private theorem not_taskEvent {env : EventEnvelope} (h : isSessionEvent env = true) : isTaskEvent env = false := by
  unfold isSessionEvent at h
  rw [Bool.and_eq_true, Bool.or_eq_true, decide_eq_true_eq, decide_eq_true_eq] at h
  unfold isTaskEvent
  rcases h.1 with htype | htype
  · simp [htype]
  · simp [htype]

/-! ### What a redelivery finds new -/

/-- Of the envelopes that were new, those are new again whose ids are still not stored. -/
private theorem toInsert_filter {existing existing' inserted : List String} {envs : List EventEnvelope}
    (hexisting : ∀ env ∈ envs, env.eventId ∈ existing' ↔ env.eventId ∈ existing ∨ env.eventId ∈ inserted)
    (seen : List String) {seen' : List String} (hseen : ∀ id, id ∈ seen' ↔ id ∈ seen ∧ id ∉ inserted) :
    toInsert existing' seen' envs = (toInsert existing seen envs).filter (·.eventId ∉ inserted) := by
  induction envs generalizing seen seen' with
  | nil => rfl
  | cons env envs ih =>
    have hrest := fun e he => hexisting e (List.mem_cons_of_mem _ he)
    have henv := hexisting env List.mem_cons_self
    unfold toInsert
    by_cases hold : env.eventId ∈ existing ∨ env.eventId ∈ seen
    · have hold' : env.eventId ∈ existing' ∨ env.eventId ∈ seen' := by
        by_cases hins : env.eventId ∈ inserted
        · exact Or.inl (henv.2 (Or.inr hins))
        · exact hold.imp (fun h => henv.2 (Or.inl h)) fun h => (hseen _).2 ⟨h, hins⟩
      rw [if_pos hold, if_pos hold']
      exact ih hrest seen hseen
    · obtain ⟨hexist, hnseen⟩ := not_or.1 hold
      rw [if_neg hold]
      by_cases hins : env.eventId ∈ inserted
      · rw [if_pos (Or.inl (henv.2 (Or.inr hins))), List.filter_cons_of_neg (by simpa using hins)]
        refine ih hrest _ fun id => ?_
        rw [hseen, List.mem_cons]
        constructor
        · rintro ⟨h₁, h₂⟩
          exact ⟨Or.inr h₁, h₂⟩
        · rintro ⟨rfl | h₁, h₂⟩
          · exact absurd hins h₂
          · exact ⟨h₁, h₂⟩
      · have hnew : ¬ (env.eventId ∈ existing' ∨ env.eventId ∈ seen') := by
          rintro (h | h)
          · exact (henv.1 h).elim hexist hins
          · exact hnseen ((hseen _).1 h).1
        rw [if_neg hnew, List.filter_cons_of_pos (by simpa using hins)]
        congr 1
        refine ih hrest _ fun id => ?_
        rw [List.mem_cons, List.mem_cons, hseen]
        constructor
        · rintro (rfl | ⟨h₁, h₂⟩)
          · exact ⟨Or.inl rfl, hins⟩
          · exact ⟨Or.inr h₁, h₂⟩
        · rintro ⟨rfl | h₁, h₂⟩
          · exact Or.inl rfl
          · exact Or.inr ⟨h₁, h₂⟩

private theorem mem_existingEventIds_iff {db : Db sql} {ids : List String} {id : String} (hid : id ∈ ids) :
    id ∈ existingEventIds db ids ↔ id ∈ db.events.rows.map (·.eventId) := by
  rw [existingEventIds, List.mem_map, List.mem_map]
  constructor
  · rintro ⟨e, he, rfl⟩
    exact ⟨e, List.mem_of_mem_filter he, rfl⟩
  · rintro ⟨e, he, rfl⟩
    refine ⟨e, List.mem_filter.2 ⟨he, ?_⟩, rfl⟩
    rw [List.any_eq_true]
    exact ⟨e.eventId, hid, by simp⟩

/-- Once a batch is in the log, only the envelopes whose ids are stored in another spelling count as new. -/
private theorem newEnvelopes_logged {db logged : Db sql} {batch : List PreparedEvent}
    (hrows : logged.events.rows = db.events.rows ++
      (newEnvelopes db batch).filter fun env => (db.events.lookup (sql.key env.eventId)).isNone) :
    newEnvelopes logged batch = respelled db batch := by
  have hexisting : ∀ env ∈ validEnvelopes batch,
      env.eventId ∈ existingEventIds logged ((validEnvelopes batch).map (·.eventId)) ↔
        env.eventId ∈ existingEventIds db ((validEnvelopes batch).map (·.eventId)) ∨ env.eventId ∈
          ((newEnvelopes db batch).filter fun env => (db.events.lookup (sql.key env.eventId)).isNone).map
            (·.eventId) := by
    intro env henv
    have hid : env.eventId ∈ (validEnvelopes batch).map (·.eventId) := List.mem_map_of_mem henv
    rw [mem_existingEventIds_iff hid, mem_existingEventIds_iff hid, hrows, List.map_append, List.mem_append]
  rw [newEnvelopes, toInsert_filter hexisting [] fun id => by simp]
  refine List.filter_congr fun env henv => ?_
  -- an id is inserted just in case the database does not know it
  have hiff : env.eventId ∈ ((newEnvelopes db batch).filter fun env =>
      (db.events.lookup (sql.key env.eventId)).isNone).map (·.eventId) ↔
        (db.events.lookup (sql.key env.eventId)).isNone = true := by
    constructor
    · intro h
      obtain ⟨e, he, hid⟩ := List.mem_map.1 h
      rw [← hid]
      exact (List.mem_filter.1 he).2
    · intro h
      exact List.mem_map_of_mem (List.mem_filter.2 ⟨henv, h⟩)
  rw [Bool.eq_iff_iff, decide_eq_true_eq, hiff, Option.isNone_iff_eq_none, Option.isSome_iff_ne_none]

private theorem notMem_of_newEnvelopes {db : Db sql} {batch : List PreparedEvent} {env : EventEnvelope}
    (h : env ∈ newEnvelopes db batch) : env ∉ db.events.rows := by
  obtain ⟨hvalid, hexisting, -⟩ := mem_toInsert h
  rw [mem_existingEventIds_iff (List.mem_map_of_mem hvalid)] at hexisting
  exact fun hold => hexisting (List.mem_map_of_mem hold)

/-- No new event that is stored before has its turn in a redelivery. -/
private theorem writeModels_respelled {db : Db sql} {batch : List PreparedEvent}
    (h : ∀ env ∈ respelled db batch, isSessionEvent env = false ∧ isTaskEvent env = false) (reg : Registry sql) :
    writeModels (respelled db batch) reg = reg := by
  have hsessions : (respelled db batch).filter isSessionEvent = [] :=
    List.filter_eq_nil_iff.2 fun env henv => by simp [(h env henv).1]
  have htasks : (respelled db batch).filter isTaskEvent = [] :=
    List.filter_eq_nil_iff.2 fun env henv => by simp [(h env henv).2]
  rw [writeModels, hsessions, htasks]
  rfl

/-- Where nothing is outstanding, everything has been written. -/
private theorem registryBefore_eq {f : DbStep} {envs : List EventEnvelope} (h : NothingOutstanding f envs)
    (reg : Registry sql) : registryBefore f envs reg = writeModels envs reg := by
  rw [registryBefore, h.1, h.2]
  rfl

/-- A delivery that raised without a trace is repeated by the redelivery. -/
private theorem restored_of_untouched {f : DbStep} {db db₂ : Db sql} {batch : List PreparedEvent}
    {results : List Outcome} (hagain : ingestEvents none db batch = (db₂, some results)) :
    Restored f db db db₂ batch := by
  refine ⟨by rw [hagain]; exact ⟨rfl, rfl⟩, fun env henv hold hkind => .inr ?_⟩
  rw [rows_ingestEvents hagain] at henv
  have hnew := (List.mem_append.1 henv).resolve_left hold
  exact (mem_handled_none hagain env).2 ⟨List.mem_of_mem_filter hnew, hkind⟩

/-- A delivery that raised behind the commit of the log, and the redelivery, which finds only respelled events new. -/
private structure Interrupted (f : DbStep) (db db₁ db₂ : Db sql) (batch : List PreparedEvent) : Prop where
  logged : db₁.events.rows = db.events.rows ++
    (newEnvelopes db batch).filter fun env => (db.events.lookup (sql.key env.eventId)).isNone
  loggedAgain : db₂.events.rows = db₁.events.rows ++
    (respelled db batch).filter fun env => (db₁.events.lookup (sql.key env.eventId)).isNone
  registry : db₂.toRegistry =
    writeModels (respelled db batch) (registryBefore f (newEnvelopes db batch) db.toRegistry)
  undisturbed : (ingestEvents none db batch).1.toRegistry = writeModels (newEnvelopes db batch) db.toRegistry
  turns : handled (some f) db batch = sessionsBefore f ((newEnvelopes db batch).filter isSessionEvent) ++
    tasksBefore f ((newEnvelopes db batch).filter isTaskEvent)
  turnsAgain : ∀ env, env ∈ handled none db₁ batch ↔
    env ∈ respelled db batch ∧ (isSessionEvent env = true ∨ isTaskEvent env = true)

section

variable {f : DbStep} {db db₁ db₂ : Db sql} {batch : List PreparedEvent} {results : List Outcome}

private theorem interrupted (hagain : ingestEvents none db₁ batch = (db₂, some results)) {logged : Db sql}
    (hlog : writeLog none db batch = some logged)
    (hdb₁ : db₁ = { logged with toRegistry := registryBefore f (newEnvelopes db batch) logged.toRegistry })
    (hturns : handled (some f) db batch = sessionsBefore f ((newEnvelopes db batch).filter isSessionEvent) ++
      tasksBefore f ((newEnvelopes db batch).filter isTaskEvent)) : Interrupted f db db₁ db₂ batch := by
  obtain ⟨events, errors, rfl, hrows⟩ := writeLog_frame hlog
  have hrows₁ : db₁.events.rows = db.events.rows ++
      (newEnvelopes db batch).filter fun env => (db.events.lookup (sql.key env.eventId)).isNone := by
    rw [hdb₁]
    exact hrows
  have hnew := newEnvelopes_logged hrows₁
  refine ⟨hrows₁, hnew ▸ rows_ingestEvents hagain, ?_, by rw [ingestEvents_none, hlog], hturns,
    hnew ▸ mem_handled_none hagain⟩
  rw [registry_ingestEvents hagain, hnew, hdb₁]

/-- A new event is in the log, and its turn does not come in the redelivery; so it has come in the delivery. -/
private theorem Interrupted.turn (h : Interrupted f db db₁ db₂ batch) (hrestored : Restored f db db₁ db₂ batch)
    (hspelled : ∀ env ∈ respelled db batch, isSessionEvent env = false ∧ isTaskEvent env = false)
    {env : EventEnvelope} (henv : env ∈ newEnvelopes db batch)
    (hkind : isSessionEvent env = true ∨ isTaskEvent env = true) : env ∈ handled (some f) db batch := by
  have hnotRespelled : env ∉ respelled db batch := fun hmem => by
    obtain ⟨hsession, htask⟩ := hspelled env hmem
    simp [hsession, htask] at hkind
  have hunknown : (db.events.lookup (sql.key env.eventId)).isNone = true := by
    rw [Option.isNone_iff_eq_none, ← Option.not_isSome_iff_eq_none]
    exact fun hsome => hnotRespelled (List.mem_filter.2 ⟨henv, hsome⟩)
  -- the delivery inserted it before it raised
  have hlogged : env ∈ db₂.events.rows := by
    rw [h.loggedAgain, h.logged]
    exact List.mem_append_left _ (List.mem_append_right _ (List.mem_filter.2 ⟨henv, hunknown⟩))
  refine (hrestored.handled env hlogged (notMem_of_newEnvelopes henv) hkind).resolve_right fun hmem => ?_
  exact hnotRespelled ((h.turnsAgain env).1 hmem).1

private theorem Interrupted.nothingOutstanding (h : Interrupted f db db₁ db₂ batch)
    (hrestored : Restored f db db₁ db₂ batch)
    (hspelled : ∀ env ∈ respelled db batch, isSessionEvent env = false ∧ isTaskEvent env = false) :
    NothingOutstanding f (newEnvelopes db batch) := by
  refine ⟨prefix_all (prefix_sessionsBefore _ _) ((newEnvelopes_nodup db batch).filter _) fun env henv => ?_,
    prefix_all (prefix_tasksBefore _ _) ((newEnvelopes_nodup db batch).filter _) fun env henv => ?_⟩
  · obtain ⟨hnew, hsession⟩ := List.mem_filter.1 henv
    have hturn := h.turn hrestored hspelled hnew (.inl hsession)
    rw [h.turns] at hturn
    refine (List.mem_append.1 hturn).resolve_right fun htask => ?_
    have htask := (List.mem_filter.1 ((prefix_tasksBefore _ _).subset htask)).2
    rw [not_taskEvent hsession] at htask
    cases htask
  · obtain ⟨hnew, htask⟩ := List.mem_filter.1 henv
    have hturn := h.turn hrestored hspelled hnew (.inr htask)
    rw [h.turns] at hturn
    refine (List.mem_append.1 hturn).resolve_left fun hsession => ?_
    have hsession := (List.mem_filter.1 ((prefix_sessionsBefore _ _).subset hsession)).2
    rw [not_taskEvent hsession] at htask
    cases htask

private theorem Interrupted.restored (h : Interrupted f db db₁ db₂ batch)
    (hnothing : NothingOutstanding f (newEnvelopes db batch))
    (hspelled : ∀ env ∈ respelled db batch, isSessionEvent env = false ∧ isTaskEvent env = false) :
    Restored f db db₁ db₂ batch := by
  have hregistry := h.registry
  rw [registryBefore_eq hnothing, writeModels_respelled hspelled] at hregistry
  refine ⟨by rw [hregistry, h.undisturbed]; exact ⟨rfl, rfl⟩, fun env henv hold hkind => .inl ?_⟩
  have hnew : env ∈ newEnvelopes db batch := by
    rw [h.loggedAgain, h.logged] at henv
    rcases List.mem_append.1 henv with henv | henv
    · exact List.mem_of_mem_filter ((List.mem_append.1 henv).resolve_left hold)
    · exact List.mem_of_mem_filter (List.mem_of_mem_filter henv)
  rw [h.turns, hnothing.1, hnothing.2, List.mem_append, List.mem_filter, List.mem_filter]
  exact hkind.imp (⟨hnew, ·⟩) (⟨hnew, ·⟩)

end

/-- **When a redelivery makes up for a failed delivery.**  The step `f` fails and the ingest of the batch raises; then
the batch is ingested again and every step succeeds.  The redelivery makes up for the failure if `f` comes no later than
the commit of the log; and unless the log holds the id of a new session or task event in another spelling, it does so
just in case `f` comes no later than that commit or no session or task event is outstanding when it fails. -/
theorem redelivery_restores_iff {db db₁ db₂ : Db sql} {batch : List PreparedEvent} {f : DbStep}
    {results : List Outcome} (hfirst : ingestEvents (some f) db batch = (db₁, none))
    (hagain : ingestEvents none db₁ batch = (db₂, some results)) :
    (f.behindLog = false → Restored f db db₁ db₂ batch) ∧
      ((∀ env ∈ respelled db batch, isSessionEvent env = false ∧ isTaskEvent env = false) →
        (Restored f db db₁ db₂ batch ↔ f.behindLog = false ∨ NothingOutstanding f (newEnvelopes db batch))) := by
  rcases ingestEvents_raise hfirst with ⟨rfl, hlog⟩ | ⟨logged, hlog, hbehind, hdb₁, hturns⟩
  · -- nothing was committed: the redelivery is the first delivery
    have hf : f.behindLog = false := by
      cases hbehind : f.behindLog with
      | false => rfl
      | true =>
        rw [writeLog_behindLog hbehind] at hlog
        rw [ingestEvents_none, hlog] at hagain
        cases hagain
    have hrestored : Restored f db₁ db₁ db₂ batch := restored_of_untouched hagain
    exact ⟨fun _ => hrestored, fun _ => ⟨fun _ => .inl hf, fun _ => hrestored⟩⟩
  · rw [writeLog_behindLog hbehind] at hlog
    have h := interrupted hagain hlog hdb₁ hturns
    have hlate : ¬ f.behindLog = false := by rw [hbehind]; decide
    exact ⟨fun hf => absurd hf hlate, fun hspelled => ⟨fun hrestored => .inr (h.nothingOutstanding hrestored hspelled),
      fun hcondition => h.restored (hcondition.resolve_left hlate) hspelled⟩⟩

/-! ### Two failures -/

/-- A card is created. -/
private def createdBatch : List PreparedEvent :=
  [.valid {
    eventId := "evt_1", eventType := "task.created", occurredAt := 0, machineId := "mach_1", agentId := none
    sessionId := none, projectId := none, repositoryId := some "repo_1", taskId := none
    payload := [("global_id", .str "task_1"), ("title", .str "Model the hub"), ("status", .str "Created"),
      ("version", .int 1)]
    schemaVersion := 1 } ""]

/-- The database after a delivery of the batch. -/
private def afterDelivery (fault : Option DbStep) (db : Db Sql.sample) : Db Sql.sample :=
  (ingestEvents fault db createdBatch).1

private theorem ingest_raises (fault : Option DbStep) (db : Db Sql.sample)
    (h : (ingestEvents fault db createdBatch).2.isNone = true) :
    ingestEvents fault db createdBatch = (afterDelivery fault db, none) :=
  Prod.ext rfl (Option.isNone_iff_eq_none.1 h)

private theorem ingest_succeeds (fault : Option DbStep) (db : Db Sql.sample)
    (h : (ingestEvents fault db createdBatch).2.isSome = true) :
    ∃ results, ingestEvents fault db createdBatch = (afterDelivery fault db, some results) := by
  obtain ⟨results, hresults⟩ := Option.isSome_iff_exists.1 h
  exact ⟨results, Prod.ext rfl hresults⟩

/-- The commit of the log fails, or closing the connection for the tasks does; the redelivery makes up for it. -/
theorem commit_failure_repaired :
    Restored .commitLog Db.empty (afterDelivery (some .commitLog) Db.empty)
        (afterDelivery none (afterDelivery (some .commitLog) Db.empty)) createdBatch ∧
      Restored (.close .tasks) Db.empty (afterDelivery (some (.close .tasks)) Db.empty)
        (afterDelivery none (afterDelivery (some (.close .tasks)) Db.empty)) createdBatch := by
  constructor
  · have hfirst := ingest_raises (some .commitLog) Db.empty (by decide +kernel)
    obtain ⟨results, hagain⟩ := ingest_succeeds none (afterDelivery (some .commitLog) Db.empty)
      (by decide +kernel)
    exact (redelivery_restores_iff hfirst hagain).1 rfl
  · have hfirst := ingest_raises (some (.close .tasks)) Db.empty (by decide +kernel)
    obtain ⟨results, hagain⟩ := ingest_succeeds none (afterDelivery (some (.close .tasks)) Db.empty)
      (by decide +kernel)
    have hspelled : respelled (Db.empty : Db Sql.sample) createdBatch = [] := by decide +kernel
    refine ((redelivery_restores_iff hfirst hagain).2 fun env henv => ?_).2 (.inr ⟨rfl, rfl⟩)
    rw [hspelled] at henv
    cases henv

/-- The connection for the tasks cannot be opened: the event stays in the log, and neither the first delivery nor the
redelivery, which judges it a duplicate, ever writes its task. -/
theorem task_lost_on_redelivery :
    ∃ db₁ db₂ results, ingestEvents (some (.connect .tasks)) (Db.empty : Db Sql.sample) createdBatch = (db₁, none) ∧
      ingestEvents none db₁ createdBatch = (db₂, some results) ∧ db₂.events.rows.length = 1 ∧
        ¬ SameReadModels db₂.toRegistry (ingestEvents none (Db.empty : Db Sql.sample) createdBatch).1.toRegistry := by
  have hfirst := ingest_raises (some (.connect .tasks)) Db.empty (by decide +kernel)
  obtain ⟨results, hagain⟩ := ingest_succeeds none (afterDelivery (some (.connect .tasks)) Db.empty)
    (by decide +kernel)
  refine ⟨_, _, results, hfirst, hagain, by decide +kernel, fun h => ?_⟩
  have hlength := congrArg List.length h.2
  rw [List.length_map, List.length_map] at hlength
  exact absurd hlength (by decide +kernel)

end SqlStore

end AgentOS
