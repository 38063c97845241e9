import AgentOS.Hub.SqlStore

/-!
# `SqlStore.ingest_events`

The log is written in one transaction: rejected items into `ops.ingest_errors`, new envelopes into `ops.events`.  Then,
on connections of their own, the sessions and the tasks of the envelopes that were inserted are written, one transaction
per event, and an event whose write fails is skipped.

`fault` is the one step of the database or the driver that fails, if one does.  A step that fails has no effect.
-/

namespace AgentOS

/-- The three connections of an ingest. -/
inductive Conn where
  | ingest
  | sessions
  | tasks
  deriving DecidableEq

/-- The steps that can fail; `write`, `commit` and `rollback` are those of the `i`-th event of a loop.  The rollback of
the log is left out, because it runs only on the way to raising. -/
inductive DbStep where
  | connect (c : Conn)
  | cursor (c : Conn)
  | close (c : Conn)
  | existing
  | insertErrors
  | insertEvents
  | commitLog
  | write (c : Conn) (i : Nat)
  | commit (c : Conn) (i : Nat)
  | rollback (c : Conn) (i : Nat)
  deriving DecidableEq

/-- An entry of the list that `ingest_events` returns. -/
structure Outcome where
  index : Nat
  eventId : Option String
  outcome : String
  reason : Option String
  deriving DecidableEq

/-- The valid envelopes of a batch. -/
def validEnvelopes (prepared : List PreparedEvent) : List EventEnvelope := prepared.filterMap (·.envelope)

/-- `_MAX_REASON_CHARS`. -/
def maxReasonChars : Nat := 1000

/-- `rejected_rows`: source machine, reason and raw item. -/
def rejectedRows (prepared : List PreparedEvent) : List (Option String × String × String) :=
  (prepared.filter fun item => item.envelope.isNone).map fun item =>
    let reason := (item.error.filter (· ≠ "")).getD "rejected"
    (item.sourceMachineId, String.ofList (reason.toList.take maxReasonChars), item.raw)

/-- `to_insert`: the envelopes whose id is neither stored nor seen before. -/
def toInsert (existing : List String) : List String → List EventEnvelope → List EventEnvelope
  | _, [] => []
  | seen, env :: envs =>
    if env.eventId ∈ existing ∨ env.eventId ∈ seen then toInsert existing seen envs
    else env :: toInsert existing (env.eventId :: seen) envs

/-- `outcomes`, from position `index` on. -/
def outcomes (existing : List String) : Nat → List String → List PreparedEvent → List Outcome
  | _, _, [] => []
  | index, seen, item :: items => match item.envelope with
    | none => ⟨index, none, "rejected", item.error⟩ :: outcomes existing (index + 1) seen items
    | some env =>
      if env.eventId ∈ existing ∨ env.eventId ∈ seen then
        ⟨index, some env.eventId, "duplicate", none⟩ :: outcomes existing (index + 1) seen items
      else
        ⟨index, some env.eventId, "accepted", none⟩ :: outcomes existing (index + 1) (env.eventId :: seen) items

/-- Microseconds in the years 1 to 9999. -/
def utcEnd : Int := 315537897600000000

/-- `_events_json` can write the envelope, for `to_utc` overflows outside of the years 1 to 9999, and the database can
read what it writes, which is no JSON where the payload holds a float that is not finite. -/
def sendable (env : EventEnvelope) : Bool :=
  decide (0 ≤ env.occurredAt ∧ env.occurredAt < utcEnd) && Json.finiteFields env.payload

theorem mem_toInsert {existing seen : List String} {envs : List EventEnvelope} {env : EventEnvelope}
    (h : env ∈ toInsert existing seen envs) : env ∈ envs ∧ env.eventId ∉ existing ∧ env.eventId ∉ seen := by
  induction envs generalizing seen with
  | nil => cases h
  | cons e envs ih =>
    unfold toInsert at h
    split at h
    case isTrue =>
      obtain ⟨h₁, h₂⟩ := ih h
      exact ⟨List.mem_cons_of_mem _ h₁, h₂⟩
    case isFalse hnew =>
      rcases List.mem_cons.1 h with rfl | h
      · exact ⟨List.mem_cons_self, not_or.1 hnew⟩
      · obtain ⟨h₁, h₂, h₃⟩ := ih h
        exact ⟨List.mem_cons_of_mem _ h₁, h₂, fun hseen => h₃ (List.mem_cons_of_mem _ hseen)⟩

theorem toInsert_nodup (existing seen : List String) (envs : List EventEnvelope) :
    ((toInsert existing seen envs).map (·.eventId)).Nodup := by
  induction envs generalizing seen with
  | nil => exact List.nodup_nil
  | cons e envs ih =>
    unfold toInsert
    split
    · exact ih seen
    · rw [List.map_cons, List.nodup_cons]
      refine ⟨fun hmem => ?_, ih _⟩
      obtain ⟨env, henv, hid⟩ := List.mem_map.1 hmem
      exact (mem_toInsert henv).2.2 (hid ▸ List.mem_cons_self)

/-- Only which ids of the batch are stored matters. -/
theorem toInsert_congr {existing existing' : List String} (seen : List String) {envs : List EventEnvelope}
    (h : ∀ env ∈ envs, env.eventId ∈ existing ↔ env.eventId ∈ existing') :
    toInsert existing seen envs = toInsert existing' seen envs := by
  induction envs generalizing seen with
  | nil => rfl
  | cons e envs ih =>
    have hrest := fun seen => ih seen fun env henv => h env (List.mem_cons_of_mem _ henv)
    rw [toInsert, toInsert, hrest, hrest]
    simp only [h e List.mem_cons_self]

theorem outcomes_congr {existing existing' : List String} (index : Nat) (seen : List String)
    {items : List PreparedEvent}
    (h : ∀ env ∈ validEnvelopes items, env.eventId ∈ existing ↔ env.eventId ∈ existing') :
    outcomes existing index seen items = outcomes existing' index seen items := by
  induction items generalizing index seen with
  | nil => rfl
  | cons item items ih =>
    have hrest : ∀ index seen, outcomes existing index seen items = outcomes existing' index seen items := by
      refine fun index seen => ih index seen fun env henv => h env ?_
      obtain ⟨item', hitem', henv⟩ := List.mem_filterMap.1 henv
      exact List.mem_filterMap.2 ⟨item', List.mem_cons_of_mem _ hitem', henv⟩
    cases henv : item.envelope with
    | none => simp only [outcomes, henv, hrest]
    | some env =>
      have hmem : env ∈ validEnvelopes (item :: items) := List.mem_filterMap.2 ⟨item, List.mem_cons_self, henv⟩
      simp only [outcomes, henv, hrest, h env hmem]

/-- New envelopes with distinct ids are all inserted. -/
theorem toInsert_eq_self {existing seen : List String} {envs : List EventEnvelope}
    (hnodup : (envs.map (·.eventId)).Nodup) (hnew : ∀ env ∈ envs, env.eventId ∉ existing ∧ env.eventId ∉ seen) :
    toInsert existing seen envs = envs := by
  induction envs generalizing seen with
  | nil => rfl
  | cons e envs ih =>
    rw [List.map_cons, List.nodup_cons] at hnodup
    rw [toInsert, if_neg (not_or.2 (hnew e List.mem_cons_self)), ih hnodup.2]
    intro env henv
    obtain ⟨hexisting, hseen⟩ := hnew env (List.mem_cons_of_mem _ henv)
    refine ⟨hexisting, fun hmem => ?_⟩
    rcases List.mem_cons.1 hmem with hid | hmem
    · exact hnodup.1 (hid ▸ List.mem_map_of_mem henv)
    · exact hseen hmem

/-- Every envelope of a batch is stored, was seen before, or has its id inserted. -/
theorem exists_toInsert (existing seen : List String) {envs : List EventEnvelope} {env : EventEnvelope}
    (h : env ∈ envs) : env.eventId ∈ existing ∨ env.eventId ∈ seen ∨
      ∃ e ∈ toInsert existing seen envs, e.eventId = env.eventId := by
  induction envs generalizing seen with
  | nil => cases h
  | cons e envs ih =>
    unfold toInsert
    by_cases hold : e.eventId ∈ existing ∨ e.eventId ∈ seen
    · rw [if_pos hold]
      rcases List.mem_cons.1 h with rfl | h
      · rcases hold with hold | hold
        · exact Or.inl hold
        · exact Or.inr (Or.inl hold)
      · exact ih seen h
    · rw [if_neg hold]
      rcases List.mem_cons.1 h with rfl | h
      · exact Or.inr (Or.inr ⟨env, List.mem_cons_self, rfl⟩)
      · rcases ih (e.eventId :: seen) h with h₁ | h₂ | ⟨e', h₃, h₄⟩
        · exact Or.inl h₁
        · rcases List.mem_cons.1 h₂ with h₂ | h₂
          · exact Or.inr (Or.inr ⟨e, List.mem_cons_self, h₂.symm⟩)
          · exact Or.inr (Or.inl h₂)
        · exact Or.inr (Or.inr ⟨e', List.mem_cons_of_mem _ h₃, h₄⟩)

namespace SqlStore

variable {sql : Sql}

/-- `_existing_event_ids`: the stored ids, as they are stored, that the database finds equal to one of `ids`. -/
def existingEventIds (db : Db sql) (ids : List String) : List String :=
  (db.events.rows.filter fun env => ids.any fun id => sql.key id = sql.key env.eventId).map (·.eventId)

/-- `INSERT INTO ops.ingest_errors`. -/
def insertErrors (db : Db sql) (rows : List (Option String × String × String)) : Option (Db sql) :=
  (rows.mapM fun (source, reason, raw) => do
    let source ← sql.text (some 64) (optStr source)
    let reason ← sql.textNotNull (some 1000) (.str reason)
    let raw ← sql.text none (.str raw)
    some (⟨source, reason, raw⟩ : IngestError)).map fun errors => { db with ingestErrors := db.ingestErrors ++ errors }

/-- `_INSERT_EVENTS_OPENJSON_SQL` on `_events_json(envs)`. -/
def insertEvents (db : Db sql) (envs : List EventEnvelope) : Option (Db sql) :=
  let new := envs.filter fun env => (db.events.lookup (sql.key env.eventId)).isNone
  if envs.all sendable && new.all sql.fitsLog then
    (new.foldlM Table.insert db.events).map fun events => { db with events := events }
  else none

/-- The envelopes of a batch that `ingest_events` inserts. -/
def newEnvelopes (db : Db sql) (prepared : List PreparedEvent) : List EventEnvelope :=
  let valid := validEnvelopes prepared
  toInsert (existingEventIds db (valid.map (·.eventId))) [] valid

/-- `if rejected_rows: cur.executemany(…)`. -/
def logErrors (fault : Option DbStep) (db : Db sql) (rows : List (Option String × String × String)) :
    Option (Db sql) :=
  if rows.isEmpty then some db else if fault = some .insertErrors then none else insertErrors db rows

/-- `if to_insert: cur.execute(…)`. -/
def logEvents (fault : Option DbStep) (db : Db sql) (envs : List EventEnvelope) : Option (Db sql) :=
  if envs.isEmpty then some db else if fault = some .insertEvents then none else insertEvents db envs

/-- The transaction on the event log; `none` where it raises. -/
def writeLog (fault : Option DbStep) (db : Db sql) (prepared : List PreparedEvent) : Option (Db sql) :=
  if fault = some (.connect .ingest) ∨ fault = some (.cursor .ingest) then none
  else if !(validEnvelopes prepared).isEmpty ∧ fault = some .existing then none
  else (logErrors fault db (rejectedRows prepared)).bind fun logged =>
    (logEvents fault logged (newEnvelopes db prepared)).bind fun logged =>
      if fault = some .commitLog then none else some logged

/-- The loop over the events from position `i` on; `false` where it raises. -/
def writeLoop (fault : Option DbStep) (c : Conn) (write : EventEnvelope → Registry sql → Option (Registry sql)) :
    Nat → List EventEnvelope → Registry sql → Registry sql × Bool
  | _, [], reg => (reg, true)
  | i, env :: envs, reg =>
    if fault = some (.write c i) ∨ fault = some (.commit c i) then writeLoop fault c write (i + 1) envs reg
    else match write env reg with
      | some reg => writeLoop fault c write (i + 1) envs reg
      | none =>
        if fault = some (.rollback c i) then (reg, false) else writeLoop fault c write (i + 1) envs reg

/-- One connection for the events of a read model; `false` where it raises. -/
def materialize (fault : Option DbStep) (c : Conn) (write : EventEnvelope → Registry sql → Option (Registry sql))
    (events : List EventEnvelope) (reg : Registry sql) : Registry sql × Bool :=
  if events.isEmpty then (reg, true)
  else if fault = some (.connect c) ∨ fault = some (.cursor c) then (reg, false)
  else
    let (reg, finished) := writeLoop fault c write 0 events reg
    (reg, finished && fault ≠ some (.close c))

/-- `_materialize_sessions`. -/
def materializeSessions (fault : Option DbStep) (envelopes : List EventEnvelope) (reg : Registry sql) :
    Registry sql × Bool :=
  materialize fault .sessions materializeSession (envelopes.filter isSessionEvent) reg

/-- `_materialize_tasks`. -/
def materializeTasks (fault : Option DbStep) (envelopes : List EventEnvelope) (reg : Registry sql) :
    Registry sql × Bool :=
  materialize fault .tasks materializeTask (envelopes.filter isTaskEvent) reg

/-- The two passes over the envelopes that were inserted; `false` where one of them raises. -/
def materializeAll (fault : Option DbStep) (envelopes : List EventEnvelope) (reg : Registry sql) :
    Registry sql × Bool :=
  match materializeSessions fault envelopes reg with
  | (reg, false) => (reg, false)
  | (reg, true) => materializeTasks fault envelopes reg

/-- `ingest_events`; no outcomes where it raises. -/
def ingestEvents (fault : Option DbStep) (db : Db sql) (prepared : List PreparedEvent) :
    Db sql × Option (List Outcome) :=
  match writeLog fault db prepared with
  | none => (db, none)
  | some logged =>
    if fault = some (.close .ingest) then (logged, none)
    else
      let existing := existingEventIds db ((validEnvelopes prepared).map (·.eventId))
      let (reg, finished) := materializeAll fault (newEnvelopes db prepared) logged.toRegistry
      ({ logged with toRegistry := reg }, if finished then some (outcomes existing 0 [] prepared) else none)

/-! ### What an ingest changes -/

/-- The writes of the events that succeed, in their order. -/
def writeEach (write : EventEnvelope → Registry sql → Option (Registry sql)) (envs : List EventEnvelope)
    (reg : Registry sql) : Registry sql :=
  envs.foldl (fun reg env => (write env reg).getD reg) reg

theorem writeEach_cons (write : EventEnvelope → Registry sql → Option (Registry sql)) (env : EventEnvelope)
    (envs : List EventEnvelope) (reg : Registry sql) :
    writeEach write (env :: envs) reg = writeEach write envs ((write env reg).getD reg) := rfl

/-- What every write of a loop keeps, the loop keeps. -/
theorem writeEach_invariant {write : EventEnvelope → Registry sql → Option (Registry sql)} {I : Registry sql → Prop}
    {envs : List EventEnvelope}
    (hwrite : ∀ env ∈ envs, ∀ reg reg', I reg → write env reg = some reg' → I reg') {reg : Registry sql} (h : I reg) :
    I (writeEach write envs reg) := by
  induction envs generalizing reg with
  | nil => exact h
  | cons env envs ih =>
    have hrest := fun e he => hwrite e (List.mem_cons_of_mem _ he)
    rw [writeEach_cons]
    cases hw : write env reg with
    | none => exact ih hrest h
    | some reg' => exact ih hrest (hwrite env List.mem_cons_self reg reg' h hw)

/-- All the writes for the envelopes that were inserted: the sessions, then the tasks. -/
def writeModels (envs : List EventEnvelope) (reg : Registry sql) : Registry sql :=
  writeEach materializeTask (envs.filter isTaskEvent) (writeEach materializeSession (envs.filter isSessionEvent) reg)

/-- A loop in which no step fails writes what can be written. -/
theorem writeLoop_none (c : Conn) (write : EventEnvelope → Registry sql → Option (Registry sql)) (i : Nat)
    (envs : List EventEnvelope) (reg : Registry sql) :
    writeLoop none c write i envs reg = (writeEach write envs reg, true) := by
  induction envs generalizing i reg with
  | nil => rfl
  | cons env envs ih =>
    rw [writeLoop, if_neg (by simp), writeEach_cons]
    cases write env reg with
    | none => exact ih (i + 1) reg
    | some reg' => exact ih (i + 1) reg'

theorem materialize_none (c : Conn) (write : EventEnvelope → Registry sql → Option (Registry sql))
    (events : List EventEnvelope) (reg : Registry sql) :
    materialize none c write events reg = (writeEach write events reg, true) := by
  unfold materialize
  split
  case isTrue hnil =>
    rw [List.isEmpty_iff.1 hnil]
    rfl
  case isFalse =>
    rw [if_neg (by simp), writeLoop_none]
    rfl

theorem materializeAll_none (envs : List EventEnvelope) (reg : Registry sql) :
    materializeAll none envs reg = (writeModels envs reg, true) := by
  rw [materializeAll, materializeSessions, materialize_none]
  exact materialize_none _ _ _ _

/-- The transaction on the log writes the log and the errors only, and appends the new envelopes whose ids the database
does not know. -/
theorem writeLog_frame {fault : Option DbStep} {db logged : Db sql} {prepared : List PreparedEvent}
    (h : writeLog fault db prepared = some logged) :
    ∃ events errors, logged = { db with events := events, ingestErrors := errors } ∧
      events.rows = db.events.rows ++
        (newEnvelopes db prepared).filter fun env => (db.events.lookup (sql.key env.eventId)).isNone := by
  unfold writeLog at h
  split at h
  · cases h
  split at h
  · cases h
  obtain ⟨db₁, herrors, h⟩ := Option.bind_eq_some_iff.1 h
  obtain ⟨db₂, hevents, h⟩ := Option.bind_eq_some_iff.1 h
  split at h
  · cases h
  obtain rfl := Option.some.inj h
  have h₁ : ∃ errors, db₁ = { db with ingestErrors := errors } := by
    unfold logErrors at herrors
    split at herrors
    · obtain rfl := Option.some.inj herrors
      exact ⟨_, rfl⟩
    · split at herrors
      · cases herrors
      · obtain ⟨errors, -, rfl⟩ := Option.map_eq_some_iff.1 herrors
        exact ⟨_, rfl⟩
  obtain ⟨errors, rfl⟩ := h₁
  unfold logEvents at hevents
  split at hevents
  case isTrue hnil =>
    obtain rfl := Option.some.inj hevents
    rw [List.isEmpty_iff.1 hnil]
    exact ⟨_, _, rfl, (List.append_nil _).symm⟩
  case isFalse =>
    split at hevents
    · cases hevents
    · unfold insertEvents at hevents
      dsimp only at hevents
      split at hevents
      · obtain ⟨events, hfold, rfl⟩ := Option.map_eq_some_iff.1 hevents
        exact ⟨_, _, rfl, Table.foldlM_insert_rows hfold⟩
      · cases hevents

/-- An ingest in which no step fails: the log, then every session write and every task write that can be made. -/
theorem ingestEvents_none {db : Db sql} {prepared : List PreparedEvent} :
    ingestEvents none db prepared = match writeLog none db prepared with
      | none => (db, none)
      | some logged => ({ logged with toRegistry := writeModels (newEnvelopes db prepared) logged.toRegistry },
          some (outcomes (existingEventIds db ((validEnvelopes prepared).map (·.eventId))) 0 [] prepared)) := by
  unfold ingestEvents
  cases writeLog none db prepared with
  | none => rfl
  | some logged => simp [materializeAll_none]

/-- A task event writes tasks only. -/
theorem materializeTask_frame {env : EventEnvelope} {reg reg' : Registry sql}
    (h : materializeTask env reg = some reg') : ∃ tasks dbts, reg' = { reg with tasks := tasks, dbts := dbts } := by
  unfold materializeTask at h
  split at h
  · obtain rfl := Option.some.inj h
    exact ⟨_, _, rfl⟩
  · obtain ⟨row, -, h⟩ := Option.bind_eq_some_iff.1 h
    dsimp only at h
    split at h
    · obtain rfl := Option.some.inj h
      exact ⟨_, _, rfl⟩
    · split at h
      · obtain rfl := Option.some.inj h
        exact ⟨_, _, rfl⟩
      · obtain ⟨tasks, -, rfl⟩ := Option.map_eq_some_iff.1 h
        exact ⟨_, _, rfl⟩

private theorem toOption_frame {reg reg' : Registry sql} {row : SessionRow}
    (h : (insertSession reg row).toOption = some reg') : ∃ sessions, reg' = { reg with sessions := sessions } := by
  unfold insertSession at h
  split at h
  · cases h
  · split at h
    · cases h
    · split at h
      · obtain rfl := Option.some.inj h
        exact ⟨_, rfl⟩
      · cases h

/-- An agent event writes sessions only. -/
theorem materializeSession_frame {env : EventEnvelope} {reg reg' : Registry sql}
    (h : materializeSession env reg = some reg') : ∃ sessions, reg' = { reg with sessions := sessions } := by
  unfold materializeSession at h
  split at h
  · simp only [materializeSessionStarted, Option.bind_eq_bind, Option.bind_eq_some_iff] at h
    obtain ⟨_, _, _, _, _, _, _, _, _, _, _, _, _, _, _, _, h⟩ := h
    split at h
    · split at h
      · obtain rfl := Option.some.inj h
        exact ⟨_, rfl⟩
      · cases h
    · exact toOption_frame h
  · simp only [materializeSessionFinished, Option.bind_eq_bind, Option.bind_eq_some_iff] at h
    obtain ⟨_, _, h⟩ := h
    split at h
    · obtain rfl := Option.some.inj h
      exact ⟨_, rfl⟩
    · simp only [Option.bind_eq_some_iff] at h
      obtain ⟨_, _, _, _, _, _, _, _, h⟩ := h
      exact toOption_frame h

theorem writeEach_sessions_frame (envs : List EventEnvelope) (reg : Registry sql) :
    ∃ sessions, writeEach materializeSession envs reg = { reg with sessions := sessions } := by
  refine writeEach_invariant (I := fun reg' => ∃ sessions, reg' = { reg with sessions := sessions }) ?_ ⟨_, rfl⟩
  rintro env - _ reg' ⟨sessions, rfl⟩ hw
  obtain ⟨sessions', rfl⟩ := materializeSession_frame hw
  exact ⟨_, rfl⟩

theorem writeEach_tasks_frame (envs : List EventEnvelope) (reg : Registry sql) :
    ∃ tasks dbts, writeEach materializeTask envs reg = { reg with tasks := tasks, dbts := dbts } := by
  refine writeEach_invariant (I := fun reg' => ∃ tasks dbts, reg' = { reg with tasks := tasks, dbts := dbts }) ?_
    ⟨_, _, rfl⟩
  rintro env - _ reg' ⟨tasks, dbts, rfl⟩ hw
  obtain ⟨tasks', dbts', rfl⟩ := materializeTask_frame hw
  exact ⟨_, _, rfl⟩

/-! ### An ingest in which a step may fail -/

/-- Whatever fails, a loop writes some of its events. -/
theorem writeLoop_subset (fault : Option DbStep) (c : Conn)
    (write : EventEnvelope → Registry sql → Option (Registry sql)) (i : Nat) (envs : List EventEnvelope)
    (reg : Registry sql) : ∃ written ⊆ envs, (writeLoop fault c write i envs reg).1 = writeEach write written reg := by
  induction envs generalizing i reg with
  | nil => exact ⟨[], List.nil_subset _, rfl⟩
  | cons env envs ih =>
    obtain ⟨skipped, hskipped, hskip⟩ := ih (i + 1) reg
    have hsubset : skipped ⊆ env :: envs := List.Subset.trans hskipped (List.subset_cons_self _ _)
    unfold writeLoop
    split
    · exact ⟨skipped, hsubset, hskip⟩
    · split
      case h_1 reg₁ hwrite =>
        obtain ⟨written, hwritten, hloop⟩ := ih (i + 1) reg₁
        refine ⟨env :: written, List.cons_subset_cons _ hwritten, ?_⟩
        rw [writeEach_cons, hwrite]
        exact hloop
      case h_2 =>
        split
        · exact ⟨[], List.nil_subset _, rfl⟩
        · exact ⟨skipped, hsubset, hskip⟩

theorem materialize_subset (fault : Option DbStep) (c : Conn)
    (write : EventEnvelope → Registry sql → Option (Registry sql)) (events : List EventEnvelope) (reg : Registry sql) :
    ∃ written ⊆ events, (materialize fault c write events reg).1 = writeEach write written reg := by
  unfold materialize
  split
  · exact ⟨[], List.nil_subset _, rfl⟩
  · split
    · exact ⟨[], List.nil_subset _, rfl⟩
    · exact writeLoop_subset fault c write 0 events reg

/-- Whatever fails, an ingest writes some of the session events and some of the task events of the new envelopes, and
nothing else of the registry. -/
theorem ingestEvents_registry (fault : Option DbStep) (db : Db sql) (prepared : List PreparedEvent) :
    ∃ sessionEvents ⊆ (newEnvelopes db prepared).filter isSessionEvent,
      ∃ taskEvents ⊆ (newEnvelopes db prepared).filter isTaskEvent,
        (ingestEvents fault db prepared).1.toRegistry =
          writeEach materializeTask taskEvents (writeEach materializeSession sessionEvents db.toRegistry) := by
  unfold ingestEvents
  cases hlog : writeLog fault db prepared with
  | none => exact ⟨[], List.nil_subset _, [], List.nil_subset _, rfl⟩
  | some logged =>
    obtain ⟨events, errors, rfl, -⟩ := writeLog_frame hlog
    dsimp only
    split
    · exact ⟨[], List.nil_subset _, [], List.nil_subset _, rfl⟩
    · obtain ⟨sessionEvents, hsub, hsessions⟩ := materialize_subset fault .sessions materializeSession
        ((newEnvelopes db prepared).filter isSessionEvent) db.toRegistry
      unfold materializeAll
      rcases hpass : materializeSessions fault (newEnvelopes db prepared) db.toRegistry with ⟨reg₁, finished⟩
      have hreg₁ : reg₁ = writeEach materializeSession sessionEvents db.toRegistry := by
        rw [← hsessions]
        exact (congrArg Prod.fst hpass).symm
      cases finished with
      | false => exact ⟨sessionEvents, hsub, [], List.nil_subset _, hreg₁⟩
      | true =>
        obtain ⟨taskEvents, hsub', htasks⟩ := materialize_subset fault .tasks materializeTask
          ((newEnvelopes db prepared).filter isTaskEvent) reg₁
        refine ⟨sessionEvents, hsub, taskEvents, hsub', ?_⟩
        rw [← hreg₁]
        exact htasks

end SqlStore

end AgentOS
