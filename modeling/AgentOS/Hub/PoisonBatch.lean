import AgentOS.Hub.Prepare
import AgentOS.Hub.Verdicts

/-!
# Batches that one item blocks

`_prepare_event` bounds neither the length of a string nor the range of a number, the tables of migration `003` do, and
an ingest is one transaction.  A batch gets its verdicts just in case it is `Harmless` (`verdicts_returned_iff`);
otherwise one item makes the request fail for all of them, and the drain that sent it retries it for ever.
-/

namespace AgentOS

/-- The database refuses a string that is longer than its column, and an event that does not fit `ops.events`, and
accepts every other. -/
structure Sql.Strict (sql : Sql) : Prop where
  text : ∀ width s, (sql.text (some width) (.str s)).isSome ↔ Sql.utf16Length s ≤ width
  textMax : ∀ s, (sql.text none (.str s)).isSome
  fitsLog : ∀ env, sql.fitsLog env = Sql.fitsColumns env

namespace SqlStore

variable {sql : Sql}

/-- A valid envelope of the batch that comes first of its id, which the log does not hold. -/
def Fresh (db : Db sql) (prepared : List PreparedEvent) (env : EventEnvelope) : Prop :=
  ∃ before after, validEnvelopes prepared = before ++ env :: after ∧
    (∀ e ∈ before, e.eventId ≠ env.eventId) ∧ ∀ stored ∈ db.events.rows, stored.eventId ≠ env.eventId

/-- No item of the batch offends against the columns of the log or of the ingest errors. -/
structure Harmless (db : Db sql) (prepared : List PreparedEvent) : Prop where
  rejected : ∀ item ∈ prepared, item.envelope = none → ∀ id, item.sourceMachineId = some id → Sql.utf16Length id ≤ 64
  sendable : ∀ env, Fresh db prepared env → sendable env = true
  columns : ∀ env, Fresh db prepared env → db.events.lookup (sql.key env.eventId) = none → Sql.fitsColumns env = true
  spelling : ∀ env env', Fresh db prepared env → Fresh db prepared env' →
    db.events.lookup (sql.key env.eventId) = none → sql.key env.eventId = sql.key env'.eventId →
    env.eventId = env'.eventId

/-! ### The rows of an ingest -/

theorem mem_toInsert_iff {existing seen : List String} {envs : List EventEnvelope} {env : EventEnvelope} :
    env ∈ toInsert existing seen envs ↔ (∃ before after, envs = before ++ env :: after ∧
      ∀ e ∈ before, e.eventId ≠ env.eventId) ∧ env.eventId ∉ existing ∧ env.eventId ∉ seen := by
  induction envs generalizing seen with
  | nil => simp [toInsert]
  | cons e envs ih =>
    have hcons : (∃ before after, e :: envs = before ++ env :: after ∧ ∀ x ∈ before, x.eventId ≠ env.eventId) ↔
        e = env ∨ e.eventId ≠ env.eventId ∧ ∃ before after, envs = before ++ env :: after ∧
          ∀ x ∈ before, x.eventId ≠ env.eventId := by
      constructor
      · rintro ⟨before, after, hsplit, hbefore⟩
        cases before with
        | nil => exact Or.inl (List.cons.inj hsplit).1
        | cons x before =>
          obtain ⟨rfl, htail⟩ := List.cons.inj hsplit
          exact Or.inr ⟨hbefore e List.mem_cons_self, before, after, htail,
            fun y hy => hbefore y (List.mem_cons_of_mem _ hy)⟩
      · rintro (rfl | ⟨hne, before, after, rfl, hbefore⟩)
        · exact ⟨[], envs, rfl, fun _ => by simp⟩
        · exact ⟨e :: before, after, rfl, List.forall_mem_cons.2 ⟨hne, hbefore⟩⟩
    rw [hcons]
    unfold toInsert
    split
    case isTrue hold =>
      rw [ih]
      constructor
      · rintro ⟨hsplit, hnew, hseen⟩
        refine ⟨Or.inr ⟨fun hid => ?_, hsplit⟩, hnew, hseen⟩
        rw [hid] at hold
        exact hold.elim hnew hseen
      · rintro ⟨rfl | ⟨-, hsplit⟩, hnew, hseen⟩
        · exact absurd hold (not_or.2 ⟨hnew, hseen⟩)
        · exact ⟨hsplit, hnew, hseen⟩
    case isFalse hnew =>
      rw [List.mem_cons, ih]
      constructor
      · rintro (rfl | ⟨hsplit, hnew, hseen⟩)
        · exact ⟨Or.inl rfl, not_or.1 hnew⟩
        · rw [List.mem_cons, not_or] at hseen
          exact ⟨Or.inr ⟨fun hid => hseen.1 hid.symm, hsplit⟩, hnew, hseen.2⟩
      · rintro ⟨rfl | ⟨hne, hsplit⟩, hnew, hseen⟩
        · exact Or.inl rfl
        · refine Or.inr ⟨hsplit, hnew, ?_⟩
          rw [List.mem_cons, not_or]
          exact ⟨fun hid => hne hid.symm, hseen⟩

/-- What `ingest_events` sends to the database. -/
theorem mem_newEnvelopes {db : Db sql} {prepared : List PreparedEvent} {env : EventEnvelope} :
    env ∈ newEnvelopes db prepared ↔ Fresh db prepared env := by
  have hstored : env ∈ validEnvelopes prepared →
      (env.eventId ∉ existingEventIds db ((validEnvelopes prepared).map (·.eventId)) ↔
        ∀ stored ∈ db.events.rows, stored.eventId ≠ env.eventId) := by
    intro henv
    constructor
    · intro hnew stored hstored hid
      refine hnew (hid ▸ mem_existingEventIds hstored (List.mem_map_of_mem henv) ?_)
      rw [hid]
    · intro hall hmem
      obtain ⟨stored, hstored, hid⟩ := exists_stored hmem
      exact hall stored hstored hid
  rw [newEnvelopes, mem_toInsert_iff]
  constructor
  · rintro ⟨⟨before, after, hsplit, hbefore⟩, hnew, -⟩
    have henv : env ∈ validEnvelopes prepared := by simp [hsplit]
    exact ⟨before, after, hsplit, hbefore, (hstored henv).1 hnew⟩
  · rintro ⟨before, after, hsplit, hbefore, hall⟩
    have henv : env ∈ validEnvelopes prepared := by simp [hsplit]
    exact ⟨⟨before, after, hsplit, hbefore⟩, (hstored henv).2 hall, List.not_mem_nil⟩

/-! ### When the statements succeed -/

theorem isSome_mapM {α β : Type} {f : α → Option β} (as : List α) :
    (as.mapM f).isSome ↔ ∀ a ∈ as, (f a).isSome := by
  induction as with
  | nil => simp
  | cons a as ih =>
    rw [List.mapM_cons, List.forall_mem_cons, ← ih]
    cases f a with
    | none => simp
    | some b =>
      cases as.mapM f with
      | none => simp
      | some bs => simp

/-- A row of a rejected item that `ops.ingest_errors` can hold. -/
def ErrorRowFits (sql : Sql) (row : Option String × String × String) : Prop :=
  sql.fitsOpt 64 row.1 = true ∧ sql.fits 1000 row.2.1 = true ∧ (sql.text none (.str row.2.2)).isSome = true

instance (sql : Sql) (row : Option String × String × String) : Decidable (ErrorRowFits sql row) :=
  inferInstanceAs (Decidable (_ ∧ _ ∧ _))

private theorem isSome_textNotNull {width : Option Nat} {s : String} :
    (sql.textNotNull width (.str s)).isSome ↔ (sql.text width (.str s)).isSome := by
  unfold Sql.textNotNull
  cases h : sql.text width (.str s) with
  | none => rfl
  | some value =>
    rw [sql.text_str h]
    rfl

theorem isSome_insertErrors {db : Db sql} {rows : List (Option String × String × String)} :
    (insertErrors db rows).isSome ↔ ∀ row ∈ rows, ErrorRowFits sql row := by
  unfold insertErrors
  rw [Option.isSome_map, isSome_mapM]
  refine forall₂_congr fun row _ => ?_
  obtain ⟨source, reason, raw⟩ := row
  unfold ErrorRowFits Sql.fitsOpt Sql.fits
  rw [← isSome_textNotNull (s := reason)]
  cases hs : sql.text (some 64) (optStr source) with
  | none => simp [hs]
  | some value =>
    cases hr : sql.textNotNull (some 1000) (.str reason) with
    | none => simp [hs, hr]
    | some text =>
      cases ht : sql.text none (.str raw) with
      | none => simp [hs, hr, ht]
      | some stored => simp [hs, hr, ht]

/-- Which rows `ops.ingest_errors` can hold, under a database that goes by the lengths. -/
theorem errorRowFits_iff (hstrict : sql.Strict) (row : Option String × String × String) :
    ErrorRowFits sql row ↔ (∀ id, row.1 = some id → Sql.utf16Length id ≤ 64) ∧ Sql.utf16Length row.2.1 ≤ 1000 := by
  obtain ⟨source, reason, raw⟩ := row
  have hsource : sql.fitsOpt 64 source = true ↔ ∀ id, source = some id → Sql.utf16Length id ≤ 64 := by
    unfold Sql.fitsOpt
    cases source with
    | none =>
      rw [optStr, sql.text_null]
      exact ⟨fun _ _ => by simp, fun _ => rfl⟩
    | some id =>
      rw [optStr, hstrict.text]
      exact ⟨fun h _ hid => Option.some.inj hid ▸ h, fun h => h id rfl⟩
  have hreason : sql.fits 1000 reason = true ↔ Sql.utf16Length reason ≤ 1000 := hstrict.text 1000 reason
  rw [ErrorRowFits, hsource, hreason]
  exact ⟨fun h => ⟨h.1, h.2.1⟩, fun h => ⟨h.1, h.2, hstrict.textMax raw⟩⟩

/-- The new ids are distinct for the database just in case no two of them are spellings of one. -/
theorem nodup_keys {db : Db sql} {prepared : List PreparedEvent} {new : List EventEnvelope}
    (hnew : new = (newEnvelopes db prepared).filter fun env => (db.events.lookup (sql.key env.eventId)).isNone) :
    (new.map fun env => sql.key env.eventId).Nodup ↔
      ∀ env env', Fresh db prepared env → Fresh db prepared env' → db.events.lookup (sql.key env.eventId) = none →
        sql.key env.eventId = sql.key env'.eventId → env.eventId = env'.eventId := by
  have hids := toInsert_nodup (existingEventIds db ((validEnvelopes prepared).map (·.eventId))) []
    (validEnvelopes prepared)
  have hmem : ∀ env, env ∈ new ↔ Fresh db prepared env ∧ db.events.lookup (sql.key env.eventId) = none := by
    intro env
    rw [hnew, List.mem_filter, mem_newEnvelopes, Option.isNone_iff_eq_none]
  have hnodup : new.Nodup := by
    rw [hnew]
    exact (List.Nodup.of_map _ hids).filter _
  rw [List.nodup_map_iff_inj_on hnodup]
  constructor
  · intro h env env' hfresh hfresh' hlookup hkey
    have hlookup' : db.events.lookup (sql.key env'.eventId) = none := hkey ▸ hlookup
    rw [h env ((hmem env).2 ⟨hfresh, hlookup⟩) env' ((hmem env').2 ⟨hfresh', hlookup'⟩) hkey]
  · intro h env henv env' henv' hkey
    obtain ⟨hfresh, hlookup⟩ := (hmem env).1 henv
    have hfresh' := ((hmem env').1 henv').1
    exact List.inj_on_of_nodup_map hids (mem_newEnvelopes.2 hfresh) (mem_newEnvelopes.2 hfresh')
      (h env env' hfresh hfresh' hlookup hkey)

theorem isSome_insertEvents {db : Db sql} {prepared : List PreparedEvent} :
    (insertEvents db (newEnvelopes db prepared)).isSome ↔
      (∀ env, Fresh db prepared env → sendable env = true) ∧
      (∀ env, Fresh db prepared env → db.events.lookup (sql.key env.eventId) = none → sql.fitsLog env = true) ∧
      ∀ env env', Fresh db prepared env → Fresh db prepared env' → db.events.lookup (sql.key env.eventId) = none →
        sql.key env.eventId = sql.key env'.eventId → env.eventId = env'.eventId := by
  unfold insertEvents
  dsimp only
  generalize hnew : (newEnvelopes db prepared).filter
    (fun env => (db.events.lookup (sql.key env.eventId)).isNone) = new
  have hsend : (newEnvelopes db prepared).all sendable = true ↔ ∀ env, Fresh db prepared env → sendable env = true := by
    simp only [List.all_eq_true, mem_newEnvelopes]
  have hfits : new.all sql.fitsLog = true ↔ ∀ env, Fresh db prepared env →
      db.events.lookup (sql.key env.eventId) = none → sql.fitsLog env = true := by
    simp only [← hnew, List.all_eq_true, List.mem_filter, mem_newEnvelopes, Option.isNone_iff_eq_none, and_imp]
  have hinsert : (new.foldlM Table.insert db.events).isSome ↔ (new.map fun env => sql.key env.eventId).Nodup := by
    rw [Table.isSome_foldlM_insert, List.nodup_append]
    refine ⟨fun h => h.2.1, fun h => ⟨db.events.unique, h, ?_⟩⟩
    rintro k hk k' hk' rfl
    obtain ⟨stored, hstored, hkey⟩ := List.mem_map.1 hk
    obtain ⟨env, henv, rfl⟩ := List.mem_map.1 hk'
    rw [← hnew, List.mem_filter, Option.isNone_iff_eq_none, Table.lookup_eq_none] at henv
    exact henv.2 stored hstored hkey
  rw [← nodup_keys hnew.symm, ← hinsert, ← hsend, ← hfits]
  split
  case isTrue hall =>
    rw [Bool.and_eq_true] at hall
    rw [Option.isSome_map]
    exact ⟨fun h => ⟨hall.1, hall.2, h⟩, fun h => h.2.2⟩
  case isFalse hall =>
    rw [Bool.and_eq_true] at hall
    exact ⟨by simp, fun h => absurd ⟨h.1, h.2.1⟩ hall⟩

private theorem logErrors_none (db : Db sql) (rows : List (Option String × String × String)) :
    (logErrors none db rows).isSome = (insertErrors db rows).isSome ∧
      ∀ logged, logErrors none db rows = some logged → ∃ errors, logged = { db with ingestErrors := errors } := by
  unfold logErrors
  cases rows with
  | nil =>
    refine ⟨rfl, fun logged h => ?_⟩
    obtain rfl := Option.some.inj h
    exact ⟨db.ingestErrors, rfl⟩
  | cons row rows =>
    refine ⟨rfl, fun logged h => ?_⟩
    obtain ⟨errors, -, rfl⟩ := Option.map_eq_some_iff.1 h
    exact ⟨_, rfl⟩

private theorem isSome_insertEvents_frame {db : Db sql} (errors : List IngestError) (envs : List EventEnvelope) :
    (insertEvents { db with ingestErrors := errors } envs).isSome = (insertEvents db envs).isSome := by
  unfold insertEvents
  dsimp only
  split
  · rw [Option.isSome_map, Option.isSome_map]
  · rfl

private theorem logEvents_none {db : Db sql} (errors : List IngestError) (envs : List EventEnvelope) :
    (logEvents none { db with ingestErrors := errors } envs).isSome = (insertEvents db envs).isSome := by
  rw [← isSome_insertEvents_frame errors]
  cases envs with
  | nil => rfl
  | cons env envs => rfl

/-- The transaction on the log, where no step fails. -/
theorem isSome_writeLog {db : Db sql} {prepared : List PreparedEvent} :
    (writeLog none db prepared).isSome ↔
      (insertErrors db (rejectedRows prepared)).isSome ∧ (insertEvents db (newEnvelopes db prepared)).isSome := by
  obtain ⟨hsome, hframe⟩ := logErrors_none db (rejectedRows prepared)
  unfold writeLog
  rw [if_neg (by simp), if_neg (by simp), ← hsome]
  cases hlog : logErrors none db (rejectedRows prepared) with
  | none => simp
  | some logged =>
    obtain ⟨errors, rfl⟩ := hframe logged hlog
    rw [Option.bind_some, ← logEvents_none errors]
    cases logEvents none { db with ingestErrors := errors } (newEnvelopes db prepared) with
    | none => simp
    | some logged => simp

theorem utf16Length_of_bmp {s : String} (h : Bmp s) : Sql.utf16Length s = s.toList.length := by
  have hone : ∀ c ∈ s.toList, (if c.toNat < 0x10000 then 1 else 2) = 1 := fun c hc => if_pos (h c hc)
  rw [Sql.utf16Length, List.map_congr_left hone, List.map_const', List.sum_replicate_nat, Nat.mul_one]

/-- The rows of the rejected items: a reason fits, for it is plain text and cut to 1000 characters. -/
private theorem rejectedRows_fit (hstrict : sql.Strict) {prepared : List PreparedEvent}
    (hplain : ∀ item ∈ prepared, ∀ error, item.error = some error → Bmp error) :
    (∀ row ∈ rejectedRows prepared, ErrorRowFits sql row) ↔
      ∀ item ∈ prepared, item.envelope = none → ∀ id, item.sourceMachineId = some id → Sql.utf16Length id ≤ 64 := by
  simp only [errorRowFits_iff hstrict]
  unfold rejectedRows
  rw [List.forall_mem_map]
  have hrej : ∀ item, item ∈ prepared.filter (fun item => item.envelope.isNone) ↔
      item ∈ prepared ∧ item.envelope = none := by
    intro item
    rw [List.mem_filter, Option.isNone_iff_eq_none]
  constructor
  · intro h item hitem henv
    exact (h item ((hrej item).2 ⟨hitem, henv⟩)).1
  · intro h item hmem
    obtain ⟨hitem, henv⟩ := (hrej item).1 hmem
    refine ⟨h item hitem henv, ?_⟩
    have hreason : Bmp ((item.error.filter (· ≠ "")).getD "rejected") := by
      cases herror : item.error.filter (· ≠ "") with
      | none => exact bmp_of_all (by decide)
      | some error => exact hplain item hitem error (Option.filter_eq_some_iff.1 herror).1
    dsimp only
    rw [utf16Length_of_bmp (hreason.take maxReasonChars), String.toList_ofList]
    exact List.length_take_le _ _

/-! ### The verdicts -/

private theorem outcomes_index (existing : List String) (index : Nat) (seen : List String)
    (items : List PreparedEvent) :
    (outcomes existing index seen items).map (·.index) = List.range' index items.length := by
  induction items generalizing index seen with
  | nil => rfl
  | cons item items ih =>
    rw [List.length_cons, List.range'_succ]
    unfold outcomes
    split
    · rw [List.map_cons, ih]
    · split
      · rw [List.map_cons, ih]
      · rw [List.map_cons, ih]

/-- An ingest in which no step fails returns just in case the batch is harmless. -/
theorem isSome_ingestEvents (hstrict : sql.Strict) {db : Db sql} {prepared : List PreparedEvent}
    (hplain : ∀ item ∈ prepared, ∀ error, item.error = some error → Bmp error) :
    (ingestEvents none db prepared).2.isSome ↔ Harmless db prepared := by
  have hlog : (ingestEvents none db prepared).2.isSome = (writeLog none db prepared).isSome := by
    rw [ingestEvents_none]
    cases writeLog none db prepared with
    | none => rfl
    | some logged => rfl
  rw [hlog, isSome_writeLog, isSome_insertErrors, rejectedRows_fit hstrict hplain, isSome_insertEvents]
  simp only [hstrict.fitsLog]
  constructor
  · rintro ⟨hrejected, hsendable, hcolumns, hspelling⟩
    exact ⟨hrejected, hsendable, hcolumns, hspelling⟩
  · rintro ⟨hrejected, hsendable, hcolumns, hspelling⟩
    exact ⟨hrejected, hsendable, hcolumns, hspelling⟩

private theorem boundBatch_plain {pydantic : Pydantic} (auth : AuthContext) (events : List Json) :
    ∀ item ∈ boundBatch auth (events.map (prepareEvent sql pydantic)), ∀ error, item.error = some error →
      Bmp error := by
  have hprepared : ∀ item ∈ events.map (prepareEvent sql pydantic), ∀ error, item.error = some error → Bmp error := by
    intro item hitem error herror
    obtain ⟨event, -, rfl⟩ := List.mem_map.1 hitem
    exact prepareEvent_error herror
  unfold boundBatch
  split
  · exact hprepared
  · intro bound hbound error herror
    obtain ⟨item, hitem, rfl⟩ := List.mem_map.1 hbound
    unfold bindEvent at herror
    split at herror
    · exact hprepared item hitem error herror
    · split at herror
      · obtain rfl := Option.some.inj herror
        exact bmp_of_all (by decide)
      · exact hprepared item hitem error herror

/-- **When a batch gets its verdicts.**  A batch of at most 500 items is answered with one verdict for each item, in
their order, just in case it is harmless. -/
theorem verdicts_returned_iff (hstrict : sql.Strict) {pydantic : Pydantic} {db : Db sql} {auth : AuthContext}
    {body : List (String × Json)} {events : List Json} (hevents : Json.get body "events" = .arr events)
    (hlength : events.length ≤ maxBatchEvents) :
    (∃ outcomes, (ingestBatch pydantic none db auth (.obj body)).2 = .results outcomes ∧
      outcomes.map (·.index) = List.range events.length) ↔
    Harmless db (boundBatch auth (events.map (prepareEvent sql pydantic))) := by
  rw [← isSome_ingestEvents hstrict (boundBatch_plain auth events)]
  unfold ingestBatch ingestPrepared
  simp only [hevents, List.length_map, if_neg (Nat.not_lt.2 hlength)]
  rcases hingest : ingestEvents none db (boundBatch auth (events.map (prepareEvent sql pydantic))) with ⟨db', results⟩
  cases results with
  | none =>
    refine ⟨?_, by simp⟩
    rintro ⟨_, h, -⟩
    cases h
  | some results =>
    refine ⟨fun _ => rfl, fun _ => ⟨results, rfl, ?_⟩⟩
    have hbound : (boundBatch auth (events.map (prepareEvent sql pydantic))).length = events.length := by
      unfold boundBatch
      split
      · exact List.length_map _
      · rw [List.length_map, List.length_map]
    rw [(ingestEvents_some hingest).1, outcomes_index, hbound, List.range_eq_range']

/-! ### A machine id of 65 characters -/

private theorem sample_strict : Sql.sample.Strict where
  text width s := by
    by_cases h : Sql.utf16Length s ≤ width
    · simp [Sql.sample, h]
    · simp [Sql.sample, h]
  textMax _ := rfl
  fitsLog _ := rfl

/-- pydantic on integers and on one datetime. -/
private def samplePydantic : Pydantic where
  int
    | .int n => .ok n
    | _ => .error "Input should be a valid integer"
  awareDatetime
    | .str "2026-01-01T00:00:00Z" => .ok 63902822400000000
    | _ => .error "Input should be a valid datetime"
  int_message := by
    intro v msg h
    split at h
    · cases h
    · obtain rfl := Except.error.inj h
      exact bmp_of_all (by decide)
  awareDatetime_message := by
    intro v msg h
    split at h
    · cases h
    · obtain rfl := Except.error.inj h
      exact bmp_of_all (by decide)

private def admin : AuthContext := ⟨true, none⟩

/-- A request with these events. -/
private def request (events : List Json) : List (String × Json) := [("events", .arr events)]

private def startedEvent (sessionId : String) : Json :=
  .obj [("event_id", .str "evt_1"), ("event_type", .str "agent.started"),
    ("occurred_at", .str "2026-01-01T00:00:00Z"), ("machine_id", .str "mach_1"), ("session_id", .str sessionId)]

/-- A valid event and an item that is no object. -/
theorem malformed_item_rejected : ∃ outcomes,
    (ingestBatch samplePydantic none (Db.empty : Db Sql.sample) admin
        (.obj (request [startedEvent "s1", .null]))).2 = .results outcomes ∧
      outcomes.map (·.index) = [0, 1] := by
  have hharmless : Harmless (Db.empty : Db Sql.sample)
      (boundBatch admin ([startedEvent "s1", .null].map (prepareEvent Sql.sample samplePydantic))) :=
    (isSome_ingestEvents sample_strict (boundBatch_plain admin _)).1 (by decide +kernel)
  have hlength : [startedEvent "s1", .null].length ≤ maxBatchEvents := by decide
  exact (verdicts_returned_iff sample_strict rfl hlength).2 hharmless

/-- The event alone is accepted.  Together with an item whose `machine_id` has 65 characters, or with an event whose
`session_id` has, the request fails. -/
theorem long_machine_id_blocks :
    (ingestBatch samplePydantic none (Db.empty : Db Sql.sample) admin (.obj (request [startedEvent "s1"]))).2 =
        .results [⟨0, some "evt_1", "accepted", none⟩] ∧
      (ingestBatch samplePydantic none (Db.empty : Db Sql.sample) admin
        (.obj (request [startedEvent "s1", .obj [("machine_id", .str (String.ofList (List.replicate 65 'm')))]]))).2 =
        .error 500 "internal_error" ∧
      (ingestBatch samplePydantic none (Db.empty : Db Sql.sample) admin
        (.obj (request [.null, startedEvent (String.ofList (List.replicate 65 's'))]))).2 =
        .error 500 "internal_error" := by
  decide +kernel

end SqlStore

end AgentOS
