import AgentOS.Hub.Ingest

/-!
# The verdicts of an ingest

`ingest_events` judges an event by looking its id up among the stored spellings, while the database decides by its
collation whether the event is inserted.  The verdicts say what happened to the log just in case no event of the batch
has an id that the log holds in another spelling (`verdicts_accurate_iff`).
-/

namespace AgentOS

namespace SqlStore

variable {sql : Sql}

/-- Item `i` of the batch is the envelope `env`, and its result is `result`. -/
structure JudgedAt (prepared : List PreparedEvent) (results : List Outcome) (i : Nat) (env : EventEnvelope)
    (result : Outcome) : Prop where
  item : ∃ item, prepared[i]? = some item ∧ item.envelope = some env
  result : results[i]? = some result

/-- The results say what an ingest of the batch has made of `ops.events`. -/
structure VerdictsAccurate (db db' : Db sql) (prepared : List PreparedEvent) (results : List Outcome) : Prop where
  length : results.length = prepared.length
  aligned : ∀ (i : Nat) (item : PreparedEvent) (result : Outcome), prepared[i]? = some item →
    results[i]? = some result → result.index = i ∧ result.eventId = item.envelope.map (·.eventId) ∧
      (result.outcome = "rejected" ↔ item.envelope = none)
  verdict : ∀ i env result, JudgedAt prepared results i env result →
    result.outcome = "accepted" ∨ result.outcome = "duplicate"
  accepted : ∀ i env result, JudgedAt prepared results i env result → result.outcome = "accepted" →
    db.events.lookup (sql.key env.eventId) = none ∧ db'.events.lookup (sql.key env.eventId) = some env
  duplicate : ∀ i env result, JudgedAt prepared results i env result → result.outcome = "duplicate" →
    (db.events.lookup (sql.key env.eventId)).isSome ∨ ∃ j < i, ∃ item env', prepared[j]? = some item ∧
      item.envelope = some env' ∧ sql.key env'.eventId = sql.key env.eventId
  others : ∃ added, db'.events.rows = db.events.rows ++ added ∧ ∀ env ∈ added, ∃ i result,
    JudgedAt prepared results i env result ∧ result.outcome = "accepted"

/-- What the log knows of the batch, it knows by the same spelling of the id. -/
def SameSpelling (db : Db sql) (prepared : List PreparedEvent) : Prop :=
  ∀ env ∈ validEnvelopes prepared, ∀ stored ∈ db.events.rows,
    sql.key stored.eventId = sql.key env.eventId → stored.eventId = env.eventId

/-! ### The loop that judges -/

theorem outcomes_length (existing : List String) (index : Nat) (seen : List String) (items : List PreparedEvent) :
    (outcomes existing index seen items).length = items.length := by
  induction items generalizing index seen with
  | nil => rfl
  | cons item items ih =>
    unfold outcomes
    split
    · rw [List.length_cons, ih, List.length_cons]
    · split
      · rw [List.length_cons, ih, List.length_cons]
      · rw [List.length_cons, ih, List.length_cons]

/-- The verdict on a valid item: it is inserted, or its id is stored, was seen before, or occurs earlier. -/
def Verdict (existing seen : List String) (items : List PreparedEvent) (i : Nat) (env : EventEnvelope)
    (result : Outcome) : Prop :=
  (result.outcome = "accepted" ∧ env ∈ toInsert existing seen (validEnvelopes items)) ∨
    (result.outcome = "duplicate" ∧ (env.eventId ∈ existing ∨ env.eventId ∈ seen ∨ ∃ j < i, ∃ item env',
      items[j]? = some item ∧ item.envelope = some env' ∧ env'.eventId = env.eventId))

theorem validEnvelopes_cons {item : PreparedEvent} {items : List PreparedEvent} {env : EventEnvelope}
    (h : item.envelope = some env) : validEnvelopes (item :: items) = env :: validEnvelopes items := by
  rw [validEnvelopes, List.filterMap_cons_some h]
  rfl

theorem validEnvelopes_cons_none {item : PreparedEvent} {items : List PreparedEvent} (h : item.envelope = none) :
    validEnvelopes (item :: items) = validEnvelopes items := by
  rw [validEnvelopes, List.filterMap_cons_none h]
  rfl

/-- A verdict in the rest of a batch is a verdict in the batch. -/
private theorem Verdict.cons {existing seen seen' : List String} {item : PreparedEvent} {items : List PreparedEvent}
    {i : Nat} {env : EventEnvelope} {result : Outcome} (h : Verdict existing seen' items i env result)
    (hinsert : toInsert existing seen' (validEnvelopes items) ⊆ toInsert existing seen (validEnvelopes (item :: items)))
    (hseen : ∀ id ∈ seen', id ∈ seen ∨ ∃ e, item.envelope = some e ∧ e.eventId = id) :
    Verdict existing seen (item :: items) (i + 1) env result := by
  rcases h with ⟨hout, hmem⟩ | ⟨hout, h | h | ⟨j, hj, item', env', hitem, henv, hid⟩⟩
  · exact Or.inl ⟨hout, hinsert hmem⟩
  · exact Or.inr ⟨hout, Or.inl h⟩
  · rcases hseen env.eventId h with h | ⟨e, he, hid⟩
    · exact Or.inr ⟨hout, Or.inr (Or.inl h)⟩
    · exact Or.inr ⟨hout, Or.inr (Or.inr ⟨0, Nat.succ_pos _, item, e, rfl, he, hid⟩)⟩
  · exact Or.inr ⟨hout, Or.inr (Or.inr ⟨j + 1, Nat.succ_lt_succ hj, item', env', hitem, henv, hid⟩)⟩

/-- Every item has its result, in its place. -/
theorem outcomes_get (existing : List String) (index : Nat) (seen : List String) {items : List PreparedEvent} {i : Nat}
    {item : PreparedEvent} (h : items[i]? = some item) :
    ∃ result, (outcomes existing index seen items)[i]? = some result ∧ result.index = index + i ∧
      result.eventId = item.envelope.map (·.eventId) ∧ (item.envelope = none → result.outcome = "rejected") ∧
        ∀ env, item.envelope = some env → Verdict existing seen items i env result := by
  induction items generalizing index seen i with
  | nil => simp at h
  | cons first items ih =>
    cases henv : first.envelope with
    | none =>
      cases i with
      | zero =>
        obtain rfl : first = item := by simpa using h
        simp only [outcomes, henv]
        exact ⟨_, rfl, rfl, rfl, fun _ => rfl, fun _ => by simp⟩
      | succ i =>
        obtain ⟨result, hget, hindex, hid, hrej, hverdict⟩ := ih (index + 1) seen (i := i) (by simpa using h)
        simp only [outcomes, henv]
        refine ⟨result, hget, by omega, hid, hrej, fun env he => (hverdict env he).cons ?_ fun id hid => Or.inl hid⟩
        rw [validEnvelopes_cons_none henv]
        exact List.Subset.refl _
    | some e =>
      by_cases hold : e.eventId ∈ existing ∨ e.eventId ∈ seen
      · -- judged a duplicate
        have hinsert : toInsert existing seen (validEnvelopes (first :: items)) =
            toInsert existing seen (validEnvelopes items) := by
          rw [validEnvelopes_cons henv, toInsert, if_pos hold]
        cases i with
        | zero =>
          obtain rfl : first = item := by simpa using h
          simp only [outcomes, henv, if_pos hold]
          refine ⟨_, rfl, rfl, rfl, by simp, fun env he => ?_⟩
          obtain rfl := Option.some.inj he
          exact Or.inr ⟨rfl, hold.imp_right Or.inl⟩
        | succ i =>
          obtain ⟨result, hget, hindex, hid, hrej, hverdict⟩ := ih (index + 1) seen (i := i) (by simpa using h)
          simp only [outcomes, henv, if_pos hold]
          refine ⟨result, hget, by omega, hid, hrej, fun env he => (hverdict env he).cons ?_ fun id hid => Or.inl hid⟩
          rw [hinsert]
          exact List.Subset.refl _
      · have hinsert : toInsert existing seen (validEnvelopes (first :: items)) =
            e :: toInsert existing (e.eventId :: seen) (validEnvelopes items) := by
          rw [validEnvelopes_cons henv, toInsert, if_neg hold]
        cases i with
        | zero =>
          obtain rfl : first = item := by simpa using h
          simp only [outcomes, henv, if_neg hold]
          refine ⟨_, rfl, rfl, rfl, by simp, fun env he => ?_⟩
          obtain rfl := Option.some.inj he
          exact Or.inl ⟨rfl, hinsert ▸ List.mem_cons_self⟩
        | succ i =>
          obtain ⟨result, hget, hindex, hid, hrej, hverdict⟩ :=
            ih (index + 1) (e.eventId :: seen) (i := i) (by simpa using h)
          simp only [outcomes, henv, if_neg hold]
          refine ⟨result, hget, by omega, hid, hrej, fun env he => (hverdict env he).cons ?_ fun id hid => ?_⟩
          · rw [hinsert]
            exact List.subset_cons_self _ _
          · rcases List.mem_cons.1 hid with rfl | hid
            · exact Or.inr ⟨e, henv, rfl⟩
            · exact Or.inl hid

theorem JudgedAt.judged {existing : List String} {items : List PreparedEvent} {i : Nat} {env : EventEnvelope}
    {result : Outcome} (h : JudgedAt items (outcomes existing 0 [] items) i env result) :
    Verdict existing [] items i env result := by
  obtain ⟨⟨item, hitem, henv⟩, hresult⟩ := h
  obtain ⟨result', hresult', -, -, -, hverdict⟩ := outcomes_get existing 0 [] hitem
  obtain rfl := Option.some.inj (hresult.symm.trans hresult')
  exact hverdict env henv

/-- What is inserted was judged accepted. -/
theorem exists_accepted (existing : List String) (index : Nat) (seen : List String) {items : List PreparedEvent}
    {env : EventEnvelope} (h : env ∈ toInsert existing seen (validEnvelopes items)) : ∃ i result,
      JudgedAt items (outcomes existing index seen items) i env result ∧ result.outcome = "accepted" := by
  induction items generalizing index seen with
  | nil => cases h
  | cons first items ih =>
    have hcons : ∀ {results : List Outcome} {r : Outcome} {i : Nat} {result : Outcome},
        JudgedAt items results i env result → JudgedAt (first :: items) (r :: results) (i + 1) env result :=
      fun h => ⟨h.item, h.result⟩
    cases henv : first.envelope with
    | none =>
      rw [validEnvelopes_cons_none henv] at h
      obtain ⟨i, result, hat, hout⟩ := ih (index + 1) seen h
      simp only [outcomes, henv]
      exact ⟨i + 1, result, hcons hat, hout⟩
    | some e =>
      rw [validEnvelopes_cons henv, toInsert] at h
      by_cases hold : e.eventId ∈ existing ∨ e.eventId ∈ seen
      · rw [if_pos hold] at h
        obtain ⟨i, result, hat, hout⟩ := ih (index + 1) seen h
        simp only [outcomes, henv, if_pos hold]
        exact ⟨i + 1, result, hcons hat, hout⟩
      · rw [if_neg hold] at h
        simp only [outcomes, henv, if_neg hold]
        rcases List.mem_cons.1 h with rfl | h
        · exact ⟨0, _, ⟨⟨first, rfl, henv⟩, rfl⟩, rfl⟩
        · obtain ⟨i, result, hat, hout⟩ := ih (index + 1) (e.eventId :: seen) h
          exact ⟨i + 1, result, hcons hat, hout⟩

/-- What the results of an ingest say, and what it has made of the log. -/
theorem ingestEvents_some {fault : Option DbStep} {db db' : Db sql} {prepared : List PreparedEvent}
    {results : List Outcome} (h : ingestEvents fault db prepared = (db', some results)) :
    results = outcomes (existingEventIds db ((validEnvelopes prepared).map (·.eventId))) 0 [] prepared ∧
      db'.events.rows = db.events.rows ++
        (newEnvelopes db prepared).filter fun env => (db.events.lookup (sql.key env.eventId)).isNone := by
  unfold ingestEvents at h
  cases hlog : writeLog fault db prepared with
  | none =>
    rw [hlog] at h
    cases h
  | some logged =>
    obtain ⟨events, errors, rfl, hrows⟩ := writeLog_frame hlog
    rw [hlog] at h
    dsimp only at h
    split at h
    · cases h
    · obtain ⟨rfl, hresults⟩ := Prod.mk.inj h
      split at hresults
      · exact ⟨(Option.some.inj hresults).symm, hrows⟩
      · cases hresults

theorem mem_existingEventIds {db : Db sql} {ids : List String} {stored : EventEnvelope}
    (hstored : stored ∈ db.events.rows)
    {id : String} (hid : id ∈ ids) (h : sql.key id = sql.key stored.eventId) :
    stored.eventId ∈ existingEventIds db ids := by
  refine List.mem_map_of_mem (List.mem_filter.2 ⟨hstored, ?_⟩)
  rw [List.any_eq_true]
  exact ⟨id, hid, decide_eq_true h⟩

theorem exists_stored {db : Db sql} {ids : List String} {id : String} (h : id ∈ existingEventIds db ids) :
    ∃ stored ∈ db.events.rows, stored.eventId = id := by
  obtain ⟨stored, hstored, rfl⟩ := List.mem_map.1 h
  exact ⟨stored, List.mem_of_mem_filter hstored, rfl⟩

/-- Where the spellings agree, what is inserted is new to the database. -/
theorem lookup_newEnvelopes {db : Db sql} {prepared : List PreparedEvent} (hsame : SameSpelling db prepared)
    {env : EventEnvelope} (henv : env ∈ newEnvelopes db prepared) : db.events.lookup (sql.key env.eventId) = none := by
  obtain ⟨hvalid, hnew, -⟩ := mem_toInsert henv
  refine Table.lookup_eq_none.2 fun stored hstored hkey => hnew ?_
  rw [← hsame env hvalid stored hstored hkey]
  exact mem_existingEventIds hstored (List.mem_map_of_mem hvalid) hkey.symm

private theorem verdictsAccurate_of_sameSpelling {fault : Option DbStep} {db db' : Db sql}
    {prepared : List PreparedEvent} {results : List Outcome}
    (h : ingestEvents fault db prepared = (db', some results)) (hsame : SameSpelling db prepared) :
    VerdictsAccurate db db' prepared results := by
  obtain ⟨rfl, hrows⟩ := ingestEvents_some h
  have hall : (newEnvelopes db prepared).filter (fun env => (db.events.lookup (sql.key env.eventId)).isNone) =
      newEnvelopes db prepared := by
    refine List.filter_eq_self.2 fun env henv => ?_
    rw [lookup_newEnvelopes hsame henv]
    rfl
  rw [hall] at hrows
  constructor
  case length => exact outcomes_length _ 0 [] prepared
  case aligned =>
    intro i item result hitem hresult
    obtain ⟨result', hresult', hindex, hid, hrej, hverdict⟩ := outcomes_get _ 0 [] hitem
    obtain rfl := Option.some.inj (hresult.symm.trans hresult')
    refine ⟨by omega, hid, fun hout => ?_, hrej⟩
    cases henv : item.envelope with
    | none => rfl
    | some env =>
      rcases hverdict env henv with ⟨h, -⟩ | ⟨h, -⟩
      · exact absurd (h.symm.trans hout) (by decide)
      · exact absurd (h.symm.trans hout) (by decide)
  case verdict => exact fun i env result hat => hat.judged.imp And.left And.left
  case accepted =>
    intro i env result hat hout
    rcases hat.judged with ⟨-, hmem⟩ | ⟨h, -⟩
    · have hmem : env ∈ newEnvelopes db prepared := hmem
      refine ⟨lookup_newEnvelopes hsame hmem, Table.lookup_eq_some.2 ⟨?_, rfl⟩⟩
      rw [hrows]
      exact List.mem_append_right _ hmem
    · exact absurd (h.symm.trans hout) (by decide)
  case duplicate =>
    intro i env result hat hout
    rcases hat.judged with ⟨h, -⟩ | ⟨-, h | h | ⟨j, hj, item, env', hitem, henv, hid⟩⟩
    · exact absurd (h.symm.trans hout) (by decide)
    · obtain ⟨stored, hstored, hid⟩ := exists_stored h
      left
      rw [Table.lookup_isSome]
      exact List.mem_map.2 ⟨stored, hstored, congrArg sql.key hid⟩
    · cases h
    · exact Or.inr ⟨j, hj, item, env', hitem, henv, congrArg sql.key hid⟩
  case others => exact ⟨_, hrows, fun env henv => exists_accepted _ 0 [] henv⟩

/-- The verdicts of an ingest are accurate just in case the log holds no event of the batch under another spelling of
its id. -/
theorem verdicts_accurate_iff {fault : Option DbStep} {db db' : Db sql} {prepared : List PreparedEvent}
    {results : List Outcome} (h : ingestEvents fault db prepared = (db', some results)) :
    VerdictsAccurate db db' prepared results ↔ SameSpelling db prepared := by
  refine ⟨fun hacc env henv stored hstored hkey => ?_, verdictsAccurate_of_sameSpelling h⟩
  obtain ⟨rfl, -⟩ := ingestEvents_some h
  -- an id that is stored in another spelling is not among the stored spellings, so it is judged accepted
  by_contra hne
  have hnew : env.eventId ∉ existingEventIds db ((validEnvelopes prepared).map (·.eventId)) := by
    intro hmem
    obtain ⟨stored', hstored', hid⟩ := exists_stored hmem
    have heq : stored' = stored := Table.eq_of_key hstored' hstored (by rw [hid, hkey])
    exact hne (heq ▸ hid)
  rcases exists_toInsert _ [] henv with hold | hold | ⟨e, he, hid⟩
  · exact hnew hold
  · cases hold
  · obtain ⟨i, result, hat, hout⟩ := exists_accepted _ 0 [] he
    have habsent := (hacc.accepted i e result hat hout).1
    rw [hid] at habsent
    exact Table.lookup_eq_none.1 habsent stored hstored hkey

/-! ### Two spellings of one id -/

/-- A batch of one event with this id. -/
private def oneEvent (eventId : String) : List PreparedEvent :=
  [.valid {
    eventId := eventId, eventType := "task.updated", occurredAt := 0, machineId := "mach_1", agentId := none
    sessionId := none, projectId := none, repositoryId := none, taskId := none, payload := [], schemaVersion := 1 } ""]

/-- The database after the batch. -/
private def afterEvent (db : Db Sql.sample) (eventId : String) : Db Sql.sample :=
  (ingestEvents none db (oneEvent eventId)).1

private theorem ingest_oneEvent (db : Db Sql.sample) (eventId : String)
    (h : (ingestEvents none db (oneEvent eventId)).2.isSome = true) :
    ∃ results, ingestEvents none db (oneEvent eventId) = (afterEvent db eventId, some results) := by
  obtain ⟨results, hresults⟩ := Option.isSome_iff_exists.1 h
  exact ⟨results, Prod.ext rfl hresults⟩

/-- The same event twice, in one spelling. -/
theorem redelivered_event_judged : ∃ results,
    VerdictsAccurate (afterEvent Db.empty "evt_1") (afterEvent (afterEvent Db.empty "evt_1") "evt_1") (oneEvent "evt_1")
      results := by
  obtain ⟨results, h⟩ := ingest_oneEvent (afterEvent Db.empty "evt_1") "evt_1" (by decide +kernel)
  refine ⟨results, (verdicts_accurate_iff h).2 fun env henv stored hstored _ => ?_⟩
  have hids : ∀ stored ∈ (afterEvent Db.empty "evt_1").events.rows, stored.eventId = "evt_1" := by decide +kernel
  have hbatch : ∀ env ∈ validEnvelopes (oneEvent "evt_1"), env.eventId = "evt_1" := by decide +kernel
  rw [hids stored hstored, hbatch env henv]

/-- The log holds `EVT_1` and the batch brings `evt_1`: the event is judged accepted and is not stored. -/
theorem respelled_event_lost : ∃ result : Outcome,
    ingestEvents none (afterEvent Db.empty "EVT_1") (oneEvent "evt_1") =
        (afterEvent (afterEvent Db.empty "EVT_1") "evt_1", some [result]) ∧
      result.outcome = "accepted" ∧
      (∀ env ∈ (afterEvent (afterEvent Db.empty "EVT_1") "evt_1").events.rows, env.eventId = "EVT_1") ∧
      ¬ VerdictsAccurate (afterEvent Db.empty "EVT_1") (afterEvent (afterEvent Db.empty "EVT_1") "evt_1")
        (oneEvent "evt_1") [result] := by
  have hlog : ∀ env ∈ (afterEvent (afterEvent Db.empty "EVT_1") "evt_1").events.rows, env.eventId = "EVT_1" := by
    decide +kernel
  refine ⟨⟨0, some "evt_1", "accepted", none⟩, rfl, rfl, hlog, fun h => ?_⟩
  have hstored := (h.accepted 0 _ _ ⟨⟨_, rfl, rfl⟩, rfl⟩ rfl).2
  have hid := hlog _ (Table.lookup_eq_some.1 hstored).1
  exact absurd hid (by decide)

end SqlStore

end AgentOS
