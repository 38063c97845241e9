import AgentOS.Memory.Load

/-!
# The dry run of the migration

Where no transaction raises, a dry run gives every document the verdict that the load gives it, and a second load
inserts nothing (`dryRun_eq_load`).
-/

namespace AgentOS.Etl

open Central (StoredDocument Tables)

variable {sql : Sql} {V : Type} {store : Central.MemoryStore PackedFloat V} {server : Server sql V}
  {sourceMachineId : Option String} {db : Tables sql V} {doc : ExtractedDocument}
  {documents : List ExtractedDocument} {existing : String → Option Central.Document}

/-! ### Verdicts -/

/-- No `INSERT` raises. -/
def NoneRaised (state : LoadState sql V) : Prop := ∀ entry ∈ state.verdicts, entry.2 ≠ .raised

/-- The rounds of both loops agree, unless the load raises. -/
private theorem dryRunNext_eq (state : LoadState sql V) (doc : ExtractedDocument)
    (hnone : NoneRaised (loadNext store server sourceMachineId existing state doc)) :
    dryRunNext store.embeddingDim existing (state.seenHashes, state.verdicts) doc =
      ((loadNext store server sourceMachineId existing state doc).seenHashes,
        (loadNext store server sourceMachineId existing state doc).verdicts) := by
  unfold dryRunNext
  obtain ⟨next, hnext, hstep⟩ := loadStep store server sourceMachineId existing state doc
  rw [hnext] at hnone ⊢
  cases hstep with
  | skipped hknown => rw [if_pos hknown]
  | invalid hnew hinvalid => rw [if_neg hnew, hinvalid]
  | raised => exact absurd rfl (hnone (doc, .raised) (List.mem_append_right _ List.mem_cons_self))
  | inserted hnew hvalid _ _ hhash => rw [if_neg hnew, hvalid, hhash]

private theorem dryRun_foldl (state : LoadState sql V) (docs : List ExtractedDocument)
    (hnone : NoneRaised (docs.foldl (loadNext store server sourceMachineId existing) state)) :
    (docs.foldl (dryRunNext store.embeddingDim existing) (state.seenHashes, state.verdicts)).2 =
      (docs.foldl (loadNext store server sourceMachineId existing) state).verdicts := by
  induction docs generalizing state with
  | nil => rfl
  | cons doc docs ih =>
    have hfirst : NoneRaised (loadNext store server sourceMachineId existing state doc) := by
      obtain ⟨verdicts, hverdicts, -⟩ := verdicts_foldl store server sourceMachineId existing
        (loadNext store server sourceMachineId existing state doc) docs
      intro entry hentry
      refine hnone entry ?_
      rw [List.foldl_cons, hverdicts]
      exact List.mem_append_left _ hentry
    rw [List.foldl_cons, dryRunNext_eq state doc hfirst]
    exact ih (loadNext store server sourceMachineId existing state doc) hnone

/-! ### Counts -/

private theorem summary_foldl (summary : LoadSummary) (verdicts : List (ExtractedDocument × Verdict)) :
    (verdicts.foldl LoadSummary.add summary).documentsInserted =
        summary.documentsInserted + verdicts.countP (fun entry => entry.2 = .inserted) ∧
      (verdicts.foldl LoadSummary.add summary).documentsSkipped =
        summary.documentsSkipped + verdicts.countP (fun entry => entry.2 = .skipped) ∧
      ((verdicts.foldl LoadSummary.add summary).documentsFailed.length : Nat) +
        verdicts.countP (fun entry => entry.2 = .inserted) + verdicts.countP (fun entry => entry.2 = .skipped) =
        summary.documentsFailed.length + verdicts.length := by
  induction verdicts generalizing summary with
  | nil => exact ⟨rfl, rfl, rfl⟩
  | cons entry verdicts ih =>
    obtain ⟨hinserted, hskipped, hfailed⟩ := ih (summary.add entry)
    rw [List.foldl_cons, List.countP_cons, List.countP_cons, List.length_cons, hinserted, hskipped]
    obtain ⟨doc, verdict⟩ := entry
    cases verdict with
    | skipped =>
      simp only [LoadSummary.add] at hfailed ⊢
      simp
      omega
    | invalid reason =>
      simp only [LoadSummary.add, List.length_append, List.length_singleton] at hfailed ⊢
      simp
      omega
    | raised =>
      simp only [LoadSummary.add, List.length_append, List.length_singleton] at hfailed ⊢
      simp
      omega
    | inserted =>
      simp only [LoadSummary.add] at hfailed ⊢
      simp
      omega

private theorem countP_verdicts {verdicts : List (ExtractedDocument × Verdict)}
    (hnone : ∀ entry ∈ verdicts, entry.2 ≠ .raised) :
    verdicts.countP (fun entry => entry.2.isInvalid) + verdicts.countP (fun entry => entry.2 = .inserted) +
      verdicts.countP (fun entry => entry.2 = .skipped) = verdicts.length := by
  induction verdicts with
  | nil => rfl
  | cons entry verdicts ih =>
    have hrest := ih fun entry' hentry => hnone entry' (List.mem_cons_of_mem _ hentry)
    have hfirst := hnone entry List.mem_cons_self
    obtain ⟨doc, verdict⟩ := entry
    rw [List.countP_cons, List.countP_cons, List.countP_cons, List.length_cons]
    cases verdict with
    | raised => exact absurd rfl hfirst
    | skipped => simp; omega
    | invalid reason => simp; omega
    | inserted => simp; omega

/-! ### The second load -/

/-- What the run has found or written is there. -/
private structure Present (existing : String → Option Central.Document) (expectedDim : Nat) (db : Tables sql V)
    (state : LoadState sql V) : Prop where
  rows : ∀ row ∈ db.documents.rows, row ∈ state.db.documents.rows
  seen : ∀ hash, (state.seenHashes hash).isSome → ∃ row ∈ state.db.documents.rows, row.contentHash = hash
  entries : ∀ entry ∈ state.verdicts, entry.2 ≠ .raised → validateDocument entry.1 expectedDim ≠ none ∨
    (existing entry.1.docId).isSome ∨ ∃ hash, hashOf entry.1 = some hash ∧
      ∃ row ∈ state.db.documents.rows, row.contentHash = hash

private theorem known_iff {seen : String → Option String} : known existing seen doc = true ↔
    (existing doc.docId).isSome = true ∨ ∃ hash, hashOf doc = some hash ∧ (seen hash).isSome = true := by
  unfold known
  rw [Bool.or_eq_true, Option.any_eq_true]

private theorem present_loadNext {state : LoadState sql V} (h : Present existing store.embeddingDim db state)
    (doc : ExtractedDocument) :
    Present existing store.embeddingDim db (loadNext store server sourceMachineId existing state doc) := by
  obtain ⟨next, hnext, hstep⟩ := loadStep store server sourceMachineId existing state doc
  rw [hnext]
  cases hstep with
  | skipped hknown =>
    refine ⟨h.rows, h.seen, fun entry hentry hraised => ?_⟩
    rcases List.mem_append.1 hentry with hentry | hentry
    · exact h.entries entry hentry hraised
    · obtain rfl := List.mem_singleton.1 hentry
      rcases known_iff.1 hknown with hid | ⟨hash, hhash, hseen⟩
      · exact Or.inr (Or.inl hid)
      · exact Or.inr (Or.inr ⟨hash, hhash, h.seen hash hseen⟩)
  | invalid hnew hinvalid =>
    refine ⟨h.rows, h.seen, fun entry hentry hraised => ?_⟩
    rcases List.mem_append.1 hentry with hentry | hentry
    · exact h.entries entry hentry hraised
    · obtain rfl := List.mem_singleton.1 hentry
      exact Or.inl (by rw [hinvalid]; exact Option.some_ne_none _)
  | raised =>
    refine ⟨h.rows, h.seen, fun entry hentry hraised => ?_⟩
    rcases List.mem_append.1 hentry with hentry | hentry
    · exact h.entries entry hentry hraised
    · obtain rfl := List.mem_singleton.1 hentry
      exact absurd rfl hraised
  | @inserted _ hvalid db' hwrite _ hash hhash =>
    obtain ⟨hrows, -⟩ := of_writeDocument hwrite
    obtain ⟨hash', hhash', hget⟩ := exists_hash hvalid
    obtain rfl := Option.some.inj (hhash.symm.trans hhash')
    have hgrown : ∀ row ∈ state.db.documents.rows, row ∈ db'.documents.rows := by
      intro row hrow
      rw [hrows]
      exact List.mem_append_left _ hrow
    have hwritten : ∃ row ∈ db'.documents.rows, row.contentHash = hash := by
      refine ⟨storedDocument server sourceMachineId doc, ?_, hget⟩
      rw [hrows]
      exact List.mem_append_right _ List.mem_cons_self
    refine ⟨fun row hrow => hgrown row (h.rows row hrow), fun hash' hseen => ?_, fun entry hentry hraised => ?_⟩
    · by_cases hsame : hash' = hash
      · exact hsame ▸ hwritten
      · dsimp only at hseen
        rw [Function.update_of_ne hsame] at hseen
        obtain ⟨row, hrow, hrowHash⟩ := h.seen hash' hseen
        exact ⟨row, hgrown row hrow, hrowHash⟩
    · rcases List.mem_append.1 hentry with hentry | hentry
      · refine (h.entries entry hentry hraised).imp_right (Or.imp_right ?_)
        rintro ⟨hash', hhash', row, hrow, hrowHash⟩
        exact ⟨hash', hhash', row, hgrown row hrow, hrowHash⟩
      · obtain rfl := List.mem_singleton.1 hentry
        exact Or.inr (Or.inr ⟨hash, hhash, hwritten⟩)

private theorem present_load (store : Central.MemoryStore PackedFloat V) (server : Server sql V)
    (sourceMachineId : Option String) (db : Tables sql V) (documents : List ExtractedDocument) :
    Present (preloaded db documents).1 store.embeddingDim db (load store server sourceMachineId db documents) := by
  refine Fold.preserves ⟨fun _ h => h, fun hash hseen => ?_, by simp⟩ fun doc _ state h => present_loadNext h doc
  obtain ⟨id, hid⟩ := Option.isSome_iff_exists.1 hseen
  obtain ⟨stored, hrow, hhash, -⟩ := Central.of_preload_owner hid
  exact ⟨stored, hrow, hhash⟩

/-- What is there is preloaded. -/
private theorem isSome_existing {docIds hashes : List String} {row : StoredDocument} (hrow : row ∈ db.documents.rows)
    {id : String} (hid : id ∈ docIds) (hne : id ≠ "") (hkey : sql.key row.documentId = sql.key id) :
    ((Central.preload db docIds hashes).1 row.documentId).isSome := by
  refine Dict.isSome_assign (List.mem_map.2 ⟨(row.documentId, row.toDocument), ?_, rfl⟩)
  refine List.mem_map.2 ⟨row, List.mem_filter.2 ⟨hrow, ?_⟩, rfl⟩
  exact List.any_eq_true.2 ⟨id, hid, decide_eq_true ⟨hne, hkey⟩⟩

private theorem hashOf_eq_some {hash : String} (h : hashOf doc = some hash) : hash ≠ "" := by
  have hfilter := (Option.filter_eq_some_iff.1 h).2
  simpa using hfilter

/-- What a load has found or written, a load after it finds. -/
private theorem known_again {db' : Tables sql V} (hdoc : doc ∈ documents)
    (hrows : ∀ row ∈ db.documents.rows, row ∈ db'.documents.rows)
    (h : ((preloaded db documents).1 doc.docId).isSome ∨ ∃ hash, hashOf doc = some hash ∧
      ∃ row ∈ db'.documents.rows, row.contentHash = hash) :
    known (preloaded db' documents).1 (preloaded db' documents).2 doc = true := by
  rw [known_iff]
  rcases h with hid | ⟨hash, hhash, row, hrow, rfl⟩
  · obtain ⟨found, hfound⟩ := Option.isSome_iff_exists.1 hid
    obtain ⟨row, hrow, rfl, hsame, id, hmem, hne, hkey⟩ := Central.of_preload_existing hfound
    rw [← hsame] at hkey ⊢
    exact Or.inl (isSome_existing (hrows row hrow) hmem hne hkey)
  · refine Or.inr ⟨row.contentHash, hhash, ?_⟩
    have howner := Central.preload_owner (documents.map ExtractedDocument.docId) hrow
      (List.mem_filterMap.2 ⟨doc, hdoc, hhash⟩) (hashOf_eq_some hhash)
    exact Option.isSome_iff_exists.2 ⟨_, howner⟩

/-- A load of documents that are there or invalid inserts none. -/
private theorem none_inserted {docs : List ExtractedDocument} {seen : String → Option String}
    (h : ∀ doc ∈ docs, known existing seen doc = true ∨ validateDocument doc store.embeddingDim ≠ none) :
    ∀ entry ∈ (docs.foldl (loadNext store server sourceMachineId existing) ⟨db, seen, []⟩).verdicts,
      entry.2 ≠ .inserted := by
  have hloop := @Fold.preserves _ _ (loadNext store server sourceMachineId existing)
    (fun state => state.seenHashes = seen ∧ ∀ entry ∈ state.verdicts, entry.2 ≠ .inserted) docs ⟨db, seen, []⟩
    ⟨rfl, by simp⟩ fun doc hdoc state hstate => ?_
  · exact hloop.2
  · obtain ⟨hseen, hnone⟩ := hstate
    have happend : ∀ verdict, verdict ≠ Verdict.inserted →
        ∀ entry ∈ state.verdicts ++ [(doc, verdict)], entry.2 ≠ .inserted := by
      intro verdict hverdict entry hentry
      rcases List.mem_append.1 hentry with hentry | hentry
      · exact hnone entry hentry
      · obtain rfl := List.mem_singleton.1 hentry
        exact hverdict
    obtain ⟨next, hnext, hstep⟩ := loadStep store server sourceMachineId existing state doc
    rw [hnext]
    cases hstep with
    | skipped => exact ⟨hseen, happend _ (by simp)⟩
    | invalid => exact ⟨hseen, happend _ (by simp)⟩
    | raised => exact ⟨hseen, happend _ (by simp)⟩
    | inserted hnew hvalid =>
      rcases h doc hdoc with hknown | hinvalid
      · exact absurd (hseen ▸ hknown) hnew
      · exact absurd hvalid hinvalid

/-- **A dry run is a load that writes nothing.**  Where no transaction of the load raises, the dry run gives the same
verdict on every document, its counts are those of the summary, and a load after the load inserts nothing. -/
theorem dryRun_eq_load (hnone : NoneRaised (load store server sourceMachineId db documents)) :
    dryRun store.embeddingDim db documents = (load store server sourceMachineId db documents).verdicts ∧
      (dryRunReport store.embeddingDim db documents).wouldInsert =
        (load store server sourceMachineId db documents).summary.documentsInserted ∧
      (dryRunReport store.embeddingDim db documents).wouldSkipExisting =
        (load store server sourceMachineId db documents).summary.documentsSkipped ∧
      (dryRunReport store.embeddingDim db documents).wouldFail =
        (load store server sourceMachineId db documents).summary.documentsFailed.length ∧
      ∀ (server' : Server sql V) (sourceMachineId' : Option String), (load store server' sourceMachineId'
        (load store server sourceMachineId db documents).db documents).summary.documentsInserted = 0 := by
  have hverdicts : dryRun store.embeddingDim db documents =
      (load store server sourceMachineId db documents).verdicts := dryRun_foldl _ documents hnone
  obtain ⟨hinserted, hskipped, hfailed⟩ := summary_foldl .new
    (load store server sourceMachineId db documents).verdicts
  have hcount := countP_verdicts hnone
  have hdocs : (load store server sourceMachineId db documents).verdicts.map Prod.fst = documents := by
    obtain ⟨verdicts, hfold, hdocs⟩ := verdicts_foldl store server sourceMachineId (preloaded db documents).1
      ⟨db, (preloaded db documents).2, []⟩ documents
    unfold load
    rw [hfold, List.nil_append, hdocs]
  have hlength : (load store server sourceMachineId db documents).verdicts.length = documents.length := by
    rw [← hdocs, List.length_map, hdocs]
  have hnew : LoadSummary.new.documentsInserted = 0 ∧ LoadSummary.new.documentsSkipped = 0 ∧
      LoadSummary.new.documentsFailed.length = 0 := ⟨rfl, rfl, rfl⟩
  refine ⟨hverdicts, ?_, ?_, ?_, fun server' sourceMachineId' => ?_⟩
  · unfold dryRunReport LoadState.summary
    rw [hverdicts, hinserted]
    dsimp only
    omega
  · unfold dryRunReport LoadState.summary
    rw [hverdicts, hskipped]
    dsimp only
    omega
  · unfold dryRunReport LoadState.summary
    rw [hverdicts]
    dsimp only
    omega
  · obtain ⟨hinserted', -, -⟩ := summary_foldl .new
      (load store server' sourceMachineId' (load store server sourceMachineId db documents).db documents).verdicts
    have hpresent := present_load store server sourceMachineId db documents
    have hagain : ∀ doc ∈ documents,
        known (preloaded (load store server sourceMachineId db documents).db documents).1
          (preloaded (load store server sourceMachineId db documents).db documents).2 doc = true ∨
        validateDocument doc store.embeddingDim ≠ none := by
      intro doc hdoc
      obtain ⟨entry, hentry, rfl⟩ := List.mem_map.1 (hdocs ▸ hdoc)
      rcases hpresent.entries entry hentry (hnone entry hentry) with hinvalid | hfound
      · exact Or.inr hinvalid
      · exact Or.inl (known_again hdoc hpresent.rows hfound)
    unfold LoadState.summary
    rw [hinserted', hnew.1, Nat.zero_add, List.countP_eq_zero]
    exact fun entry hentry h => none_inserted hagain entry hentry (of_decide_eq_true h)

/-! ### Four documents -/

private def note (docId hash : String) (vector : Option (List PackedFloat)) : ExtractedDocument where
  docId := docId
  title := none
  sourceType := "document"
  sourcePath := none
  contentHash := some hash
  provenance := none
  publishedAt := none
  ingestedAt := none
  chunks := [⟨Central.chunkId docId 0, docId, 0, "text", [], some "model", 1, vector⟩]

private def fourNotes : List ExtractedDocument :=
  [note "a" "one" (some [⟨0, 0, 0, 0⟩]), note "b" "one" (some [⟨0, 0, 0, 0⟩]), note "c" "two" none,
    note "d" "two" (some [⟨0, 0, 0, 0⟩])]

private theorem verdicts_fourNotes : ((load oneFloat willing none Tables.empty fourNotes).verdicts.map Prod.snd) =
    [.inserted, .skipped, .invalid "no chunks with a usable vector", .inserted] := by
  decide +kernel

/-- The second document has the content of the first one, and the third one has no vector. -/
theorem dryRun_eq_load_fourNotes :
    (dryRun 1 (Tables.empty : Tables Sql.sample (List PackedFloat)) fourNotes).map Prod.snd =
        [.inserted, .skipped, .invalid "no chunks with a usable vector", .inserted] ∧
      (load oneFloat willing none (load oneFloat willing none Tables.empty fourNotes).db
        fourNotes).summary.documentsInserted = 0 := by
  have hnone : NoneRaised (load oneFloat willing none Tables.empty fourNotes) := by
    intro entry hentry
    have hmem := List.mem_map_of_mem (f := Prod.snd) hentry
    rw [verdicts_fourNotes] at hmem
    exact fun h => absurd (h ▸ hmem) (by decide)
  obtain ⟨hverdicts, -, -, -, hagain⟩ := dryRun_eq_load hnone
  exact ⟨by rw [← verdicts_fourNotes, ← hverdicts]; rfl, hagain willing none⟩

end AgentOS.Etl
