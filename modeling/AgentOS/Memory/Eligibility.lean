import AgentOS.Memory.LocalWrites

/-!
# Both stores filter alike

`Mirrors` relates the documents of the two stores: the rows of an id say the same, and have the same date.

* `plan_eq`: stores that mirror each other make the same plan.
* `mirrors_serve`: a call keeps the relation, if its metadata-only updates keep the date.
* `filters_alike` is the result over sequences of calls; `updated_later` shows an update that does not keep the date: it
  sets `ingested_at`, and leaves `created_at`.
-/

namespace AgentOS

open Central (Instant StoredDocument Tables TimedCall)

variable {R Blob V : Type} {sql : Sql} {le : String → String → Bool} {S : Set String} {docs all : List SourceDocument}
  {doc : SourceDocument} {sourceMachineId : Option String} {row : DocumentRow} {stored : StoredDocument}

/-! ### Rows -/

/-- The dates by which a document is filtered agree. -/
structure Dated (row : DocumentRow) (stored : StoredDocument) : Prop where
  published : ∀ p, nonEmpty stored.publishedAt = some p → isIsoDate (dateOf p) = true
  created : nonEmpty stored.publishedAt = none → row.ingestedAt.map dateOf = some stored.createdAt.date
  iso : isIsoDate stored.createdAt.date = true

/-- Both rows are of the same document, which is one of `all`, and say the same of it. -/
structure Shows (all : List SourceDocument) (sourceMachineId : Option String) (row : DocumentRow)
    (stored : StoredDocument) : Prop where
  docId : row.docId = stored.documentId
  title : row.title = stored.title
  sourceType : row.sourceType = stored.sourceType
  sourcePath : row.sourcePath = stored.sourcePath
  contentHash : row.contentHash = some stored.contentHash
  provenance : row.provenance = some stored.provenance
  publishedAt : row.publishedAt = stored.publishedAt
  machine : stored.sourceMachineId = sourceMachineId
  source : ∃ doc ∈ all, doc.docId = stored.documentId ∧ doc.contentHash = stored.contentHash
  valid : stored.sourceType ∈ validSourceTypes
  dated : Dated row stored

private theorem dateOf_append {d : String} (hd : d.length = 10) (rest : String) : dateOf (d ++ rest) = d := by
  have hlength : d.toList.length = 10 := by rw [String.length_toList, hd]
  unfold dateOf
  rw [String.toList_append, List.take_append_of_le_length hlength.ge, List.take_of_length_le hlength.le,
    String.ofList_toList]

private theorem dateOf_date (now : Instant) : dateOf now.date = now.date := by
  have h := dateOf_append now.date_length ""
  rwa [String.append_empty] at h

private theorem dateOf_isoformat (now : Instant) : dateOf now.isoformat = now.date := by
  unfold Central.Instant.isoformat
  rw [String.append_assoc]
  exact dateOf_append now.date_length _

private theorem nonEmpty_eq_some {value : Option String} {s : String} :
    nonEmpty value = some s ↔ value = some s ∧ s ≠ "" := by
  unfold nonEmpty
  rw [Option.filter_eq_some_iff, decide_eq_true_iff]

/-- The dates of the two rows. -/
theorem Shows.filterDate_eq (hcollates : Central.Collates sql le) (h : Shows all sourceMachineId row stored) :
    row.filterDate = stored.filterDate sql ∧ isIsoDate row.filterDate = true := by
  unfold DocumentRow.filterDate StoredDocument.filterDate
  rw [h.publishedAt]
  cases hp : nonEmpty stored.publishedAt with
  | some p =>
    have hiso := h.dated.published p hp
    have hpublished := (nonEmpty_eq_some.1 hp).1
    have hblank := hcollates.blank p hiso
    rw [hpublished, Option.filter_some, if_pos (decide_eq_true hblank)]
    exact ⟨rfl, hiso⟩
  | none =>
    have hcreated := h.dated.created hp
    obtain ⟨ingestedAt, hingested, hdate⟩ := Option.map_eq_some_iff.1 hcreated
    have hnone : stored.publishedAt.filter (fun p => decide (sql.key p ≠ sql.key "")) = none := by
      cases hpublished : stored.publishedAt with
      | none => rfl
      | some p =>
        have hempty : p = "" := by
          by_contra hne
          rw [nonEmpty_eq_some.2 ⟨hpublished, hne⟩] at hp
          cases hp
        rw [hempty, Option.filter_some, if_neg (by simp)]
    rw [hnone, hingested, Option.none_or, Option.getD_some, Option.getD_none, hdate, dateOf_date]
    exact ⟨rfl, h.dated.iso⟩

/-- A filter selects both rows or neither. -/
theorem Shows.selects_eq (hcollates : Central.Collates sql le) (h : Shows all sourceMachineId row stored)
    {f : DocFilter} (hf : f.Valid) : f.selects row = Central.selects sql le f stored := by
  obtain ⟨hdate, hiso⟩ := h.filterDate_eq hcollates
  have htype : ((nonEmpty f.sourceType).all fun t => row.sourceType = t) =
      (nonEmpty f.sourceType).all fun t => sql.key stored.sourceType = sql.key t := by
    cases ht : nonEmpty f.sourceType with
    | none => rfl
    | some t =>
      have hvalid := hf.sourceType t (nonEmpty_eq_some.1 ht).1
      rw [Option.all_some, Option.all_some, decide_eq_decide, h.sourceType]
      exact (hcollates.sourceTypes.eq_iff h.valid hvalid).symm
  have hfrom : ((nonEmpty f.dateFrom).all fun d => dateOf d ≤ row.filterDate) =
      (nonEmpty f.dateFrom).all fun d => le (dateOf d) (stored.filterDate sql) := by
    cases hd : nonEmpty f.dateFrom with
    | none => rfl
    | some d =>
      have hvalid := hf.dateFrom d (nonEmpty_eq_some.1 hd).1
      rw [Option.all_some, Option.all_some, Bool.eq_iff_iff, decide_eq_true_iff, ← hdate]
      exact (hcollates.dates _ _ hvalid hiso).symm
  have hto : ((nonEmpty f.dateTo).all fun d => row.filterDate ≤ dateOf d) =
      (nonEmpty f.dateTo).all fun d => le (stored.filterDate sql) (dateOf d) := by
    cases hd : nonEmpty f.dateTo with
    | none => rfl
    | some d =>
      have hvalid := hf.dateTo d (nonEmpty_eq_some.1 hd).1
      rw [Option.all_some, Option.all_some, Bool.eq_iff_iff, decide_eq_true_iff, ← hdate]
      exact (hcollates.dates _ _ hiso hvalid).symm
  unfold DocFilter.selects Central.selects
  rw [htype, hfrom, hto]

/-! ### Stores -/

variable {db : MemoryDb Blob} {hub : Tables sql V} {n : Nat}

/-- The stores hold the same documents. -/
structure Mirrors (S : Set String) (all : List SourceDocument) (sourceMachineId : Option String) (n : Nat)
    (db : MemoryDb Blob) (hub : Tables sql V) : Prop where
  within : Central.Within S hub
  sound : db.Sound n
  toHub : ∀ row ∈ db.documents.rows, ∃ stored ∈ hub.documents.rows, Shows all sourceMachineId row stored
  toLocal : ∀ stored ∈ hub.documents.rows, ∃ row ∈ db.documents.rows, Shows all sourceMachineId row stored

theorem mirrors_empty : Mirrors S all sourceMachineId 0 (MemoryDb.empty : MemoryDb Blob)
    (Tables.empty : Tables sql V) :=
  ⟨⟨fun _ h => (by cases h), fun _ h => by cases h⟩, MemoryDb.sound_empty, fun _ h => (by cases h),
    fun _ h => by cases h⟩

theorem Mirrors.filterAlike (hcollates : Central.Collates sql le) (h : Mirrors S all sourceMachineId n db hub) :
    FilterAlike le db hub := by
  intro f hf docId
  unfold MemoryDb.eligible Tables.eligible
  rw [List.mem_map, List.mem_map]
  constructor
  · rintro ⟨row, hrow, rfl⟩
    obtain ⟨hrow, hselects⟩ := List.mem_filter.1 hrow
    obtain ⟨stored, hstored, hshows⟩ := h.toHub row hrow
    refine ⟨stored, List.mem_filter.2 ⟨hstored, ?_⟩, hshows.docId.symm⟩
    rw [← hshows.selects_eq hcollates hf]
    exact hselects
  · rintro ⟨stored, hstored, rfl⟩
    obtain ⟨hstored, hselects⟩ := List.mem_filter.1 hstored
    obtain ⟨row, hrow, hshows⟩ := h.toLocal stored hstored
    refine ⟨row, List.mem_filter.2 ⟨hrow, ?_⟩, hshows.docId⟩
    rw [hshows.selects_eq hcollates hf]
    exact hselects

/-! ### Plans -/

/-- The verdict of the central store for an outcome of the local one. -/
def DocumentOutcome.verdict : DocumentOutcome → Central.Verdict
  | removed => .remove
  | skippedEmpty => .skipEmpty
  | metadataUpdated => .update
  | unchanged => .unchanged
  | written => .write

private theorem verdict_injective {a b : DocumentOutcome} (h : a.verdict = b.verdict) : a = b := by
  cases a <;> cases b <;> first | rfl | cases h

theorem Shows.metadataDiffers_eq (h : Shows all sourceMachineId row stored) (doc : SourceDocument) :
    metadataDiffers row doc = Central.metadataDiffers stored.toDocument doc sourceMachineId := by
  unfold metadataDiffers Central.metadataDiffers
  rw [h.title, h.sourceType, h.sourcePath, h.provenance, h.publishedAt, h.machine]
  simp

/-- A content hash has no owner but the ids of the documents that have it. -/
def OwnedBy (all : List SourceDocument) (owner : String → Option String) : Prop :=
  ∀ hash id, owner hash = some id → ∃ doc ∈ all, doc.docId = id ∧ doc.contentHash = hash

private theorem verdict_of_none {owner : Option String} (howner : ∀ id, owner = some id → id = doc.docId) :
    Central.verdict none owner sourceMachineId doc = (classify none doc).verdict := by
  unfold Central.verdict classify
  by_cases hchunks : doc.chunks = []
  · rw [if_pos hchunks, if_pos hchunks]
    rfl
  · rw [if_neg hchunks, if_neg hchunks]
    cases howned : owner with
    | none => rfl
    | some id =>
      rw [howner id howned]
      simp [DocumentOutcome.verdict]

private theorem verdict_of_shows (h : Shows all sourceMachineId row stored) {owner : Option String}
    (howner : ∀ id, owner = some id → id = doc.docId) :
    Central.verdict (some stored.toDocument) owner sourceMachineId doc = (classify (some row) doc).verdict := by
  unfold Central.verdict classify
  by_cases hchunks : doc.chunks = []
  · rw [if_pos hchunks, if_pos hchunks]
    rfl
  · rw [if_neg hchunks, if_neg hchunks, Option.filter_some]
    dsimp only
    by_cases hhash : stored.contentHash = doc.contentHash
    · rw [if_pos (decide_eq_true hhash), if_pos (h.contentHash.trans (congrArg some hhash)), h.metadataDiffers_eq doc]
      dsimp only
      cases Central.metadataDiffers stored.toDocument doc sourceMachineId with
      | true => rfl
      | false => rfl
    · have hother : row.contentHash ≠ some doc.contentHash := by
        rw [h.contentHash]
        exact fun hsame => hhash (Option.some.inj hsame)
      rw [if_neg (by simpa using hhash), if_neg hother]
      cases howned : owner with
      | none => rfl
      | some id =>
        rw [howner id howned]
        simp [DocumentOutcome.verdict]

/-- The row that the central store has loaded mirrors the local one. -/
private def Loaded (all : List SourceDocument) (sourceMachineId : Option String) (prior : Option DocumentRow)
    (existing : Option Central.Document) : Prop :=
  prior = none ∧ existing = none ∨
    ∃ row stored, prior = some row ∧ existing = some stored.toDocument ∧ Shows all sourceMachineId row stored

private theorem verdict_eq {prior : Option DocumentRow} {existing : Option Central.Document} {owner : Option String}
    (h : Loaded all sourceMachineId prior existing) (howner : ∀ id, owner = some id → id = doc.docId) :
    Central.verdict existing owner sourceMachineId doc = (classify prior doc).verdict := by
  rcases h with ⟨rfl, rfl⟩ | ⟨row, stored, rfl, rfl, hshows⟩
  · exact verdict_of_none howner
  · exact verdict_of_shows hshows howner

private theorem classify_eq {prior : String → Option DocumentRow} {existing : String → Option Central.Document}
    {seen : String → Option String} (hdistinct : DistinctHashes all) (hdocs : ∀ doc ∈ docs, doc ∈ all)
    (hloaded : ∀ doc ∈ docs, Loaded all sourceMachineId (prior doc.docId) (existing doc.docId))
    (hseen : OwnedBy all seen) : Central.classify existing sourceMachineId seen docs =
      docs.map fun doc => (doc, (classify (prior doc.docId) doc).verdict) := by
  induction docs generalizing seen with
  | nil => rfl
  | cons doc docs ih =>
    have hmem := hdocs doc List.mem_cons_self
    have howner : ∀ id, seen doc.contentHash = some id → id = doc.docId := by
      intro id hid
      obtain ⟨other, hother, rfl, hhash⟩ := hseen _ _ hid
      exact hdistinct other hother doc hmem hhash
    have hnext : OwnedBy all (Central.seenNext existing sourceMachineId seen doc) := by
      intro hash id hid
      unfold Central.seenNext at hid
      split at hid
      · by_cases hhash : hash = doc.contentHash
        · rw [hhash, Function.update_self] at hid
          exact ⟨doc, hmem, Option.some.inj hid, hhash.symm⟩
        · rw [Function.update_of_ne hhash] at hid
          exact hseen hash id hid
      · exact hseen hash id hid
    rw [Central.classify, List.map_cons, verdict_eq (hloaded doc List.mem_cons_self) howner,
      ih (fun d hd => hdocs d (List.mem_cons_of_mem _ hd)) (fun d hd => hloaded d (List.mem_cons_of_mem _ hd)) hnext]

/-- What the local store decides about a document. -/
private def outcomeOf (db : MemoryDb Blob) (doc : SourceDocument) : DocumentOutcome :=
  classify (db.documents.lookup doc.docId) doc

/-- **The plans.**  The central store plans what the local one decides. -/
private theorem plan_eq (h : Mirrors S all sourceMachineId n db hub) (hdistinct : DistinctHashes all)
    (hdocs : ∀ doc ∈ docs, doc ∈ all ∧ doc.docId ≠ "") :
    Central.MemoryStore.plan hub docs sourceMachineId = docs.map fun doc => (doc, (outcomeOf db doc).verdict) := by
  refine classify_eq hdistinct (fun doc hdoc => (hdocs doc hdoc).1) (fun doc hdoc => ?_) fun hash id hid => ?_
  · cases hlookup : db.documents.lookup doc.docId with
    | none =>
      refine Or.inl ⟨rfl, Option.eq_none_iff_forall_ne_some.2 fun row hrow => ?_⟩
      obtain ⟨stored, hstored, rfl, hid, -⟩ := Central.of_preload_existing hrow
      obtain ⟨row, hrow, hshows⟩ := h.toLocal stored hstored
      exact Table.lookup_eq_none.1 hlookup row hrow (hshows.docId.trans hid)
    | some row =>
      obtain ⟨hrow, hid⟩ := Table.lookup_eq_some.1 hlookup
      obtain ⟨stored, hstored, hshows⟩ := h.toHub row hrow
      have hsame : stored.documentId = doc.docId := hshows.docId.symm.trans hid
      refine Or.inr ⟨row, stored, rfl, ?_, hshows⟩
      rw [← hsame]
      refine Central.preload_existing hstored ?_ ?_
      · rw [hsame]
        exact List.mem_map_of_mem hdoc
      · rw [hsame]
        exact (hdocs doc hdoc).2
  · obtain ⟨stored, hstored, rfl, rfl⟩ := Central.of_preload_owner hid
    obtain ⟨row, -, hshows⟩ := h.toLocal stored hstored
    exact hshows.source

private theorem having_map (outcome : DocumentOutcome) (decide : SourceDocument → DocumentOutcome)
    (docs : List SourceDocument) :
    Central.having outcome.verdict (docs.map fun doc => (doc, (decide doc).verdict)) =
      docs.filter fun doc => decide doc = outcome := by
  unfold Central.having
  induction docs with
  | nil => rfl
  | cons doc docs ih =>
    rw [List.map_cons]
    by_cases hdoc : decide doc = outcome
    · rw [List.filter_cons_of_pos (by simpa using congrArg DocumentOutcome.verdict hdoc),
        List.filter_cons_of_pos (by simpa using hdoc), List.map_cons, ih]
    · rw [List.filter_cons_of_neg (by simpa using fun h => hdoc (verdict_injective h)),
        List.filter_cons_of_neg (by simpa using hdoc), ih]

/-! ### Statements -/

variable {store : MemoryStore R Blob} {central : Central.MemoryStore R V} {embedder : Embedder R} {now : Instant}
  {vectorsByDoc : String → Option (List (List R))}

/-- A document of a call, with its strings among `S`. -/
private structure Ready (S : Set String) (sql : Sql) (all : List SourceDocument) (embedder : Embedder R)
    (sourceMachineId : Option String) (doc : SourceDocument) : Prop where
  mem : doc ∈ all
  submitted : Central.Submitted S doc
  ingestible : Ingestible sql doc embedder sourceMachineId

private theorem Ready.seqs (h : Ready S sql all embedder sourceMachineId doc) :
    ∀ chunk ∈ doc.chunks, sqliteInteger chunk.seq := by
  intro chunk hchunk
  have hfits := h.ingestible.acceptable.fits.2 chunk hchunk
  unfold Central.Tables.fitsChunk at hfits
  simp only [Bool.and_eq_true] at hfits
  obtain ⟨⟨⟨⟨-, hseq⟩, -⟩, -⟩, -⟩ := hfits.1
  have hbounds : -2 ^ 31 ≤ chunk.seq ∧ chunk.seq < 2 ^ 31 := of_decide_eq_true hseq
  unfold sqliteInteger
  omega

private theorem Ready.shows_row (h : Ready S sql all embedder sourceMachineId doc) (hnow : isIsoDate now.date = true) :
    Shows all sourceMachineId (doc.row now.isoformat) ⟨Central.document doc sourceMachineId, now, now⟩ where
  docId := rfl
  title := rfl
  sourceType := rfl
  sourcePath := rfl
  contentHash := rfl
  provenance := rfl
  publishedAt := rfl
  machine := rfl
  source := ⟨doc, h.mem, rfl, rfl⟩
  valid := h.ingestible.sourceType
  dated := ⟨h.ingestible.publishedAt, fun _ => congrArg some (dateOf_isoformat now), hnow⟩

/-- The vectors of a document, which both stores take. -/
private structure Sliced (store : MemoryStore R Blob) (central : Central.MemoryStore R V)
    (vectors : List (List R)) : Prop where
  castable : ∀ vector ∈ vectors, (central.castVector central.embeddingDim vector).isSome
  storable : ∀ vector ∈ vectors, ∃ embedding, store.sqliteVec.serializeFloat32 vector = some embedding ∧
    store.sqliteVec.accepts store.embeddingDim embedding = true

private theorem mirrors_writeNext (hexact : Set.InjOn sql.key S) (hdistinct : DistinctHashes all)
    (hnow : isIsoDate now.date = true) (h : Mirrors S all sourceMachineId n db hub)
    (hdoc : Ready S sql all embedder sourceMachineId doc) {vectors : List (List R)}
    (hslice : vectorsByDoc doc.docId = some vectors) (hvectors : Sliced store central vectors)
    (hroom : n + doc.chunks.length < 2 ^ 63) (summary : IngestSummary) (summary' : Central.Summary) :
    Mirrors S all sourceMachineId (n + doc.chunks.length)
        (store.writeNext embedder vectorsByDoc now.isoformat (db, summary) doc).1
        (central.writeNext embedder vectorsByDoc sourceMachineId now (hub, summary') doc).1 ∧
      ∀ stored ∈ (central.writeNext embedder vectorsByDoc sourceMachineId now (hub, summary') doc).1.documents.rows,
        stored ∈ hub.documents.rows ∨ stored.createdAt = now := by
  obtain ⟨existed, db', hdb', hsound⟩ := writeDocument_ok embedder now.isoformat h.sound hdoc.ingestible.sourceType
    hdoc.submitted.seqs hdoc.seqs hslice hvectors.storable hroom
  obtain ⟨hub', hhub', hrows, hchunks⟩ := Central.writeDocument_ok now hexact h.within hdoc.submitted
    hdoc.ingestible.acceptable.fits hslice hvectors.castable fun stored hstored hhash => by
      obtain ⟨row, -, hshows⟩ := h.toLocal stored hstored
      obtain ⟨other, hother, hid, hhash'⟩ := hshows.source
      rw [← hid]
      exact hdistinct other hother doc hdoc.mem (hhash'.trans hhash)
  have hlocal : store.writeNext embedder vectorsByDoc now.isoformat (db, summary) doc =
      (db', summary.wrote doc existed) := by
    unfold MemoryStore.writeNext
    rw [hdb']
  have hcentral : central.writeNext embedder vectorsByDoc sourceMachineId now (hub, summary') doc =
      (hub', summary'.wrote doc (hub.deleteDocument doc.docId).1) := by
    unfold Central.MemoryStore.writeNext
    rw [hhub']
  have hlocalRows : ∀ row, row ∈ db'.documents.rows ↔
      row = doc.row now.isoformat ∨ row ∈ db.documents.rows ∧ row.docId ≠ doc.docId := by
    intro row
    have hmem : row ∈ db'.documents.rows ↔ db'.documents.lookup row.docId = some row :=
      ⟨fun hrow => Table.lookup_eq_some.2 ⟨hrow, rfl⟩, fun hrow => (Table.lookup_eq_some.1 hrow).1⟩
    rw [hmem, lookup_writeDocument hdb']
    by_cases hid : doc.docId = row.docId
    · rw [if_pos hid]
      constructor
      · exact fun hrow => Or.inl (Option.some.inj hrow).symm
      · rintro (hrow | ⟨-, hne⟩)
        · exact congrArg some hrow.symm
        · exact absurd hid.symm hne
    · rw [if_neg hid, Table.lookup_eq_some]
      constructor
      · exact fun hrow => Or.inr ⟨hrow.1, Ne.symm hid⟩
      · rintro (rfl | ⟨hrow, -⟩)
        · exact absurd rfl hid
        · exact ⟨hrow, rfl⟩
  rw [hlocal, hcentral]
  have hwithin := Central.within_write h.within hdoc.submitted
    (fun stored hstored => ((hrows stored).1 hstored).imp_left And.left)
    fun chunk hchunk => ((hchunks chunk).1 hchunk).imp_left And.left
  refine ⟨⟨hwithin, hsound, fun row hrow => ?_, fun stored hstored => ?_⟩, fun stored hstored => ?_⟩
  · rcases (hlocalRows row).1 hrow with rfl | ⟨hrow, hne⟩
    · exact ⟨_, (hrows _).2 (Or.inr rfl), hdoc.shows_row hnow⟩
    · obtain ⟨stored, hstored, hshows⟩ := h.toHub row hrow
      exact ⟨stored, (hrows stored).2 (Or.inl ⟨hstored, hshows.docId ▸ hne⟩), hshows⟩
  · rcases (hrows stored).1 hstored with ⟨hstored, hne⟩ | rfl
    · obtain ⟨row, hrow, hshows⟩ := h.toLocal stored hstored
      exact ⟨row, (hlocalRows row).2 (Or.inr ⟨hrow, hshows.docId.symm ▸ hne⟩), hshows⟩
    · exact ⟨_, (hlocalRows _).2 (Or.inl rfl), hdoc.shows_row hnow⟩
  · rcases (hrows stored).1 hstored with ⟨hstored, -⟩ | rfl
    · exact Or.inl hstored
    · exact Or.inr rfl

private theorem Ready.shows_update (hdoc : Ready S sql all embedder sourceMachineId doc)
    (h : Shows all sourceMachineId row stored)
    (hday : stored.documentId = doc.docId → nonEmpty doc.publishedAt = none → stored.createdAt.date = now.date) :
    Shows all sourceMachineId (if row.docId = doc.docId then doc.describe now.isoformat row else row)
      (if stored.documentId = doc.docId then Tables.setMetadata doc sourceMachineId now stored else stored) := by
  by_cases hid : stored.documentId = doc.docId
  · rw [if_pos (h.docId.trans hid), if_pos hid]
    refine ⟨h.docId, rfl, rfl, rfl, h.contentHash, rfl, rfl, rfl, h.source, hdoc.ingestible.sourceType,
      ⟨hdoc.ingestible.publishedAt, fun hnone => ?_, h.dated.iso⟩⟩
    refine (congrArg some (dateOf_isoformat now)).trans (congrArg some ?_)
    exact (hday hid hnone).symm
  · rw [if_neg (fun hrow => hid (h.docId.symm.trans hrow)), if_neg hid]
    exact h

private theorem mirrors_updateNext (hexact : Set.InjOn sql.key S) (h : Mirrors S all sourceMachineId n db hub)
    (hdoc : Ready S sql all embedder sourceMachineId doc)
    (hday : ∀ stored ∈ hub.documents.rows, stored.documentId = doc.docId → nonEmpty doc.publishedAt = none →
      stored.createdAt.date = now.date) (summary : IngestSummary) (summary' : Central.Summary) :
    Mirrors S all sourceMachineId n (updateNext now.isoformat (db, summary) doc).1
        (Central.MemoryStore.updateNext sourceMachineId now (hub, summary') doc).1 ∧
      ∀ stored ∈ (Central.MemoryStore.updateNext sourceMachineId now (hub, summary') doc).1.documents.rows,
        ∃ old ∈ hub.documents.rows, old.documentId = stored.documentId ∧ old.createdAt = stored.createdAt := by
  obtain ⟨hub', hhub', hchunks, hrows⟩ := Central.updateDocumentMetadata_ok now hexact h.within hdoc.submitted.docId
    (Bool.and_eq_true_iff.1 hdoc.ingestible.acceptable.fits.1).2
  obtain ⟨db', hdb', hlocalChunks, hlocalVec, hlocalRows⟩ :=
    updateDocumentMetadata_ok db now.isoformat hdoc.ingestible.sourceType
  have hlocal : updateNext now.isoformat (db, summary) doc =
      (db', { summary with documentsMetadataUpdated := summary.documentsMetadataUpdated + 1 }) := by
    unfold updateNext
    rw [hdb']
  have hcentral : Central.MemoryStore.updateNext sourceMachineId now (hub, summary') doc =
      (hub', { summary' with documentsMetadataUpdated := summary'.documentsMetadataUpdated + 1 }) := by
    unfold Central.MemoryStore.updateNext
    rw [hhub']
  rw [hlocal, hcentral]
  refine ⟨⟨Central.within_update h.within hchunks fun stored hstored => (hrows stored).1 hstored,
    h.sound.congr hlocalChunks hlocalVec, fun row hrow => ?_, fun stored hstored => ?_⟩, fun stored hstored => ?_⟩
  · obtain ⟨old, hold, rfl⟩ := (hlocalRows row).1 hrow
    obtain ⟨stored, hstored, hshows⟩ := h.toHub old hold
    exact ⟨_, (hrows _).2 ⟨stored, hstored, rfl⟩, hdoc.shows_update hshows (hday stored hstored)⟩
  · obtain ⟨old, hold, rfl⟩ := (hrows stored).1 hstored
    obtain ⟨row, hrow, hshows⟩ := h.toLocal old hold
    exact ⟨_, (hlocalRows _).2 ⟨row, hrow, rfl⟩, hdoc.shows_update hshows (hday old hold)⟩
  · obtain ⟨old, hold, rfl⟩ := (hrows stored).1 hstored
    refine ⟨old, hold, (Central.kept_setMetadata doc sourceMachineId now old).1.symm, ?_⟩
    split
    · rfl
    · rfl

private theorem mirrors_deleteDocument (hexact : Set.InjOn sql.key S) (h : Mirrors S all sourceMachineId n db hub)
    {docId : String} (hid : docId ∈ S) :
    Mirrors S all sourceMachineId n (db.deleteDocument docId).2 (hub.deleteDocument docId).2 := by
  have hrows := Central.mem_documents_deleteDocument hexact h.within hid
  refine ⟨Central.within_deleteDocument h.within docId, MemoryDb.sound_deleteDocument h.sound docId,
    fun row hrow => ?_, fun stored hstored => ?_⟩
  · obtain ⟨hrow, hne⟩ := Table.mem_delete.1 hrow
    obtain ⟨stored, hstored, hshows⟩ := h.toHub row hrow
    refine ⟨stored, (hrows stored).2 ⟨hstored, fun hmine => hne ?_⟩, hshows⟩
    exact decide_eq_true (hshows.docId.trans hmine)
  · obtain ⟨hstored, hne⟩ := (hrows stored).1 hstored
    obtain ⟨row, hrow, hshows⟩ := h.toLocal stored hstored
    refine ⟨row, Table.mem_delete.2 ⟨hrow, fun hmine => hne ?_⟩, hshows⟩
    exact hshows.docId.symm.trans (of_decide_eq_true hmine)

/-! ### Calls -/

private theorem chunkCount_cons (doc : SourceDocument) (docs : List SourceDocument) :
    chunkCount (doc :: docs) = doc.chunks.length + chunkCount docs := by
  unfold chunkCount
  rw [List.map_cons, List.sum_cons]

private theorem chunkCount_filter_le (p : SourceDocument → Bool) (docs : List SourceDocument) :
    chunkCount (docs.filter p) ≤ chunkCount docs := by
  induction docs with
  | nil => exact le_rfl
  | cons doc docs ih =>
    rw [chunkCount_cons]
    by_cases hp : p doc = true
    · rw [List.filter_cons_of_pos hp, chunkCount_cons]
      omega
    · rw [List.filter_cons_of_neg hp]
      omega

private theorem mirrors_writes (hexact : Set.InjOn sql.key S) (hdistinct : DistinctHashes all)
    (hnow : isIsoDate now.date = true) (hdocs : ∀ doc ∈ docs, Ready S sql all embedder sourceMachineId doc)
    (hslices : ∀ doc ∈ docs, ∃ vectors, vectorsByDoc doc.docId = some vectors ∧ Sliced store central vectors)
    {state : MemoryDb Blob × IngestSummary} {state' : Tables sql V × Central.Summary}
    (h : Mirrors S all sourceMachineId n state.1 state'.1) (hroom : n + chunkCount docs < 2 ^ 63) :
    Mirrors S all sourceMachineId (n + chunkCount docs)
        (docs.foldl (store.writeNext embedder vectorsByDoc now.isoformat) state).1
        (docs.foldl (central.writeNext embedder vectorsByDoc sourceMachineId now) state').1 ∧
      ∀ stored ∈ (docs.foldl (central.writeNext embedder vectorsByDoc sourceMachineId now) state').1.documents.rows,
        stored ∈ state'.1.documents.rows ∨ stored.createdAt = now := by
  induction docs generalizing state state' n with
  | nil => exact ⟨h, fun stored hstored => Or.inl hstored⟩
  | cons doc docs ih =>
    rw [chunkCount_cons] at hroom ⊢
    obtain ⟨vectors, hslice, hvectors⟩ := hslices doc List.mem_cons_self
    obtain ⟨hnext, hrows⟩ := mirrors_writeNext hexact hdistinct hnow h (hdocs doc List.mem_cons_self) hslice hvectors
      (by omega) state.2 state'.2
    obtain ⟨hend, hrows'⟩ := ih (fun d hd => hdocs d (List.mem_cons_of_mem _ hd))
      (fun d hd => hslices d (List.mem_cons_of_mem _ hd)) hnext (by omega)
    rw [← Nat.add_assoc]
    refine ⟨hend, fun stored hstored => ?_⟩
    rcases hrows' stored hstored with hstored | hstored
    · exact hrows stored hstored
    · exact Or.inr hstored

private theorem mirrors_updates (hexact : Set.InjOn sql.key S)
    (hdocs : ∀ doc ∈ docs, Ready S sql all embedder sourceMachineId doc)
    {state : MemoryDb Blob × IngestSummary} {state' : Tables sql V × Central.Summary}
    (h : Mirrors S all sourceMachineId n state.1 state'.1)
    (hday : ∀ doc ∈ docs, ∀ stored ∈ state'.1.documents.rows, stored.documentId = doc.docId →
      nonEmpty doc.publishedAt = none → stored.createdAt.date = now.date) :
    Mirrors S all sourceMachineId n (docs.foldl (updateNext now.isoformat) state).1
      (docs.foldl (Central.MemoryStore.updateNext sourceMachineId now) state').1 := by
  induction docs generalizing state state' with
  | nil => exact h
  | cons doc docs ih =>
    obtain ⟨hnext, hrows⟩ := mirrors_updateNext hexact h (hdocs doc List.mem_cons_self)
      (hday doc List.mem_cons_self) state.2 state'.2
    refine ih (fun d hd => hdocs d (List.mem_cons_of_mem _ hd)) hnext fun d hd stored hstored hid hnone => ?_
    obtain ⟨old, hold, holdId, hcreated⟩ := hrows stored hstored
    rw [← hcreated]
    exact hday d (List.mem_cons_of_mem _ hd) old hold (holdId.trans hid) hnone

private theorem mirrors_removals (hexact : Set.InjOn sql.key S) (hdocs : ∀ doc ∈ docs, doc.docId ∈ S)
    {state : MemoryDb Blob × IngestSummary} {state' : Tables sql V × Central.Summary}
    (h : Mirrors S all sourceMachineId n state.1 state'.1) :
    Mirrors S all sourceMachineId n (docs.foldl removeNext state).1
      (docs.foldl Central.MemoryStore.removeNext state').1 := by
  induction docs generalizing state state' with
  | nil => exact h
  | cons doc docs ih =>
    have hnext := mirrors_deleteDocument hexact h (hdocs doc List.mem_cons_self)
    exact @ih (fun d hd => hdocs d (List.mem_cons_of_mem _ hd)) (removeNext state doc)
      (Central.MemoryStore.removeNext state' doc) hnext

private theorem of_classify_metadataUpdated {prior : Option DocumentRow} (h : classify prior doc = .metadataUpdated) :
    doc.chunks ≠ [] ∧ ∃ row, prior = some row ∧ row.contentHash = some doc.contentHash ∧
      metadataDiffers row doc = true := by
  unfold classify at h
  split at h
  case isTrue => split at h <;> cases h
  case isFalse hchunks =>
    split at h
    case h_1 => cases h
    case h_2 row =>
      split at h
      case isFalse => cases h
      case isTrue hhash =>
        split at h
        case isTrue hdiffers => exact ⟨hchunks, row, rfl, hhash, hdiffers⟩
        case isFalse => cases h

/-- Behind the writes of a call, its metadata-only updates still come on the day of `created_at`. -/
private theorem day_of_keepsDate (h : Mirrors S all sourceMachineId n db hub) {call : TimedCall R}
    (hmachine : call.sourceMachineId = sourceMachineId) (hkeeps : KeepsDate hub call) {written : Tables sql V}
    (hwritten : ∀ stored ∈ written.documents.rows, stored ∈ hub.documents.rows ∨ stored.createdAt = call.now) :
    ∀ doc ∈ call.sourceDocs.filter fun doc => outcomeOf db doc = .metadataUpdated,
      ∀ stored ∈ written.documents.rows, stored.documentId = doc.docId → nonEmpty doc.publishedAt = none →
        stored.createdAt.date = call.now.date := by
  intro doc hdoc stored hstored hid hnone
  obtain ⟨hdoc, houtcome⟩ := List.mem_filter.1 hdoc
  rcases hwritten stored hstored with hstored | hcreated
  · obtain ⟨hchunks, row, hlookup, hhash, hdiffers⟩ := of_classify_metadataUpdated (of_decide_eq_true houtcome)
    obtain ⟨hrow, hrowId⟩ := Table.lookup_eq_some.1 hlookup
    obtain ⟨other, hother, hshows⟩ := h.toLocal stored hstored
    have hsame : other.docId = row.docId := hshows.docId.trans (hid.trans hrowId.symm)
    obtain rfl := Table.eq_of_key hother hrow hsame
    have hstoredHash := hshows.contentHash.symm.trans hhash
    refine hkeeps doc hdoc hchunks stored hstored hid (Option.some.inj hstoredHash) ?_ hnone
    rw [hmachine, ← hshows.metadataDiffers_eq doc]
    exact hdiffers
  · rw [hcreated]

private theorem sliced_of_embed (hcastable : Central.Castable central embedder) (hstorable : Storable store embedder)
    (hembed : embedDocuments docs embedder = some vectorsByDoc) (hchunks : ∀ doc ∈ docs, doc.chunks ≠ []) :
    ∀ doc ∈ docs, ∃ vectors, vectorsByDoc doc.docId = some vectors ∧ Sliced store central vectors := by
  intro doc hdoc
  obtain ⟨slice, hslice, hvectors⟩ := Central.exists_slice hembed hdoc hchunks
  refine ⟨slice, hslice, fun vector hvector => ?_, fun vector hvector => ?_⟩
  · obtain ⟨text, texts, vectors, hcall, hmem⟩ := hvectors vector hvector
    exact hcastable texts vectors hcall vector (List.of_mem_zip hmem).2
  · obtain ⟨text, texts, vectors, hcall, hmem⟩ := hvectors vector hvector
    exact hstorable texts vectors hcall vector (List.of_mem_zip hmem).2

private theorem chunks_of_written {prior : Option DocumentRow} (h : classify prior doc = .written) :
    doc.chunks ≠ [] := by
  intro hchunks
  unfold classify at h
  rw [if_pos hchunks] at h
  split at h <;> cases h

private theorem serve_of_embed_none {call : TimedCall R} (hdim : call.embedder.dim = store.embeddingDim)
    (hembed : embedDocuments (call.sourceDocs.filter fun doc => outcomeOf db doc = .written) call.embedder = none) :
    store.serve db call = db := by
  have hembed' : embedDocuments (call.sourceDocs.filter fun doc =>
    classify (db.documents.lookup doc.docId) doc = .written) call.embedder = none := hembed
  unfold MemoryStore.serve MemoryStore.ingestDocuments
  rw [if_pos hdim]
  dsimp only
  rw [hembed']

/-- The loops of a call of the local store. -/
private theorem serve_of_embed {call : TimedCall R} (hdim : call.embedder.dim = store.embeddingDim)
    (hembed : embedDocuments (call.sourceDocs.filter fun doc => outcomeOf db doc = .written) call.embedder =
      some vectorsByDoc) : ∃ start, store.serve db call =
      ((call.sourceDocs.filter fun doc => outcomeOf db doc = .removed).foldl removeNext
        ((call.sourceDocs.filter fun doc => outcomeOf db doc = .metadataUpdated).foldl (updateNext call.now.isoformat)
          ((call.sourceDocs.filter fun doc => outcomeOf db doc = .written).foldl
            (store.writeNext call.embedder vectorsByDoc call.now.isoformat) (db, start)))).1 := by
  have hembed' : embedDocuments (call.sourceDocs.filter fun doc =>
    classify (db.documents.lookup doc.docId) doc = .written) call.embedder = some vectorsByDoc := hembed
  unfold MemoryStore.serve MemoryStore.ingestDocuments
  rw [if_pos hdim]
  dsimp only
  rw [hembed']
  exact ⟨_, rfl⟩

/-- **One call.**  Stores that mirror each other do so behind the call. -/
private theorem mirrors_serve (hexact : Set.InjOn sql.key S) (hdistinct : DistinctHashes all)
    (hdim : central.embeddingDim = store.embeddingDim) {call : TimedCall R}
    (hcall : Admitted store central sql sourceMachineId call)
    (hdocs : ∀ doc ∈ call.sourceDocs, Ready S sql all call.embedder sourceMachineId doc)
    (hroom : n + chunkCount call.sourceDocs < 2 ^ 63) {state : Tables sql V × List (Option Central.Summary)}
    (h : Mirrors S all sourceMachineId n db state.1) (hkeeps : KeepsDate state.1 call) :
    Mirrors S all sourceMachineId (n + chunkCount call.sourceDocs) (store.serve db call)
      (central.serve state call).1 := by
  have hplan := plan_eq h hdistinct fun doc hdoc => ⟨(hdocs doc hdoc).mem, (hdocs doc hdoc).ingestible.acceptable.docId⟩
  have hhaving : ∀ outcome : DocumentOutcome,
      Central.having outcome.verdict (Central.MemoryStore.plan state.1 call.sourceDocs sourceMachineId) =
        call.sourceDocs.filter fun doc => outcomeOf db doc = outcome := by
    intro outcome
    rw [hplan]
    exact having_map outcome (outcomeOf db) call.sourceDocs
  have hsame : Mirrors S all sourceMachineId (n + chunkCount call.sourceDocs) db state.1 :=
    ⟨h.within, h.sound.mono (by omega), h.toHub, h.toLocal⟩
  have hready : ∀ p : SourceDocument → Bool, ∀ doc ∈ call.sourceDocs.filter p,
      Ready S sql all call.embedder sourceMachineId doc := fun p doc hdoc => hdocs doc (List.mem_filter.1 hdoc).1
  by_cases hembedder : call.embedder.dim = store.embeddingDim
  · have hwrites : Central.having .write (Central.MemoryStore.plan state.1 call.sourceDocs sourceMachineId) = _ :=
      hhaving .written
    cases hembed : embedDocuments (call.sourceDocs.filter fun doc => outcomeOf db doc = .written) call.embedder with
    | none =>
      have hlocal := serve_of_embed_none hembedder hembed
      have hcentral : central.ingestDocuments state.1 call.sourceDocs call.embedder call.sourceMachineId call.now =
          none := by
        unfold Central.MemoryStore.ingestDocuments
        rw [if_pos (hembedder.trans hdim.symm), hcall.machine]
        dsimp only
        rw [hwrites, hembed]
        rfl
      have hserve : central.serve state call = (state.1, state.2 ++ [none]) := Central.serve_of_none hcentral
      rw [hlocal, hserve]
      exact hsame
    | some vectorsByDoc =>
      obtain ⟨start, hlocal⟩ := serve_of_embed hembedder hembed
      have hcentral : ∃ start, central.ingestDocuments state.1 call.sourceDocs call.embedder call.sourceMachineId
          call.now = some
          ((call.sourceDocs.filter fun doc => outcomeOf db doc = .removed).foldl Central.MemoryStore.removeNext
            ((call.sourceDocs.filter fun doc => outcomeOf db doc = .metadataUpdated).foldl
              (Central.MemoryStore.updateNext sourceMachineId call.now)
              ((call.sourceDocs.filter fun doc => outcomeOf db doc = .written).foldl
                (central.writeNext call.embedder vectorsByDoc sourceMachineId call.now) (state.1, start)))) := by
        unfold Central.MemoryStore.ingestDocuments
        rw [if_pos (hembedder.trans hdim.symm), hcall.machine]
        dsimp only
        rw [hwrites, hembed, ← hhaving .removed, ← hhaving .metadataUpdated]
        exact ⟨_, rfl⟩
      obtain ⟨start', hcentral⟩ := hcentral
      have hserve : central.serve state call = (_, state.2 ++ [some _]) := Central.serve_of_some hcentral
      obtain ⟨hwritten, hrows⟩ := mirrors_writes hexact hdistinct hcall.clock (hready _)
        (sliced_of_embed hcall.castable hcall.storable hembed fun doc hdoc =>
          chunks_of_written (of_decide_eq_true (List.mem_filter.1 hdoc).2))
        (show Mirrors S all sourceMachineId n (db, start).1 (state.1, start').1 from h)
        (lt_of_le_of_lt (Nat.add_le_add_left (chunkCount_filter_le _ _) n) hroom)
      have hupdated := mirrors_updates hexact (hready _) hwritten (day_of_keepsDate h hcall.machine hkeeps hrows)
      have hremoved := mirrors_removals hexact
        (fun doc (hdoc : doc ∈ call.sourceDocs.filter fun doc => outcomeOf db doc = .removed) =>
          (hready _ doc hdoc).submitted.docId) hupdated
      rw [hlocal, hserve]
      exact ⟨hremoved.within, hremoved.sound.mono (Nat.add_le_add_left (chunkCount_filter_le _ _) n), hremoved.toHub,
        hremoved.toLocal⟩
  · have hlocal : store.ingestDocuments db call.sourceDocs call.embedder call.now.isoformat = none := if_neg hembedder
    have hcentral : central.ingestDocuments state.1 call.sourceDocs call.embedder call.sourceMachineId call.now = none :=
      if_neg fun hd => hembedder (hd.trans hdim)
    have hserve : store.serve db call = db := by
      unfold MemoryStore.serve
      rw [hlocal]
    have hserve' : central.serve state call = (state.1, state.2 ++ [none]) := Central.serve_of_none hcentral
    rw [hserve, hserve']
    exact hsame

/-! ### Sequences of calls -/

private theorem ready_of_mem {calls : List (TimedCall R)} {call : TimedCall R} (hcall : call ∈ calls)
    (h : Admitted store central sql sourceMachineId call) : ∀ doc ∈ call.sourceDocs,
      Ready (Central.textsOf (documentsOf calls)) sql (documentsOf calls) call.embedder sourceMachineId doc := by
  intro doc hdoc
  have hmem : doc ∈ documentsOf calls := List.mem_flatMap.2 ⟨call, hcall, hdoc⟩
  have hingestible := h.docs doc hdoc
  exact ⟨hmem, ⟨⟨doc, hmem, Or.inl rfl⟩, ⟨doc, hmem, Or.inr (Or.inl rfl)⟩,
    fun chunk hchunk => ⟨doc, hmem, Or.inr (Or.inr ⟨chunk, hchunk, rfl⟩)⟩, hingestible.acceptable.seqs⟩, hingestible⟩

private theorem chunkCount_append (docs docs' : List SourceDocument) :
    chunkCount (docs ++ docs') = chunkCount docs + chunkCount docs' := by
  unfold chunkCount
  rw [List.map_append, List.sum_append]

private theorem documentsOf_append (calls calls' : List (TimedCall R)) :
    documentsOf (calls ++ calls') = documentsOf calls ++ documentsOf calls' :=
  List.flatMap_append

private theorem mirrors_after (hdim : central.embeddingDim = store.embeddingDim) {calls : List (TimedCall R)}
    (hexact : Set.InjOn sql.key (Central.textsOf (documentsOf calls))) (hdistinct : DistinctHashes (documentsOf calls))
    (hcalls : ∀ call ∈ calls, Admitted store central sql sourceMachineId call)
    (hroom : chunkCount (documentsOf calls) < 2 ^ 63)
    (hkeeps : ∀ before call after, calls = before ++ call :: after → KeepsDate (central.after sql before).1 call)
    {before after : List (TimedCall R)} (hsplit : calls = before ++ after) :
    Mirrors (Central.textsOf (documentsOf calls)) (documentsOf calls) sourceMachineId (chunkCount (documentsOf before))
      (store.after before) (central.after sql before).1 := by
  induction before using List.reverseRecOn generalizing after with
  | nil => exact mirrors_empty
  | append_singleton before call ih =>
    have hsplit' : calls = before ++ call :: after := by
      rw [hsplit, List.append_assoc]
      rfl
    have hmem : call ∈ calls := by
      rw [hsplit']
      exact List.mem_append_right _ List.mem_cons_self
    have hcount : chunkCount (documentsOf (before ++ [call])) =
        chunkCount (documentsOf before) + chunkCount call.sourceDocs := by
      rw [documentsOf_append, chunkCount_append]
      exact congrArg (chunkCount _ + chunkCount ·) (List.flatMap_singleton _ call)
    have hlocal : store.after (before ++ [call]) = store.serve (store.after before) call := by
      unfold MemoryStore.after
      rw [List.foldl_append]
      rfl
    have hcentral : central.after sql (before ++ [call]) = central.serve (central.after sql before) call := by
      unfold Central.MemoryStore.after
      rw [List.foldl_append]
      rfl
    have hbound : chunkCount (documentsOf (before ++ [call])) ≤ chunkCount (documentsOf calls) := by
      rw [hsplit, documentsOf_append (before ++ [call]), chunkCount_append (documentsOf (before ++ [call]))]
      exact Nat.le_add_right _ _
    rw [hcount] at hbound
    rw [hcount, hlocal, hcentral]
    exact mirrors_serve hexact hdistinct hdim (hcalls call hmem) (ready_of_mem hmem (hcalls call hmem)) (by omega)
      (ih hsplit') (hkeeps before call after hsplit')

/-- **Both stores filter alike.**  Behind every sequence of calls that both stores take, in which documents of different
ids have different content, every query finds the same documents eligible in both stores, if every metadata-only update
leaves a `published_at` or comes on the day of `created_at`. -/
theorem filters_alike (hcollates : Central.Collates sql le) (hdim : central.embeddingDim = store.embeddingDim)
    (calls : List (TimedCall R)) (hexact : Set.InjOn sql.key (Central.textsOf (documentsOf calls)))
    (hdistinct : DistinctHashes (documentsOf calls))
    (hcalls : ∀ call ∈ calls, Admitted store central sql sourceMachineId call)
    (hroom : chunkCount (documentsOf calls) < 2 ^ 63)
    (hkeeps : ∀ before call after, calls = before ++ call :: after → KeepsDate (central.after sql before).1 call) :
    FilterAlike le (store.after calls) (central.after sql calls).1 :=
  (mirrors_after hdim hexact hdistinct hcalls hroom hkeeps (List.append_nil calls).symm).filterAlike hcollates

/-! ### A title and a date -/

private def letterMemory : MemoryStore Int (List Int) where
  embeddingDim := 1
  sqliteVec := ⟨some, fun dim blob => blob.length = dim⟩
  reprFloat _ := "0.0"

private def nextNoon : Instant := ⟨"2026-07-02", "12:00:00", by decide⟩

/-- A document, and on the next day the same content with another description. -/
private def twoDays (again : SourceDocument) : List (TimedCall Int) :=
  [⟨⟨[Central.note "a" "one"], Central.letterCount, none⟩, Central.noon⟩,
    ⟨⟨[again], Central.letterCount, none⟩, nextNoon⟩]

private def retitled : SourceDocument := { Central.note "a" "one" with title := "b" }

private def published : SourceDocument := { Central.note "a" "one" with publishedAt := some "2026-06-30" }

/-- On the next day the document gets another title: the local store moves it to that day, and the central one does
not. -/
theorem updated_later : (∀ call ∈ twoDays retitled, call.sourceMachineId = none) ∧
    DistinctHashes (documentsOf (twoDays retitled)) ∧
    ¬ FilterAlike (fun a b => a ≤ b) (letterMemory.after (twoDays retitled))
      (Central.letterStore.after Sql.sample (twoDays retitled)).1 := by
  refine ⟨by decide, by unfold DistinctHashes; decide, fun h => ?_⟩
  have hvalid : (⟨none, some "2026-07-02", none⟩ : DocFilter).Valid := by
    refine ⟨by simp, fun d hd => ?_, by simp⟩
    obtain rfl := Option.some.inj hd
    decide
  have hlocal : "a" ∈ (letterMemory.after (twoDays retitled)).eligible ⟨none, some "2026-07-02", none⟩ := by
    decide +kernel
  have hhub : "a" ∉ (Central.letterStore.after Sql.sample (twoDays retitled)).1.eligible (fun a b => a ≤ b)
      ⟨none, some "2026-07-02", none⟩ := by
    decide +kernel
  exact hhub ((h _ hvalid "a").1 hlocal)

private theorem collates_sample : Central.Collates Sql.sample fun a b => a ≤ b where
  dates := fun a b _ _ => decide_eq_true_iff
  blank := by
    intro p hp hkey
    have hempty : p.toList.map Char.toUpper = [] := String.ofList_injective hkey
    rw [List.map_eq_nil_iff] at hempty
    unfold dateOf at hp
    rw [hempty] at hp
    exact absurd hp (by decide)
  sourceTypes := by
    have hall : ∀ s ∈ validSourceTypes, ∀ t ∈ validSourceTypes, Sql.sample.key s = Sql.sample.key t → s = t := by
      decide +kernel
    exact fun s hs t ht => hall s hs t ht

private theorem storable_letterCount : Storable letterMemory Central.letterCount := by
  intro texts vectors h vector hvector
  obtain rfl := Option.some.inj h
  obtain ⟨text, -, rfl⟩ := List.mem_map.1 hvector
  exact ⟨_, rfl, rfl⟩

private theorem admitted_published :
    ∀ call ∈ twoDays published, Admitted letterMemory Central.letterStore Sql.sample none call := by
  intro call hcall
  have hembedder : call.embedder = Central.letterCount := by
    simp only [twoDays, List.mem_cons, List.not_mem_nil, or_false] at hcall
    rcases hcall with rfl | rfl
    · rfl
    · rfl
  have hall : ∀ call ∈ twoDays published, call.sourceMachineId = none ∧ isIsoDate call.now.date = true ∧
      ∀ doc ∈ call.sourceDocs, doc.docId ≠ "" ∧ doc.contentHash ≠ "" ∧ (doc.chunks.map ChunkInput.seq).Nodup ∧
        Tables.fitsDocument Sql.sample doc none = true ∧ (∀ chunk ∈ doc.chunks, Tables.fitsChunk Sql.sample
          (Central.MemoryStore.chunkRow Sql.sample.reprFloat doc Central.letterCount chunk ()) = true) ∧
        doc.sourceType ∈ validSourceTypes ∧ (nonEmpty doc.publishedAt).all (fun p => isIsoDate (dateOf p)) = true := by
    decide +kernel
  obtain ⟨hmachine, hclock, hdocs⟩ := hall call hcall
  refine ⟨hmachine, hclock, ?_, ?_, fun doc hdoc => ?_⟩
  · rw [hembedder]
    exact Central.castable_letterCount
  · rw [hembedder]
    exact storable_letterCount
  · obtain ⟨hid, hhash, hseqs, hfits, hchunks, htype, hdate⟩ := hdocs doc hdoc
    rw [hembedder]
    refine ⟨⟨hid, hhash, hseqs, hfits, hchunks⟩, htype, fun p hp => ?_⟩
    rw [hp] at hdate
    exact hdate

private def dayTexts : List String := ["a", "one", "mem:a:0"]

/-- On the next day the document gets a date. -/
theorem dated_later : FilterAlike (fun a b => a ≤ b) (letterMemory.after (twoDays published))
    (Central.letterStore.after Sql.sample (twoDays published)).1 := by
  have htexts : Central.textsOf (documentsOf (twoDays published)) ⊆ {s | s ∈ dayTexts} := by
    rintro s ⟨doc, hdoc, hs⟩
    have hall : ∀ doc ∈ documentsOf (twoDays published), doc.docId ∈ dayTexts ∧ doc.contentHash ∈ dayTexts ∧
        ∀ chunk ∈ doc.chunks, Central.chunkId doc.docId chunk.seq ∈ dayTexts := by
      decide +kernel
    obtain ⟨hid, hhash, hchunks⟩ := hall doc hdoc
    rcases hs with rfl | rfl | ⟨chunk, hchunk, rfl⟩
    · exact hid
    · exact hhash
    · exact hchunks chunk hchunk
  have hkeys : ∀ s ∈ dayTexts, ∀ t ∈ dayTexts, Sql.sample.key s = Sql.sample.key t → s = t := by decide +kernel
  refine filters_alike collates_sample rfl _ (fun s hs t ht => hkeys s (htexts hs) t (htexts ht))
    (by unfold DistinctHashes; decide) admitted_published (by decide) fun before call after hsplit => ?_
  cases before with
  | nil => exact fun doc _ _ row hrow => absurd hrow List.not_mem_nil
  | cons first before =>
    have hcall : call ∈ (twoDays published).tail := by
      rw [hsplit]
      exact List.mem_append_right _ List.mem_cons_self
    obtain rfl := List.mem_singleton.1 hcall
    intro doc hdoc _ row _ _ _ _ hnone
    obtain rfl := List.mem_singleton.1 hdoc
    exact absurd hnone (by decide)

end AgentOS
