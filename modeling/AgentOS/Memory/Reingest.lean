import AgentOS.Memory.Store

/-!
# Ingesting twice

A run classifies every document against the rows that it found, and a document of the same list may have changed them by
the time it is written.  So a second run over the list is a no-op just in case the documents that share an id
agree (`reingest_noOp_iff`); two overlapping exports do not (`overlapping_exports_reingest`).
-/

namespace AgentOS

variable {R Blob : Type} {store : MemoryStore R Blob} {embedder : Embedder R} {db db' : MemoryDb Blob}
  {sourceDocs docs : List SourceDocument} {ingestedAt : String} {prior : Option DocumentRow} {doc a b : SourceDocument}

/-! ### Documents that say the same -/

/-- The row holds what a document says of itself and of its content. -/
structure Describes (row : DocumentRow) (doc : SourceDocument) : Prop where
  title : row.title = some doc.title
  sourceType : row.sourceType = doc.sourceType
  sourcePath : row.sourcePath = doc.sourcePath
  contentHash : row.contentHash = some doc.contentHash
  provenance : row.provenance = some doc.provenance
  publishedAt : row.publishedAt = doc.publishedAt

/-- The documents agree in metadata and content hash. -/
structure SameSource (a b : SourceDocument) : Prop where
  title : a.title = b.title
  sourceType : a.sourceType = b.sourceType
  sourcePath : a.sourcePath = b.sourcePath
  contentHash : a.contentHash = b.contentHash
  provenance : a.provenance = b.provenance
  publishedAt : a.publishedAt = b.publishedAt

/-- The documents are both without chunks, or both have chunks and agree in metadata and content hash. -/
def SourceDocument.Agree (a b : SourceDocument) : Prop :=
  a.chunks = [] ∧ b.chunks = [] ∨ a.chunks ≠ [] ∧ b.chunks ≠ [] ∧ SameSource a b

/-- Documents of the list that share their id agree. -/
def Consistent (sourceDocs : List SourceDocument) : Prop :=
  ∀ a ∈ sourceDocs, ∀ b ∈ sourceDocs, a.docId = b.docId → a.Agree b

theorem SameSource.symm (h : SameSource a b) : SameSource b a :=
  ⟨h.title.symm, h.sourceType.symm, h.sourcePath.symm, h.contentHash.symm, h.provenance.symm, h.publishedAt.symm⟩

theorem Describes.congr {row : DocumentRow} (h : Describes row a) (hab : SameSource a b) : Describes row b where
  title := hab.title ▸ h.title
  sourceType := hab.sourceType ▸ h.sourceType
  sourcePath := hab.sourcePath ▸ h.sourcePath
  contentHash := hab.contentHash ▸ h.contentHash
  provenance := hab.provenance ▸ h.provenance
  publishedAt := hab.publishedAt ▸ h.publishedAt

/-- What describes two documents shows that they agree. -/
theorem Describes.sameSource {row : DocumentRow} (ha : Describes row a) (hb : Describes row b) : SameSource a b where
  title := Option.some.inj (ha.title.symm.trans hb.title)
  sourceType := ha.sourceType.symm.trans hb.sourceType
  sourcePath := ha.sourcePath.symm.trans hb.sourcePath
  contentHash := Option.some.inj (ha.contentHash.symm.trans hb.contentHash)
  provenance := Option.some.inj (ha.provenance.symm.trans hb.provenance)
  publishedAt := ha.publishedAt.symm.trans hb.publishedAt

/-- The row that is written describes the document. -/
theorem describes_row (doc : SourceDocument) (ingestedAt : String) : Describes (doc.row ingestedAt) doc :=
  ⟨rfl, rfl, rfl, rfl, rfl, rfl⟩

/-- So does the row that is updated, where it has the content hash. -/
theorem describes_describe {row : DocumentRow} (h : row.contentHash = some doc.contentHash) :
    Describes (doc.describe ingestedAt row) doc :=
  ⟨rfl, rfl, rfl, h, rfl, rfl⟩

theorem metadataDiffers_eq_false {row : DocumentRow} :
    metadataDiffers row doc = false ↔ row.title = some doc.title ∧ row.sourceType = doc.sourceType ∧
      row.sourcePath = doc.sourcePath ∧ row.provenance = some doc.provenance ∧ row.publishedAt = doc.publishedAt := by
  simp [metadataDiffers, and_assoc]

/-! ### Settled documents -/

/-- A run that finds the row has nothing to do about the document. -/
def Settled (prior : Option DocumentRow) (doc : SourceDocument) : Prop :=
  classify prior doc = .unchanged ∨ classify prior doc = .skippedEmpty

/-- What the classification says about the row and the document. -/
theorem classify_spec (prior : Option DocumentRow) (doc : SourceDocument) : match classify prior doc with
    | .removed => doc.chunks = [] ∧ prior ≠ none
    | .skippedEmpty => doc.chunks = [] ∧ prior = none
    | .metadataUpdated => doc.chunks ≠ [] ∧ ∃ row, prior = some row ∧ row.contentHash = some doc.contentHash
    | .unchanged => doc.chunks ≠ [] ∧ ∃ row, prior = some row ∧ Describes row doc
    | .written => doc.chunks ≠ [] := by
  unfold classify
  by_cases hchunks : doc.chunks = []
  · rw [if_pos hchunks]
    cases prior with
    | none => exact ⟨hchunks, rfl⟩
    | some row => exact ⟨hchunks, by simp⟩
  · rw [if_neg hchunks]
    cases prior with
    | none => exact hchunks
    | some row =>
      dsimp only
      by_cases hhash : row.contentHash = some doc.contentHash
      · rw [if_pos hhash]
        cases hdiffers : metadataDiffers row doc with
        | true => exact ⟨hchunks, row, rfl, hhash⟩
        | false =>
          obtain ⟨htitle, htype, hpath, hprovenance, hpublished⟩ := metadataDiffers_eq_false.1 hdiffers
          exact ⟨hchunks, row, rfl, htitle, htype, hpath, hhash, hprovenance, hpublished⟩
      · rw [if_neg hhash]
        exact hchunks

theorem classify_eq_unchanged :
    classify prior doc = .unchanged ↔ doc.chunks ≠ [] ∧ ∃ row, prior = some row ∧ Describes row doc := by
  constructor
  · intro h
    have hspec := classify_spec prior doc
    rw [h] at hspec
    exact hspec
  · rintro ⟨hchunks, row, rfl, hd⟩
    have hsame := metadataDiffers_eq_false.2 ⟨hd.title, hd.sourceType, hd.sourcePath, hd.provenance, hd.publishedAt⟩
    unfold classify
    rw [if_neg hchunks]
    dsimp only
    rw [if_pos hd.contentHash, hsame]
    rfl

theorem classify_eq_skippedEmpty : classify prior doc = .skippedEmpty ↔ doc.chunks = [] ∧ prior = none := by
  constructor
  · intro h
    have hspec := classify_spec prior doc
    rw [h] at hspec
    exact hspec
  · rintro ⟨hchunks, rfl⟩
    exact if_pos hchunks

theorem settled_iff : Settled prior doc ↔
    (doc.chunks ≠ [] ∧ ∃ row, prior = some row ∧ Describes row doc) ∨ (doc.chunks = [] ∧ prior = none) :=
  or_congr classify_eq_unchanged classify_eq_skippedEmpty

/-- Two documents that one row settles agree. -/
theorem Settled.agree (ha : Settled prior a) (hb : Settled prior b) : a.Agree b := by
  rw [settled_iff] at ha hb
  rcases ha with ⟨ha, row, rfl, hda⟩ | ⟨ha, rfl⟩
  · rcases hb with ⟨hb, row', hrow, hdb⟩ | ⟨-, hnone⟩
    · obtain rfl := Option.some.inj hrow
      exact Or.inr ⟨ha, hb, hda.sameSource hdb⟩
    · cases hnone
  · rcases hb with ⟨-, row, hrow, -⟩ | ⟨hb, -⟩
    · cases hrow
    · exact Or.inl ⟨ha, hb⟩

/-- Documents that agree are classified alike. -/
theorem SourceDocument.Agree.classify_eq (h : a.Agree b) : classify prior a = classify prior b := by
  unfold classify
  rcases h with ⟨ha, hb⟩ | ⟨ha, hb, hab⟩
  · rw [if_pos ha, if_pos hb]
  · rw [if_neg ha, if_neg hb]
    unfold metadataDiffers
    rw [hab.title, hab.sourceType, hab.sourcePath, hab.contentHash, hab.provenance, hab.publishedAt]

/-! ### The second run -/

/-- The documents of one id settle on the row that a run leaves of them, if they agree. -/
theorem settled_rowAfter (hagree : ∀ doc ∈ docs, a.Agree doc) (ha : a ∈ docs) :
    Settled (rowAfter ingestedAt prior docs) a := by
  have hfilter : ∀ outcome, docs.filter (fun doc => classify prior doc = outcome) =
      if classify prior a = outcome then docs else [] := by
    intro outcome
    by_cases hclass : classify prior a = outcome
    · rw [if_pos hclass, List.filter_eq_self]
      intro doc hdoc
      rw [← (hagree doc hdoc).classify_eq, hclass]
      exact decide_eq_true rfl
    · rw [if_neg hclass, List.filter_eq_nil_iff]
      intro doc hdoc hsame
      rw [← (hagree doc hdoc).classify_eq] at hsame
      exact hclass (of_decide_eq_true hsame)
  have hne : docs ≠ [] := List.ne_nil_of_mem ha
  have hsame : a.chunks ≠ [] → ∀ doc ∈ docs, SameSource doc a := by
    intro hchunks doc hdoc
    rcases hagree doc hdoc with ⟨hempty, -⟩ | ⟨-, -, h⟩
    · exact absurd hempty hchunks
    · exact h.symm
  have hspec := classify_spec prior a
  unfold rowAfter
  dsimp only
  rw [hfilter, hfilter, hfilter, settled_iff]
  cases hclass : classify prior a with
  | removed =>
    rw [hclass] at hspec
    simp only [reduceCtorEq, if_true, if_false, List.foldl_nil]
    exact Or.inr ⟨hspec.1, Fold.of_last (fun _ => True) (· = none) hne trivial fun _ _ _ _ => ⟨trivial, rfl⟩⟩
  | skippedEmpty =>
    rw [hclass] at hspec
    exact Or.inr hspec
  | metadataUpdated =>
    rw [hclass] at hspec
    obtain ⟨hchunks, row, rfl, hhash⟩ := hspec
    simp only [reduceCtorEq, if_true, if_false, List.foldl_nil]
    -- the content hash stays, and the rest is written by every update
    refine Or.inl ⟨hchunks, Fold.of_last (fun row => ∃ r, row = some r ∧ r.contentHash = some a.contentHash)
      (fun row => ∃ r, row = some r ∧ Describes r a) hne ⟨row, rfl, hhash⟩ ?_⟩
    rintro doc hdoc - ⟨r, rfl, hr⟩
    have hdoc := hsame hchunks doc hdoc
    exact ⟨⟨_, rfl, hr⟩, _, rfl, (describes_describe (hr.trans (congrArg some hdoc.contentHash.symm))).congr hdoc⟩
  | unchanged =>
    rw [hclass] at hspec
    exact Or.inl hspec
  | written =>
    rw [hclass] at hspec
    simp only [reduceCtorEq, if_true, if_false, List.foldl_nil]
    refine Or.inl ⟨hspec, Fold.of_last (fun _ => True) (fun row => ∃ r, row = some r ∧ Describes r a) hne trivial ?_⟩
    exact fun doc hdoc _ _ => ⟨trivial, _, rfl, (describes_row doc ingestedAt).congr (hsame hspec doc hdoc)⟩

theorem rowAfter_of_removed (h : doc ∈ docs) (hclass : classify prior doc = .removed) :
    rowAfter ingestedAt prior docs = none := by
  have hmem : doc ∈ docs.filter fun doc => classify prior doc = .removed :=
    List.mem_filter.2 ⟨h, decide_eq_true hclass⟩
  exact Fold.of_last (fun _ => True) (· = none) (List.ne_nil_of_mem hmem) trivial fun _ _ _ _ => ⟨trivial, rfl⟩

/-- The rows are the same. -/
structure MemoryDb.SameRows (db db' : MemoryDb Blob) : Prop where
  documents : ∀ row, row ∈ db.documents.rows ↔ row ∈ db'.documents.rows
  chunks : ∀ row, row ∈ db.chunks.rows ↔ row ∈ db'.chunks.rows
  chunksVec : ∀ row, row ∈ db.chunksVec.rows ↔ row ∈ db'.chunksVec.rows

/-- A run over the list ends without a failed write, inserts and updates nothing and leaves the rows as they are. -/
def IngestsNothing (store : MemoryStore R Blob) (db : MemoryDb Blob) (sourceDocs : List SourceDocument)
    (embedder : Embedder R) (ingestedAt : String) : Prop :=
  ∃ db' summary, store.ingestDocuments db sourceDocs embedder ingestedAt = some (db', summary) ∧
    summary.documentsFailed = [] ∧ summary.documentsNew = 0 ∧ summary.documentsReplaced = 0 ∧
    summary.documentsMetadataUpdated = 0 ∧ db'.SameRows db

private theorem lookup_eq_of_sameRows (h : db'.SameRows db) (docId : String) :
    db'.documents.lookup docId = db.documents.lookup docId := by
  refine Option.ext fun row => ?_
  rw [Table.lookup_eq_some, Table.lookup_eq_some, h.documents]

/-- A run does nothing just in case every document is settled. -/
theorem ingestsNothing_iff (hdim : embedder.dim = store.embeddingDim) :
    IngestsNothing store db sourceDocs embedder ingestedAt ↔
      ∀ doc ∈ sourceDocs, Settled (db.documents.lookup doc.docId) doc := by
  have hnone : ∀ outcome, (sourceDocs.filter fun doc => classify (db.documents.lookup doc.docId) doc = outcome) = [] ↔
      ∀ doc ∈ sourceDocs, classify (db.documents.lookup doc.docId) doc ≠ outcome := by
    intro outcome
    rw [List.filter_eq_nil_iff]
    exact forall₂_congr fun _ _ => not_congr decide_eq_true_iff
  constructor
  · rintro ⟨db', summary, hrun, hfailed, hnew, hreplaced, hupdated, hrows⟩
    have hattempts := attempts_eq hrun
    unfold IngestSummary.attempts at hattempts
    rw [hfailed, hnew, hreplaced, hupdated, List.length_nil] at hattempts
    have hwrites := (hnone .written).1 (List.length_eq_zero_iff.1 (by omega))
    have hupdates := (hnone .metadataUpdated).1 (List.length_eq_zero_iff.1 (by omega))
    intro doc hdoc
    cases hclass : classify (db.documents.lookup doc.docId) doc with
    | removed =>
      have hspec := classify_spec (db.documents.lookup doc.docId) doc
      rw [hclass] at hspec
      have hgone := ingest_lookup hrun hfailed doc.docId
      rw [rowAfter_of_removed (List.mem_filter.2 ⟨hdoc, decide_eq_true rfl⟩) hclass,
        lookup_eq_of_sameRows hrows] at hgone
      exact absurd hgone hspec.2
    | skippedEmpty => exact Or.inr hclass
    | metadataUpdated => exact absurd hclass (hupdates doc hdoc)
    | unchanged => exact Or.inl hclass
    | written => exact absurd hclass (hwrites doc hdoc)
  · intro hsettled
    have hother : ∀ outcome, outcome ≠ .unchanged → outcome ≠ .skippedEmpty →
        (sourceDocs.filter fun doc => classify (db.documents.lookup doc.docId) doc = outcome) = [] := by
      intro outcome hunchanged hskipped
      refine (hnone outcome).2 fun doc hdoc hclass => ?_
      rcases hsettled doc hdoc with h | h
      · exact hunchanged (hclass.symm.trans h)
      · exact hskipped (hclass.symm.trans h)
    unfold IngestsNothing MemoryStore.ingestDocuments
    rw [if_pos hdim]
    dsimp only
    rw [hother .written (by simp) (by simp), hother .metadataUpdated (by simp) (by simp),
      hother .removed (by simp) (by simp)]
    exact ⟨db, _, rfl, rfl, rfl, rfl, rfl, fun _ => Iff.rfl, fun _ => Iff.rfl, fun _ => Iff.rfl⟩

/-- **A second run is a no-op just in case the list is consistent.**  From every state, a run in which no write fails
leaves a state on which a second run over the same list inserts and updates nothing and leaves every row as it is, if
and only if the documents of the list that share an id agree. -/
theorem reingest_noOp_iff {summary : IngestSummary} {embedder' : Embedder R}
    (hrun : store.ingestDocuments db sourceDocs embedder ingestedAt = some (db', summary))
    (hfailed : summary.documentsFailed = []) (hdim : embedder'.dim = embedder.dim) (ingestedAt' : String) :
    IngestsNothing store db' sourceDocs embedder' ingestedAt' ↔ Consistent sourceDocs := by
  have hstore : embedder'.dim = store.embeddingDim := by
    rw [hdim]
    unfold MemoryStore.ingestDocuments at hrun
    split at hrun
    case isTrue h => exact h
    case isFalse => cases hrun
  rw [ingestsNothing_iff hstore]
  constructor
  · intro hsettled a ha b hb hid
    have hsettled' := hsettled b hb
    rw [← hid] at hsettled'
    exact (hsettled a ha).agree hsettled'
  · intro hconsistent a ha
    rw [ingest_lookup hrun hfailed]
    refine settled_rowAfter (fun doc hdoc => ?_) (List.mem_filter.2 ⟨ha, decide_eq_true rfl⟩)
    obtain ⟨hdoc, hid⟩ := List.mem_filter.1 hdoc
    exact hconsistent a ha doc hdoc (of_decide_eq_true hid).symm

/-! ### Two overlapping exports -/

private def memoryStore : MemoryStore Int (List Int) where
  embeddingDim := 2
  sqliteVec := ⟨some, fun dim blob => blob.length = dim⟩
  reprFloat _ := "0.0"

private def embedTexts : Embedder Int where
  modelName := "sentence-transformers/all-MiniLM-L6-v2"
  dim := 2
  embedDocuments texts := some (texts.map fun _ => [1, 0])

private def emptyDb : MemoryDb (List Int) := ⟨Table.empty, Table.empty, Table.empty, List.nodup_nil⟩

/-- The conversation `c1` of an export. -/
private def conversation (sourcePath : String) : SourceDocument where
  docId := "cg_2f22765d04931a07"
  title := "Greeting"
  sourceType := "chatgpt_conversation"
  sourcePath := some sourcePath
  contentHash := "221df6f4136f4a457cefe1a8973a54384a8cf91a8bea016afa5d75608bee0c8d"
  provenance := "uploaded"
  publishedAt := none
  chunks := [⟨0, "user: hello", [("roles", .arr [.str "user"]), ("message_ids", .arr [.str "m1"])]⟩]

private def oneExport : List SourceDocument := [conversation "/exports/june/conversations.json"]

private def twoExports : List SourceDocument :=
  [conversation "/exports/june/conversations.json", conversation "/exports/may/conversations.json"]

/-- One export is ingested into an empty store. -/
theorem one_export_reingest : ∃ db summary,
    memoryStore.ingestDocuments emptyDb oneExport embedTexts "2026-07-01T00:00:00+00:00" = some (db, summary) ∧
      summary.documentsFailed = [] ∧
      IngestsNothing memoryStore db oneExport embedTexts "2026-07-02T00:00:00+00:00" := by
  have hrun : (memoryStore.ingestDocuments emptyDb oneExport embedTexts "2026-07-01T00:00:00+00:00").any
      (fun state => state.2.documentsFailed.isEmpty) = true := by decide +kernel
  obtain ⟨⟨db, summary⟩, hrun, hfailed⟩ := (Option.any_eq_true _ _).1 hrun
  have hfailed := List.isEmpty_iff.1 hfailed
  have hconsistent : Consistent oneExport := by
    intro a ha b hb _
    rw [List.mem_singleton.1 ha, List.mem_singleton.1 hb]
    exact .inr ⟨by simp [conversation], by simp [conversation], ⟨rfl, rfl, rfl, rfl, rfl, rfl⟩⟩
  exact ⟨db, summary, hrun, hfailed, (reingest_noOp_iff hrun hfailed rfl _).2 hconsistent⟩

/-- A conversation that is in two exports: the second run finds the path of the second export and writes that of the
first. -/
theorem overlapping_exports_reingest : ∃ db summary,
    memoryStore.ingestDocuments emptyDb twoExports embedTexts "2026-07-01T00:00:00+00:00" = some (db, summary) ∧
      summary.documentsFailed = [] ∧
      ¬ IngestsNothing memoryStore db twoExports embedTexts "2026-07-02T00:00:00+00:00" := by
  have hrun : (memoryStore.ingestDocuments emptyDb twoExports embedTexts "2026-07-01T00:00:00+00:00").any
      (fun state => state.2.documentsFailed.isEmpty && (memoryStore.ingestDocuments state.1 twoExports embedTexts
        "2026-07-02T00:00:00+00:00").all fun again => again.2.documentsMetadataUpdated = 1) = true := by decide +kernel
  obtain ⟨⟨db, summary⟩, hrun, hstate⟩ := (Option.any_eq_true _ _).1 hrun
  obtain ⟨hfailed, hagain⟩ := Bool.and_eq_true_iff.1 hstate
  refine ⟨db, summary, hrun, List.isEmpty_iff.1 hfailed, ?_⟩
  rintro ⟨db', again, hsecond, -, -, -, hupdated, -⟩
  rw [hsecond] at hagain
  have hone : again.documentsMetadataUpdated = 1 := of_decide_eq_true hagain
  omega

end AgentOS
