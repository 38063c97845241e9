import AgentOS.Lib.Fold
import AgentOS.Lib.Table
import AgentOS.Python.Dumps
import Mathlib.Algebra.Group.Int.Defs
import Mathlib.Data.List.MinMax
import Mathlib.Logic.Function.Basic

/-!
# The local memory store

Documents, their chunks and the vectors of the chunks, and `MemoryStore.ingest_documents`.  What the embedder computes
and what `sqlite_vec` makes of a vector are arguments; the full-text index, which triggers keep, is left out.

* `writeDocument_ok` and the lemmas on single statements say what a write does to the documents.
* `ingest_lookup` says what a run in which no write fails leaves of each document.
-/

namespace AgentOS

/-! ### Documents -/

/-- `ChunkInput`. -/
structure ChunkInput where
  seq : Int
  text : String
  metaDict : List (String × Json)

/-- `SourceDocument`. -/
structure SourceDocument where
  docId : String
  title : String
  sourceType : String
  sourcePath : Option String
  contentHash : String
  provenance : String
  publishedAt : Option String
  chunks : List ChunkInput

/-- `VALID_SOURCE_TYPES`. -/
def validSourceTypes : List String := ["document", "chatgpt_conversation", "news"]

/-- A row of `documents`. -/
structure DocumentRow where
  docId : String
  title : Option String
  sourceType : String
  sourcePath : Option String
  contentHash : Option String
  provenance : Option String
  publishedAt : Option String
  ingestedAt : Option String

/-- A row of `chunks`. -/
structure ChunkRow where
  id : Int
  chunkId : String
  docId : String
  seq : Int
  text : String
  metaJson : Option String
  embeddingModel : Option String
  embeddingDim : Option Int

/-- A row of `chunks_vec`. -/
structure VectorRow (Blob : Type) where
  chunkRowid : Int
  embedding : Blob

/-- The database.  `chunk_id` is `UNIQUE`. -/
structure MemoryDb (Blob : Type) where
  documents : Table DocumentRow.docId
  chunks : Table ChunkRow.id
  chunksVec : Table (@VectorRow.chunkRowid Blob)
  chunkIds : (chunks.rows.map ChunkRow.chunkId).Nodup

/-- `sqlite_vec`: `serialize_float32`, `none` where it raises, and whether a column `FLOAT[dim]` takes the result. -/
structure SqliteVec (R Blob : Type) where
  serializeFloat32 : List R → Option Blob
  accepts : Nat → Blob → Bool

/-- `Embedder`; `embed_documents` is `none` where it raises. -/
structure Embedder (R : Type) where
  modelName : String
  dim : Nat
  embedDocuments : List String → Option (List (List R))

/-- `MemoryStore`, with what it imports. -/
structure MemoryStore (R Blob : Type) where
  embeddingDim : Nat
  sqliteVec : SqliteVec R Blob
  reprFloat : PyFloat → String

/-! ### Statements -/

/-- Why a write raises. -/
inductive WriteError where
  | sourceType
  | keyError
  | serialize
  | integer
  | unique
  | embedding
deriving DecidableEq

variable {R Blob : Type}

/-- `_delete_document`. -/
def MemoryDb.deleteDocument (db : MemoryDb Blob) (docId : String) : Bool × MemoryDb Blob :=
  ((db.documents.lookup docId).isSome,
    { documents := db.documents.delete fun row => row.docId = docId
      chunks := db.chunks.delete fun row => row.docId = docId
      chunksVec := db.chunksVec.delete fun row =>
        ((db.chunks.rows.filter fun chunk => chunk.docId = docId).map ChunkRow.id).contains row.chunkRowid
      chunkIds := db.chunkIds.sublist (List.filter_sublist.map ChunkRow.chunkId) })

/-- The row that `_insert_document` writes. -/
def SourceDocument.row (doc : SourceDocument) (ingestedAt : String) : DocumentRow where
  docId := doc.docId
  title := some doc.title
  sourceType := doc.sourceType
  sourcePath := doc.sourcePath
  contentHash := some doc.contentHash
  provenance := some doc.provenance
  publishedAt := doc.publishedAt
  ingestedAt := some ingestedAt

/-- `_insert_document`. -/
def MemoryDb.insertDocument (db : MemoryDb Blob) (doc : SourceDocument) (ingestedAt : String) :
    Except WriteError (MemoryDb Blob) :=
  if doc.sourceType ∈ validSourceTypes then
    match db.documents.insert (doc.row ingestedAt) with
    | none => .error .unique
    | some documents => .ok { db with documents }
  else .error .sourceType

/-- The row as `_update_document_metadata` leaves it. -/
def SourceDocument.describe (doc : SourceDocument) (ingestedAt : String) (row : DocumentRow) : DocumentRow :=
  { row with
    title := some doc.title
    sourceType := doc.sourceType
    sourcePath := doc.sourcePath
    provenance := some doc.provenance
    publishedAt := doc.publishedAt
    ingestedAt := some ingestedAt }

theorem docId_describe (doc : SourceDocument) (ingestedAt : String) (row : DocumentRow) :
    (doc.describe ingestedAt row).docId = row.docId :=
  rfl

/-- `_update_document_metadata`. -/
def MemoryDb.updateDocumentMetadata (db : MemoryDb Blob) (doc : SourceDocument) (ingestedAt : String) :
    Except WriteError (MemoryDb Blob) :=
  if doc.sourceType ∈ validSourceTypes then
    .ok { db with documents :=
      db.documents.update (fun row => row.docId = doc.docId) (doc.describe ingestedAt) (docId_describe doc ingestedAt) }
  else .error .sourceType

/-- An integer that SQLite can store. -/
def sqliteInteger (n : Int) : Prop := -2 ^ 63 ≤ n ∧ n < 2 ^ 63

instance (n : Int) : Decidable (sqliteInteger n) := inferInstanceAs (Decidable (_ ∧ _))

/-- `INSERT INTO chunks`.  The document that `doc_id` refers to has been inserted before. -/
def MemoryDb.insertChunk (db : MemoryDb Blob) (row : ChunkRow) : Except WriteError (MemoryDb Blob) :=
  if sqliteInteger row.id ∧ sqliteInteger row.seq then
    if hfree : row.chunkId ∈ db.chunks.rows.map ChunkRow.chunkId then .error .unique
    else match hinsert : db.chunks.insert row with
      | none => .error .unique
      | some chunks => .ok { db with
          chunks := chunks
          chunkIds := by
            rw [Table.insert_rows hinsert, List.map_append, List.map_singleton]
            exact db.chunkIds.append (List.nodup_singleton _) (List.disjoint_singleton.2 hfree) }
  else .error .integer

/-- `INSERT INTO chunks_vec`. -/
def MemoryDb.insertVector (store : MemoryStore R Blob) (db : MemoryDb Blob) (row : VectorRow Blob) :
    Except WriteError (MemoryDb Blob) :=
  if store.sqliteVec.accepts store.embeddingDim row.embedding then
    match db.chunksVec.insert row with
    | none => .error .unique
    | some chunksVec => .ok { db with chunksVec }
  else .error .embedding

/-- `SELECT COALESCE(MAX(id), 0) FROM chunks`, plus 1. -/
def MemoryDb.nextId (db : MemoryDb Blob) : Int := ((db.chunks.rows.map ChunkRow.id).max?).getD 0 + 1

/-- The chunks with their vectors and their ids; `zip` stops at the shorter list. -/
def MemoryDb.numbered (db : MemoryDb Blob) (doc : SourceDocument) (vectors : List (List R)) :
    List ((ChunkInput × List R) × Int) :=
  (doc.chunks.zip vectors).zipIdx.map fun (pair, offset) => (pair, db.nextId + offset)

/-- A row of `_insert_chunks`. -/
def MemoryStore.chunkRow (store : MemoryStore R Blob) (doc : SourceDocument) (embedder : Embedder R)
    (chunk : ChunkInput) (id : Int) : ChunkRow where
  id := id
  chunkId := "mem:" ++ doc.docId ++ ":" ++ toString chunk.seq
  docId := doc.docId
  seq := chunk.seq
  text := chunk.text
  metaJson := some (dumps store.reprFloat (.obj chunk.metaDict))
  embeddingModel := some embedder.modelName
  embeddingDim := some embedder.dim

/-- `_insert_chunks`. -/
def MemoryStore.insertChunks (store : MemoryStore R Blob) (embedder : Embedder R) (db : MemoryDb Blob)
    (doc : SourceDocument) (vectors : List (List R)) : Except WriteError (MemoryDb Blob) := do
  let numbered := db.numbered doc vectors
  let vecRows ← numbered.mapM fun ((_, vector), id) =>
    match store.sqliteVec.serializeFloat32 vector with
    | none => Except.error WriteError.serialize
    | some embedding => .ok ⟨id, embedding⟩
  let db ← (numbered.map fun ((chunk, _), id) => store.chunkRow doc embedder chunk id).foldlM MemoryDb.insertChunk db
  vecRows.foldlM (MemoryDb.insertVector store) db

/-! ### `ingest_documents` -/

/-- What a run does about a document. -/
inductive DocumentOutcome where
  | removed
  | skippedEmpty
  | metadataUpdated
  | unchanged
  | written
deriving DecidableEq

/-- `_metadata_differs`. -/
def metadataDiffers (prior : DocumentRow) (doc : SourceDocument) : Bool :=
  prior.title ≠ some doc.title || prior.sourceType ≠ doc.sourceType || prior.sourcePath ≠ doc.sourcePath ||
    prior.provenance ≠ some doc.provenance || prior.publishedAt ≠ doc.publishedAt

/-- One round of the loop that classifies, with `existing.get(doc.doc_id)`. -/
def classify (prior : Option DocumentRow) (doc : SourceDocument) : DocumentOutcome :=
  if doc.chunks = [] then if prior.isSome then .removed else .skippedEmpty
  else match prior with
    | none => .written
    | some row =>
      if row.contentHash = some doc.contentHash then
        if metadataDiffers row doc then .metadataUpdated else .unchanged
      else .written

/-- The last loop of `_embed_documents`: the vectors of a document, the last one of its id. -/
def sliceVectors (out : String → Option (List (List R))) :
    List SourceDocument → List (List R) → String → Option (List (List R))
  | [], _ => out
  | doc :: docs, vectors =>
    sliceVectors (Function.update out doc.docId (some (vectors.take doc.chunks.length))) docs
      (vectors.drop doc.chunks.length)

/-- `_embed_documents`; `none` where it raises. -/
def embedDocuments (docs : List SourceDocument) (embedder : Embedder R) :
    Option (String → Option (List (List R))) :=
  let texts := docs.flatMap fun doc => doc.chunks.map ChunkInput.text
  if texts = [] then some fun _ => none
  else match embedder.embedDocuments texts with
    | none => none
    | some vectors => if vectors.length = texts.length then some (sliceVectors (fun _ => none) docs vectors) else none

/-- An entry of `documents_failed`. -/
structure FailedDocument where
  docId : String
  sourcePath : Option String
  error : WriteError

/-- An entry of `by_source_type`. -/
structure Bucket where
  documents : Nat
  chunks : Nat

/-- The summary of a run. -/
structure IngestSummary where
  documentsNew : Nat
  documentsReplaced : Nat
  documentsUnchanged : Nat
  documentsMetadataUpdated : Nat
  documentsRemoved : Nat
  documentsSkippedEmpty : Nat
  documentsFailed : List FailedDocument
  chunksWritten : Nat
  bySourceType : String → Option Bucket

/-- The summary with one more failure. -/
def IngestSummary.failed (summary : IngestSummary) (doc : SourceDocument) (error : WriteError) : IngestSummary :=
  { summary with documentsFailed := summary.documentsFailed ++ [⟨doc.docId, doc.sourcePath, error⟩] }

/-- The summary with one more document written. -/
def IngestSummary.wrote (summary : IngestSummary) (doc : SourceDocument) (existed : Bool) : IngestSummary :=
  let bucket := (summary.bySourceType doc.sourceType).getD ⟨0, 0⟩
  { summary with
    documentsNew := summary.documentsNew + if existed then 0 else 1
    documentsReplaced := summary.documentsReplaced + if existed then 1 else 0
    chunksWritten := summary.chunksWritten + doc.chunks.length
    bySourceType := Function.update summary.bySourceType doc.sourceType
      (some ⟨bucket.documents + 1, bucket.chunks + doc.chunks.length⟩) }

/-- The body of the savepoint `doc`. -/
def MemoryStore.writeDocument (store : MemoryStore R Blob) (embedder : Embedder R)
    (vectorsByDoc : String → Option (List (List R))) (ingestedAt : String) (db : MemoryDb Blob) (doc : SourceDocument) :
    Except WriteError (Bool × MemoryDb Blob) := do
  let (existed, db) := db.deleteDocument doc.docId
  let db ← db.insertDocument doc ingestedAt
  match vectorsByDoc doc.docId with
  | none => .error .keyError
  | some vectors =>
    let db ← store.insertChunks embedder db doc vectors
    return (existed, db)

/-- One round of the loop over `to_write`; a write that raises is rolled back. -/
def MemoryStore.writeNext (store : MemoryStore R Blob) (embedder : Embedder R)
    (vectorsByDoc : String → Option (List (List R))) (ingestedAt : String) (state : MemoryDb Blob × IngestSummary)
    (doc : SourceDocument) : MemoryDb Blob × IngestSummary :=
  match store.writeDocument embedder vectorsByDoc ingestedAt state.1 doc with
  | .error error => (state.1, state.2.failed doc error)
  | .ok (existed, db) => (db, state.2.wrote doc existed)

/-- One round of the loop over `to_update`. -/
def updateNext (ingestedAt : String) (state : MemoryDb Blob × IngestSummary) (doc : SourceDocument) :
    MemoryDb Blob × IngestSummary :=
  match state.1.updateDocumentMetadata doc ingestedAt with
  | .error error => (state.1, state.2.failed doc error)
  | .ok db => (db, { state.2 with documentsMetadataUpdated := state.2.documentsMetadataUpdated + 1 })

/-- One round of the loop over `to_remove`. -/
def removeNext (state : MemoryDb Blob × IngestSummary) (doc : SourceDocument) : MemoryDb Blob × IngestSummary :=
  ((state.1.deleteDocument doc.docId).2, { state.2 with documentsRemoved := state.2.documentsRemoved + 1 })

/-- `ingest_documents`, at the time `ingestedAt`; `none` where it raises. -/
def MemoryStore.ingestDocuments (store : MemoryStore R Blob) (db : MemoryDb Blob) (sourceDocs : List SourceDocument)
    (embedder : Embedder R) (ingestedAt : String) : Option (MemoryDb Blob × IngestSummary) :=
  if embedder.dim = store.embeddingDim then
    let outcomes outcome := sourceDocs.filter fun doc => classify (db.documents.lookup doc.docId) doc = outcome
    match embedDocuments (outcomes .written) embedder with
    | none => none
    | some vectorsByDoc =>
      let start : IngestSummary := ⟨0, 0, (outcomes .unchanged).length, 0, 0, (outcomes .skippedEmpty).length, [], 0,
        fun _ => none⟩
      let state := (outcomes .written).foldl (store.writeNext embedder vectorsByDoc ingestedAt) (db, start)
      let state := (outcomes .metadataUpdated).foldl (updateNext ingestedAt) state
      some ((outcomes .removed).foldl removeNext state)
  else none

/-! ### What a write does to the documents -/

variable {store : MemoryStore R Blob} {embedder : Embedder R} {db db' : MemoryDb Blob} {doc : SourceDocument}
  {sourceDocs : List SourceDocument} {ingestedAt : String} {docId : String}

private theorem documents_insertChunk {row : ChunkRow} (h : db.insertChunk row = .ok db') :
    db'.documents = db.documents := by
  unfold MemoryDb.insertChunk at h
  split at h
  · split at h
    · cases h
    · split at h
      · cases h
      · obtain rfl := Except.ok.inj h
        rfl
  · cases h

private theorem documents_insertVector {row : VectorRow Blob} (h : db.insertVector store row = .ok db') :
    db'.documents = db.documents := by
  unfold MemoryDb.insertVector at h
  split at h
  · split at h
    · cases h
    · obtain rfl := Except.ok.inj h
      rfl
  · cases h

/-- Chunks and vectors are written beside the documents. -/
theorem documents_insertChunks {vectors : List (List R)} (h : store.insertChunks embedder db doc vectors = .ok db') :
    db'.documents = db.documents := by
  obtain ⟨vecRows, -, h⟩ := Except.bind_eq_ok.1 h
  obtain ⟨mid, hmid, h⟩ := Except.bind_eq_ok.1 h
  have hchunks : mid.documents = db.documents :=
    Except.foldlM_preserves (fun _ _ _ => documents_insertChunk) hmid
  rw [← hchunks]
  exact Except.foldlM_preserves (fun _ _ _ => documents_insertVector) h

/-- A document that is written is the row of its id, and the others stay. -/
theorem lookup_writeDocument {vectorsByDoc : String → Option (List (List R))} {existed : Bool}
    (h : store.writeDocument embedder vectorsByDoc ingestedAt db doc = .ok (existed, db')) :
    db'.documents.lookup docId = if doc.docId =
        docId then some (doc.row ingestedAt) else db.documents.lookup docId := by
  unfold MemoryStore.writeDocument at h
  dsimp only at h
  obtain ⟨inserted, hinserted, h⟩ := Except.bind_eq_ok.1 h
  split at h
  · cases h
  · obtain ⟨written, hwritten, h⟩ := Except.bind_eq_ok.1 h
    obtain ⟨-, rfl⟩ := Prod.mk.inj (Except.ok.inj h)
    rw [documents_insertChunks hwritten]
    unfold MemoryDb.insertDocument at hinserted
    split at hinserted
    · split at hinserted
      · cases hinserted
      case h_2 documents hdocuments =>
        obtain rfl := Except.ok.inj hinserted
        rw [Table.lookup_insert hdocuments]
        by_cases hid : doc.docId = docId
        · rw [if_pos hid]
          exact if_pos hid
        · rw [if_neg hid]
          refine (if_neg hid).trans ?_
          exact (Table.lookup_delete doc.docId).trans (if_neg hid)
    · cases hinserted

theorem lookup_updateDocumentMetadata (h : db.updateDocumentMetadata doc ingestedAt = .ok db') :
    db'.documents.lookup docId =
      if doc.docId = docId then (db.documents.lookup docId).map (doc.describe ingestedAt)
      else db.documents.lookup docId := by
  unfold MemoryDb.updateDocumentMetadata at h
  split at h
  · obtain rfl := Except.ok.inj h
    dsimp only
    rw [Table.lookup_update]
    cases hrow : db.documents.lookup docId with
    | none => rw [Option.map_none, Option.map_none, ite_self]
    | some row =>
      obtain ⟨-, hkey⟩ := Table.lookup_eq_some.1 hrow
      rw [Option.map_some, Option.map_some, hkey]
      by_cases hid : doc.docId = docId
      · rw [if_pos hid, if_pos (by simpa using hid.symm)]
      · rw [if_neg hid, if_neg (by simpa using Ne.symm hid)]
  · cases h

theorem lookup_deleteDocument (db : MemoryDb Blob) (deleted docId : String) :
    (db.deleteDocument deleted).2.documents.lookup docId = if deleted =
    docId then none else db.documents.lookup docId :=
  Table.lookup_delete deleted

/-! ### What a run leaves -/

/-- No write of the run has failed. -/
def NoneFailed (state : MemoryDb Blob × IngestSummary) : Prop := state.2.documentsFailed = []

private theorem not_noneFailed_failed {db : MemoryDb Blob} {summary : IngestSummary} {error : WriteError} :
    ¬ NoneFailed (db, summary.failed doc error) :=
  fun h => List.append_ne_nil_of_right_ne_nil _ (List.cons_ne_nil _ _) h

variable {state : MemoryDb Blob × IngestSummary} {vectorsByDoc : String → Option (List (List R))}

private theorem noneFailed_of_writeNext (h : NoneFailed (store.writeNext embedder vectorsByDoc ingestedAt state doc)) :
    ∃ existed, store.writeDocument embedder vectorsByDoc ingestedAt state.1 doc =
      .ok (existed, (store.writeNext embedder vectorsByDoc ingestedAt state doc).1) ∧ NoneFailed state := by
  unfold MemoryStore.writeNext at h ⊢
  split at h
  · exact absurd h not_noneFailed_failed
  case h_2 existed db hwrite =>
    rw [hwrite]
    exact ⟨existed, rfl, h⟩

private theorem noneFailed_of_updateNext (h : NoneFailed (updateNext ingestedAt state doc)) :
    state.1.updateDocumentMetadata doc ingestedAt = .ok (updateNext ingestedAt state doc).1 ∧ NoneFailed state := by
  unfold updateNext at h ⊢
  split at h
  · exact absurd h not_noneFailed_failed
  case h_2 db hupdate =>
    rw [hupdate]
    exact ⟨rfl, h⟩

/-- What the three loops make of the row of one id. -/
def rowAfter (ingestedAt : String) (prior : Option DocumentRow) (docs : List SourceDocument) : Option DocumentRow :=
  let outcomes outcome := docs.filter fun doc => classify prior doc = outcome
  let row := (outcomes .written).foldl (fun _ doc => some (doc.row ingestedAt)) prior
  let row := (outcomes .metadataUpdated).foldl (fun row doc => row.map (doc.describe ingestedAt)) row
  (outcomes .removed).foldl (fun _ _ => none) row

/-- **The documents after a run.**  Where no write fails, a run does to each id what its documents make of it alone. -/
theorem ingest_lookup {summary : IngestSummary}
    (h : store.ingestDocuments db sourceDocs embedder ingestedAt = some (db', summary))
    (hfailed : summary.documentsFailed = []) (docId : String) : db'.documents.lookup docId =
      rowAfter ingestedAt (db.documents.lookup docId) (sourceDocs.filter fun doc => doc.docId = docId) := by
  have hfilter : ∀ outcome, (sourceDocs.filter fun doc => classify (db.documents.lookup doc.docId) doc = outcome).filter
      (fun doc => doc.docId = docId) = (sourceDocs.filter fun doc => doc.docId = docId).filter
        fun doc => classify (db.documents.lookup docId) doc = outcome := by
    intro outcome
    rw [List.filter_filter, List.filter_filter]
    refine List.filter_congr fun doc _ => ?_
    by_cases hid : doc.docId = docId
    · rw [hid, Bool.and_comm]
    · simp [hid]
  unfold MemoryStore.ingestDocuments at h
  split at h
  · dsimp only at h
    split at h
    · cases h
    case h_2 vectorsByDoc _ =>
      have hend := Option.some.inj h
      have hgood : NoneFailed (db', summary) := hfailed
      rw [← hend] at hgood
      have hdb : db' = (db', summary).1 := rfl
      rw [hdb, ← hend]
      obtain ⟨hgood, hremoved⟩ := Fold.foldl_key NoneFailed (fun state => state.1.documents.lookup)
        SourceDocument.docId (fun _ _ => none) hgood (fun _ _ h => h)
        fun state doc _ => lookup_deleteDocument state.1 doc.docId
      obtain ⟨hgood, hupdated⟩ := Fold.foldl_key NoneFailed (fun state => state.1.documents.lookup)
        SourceDocument.docId (fun row doc => row.map (doc.describe ingestedAt)) hgood
        (fun _ _ h => (noneFailed_of_updateNext h).2)
        fun _ _ h _ => lookup_updateDocumentMetadata (noneFailed_of_updateNext h).1
      obtain ⟨-, hwritten⟩ := Fold.foldl_key NoneFailed (fun state => state.1.documents.lookup)
        SourceDocument.docId (fun _ doc => some (doc.row ingestedAt)) hgood
        (fun _ _ h => (noneFailed_of_writeNext h).choose_spec.2)
        fun _ _ h _ => lookup_writeDocument (noneFailed_of_writeNext h).choose_spec.1
      rw [hremoved, hupdated, hwritten, hfilter, hfilter, hfilter]
      rfl
  · cases h

/-- The documents that a run has tried to insert or to update. -/
def IngestSummary.attempts (summary : IngestSummary) : Nat :=
  summary.documentsNew + summary.documentsReplaced + summary.documentsMetadataUpdated + summary.documentsFailed.length

private theorem attempts_failed (summary : IngestSummary) (error : WriteError) :
    (summary.failed doc error).attempts = summary.attempts + 1 := by
  unfold IngestSummary.failed IngestSummary.attempts
  dsimp only
  rw [List.length_append, List.length_singleton, ← Nat.add_assoc]

private theorem attempts_writeNext (state : MemoryDb Blob × IngestSummary) (doc : SourceDocument) :
    (store.writeNext embedder vectorsByDoc ingestedAt state doc).2.attempts = state.2.attempts + 1 := by
  unfold MemoryStore.writeNext
  split
  · exact attempts_failed state.2 _
  case h_2 existed db _ =>
    have hone : ((if existed then 0 else 1) + if existed then 1 else 0) = 1 := by cases existed <;> rfl
    unfold IngestSummary.wrote IngestSummary.attempts
    dsimp only
    omega

private theorem attempts_updateNext (state : MemoryDb Blob × IngestSummary) (doc : SourceDocument) :
    (updateNext ingestedAt state doc).2.attempts = state.2.attempts + 1 := by
  unfold updateNext
  split
  · exact attempts_failed state.2 _
  · unfold IngestSummary.attempts
    dsimp only
    omega

private theorem attempts_removeNext (state : MemoryDb Blob × IngestSummary) (doc : SourceDocument) :
    (removeNext state doc).2.attempts = state.2.attempts + 0 :=
  rfl

private theorem attempts_foldl
    {next : MemoryDb Blob × IngestSummary → SourceDocument → MemoryDb Blob × IngestSummary} (n : Nat)
    (hstep : ∀ state doc, (next state doc).2.attempts = state.2.attempts + n) (docs : List SourceDocument)
    (state : MemoryDb Blob × IngestSummary) :
    (docs.foldl next state).2.attempts = state.2.attempts + n * docs.length :=
  Fold.foldl_add (fun state => state.2.attempts) n hstep docs state

/-- The summary counts every document that the run found to be new or changed. -/
theorem attempts_eq {summary : IngestSummary}
    (h : store.ingestDocuments db sourceDocs embedder ingestedAt = some (db', summary)) : summary.attempts =
      (sourceDocs.filter fun doc => classify (db.documents.lookup doc.docId) doc = .written).length +
        (sourceDocs.filter fun doc => classify (db.documents.lookup doc.docId) doc = .metadataUpdated).length := by
  unfold MemoryStore.ingestDocuments at h
  split at h
  · dsimp only at h
    split at h
    · cases h
    · have hsummary : summary = (db', summary).2 := rfl
      rw [hsummary, ← Option.some.inj h]
      rw [attempts_foldl 0 attempts_removeNext, attempts_foldl 1 attempts_updateNext,
        attempts_foldl 1 attempts_writeNext, Nat.zero_mul, Nat.one_mul, Nat.one_mul]
      simp only [IngestSummary.attempts, List.length_nil, Nat.add_zero, Nat.zero_add]
  · cases h

end AgentOS
