import AgentOS.Lib.Dict
import AgentOS.Hub.Sql
import AgentOS.Memory.Store

/-!
# The central memory store

`memory.documents` and `memory.chunks`, the classification that both stores share, and `ingest_documents` of
`MemoryStore` and of its double `FakeMemoryStore`.  A call reads the clock of the server once, and no other client
writes while it runs.
-/

namespace AgentOS.Central

/-! ### Classification -/

/-- The columns of `memory.documents` that a caller supplies, and a row of the double. -/
structure Document where
  documentId : String
  title : Option String
  sourceType : String
  sourcePath : Option String
  contentHash : String
  sourceMachineId : Option String
  provenance : String
  publishedAt : Option String
deriving DecidableEq

/-- `_metadata_differs`. -/
def metadataDiffers (prior : Document) (doc : SourceDocument) (sourceMachineId : Option String) : Bool :=
  prior.title ≠ some doc.title || prior.sourceType ≠ doc.sourceType || prior.sourcePath ≠ doc.sourcePath ||
    prior.provenance ≠ doc.provenance || prior.publishedAt ≠ doc.publishedAt ||
    prior.sourceMachineId ≠ sourceMachineId

/-- What a round of `_classify` decides about a document. -/
inductive Verdict where
  | remove
  | skipEmpty
  | update
  | unchanged
  | reconcile
  | write
deriving DecidableEq

/-- One round of the loop of `_classify`, with `existing.get(doc.doc_id)` and `seen_hashes.get(doc.content_hash)`. -/
def verdict (prior : Option Document) (owner : Option String) (sourceMachineId : Option String)
    (doc : SourceDocument) : Verdict :=
  if doc.chunks = [] then if prior.isSome then .remove else .skipEmpty
  else match prior.filter fun row => row.contentHash = doc.contentHash with
    | some row => if metadataDiffers row doc sourceMachineId then .update else .unchanged
    | none => if owner.any fun id => id ≠ doc.docId then .reconcile else .write

/-- `seen_hashes` behind a round. -/
def seenNext (existing : String → Option Document) (sourceMachineId : Option String) (seen : String → Option String)
    (doc : SourceDocument) : String → Option String :=
  if verdict (existing doc.docId) (seen doc.contentHash) sourceMachineId doc = .write then
    Function.update seen doc.contentHash (some doc.docId)
  else seen

/-- The loop of `_classify`: the documents of the batch, each with its verdict. -/
def classify (existing : String → Option Document) (sourceMachineId : Option String) :
    (String → Option String) → List SourceDocument → List (SourceDocument × Verdict)
  | _, [] => []
  | seen, doc :: docs =>
    (doc, verdict (existing doc.docId) (seen doc.contentHash) sourceMachineId doc) ::
      classify existing sourceMachineId (seenNext existing sourceMachineId seen doc) docs

/-- The documents of a plan with a verdict. -/
def having (wanted : Verdict) (plan : List (SourceDocument × Verdict)) : List SourceDocument :=
  (plan.filter fun entry => entry.2 = wanted).map Prod.fst

/-! ### Summaries -/

/-- Why a statement raises. -/
inductive DbError where
  | integrity
  | data
  | keyError
deriving DecidableEq

/-- An entry of `documents_failed`. -/
structure Failure where
  docId : String
  sourcePath : Option String
  error : DbError

/-- The summary of a run. -/
structure Summary where
  documentsNew : Nat
  documentsReplaced : Nat
  documentsUnchanged : Nat
  documentsMetadataUpdated : Nat
  documentsRemoved : Nat
  documentsSkippedEmpty : Nat
  documentsFailed : List Failure
  chunksWritten : Nat
  bySourceType : String → Option Bucket

/-- `_new_summary`, with the counts of a plan. -/
def Summary.planned (plan : List (SourceDocument × Verdict)) : Summary where
  documentsNew := 0
  documentsReplaced := 0
  documentsUnchanged := (having .unchanged plan).length + (having .reconcile plan).length
  documentsMetadataUpdated := 0
  documentsRemoved := 0
  documentsSkippedEmpty := (having .skipEmpty plan).length
  documentsFailed := []
  chunksWritten := 0
  bySourceType _ := none

/-- The summary with one more failure. -/
def Summary.failed (summary : Summary) (doc : SourceDocument) (error : DbError) : Summary :=
  { summary with documentsFailed := summary.documentsFailed ++ [⟨doc.docId, doc.sourcePath, error⟩] }

/-- The summary with one more document written; `_bucket`. -/
def Summary.wrote (summary : Summary) (doc : SourceDocument) (existed : Bool) : Summary :=
  let bucket := (summary.bySourceType doc.sourceType).getD ⟨0, 0⟩
  { summary with
    documentsNew := summary.documentsNew + if existed then 0 else 1
    documentsReplaced := summary.documentsReplaced + if existed then 1 else 0
    chunksWritten := summary.chunksWritten + doc.chunks.length
    bySourceType := Function.update summary.bySourceType doc.sourceType
      (some ⟨bucket.documents + 1, bucket.chunks + doc.chunks.length⟩) }

/-! ### Rows -/

/-- The row that a document becomes. -/
def document (doc : SourceDocument) (sourceMachineId : Option String) : Document where
  documentId := doc.docId
  title := some doc.title
  sourceType := doc.sourceType
  sourcePath := doc.sourcePath
  contentHash := doc.contentHash
  sourceMachineId := sourceMachineId
  provenance := doc.provenance
  publishedAt := doc.publishedAt

/-- The row as `_update_document_metadata` leaves it. -/
def describe (doc : SourceDocument) (sourceMachineId : Option String) (row : Document) : Document :=
  { row with
    title := some doc.title
    sourceType := doc.sourceType
    sourcePath := doc.sourcePath
    sourceMachineId := sourceMachineId
    provenance := doc.provenance
    publishedAt := doc.publishedAt }

/-- `f"mem:{doc.doc_id}:{chunk.seq}"`. -/
def chunkId (docId : String) (seq : Int) : String := "mem:" ++ docId ++ ":" ++ toString seq

variable {R V : Type}

/-! ### `FakeMemoryStore` -/

/-- A row of `FakeMemoryStore.chunks`. -/
structure FakeChunk where
  chunkId : String
  documentId : String
  seq : Int
  chunkText : String
  metaDict : List (String × Json)
  embeddingModel : String
  embeddingDim : Nat

structure FakeMemoryStore (R : Type) where
  embeddingDim : Nat
  documents : String → Option Document
  chunks : String → Option FakeChunk
  vectors : String → Option (List R)
  hashOwner : String → Option String

namespace FakeMemoryStore

def empty (embeddingDim : Nat) : FakeMemoryStore R where
  embeddingDim := embeddingDim
  documents _ := none
  chunks _ := none
  vectors _ := none
  hashOwner _ := none

/-- The entry of this id is a chunk of the document. -/
def owns (store : FakeMemoryStore R) (documentId cid : String) : Bool :=
  (store.chunks cid).any fun row => row.documentId = documentId

/-- `_delete_document`. -/
def deleteDocument (store : FakeMemoryStore R) (documentId : String) : Bool × FakeMemoryStore R :=
  ((store.documents documentId).isSome, { store with
    documents := Function.update store.documents documentId none
    hashOwner := match store.documents documentId with
      | none => store.hashOwner
      | some row =>
        if row.contentHash ≠ "" ∧ store.hashOwner row.contentHash = some documentId then
          Function.update store.hashOwner row.contentHash none
        else store.hashOwner
    chunks := Dict.drop store.chunks (store.owns documentId)
    vectors := Dict.drop store.vectors (store.owns documentId) })

section

variable {store : FakeMemoryStore R} {docId id cid hash : String} {row : Document} {chunkRow : FakeChunk}

theorem owns_eq_true : store.owns docId cid = true ↔
    ∃ chunkRow, store.chunks cid = some chunkRow ∧ chunkRow.documentId = docId := by
  unfold owns
  rw [Option.any_eq_true]
  simp only [decide_eq_true_eq]

theorem documents_deleteDocument :
    (store.deleteDocument docId).2.documents id = some row ↔ id ≠ docId ∧ store.documents id = some row := by
  show Function.update store.documents docId none id = some row ↔ _
  by_cases hid : id = docId
  · rw [hid, Function.update_self]
    exact iff_of_false (by simp) fun h => h.1 rfl
  · rw [Function.update_of_ne hid]
    exact (and_iff_right hid).symm

theorem chunks_deleteDocument : (store.deleteDocument docId).2.chunks cid = some chunkRow ↔
    store.chunks cid = some chunkRow ∧ chunkRow.documentId ≠ docId := by
  refine Dict.drop_eq_some.trans ?_
  rw [owns_eq_true]
  constructor
  · rintro ⟨hother, hchunk⟩
    exact ⟨hchunk, fun h => hother ⟨chunkRow, hchunk, h⟩⟩
  · rintro ⟨hchunk, hother⟩
    refine ⟨?_, hchunk⟩
    rintro ⟨chunkRow', hchunk', h⟩
    obtain rfl := Option.some.inj (hchunk.symm.trans hchunk')
    exact hother h

theorem vectors_deleteDocument {vector : List R} : (store.deleteDocument docId).2.vectors cid = some vector ↔
    ¬ store.owns docId cid ∧ store.vectors cid = some vector :=
  Dict.drop_eq_some

end

/-- The entry that `_write_document` makes of a chunk. -/
def fakeChunk (doc : SourceDocument) (embedder : Embedder R) (chunk : ChunkInput) : FakeChunk where
  chunkId := chunkId doc.docId chunk.seq
  documentId := doc.docId
  seq := chunk.seq
  chunkText := chunk.text
  metaDict := chunk.metaDict
  embeddingModel := embedder.modelName
  embeddingDim := embedder.dim

/-- `_write_document`; `zip` stops at the shorter list. -/
def writeDocument (store : FakeMemoryStore R) (doc : SourceDocument) (vectors : List (List R)) (embedder : Embedder R)
    (sourceMachineId : Option String) : FakeMemoryStore R :=
  { store with
    documents := Function.update store.documents doc.docId (some (document doc sourceMachineId))
    hashOwner :=
      if doc.contentHash ≠ "" then Function.update store.hashOwner doc.contentHash (some doc.docId)
      else store.hashOwner
    chunks := Dict.assign store.chunks ((doc.chunks.zip vectors).map fun pair =>
      (chunkId doc.docId pair.1.seq, fakeChunk doc embedder pair.1))
    vectors := Dict.assign store.vectors ((doc.chunks.zip vectors).map fun pair =>
      (chunkId doc.docId pair.1.seq, pair.2)) }

/-- `_update_document_metadata`. -/
def updateDocumentMetadata (store : FakeMemoryStore R) (doc : SourceDocument) (sourceMachineId : Option String) :
    FakeMemoryStore R :=
  match store.documents doc.docId with
  | none => store
  | some row => { store with
      documents := Function.update store.documents doc.docId (some (describe doc sourceMachineId row)) }

/-- One round of the loop over `to_write`; `none` where `vectors_by_doc` has no entry. -/
def writeNext (embedder : Embedder R) (vectorsByDoc : String → Option (List (List R)))
    (sourceMachineId : Option String) (state : FakeMemoryStore R × Summary) (doc : SourceDocument) :
    Option (FakeMemoryStore R × Summary) :=
  let (existed, store) := state.1.deleteDocument doc.docId
  (vectorsByDoc doc.docId).map fun vectors =>
    (store.writeDocument doc vectors embedder sourceMachineId, state.2.wrote doc existed)

/-- One round of the loop over `to_update`. -/
def updateNext (sourceMachineId : Option String) (state : FakeMemoryStore R × Summary) (doc : SourceDocument) :
    FakeMemoryStore R × Summary :=
  (state.1.updateDocumentMetadata doc sourceMachineId,
    { state.2 with documentsMetadataUpdated := state.2.documentsMetadataUpdated + 1 })

/-- One round of the loop over `to_remove`. -/
def removeNext (state : FakeMemoryStore R × Summary) (doc : SourceDocument) : FakeMemoryStore R × Summary :=
  ((state.1.deleteDocument doc.docId).2, { state.2 with documentsRemoved := state.2.documentsRemoved + 1 })

/-- The plan that `ingest_documents` makes. -/
def plan (store : FakeMemoryStore R) (sourceDocs : List SourceDocument) (sourceMachineId : Option String) :
    List (SourceDocument × Verdict) :=
  classify store.documents sourceMachineId store.hashOwner sourceDocs

/-- `ingest_documents`; `none` where it raises. -/
def ingestDocuments (store : FakeMemoryStore R) (sourceDocs : List SourceDocument) (embedder : Embedder R)
    (sourceMachineId : Option String) : Option (FakeMemoryStore R × Summary) :=
  if embedder.dim = store.embeddingDim then do
    let plan := store.plan sourceDocs sourceMachineId
    let vectorsByDoc ← embedDocuments (having .write plan) embedder
    let state ← (having .write plan).foldlM (writeNext embedder vectorsByDoc sourceMachineId)
      (store, Summary.planned plan)
    let state := (having .update plan).foldl (updateNext sourceMachineId) state
    return (having .remove plan).foldl removeNext state
  else none

end FakeMemoryStore

/-! ### The tables -/

/-- A reading of the server's clock: the date as `yyyy-mm-dd`, and the time of the day. -/
structure Instant where
  date : String
  time : String
  date_length : date.length = 10

/-- A row of `memory.documents`. -/
structure StoredDocument extends Document where
  createdAt : Instant
  updatedAt : Instant

/-- A row of `memory.chunks`.  `chunk_seq_id` and `created_at`, which the database sets, are left out. -/
structure StoredChunk (V : Type) where
  chunkId : String
  documentId : String
  seq : Int
  chunkText : String
  metaJson : Option String
  embeddingModel : String
  embeddingDim : Int
  embedding : V

/-- The schema `memory`, with `UQ_memory_documents_content_hash` and `FK_memory_chunks_document`. -/
structure Tables (sql : Sql) (V : Type) where
  documents : Table fun row : StoredDocument => sql.key row.documentId
  chunks : Table fun row : StoredChunk V => sql.key row.chunkId
  hashes : (documents.rows.map fun row => sql.key row.contentHash).Nodup
  references : ∀ chunk ∈ chunks.rows, (documents.lookup (sql.key chunk.documentId)).isSome

/-- `MemoryStore`: the dimension, and `CAST(CAST(? AS NVARCHAR(MAX)) AS VECTOR(n))` of the floats, `none` where it is an
error. -/
structure MemoryStore (R V : Type) where
  embeddingDim : Nat
  castVector : Nat → List R → Option V

namespace Tables

variable {sql : Sql}

def empty : Tables sql V where
  documents := Table.empty
  chunks := Table.empty
  hashes := List.nodup_nil
  references := nofun

/-- `_delete_document`; `ON DELETE CASCADE` takes the chunks along. -/
def deleteDocument (db : Tables sql V) (documentId : String) : Bool × Tables sql V :=
  ((db.documents.lookup (sql.key documentId)).isSome,
    { documents := db.documents.delete fun row => sql.key row.documentId = sql.key documentId
      chunks := db.chunks.delete fun row => sql.key row.documentId = sql.key documentId
      hashes := db.hashes.sublist (List.filter_sublist.map _)
      references := by
        intro chunk hchunk
        obtain ⟨hchunk, hother⟩ := Table.mem_delete.1 hchunk
        rw [Table.lookup_delete, if_neg fun h => hother (by simpa using h.symm)]
        exact db.references chunk hchunk })

/-- A string that a column `NVARCHAR(MAX)` can hold. -/
def fitsMax (sql : Sql) (s : String) : Bool := (sql.text none (.str s)).isSome

/-- The values fit the columns of `memory.documents` that an update sets. -/
def fitsMetadata (sql : Sql) (doc : SourceDocument) (sourceMachineId : Option String) : Bool :=
  sql.fits 1000 doc.title && sql.fits 50 doc.sourceType && sql.fitsOpt 1000 doc.sourcePath &&
    sql.fitsOpt 64 sourceMachineId && sql.fits 50 doc.provenance && sql.fitsOpt 32 doc.publishedAt

/-- The values fit the columns of `memory.documents`. -/
def fitsDocument (sql : Sql) (doc : SourceDocument) (sourceMachineId : Option String) : Bool :=
  sql.fits 64 doc.docId && sql.fits 64 doc.contentHash && fitsMetadata sql doc sourceMachineId

/-- An `INT`. -/
def sqlInt (n : Int) : Bool := decide (-2 ^ 31 ≤ n ∧ n < 2 ^ 31)

/-- The values fit the columns of `memory.chunks`. -/
def fitsChunk (sql : Sql) (row : StoredChunk V) : Bool :=
  sql.fits 64 row.chunkId && sql.fits 64 row.documentId && sqlInt row.seq && fitsMax sql row.chunkText &&
    row.metaJson.all (fitsMax sql) && sql.fits 200 row.embeddingModel && sqlInt row.embeddingDim

/-- `_insert_document`. -/
def insertDocument (db : Tables sql V) (doc : SourceDocument) (sourceMachineId : Option String) (now : Instant) :
    Except DbError (Tables sql V) :=
  if fitsDocument sql doc sourceMachineId then
    if hhash : sql.key doc.contentHash ∈ db.documents.rows.map fun row => sql.key row.contentHash then
      .error .integrity
    else match hinsert : db.documents.insert ⟨document doc sourceMachineId, now, now⟩ with
      | none => .error .integrity
      | some documents => .ok { db with
          documents := documents
          hashes := by
            rw [Table.insert_rows hinsert, List.map_append, List.map_singleton]
            exact db.hashes.append (List.nodup_singleton _) (List.disjoint_singleton.2 hhash)
          references := by
            intro chunk hchunk
            rw [Table.lookup_insert hinsert]
            split
            · rfl
            · exact db.references chunk hchunk }
  else .error .data

/-- A row of `INSERT INTO memory.chunks`. -/
def insertChunk (db : Tables sql V) (row : StoredChunk V) : Except DbError (Tables sql V) :=
  if fitsChunk sql row then
    if hdocument : (db.documents.lookup (sql.key row.documentId)).isSome then
      match hinsert : db.chunks.insert row with
      | none => .error .integrity
      | some chunks => .ok { db with
          chunks := chunks
          references := by
            intro chunk hchunk
            rw [Table.insert_rows hinsert] at hchunk
            rcases List.mem_append.1 hchunk with hchunk | hchunk
            · exact db.references chunk hchunk
            · obtain rfl := List.mem_singleton.1 hchunk
              exact hdocument }
    else .error .integrity
  else .error .data

/-- The row as the `UPDATE` of `_update_document_metadata` leaves it. -/
def setMetadata (doc : SourceDocument) (sourceMachineId : Option String) (now : Instant) (row : StoredDocument) :
    StoredDocument :=
  { toDocument := describe doc sourceMachineId row.toDocument, createdAt := row.createdAt, updatedAt := now }

theorem key_setMetadata (doc : SourceDocument) (sourceMachineId : Option String) (now : Instant)
    (row : StoredDocument) : sql.key (setMetadata doc sourceMachineId now row).documentId = sql.key row.documentId :=
  rfl

private theorem hashKey_setMetadata (doc : SourceDocument) (sourceMachineId : Option String) (now : Instant)
    (row : StoredDocument) : sql.key (setMetadata doc sourceMachineId now row).contentHash = sql.key row.contentHash :=
  rfl

/-- `_update_document_metadata`. -/
def updateDocumentMetadata (db : Tables sql V) (doc : SourceDocument) (sourceMachineId : Option String)
    (now : Instant) : Except DbError (Tables sql V) :=
  if fitsMetadata sql doc sourceMachineId then
    .ok { db with
      documents := db.documents.update (fun row => sql.key row.documentId = sql.key doc.docId)
        (setMetadata doc sourceMachineId now) (key_setMetadata doc sourceMachineId now)
      hashes := by
        rw [Table.map_update (hashKey_setMetadata doc sourceMachineId now)]
        exact db.hashes
      references := by
        intro chunk hchunk
        rw [Table.lookup_update, Option.isSome_map]
        exact db.references chunk hchunk }
  else .error .data

end Tables

/-! ### `MemoryStore` -/

variable {sql : Sql}

/-- `_preload`: `existing` and `hash_owner`. -/
def preload (db : Tables sql V) (docIds contentHashes : List String) :
    (String → Option Document) × (String → Option String) :=
  let byId := db.documents.rows.filter fun row => docIds.any fun id => id ≠ "" ∧ sql.key row.documentId = sql.key id
  let byHash := db.documents.rows.filter fun row =>
    contentHashes.any fun hash => hash ≠ "" ∧ sql.key row.contentHash = sql.key hash
  (Dict.assign (fun _ => none) (byId.map fun row => (row.documentId, row.toDocument)),
    Dict.assign (fun _ => none) (((byId ++ byHash).filter fun row => row.contentHash ≠ "").map fun row =>
      (row.contentHash, row.documentId)))

namespace MemoryStore

/-- A row of `_insert_chunks`. -/
def chunkRow (reprFloat : PyFloat → String) (doc : SourceDocument) (embedder : Embedder R) (chunk : ChunkInput)
    (embedding : V) : StoredChunk V where
  chunkId := chunkId doc.docId chunk.seq
  documentId := doc.docId
  seq := chunk.seq
  chunkText := chunk.text
  metaJson := some (dumps reprFloat (.obj chunk.metaDict))
  embeddingModel := embedder.modelName
  embeddingDim := embedder.dim
  embedding := embedding

/-- One row of the `executemany` of `_insert_chunks`. -/
def insertNext (store : MemoryStore R V) (doc : SourceDocument) (embedder : Embedder R) (db : Tables sql V)
    (pair : ChunkInput × List R) : Except DbError (Tables sql V) :=
  match store.castVector store.embeddingDim pair.2 with
  | none => .error .data
  | some embedding => db.insertChunk (chunkRow sql.reprFloat doc embedder pair.1 embedding)

/-- `_insert_chunks`. -/
def insertChunks (store : MemoryStore R V) (embedder : Embedder R) (db : Tables sql V) (doc : SourceDocument)
    (vectors : List (List R)) : Except DbError (Tables sql V) :=
  (doc.chunks.zip vectors).foldlM (store.insertNext doc embedder) db

/-- The transaction of a document that is written. -/
def writeDocument (store : MemoryStore R V) (embedder : Embedder R) (vectorsByDoc : String → Option (List (List R)))
    (sourceMachineId : Option String) (now : Instant) (db : Tables sql V) (doc : SourceDocument) :
    Except DbError (Bool × Tables sql V) := do
  let (existed, db) := db.deleteDocument doc.docId
  let db ← db.insertDocument doc sourceMachineId now
  match vectorsByDoc doc.docId with
  | none => .error .keyError
  | some vectors =>
    let db ← store.insertChunks embedder db doc vectors
    return (existed, db)

/-- One round of the loop over `to_write`; what raises is rolled back, and an integrity error counts as unchanged. -/
def writeNext (store : MemoryStore R V) (embedder : Embedder R) (vectorsByDoc : String → Option (List (List R)))
    (sourceMachineId : Option String) (now : Instant) (state : Tables sql V × Summary) (doc : SourceDocument) :
    Tables sql V × Summary :=
  match store.writeDocument embedder vectorsByDoc sourceMachineId now state.1 doc with
  | .ok (existed, db) => (db, state.2.wrote doc existed)
  | .error .integrity => (state.1, { state.2 with documentsUnchanged := state.2.documentsUnchanged + 1 })
  | .error error => (state.1, state.2.failed doc error)

/-- One round of the loop over `to_update`. -/
def updateNext (sourceMachineId : Option String) (now : Instant) (state : Tables sql V × Summary)
    (doc : SourceDocument) : Tables sql V × Summary :=
  match state.1.updateDocumentMetadata doc sourceMachineId now with
  | .ok db => (db, { state.2 with documentsMetadataUpdated := state.2.documentsMetadataUpdated + 1 })
  | .error error => (state.1, state.2.failed doc error)

/-- One round of the loop over `to_remove`. -/
def removeNext (state : Tables sql V × Summary) (doc : SourceDocument) : Tables sql V × Summary :=
  ((state.1.deleteDocument doc.docId).2, { state.2 with documentsRemoved := state.2.documentsRemoved + 1 })

/-- The plan that `ingest_documents` makes. -/
def plan (db : Tables sql V) (sourceDocs : List SourceDocument) (sourceMachineId : Option String) :
    List (SourceDocument × Verdict) :=
  let loaded := preload db (sourceDocs.map SourceDocument.docId) (sourceDocs.map SourceDocument.contentHash)
  classify loaded.1 sourceMachineId loaded.2 sourceDocs

/-- `ingest_documents`; `none` where it raises. -/
def ingestDocuments (store : MemoryStore R V) (db : Tables sql V) (sourceDocs : List SourceDocument)
    (embedder : Embedder R) (sourceMachineId : Option String) (now : Instant) : Option (Tables sql V × Summary) :=
  if embedder.dim = store.embeddingDim then do
    let plan := plan db sourceDocs sourceMachineId
    let vectorsByDoc ← embedDocuments (having .write plan) embedder
    let state := (having .write plan).foldl (store.writeNext embedder vectorsByDoc sourceMachineId now)
      (db, Summary.planned plan)
    let state := (having .update plan).foldl (updateNext sourceMachineId now) state
    return (having .remove plan).foldl removeNext state
  else none

end MemoryStore

end AgentOS.Central
