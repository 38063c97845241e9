import AgentOS.Memory.Central
import Mathlib.Data.List.Sort
import Mathlib.Data.String.Basic

/-!
# Migrating the corpus

`scripts/memory_etl_sql_server.py`: `extract` reads the local store, `_load` writes the documents to the central one,
and the dry run of `run` says what it would do.  Every document has its own transaction, which may be refused for a
reason that does not lie in the tables; what raises is rolled back.  `json.loads` and `TRY_CONVERT` are arguments.
-/

namespace AgentOS.Etl

open Central (Instant StoredDocument Tables)

/-! ### Vectors -/

/-- A float that `struct.unpack` reads, by its four bytes. -/
structure PackedFloat where
  b₀ : UInt8
  b₁ : UInt8
  b₂ : UInt8
  b₃ : UInt8
deriving DecidableEq

/-- The floats of a blob, whose length is a multiple of four. -/
def unpackFloats : List UInt8 → List PackedFloat
  | b₀ :: b₁ :: b₂ :: b₃ :: rest => ⟨b₀, b₁, b₂, b₃⟩ :: unpackFloats rest
  | _ => []

/-- `_unpack_vector`. -/
def unpackVector (blob : List UInt8) (dim : Int) : Option (List PackedFloat) :=
  if (blob.length : Int) = 4 * dim then some (unpackFloats blob) else none

/-! ### Extraction -/

structure ExtractedChunk where
  chunkId : String
  docId : String
  seq : Int
  text : String
  metaDict : List (String × Json)
  embeddingModel : Option String
  embeddingDim : Int
  vector : Option (List PackedFloat)

structure ExtractedDocument where
  docId : String
  title : Option String
  sourceType : String
  sourcePath : Option String
  contentHash : Option String
  provenance : Option String
  publishedAt : Option String
  ingestedAt : Option String
  chunks : List ExtractedChunk

/-- A local corpus: `documents`, `chunks` and `chunks_vec`, whose vectors are blobs. -/
abbrev Corpus := MemoryDb (List UInt8)

/-- `DEFAULT_EMBEDDING_DIM`. -/
def defaultEmbeddingDim : Int := 384

/-- `row["embedding_dim"] or DEFAULT_EMBEDDING_DIM`. -/
def dimOf (row : ChunkRow) : Int :=
  match row.embeddingDim with
  | none => defaultEmbeddingDim
  | some dim => if dim = 0 then defaultEmbeddingDim else dim

/-- The vector of a chunk; `none` where it is missing or corrupt. -/
def vectorOf (corpus : Corpus) (row : ChunkRow) : Option (List PackedFloat) :=
  (corpus.chunksVec.lookup row.id).bind fun vec => unpackVector vec.embedding (dimOf row)

variable (jsonLoads : String → Option Json)

/-- `_load_meta`. -/
def loadMeta (raw : Option String) : List (String × Json) :=
  match raw with
  | none => []
  | some "" => []
  | some raw => match jsonLoads raw with
    | some (.obj fields) => fields
    | _ => []

def extractChunk (corpus : Corpus) (row : ChunkRow) : ExtractedChunk where
  chunkId := row.chunkId
  docId := row.docId
  seq := row.seq
  text := row.text
  metaDict := loadMeta jsonLoads row.metaJson
  embeddingModel := row.embeddingModel
  embeddingDim := dimOf row
  vector := vectorOf corpus row

/-- The rows of `chunks`, `ORDER BY doc_id, seq`. -/
def chunkRows (corpus : Corpus) : List ChunkRow :=
  corpus.chunks.rows.mergeSort fun a b => a.docId < b.docId ∨ a.docId = b.docId ∧ a.seq ≤ b.seq

def extractDocument (corpus : Corpus) (row : DocumentRow) : ExtractedDocument where
  docId := row.docId
  title := row.title
  sourceType := row.sourceType
  sourcePath := row.sourcePath
  contentHash := row.contentHash
  provenance := row.provenance
  publishedAt := row.publishedAt
  ingestedAt := row.ingestedAt
  chunks := ((chunkRows corpus).filter fun chunk => chunk.docId = row.docId).map (extractChunk jsonLoads corpus)

/-- The documents that `extract` returns. -/
def extract (corpus : Corpus) : List ExtractedDocument :=
  (corpus.documents.rows.mergeSort fun a b => a.docId ≤ b.docId).map (extractDocument jsonLoads corpus)

/-! ### Validation -/

/-- The chunks that have a vector. -/
def usableChunks (doc : ExtractedDocument) : List ExtractedChunk := doc.chunks.filter fun c => c.vector.isSome

/-- `_validate_document`: why a document cannot be loaded. -/
def validateDocument (doc : ExtractedDocument) (expectedDim : Nat) : Option String :=
  if doc.contentHash.getD "" = "" then some "missing content_hash"
  else if doc.sourceType ∉ validSourceTypes then some "invalid source_type"
  else match usableChunks doc with
    | [] => some "no chunks with a usable vector"
    | first :: rest =>
      if rest.any fun c => c.embeddingModel ≠ first.embeddingModel || c.embeddingDim ≠ first.embeddingDim then
        some "inconsistent embedding_model/embedding_dim across chunks"
      else if first.embeddingDim ≠ expectedDim then
        some "embedding_dim does not match the configured store dimension"
      else if (first :: rest).any fun c => c.chunkId ≠ Central.chunkId doc.docId c.seq then
        some "chunk_id does not match mem:<document_id>:<seq>"
      else none

/-- A `content_hash` that is not empty. -/
def hashOf (doc : ExtractedDocument) : Option String := doc.contentHash.filter fun hash => hash ≠ ""

/-! ### Transactions -/

variable {sql : Sql} {V : Type}

/-- What is used of SQL Server beyond the tables: its clock, `TRY_CONVERT(DATETIMEOFFSET, ?)`, and whether it refuses
the transaction of a document. -/
structure Server (sql : Sql) (V : Type) where
  now : Instant
  tryConvert : String → Option Instant
  refuses : Tables sql V → ExtractedDocument → Bool

/-- The values fit the columns of `memory.documents`. -/
def fitsDocument (sql : Sql) (row : Central.Document) : Bool :=
  sql.fits 64 row.documentId && sql.fitsOpt 1000 row.title && sql.fits 50 row.sourceType &&
    sql.fitsOpt 1000 row.sourcePath && sql.fits 64 row.contentHash && sql.fitsOpt 64 row.sourceMachineId &&
    sql.fits 50 row.provenance && sql.fitsOpt 32 row.publishedAt

/-- The row that `_insert_document_etl` writes. -/
def storedDocument (server : Server sql V) (sourceMachineId : Option String) (doc : ExtractedDocument) :
    StoredDocument :=
  let created := (doc.ingestedAt.bind server.tryConvert).getD server.now
  { documentId := doc.docId
    title := doc.title
    sourceType := doc.sourceType
    sourcePath := doc.sourcePath
    contentHash := doc.contentHash.getD ""
    sourceMachineId := sourceMachineId
    provenance := "etl"
    publishedAt := doc.publishedAt
    createdAt := created
    updatedAt := created }

/-- `_insert_document_etl`. -/
def insertDocumentEtl (db : Tables sql V) (row : StoredDocument) : Except Central.DbError (Tables sql V) :=
  if fitsDocument sql row.toDocument then
    if hhash : sql.key row.contentHash ∈ db.documents.rows.map fun row => sql.key row.contentHash then
      .error .integrity
    else match hinsert : db.documents.insert row with
      | none => .error .integrity
      | some documents => .ok { db with
          documents := documents
          hashes := by
            rw [Table.insert_rows hinsert, List.map_append, List.map_singleton]
            exact db.hashes.append (List.nodup_singleton _) (List.disjoint_singleton.2 hhash)
          references := by
            intro chunk hchunk
            rw [Table.lookup_insert hinsert]
            split
            · rfl
            · exact db.references chunk hchunk }
  else .error .data

/-- `_PrecomputedEmbedder`, with the `embedding_model` and the `embedding_dim` of the first chunk that has a vector. -/
def precomputedEmbedder (doc : ExtractedDocument) : Embedder PackedFloat where
  modelName := ((usableChunks doc).head?.bind ExtractedChunk.embeddingModel).getD "None"
  dim := (((usableChunks doc).head?.map ExtractedChunk.embeddingDim).getD 0).toNat
  embedDocuments _ := none

/-- The `source_doc` of `_load`, which `_insert_chunks` takes. -/
def sourceDocument (doc : ExtractedDocument) : SourceDocument where
  docId := doc.docId
  title := doc.title.getD ""
  sourceType := doc.sourceType
  sourcePath := doc.sourcePath
  contentHash := doc.contentHash.getD ""
  provenance := "etl"
  publishedAt := doc.publishedAt
  chunks := (usableChunks doc).map fun c => ⟨c.seq, c.text, c.metaDict⟩

/-- The transaction of a document. -/
def writeDocument (store : Central.MemoryStore PackedFloat V) (server : Server sql V)
    (sourceMachineId : Option String) (db : Tables sql V) (doc : ExtractedDocument) :
    Except Central.DbError (Tables sql V) := do
  let db ← insertDocumentEtl db (storedDocument server sourceMachineId doc)
  store.insertChunks (precomputedEmbedder doc) db (sourceDocument doc) (doc.chunks.filterMap ExtractedChunk.vector)

/-! ### Loading -/

/-- What is decided about a document.  One that is `invalid` or has `raised` is in `documents_failed`. -/
inductive Verdict where
  | skipped
  | invalid (reason : String)
  | raised
  | inserted
deriving DecidableEq

def Verdict.isInvalid : Verdict → Bool
  | invalid _ => true
  | _ => false

@[simp] theorem Verdict.isInvalid_invalid (reason : String) : (invalid reason).isInvalid = true := rfl

@[simp] theorem Verdict.isInvalid_skipped : skipped.isInvalid = false := rfl

@[simp] theorem Verdict.isInvalid_inserted : inserted.isInvalid = false := rfl

/-- The documents with their verdicts, the hashes that are known, and the tables. -/
structure LoadState (sql : Sql) (V : Type) where
  db : Tables sql V
  seenHashes : String → Option String
  verdicts : List (ExtractedDocument × Verdict)

/-- The document is there already, by its id or by its content. -/
def known (existing : String → Option Central.Document) (seenHashes : String → Option String)
    (doc : ExtractedDocument) : Bool :=
  (existing doc.docId).isSome || (hashOf doc).any fun hash => (seenHashes hash).isSome

/-- One round of the loop of `_load`. -/
def loadNext (store : Central.MemoryStore PackedFloat V) (server : Server sql V) (sourceMachineId : Option String)
    (existing : String → Option Central.Document) (state : LoadState sql V) (doc : ExtractedDocument) :
    LoadState sql V :=
  if known existing state.seenHashes doc then { state with verdicts := state.verdicts ++ [(doc, .skipped)] }
  else match validateDocument doc store.embeddingDim with
    | some reason => { state with verdicts := state.verdicts ++ [(doc, .invalid reason)] }
    | none => match writeDocument store server sourceMachineId state.db doc with
      | .error _ => { state with verdicts := state.verdicts ++ [(doc, .raised)] }
      | .ok db =>
        if server.refuses state.db doc then { state with verdicts := state.verdicts ++ [(doc, .raised)] }
        else
          { db := db
            seenHashes := match hashOf doc with
              | none => state.seenHashes
              | some hash => Function.update state.seenHashes hash (some doc.docId)
            verdicts := state.verdicts ++ [(doc, .inserted)] }

/-- `_preload`, as `run` calls it. -/
def preloaded (db : Tables sql V) (documents : List ExtractedDocument) :
    (String → Option Central.Document) × (String → Option String) :=
  Central.preload db (documents.map ExtractedDocument.docId) (documents.filterMap hashOf)

/-- `run` without `dry_run`. -/
def load (store : Central.MemoryStore PackedFloat V) (server : Server sql V) (sourceMachineId : Option String)
    (db : Tables sql V) (documents : List ExtractedDocument) : LoadState sql V :=
  let loaded := preloaded db documents
  documents.foldl (loadNext store server sourceMachineId loaded.1) ⟨db, loaded.2, []⟩

/-- The summary of `_load`. -/
structure LoadSummary where
  documentsInserted : Nat
  documentsSkipped : Nat
  documentsFailed : List (String × Verdict)
  chunksInserted : Nat

/-- `_new_load_summary`. -/
def LoadSummary.new : LoadSummary := ⟨0, 0, [], 0⟩

/-- What a verdict adds to the summary. -/
def LoadSummary.add (summary : LoadSummary) (entry : ExtractedDocument × Verdict) : LoadSummary :=
  match entry.2 with
  | .skipped => { summary with documentsSkipped := summary.documentsSkipped + 1 }
  | .inserted => { summary with
      documentsInserted := summary.documentsInserted + 1
      chunksInserted := summary.chunksInserted + (usableChunks entry.1).length }
  | failure => { summary with documentsFailed := summary.documentsFailed ++ [(entry.1.docId, failure)] }

def LoadState.summary (state : LoadState sql V) : LoadSummary := state.verdicts.foldl LoadSummary.add .new

/-! ### The dry run -/

/-- One round of the loop of the dry run: the hashes that are known, and the verdicts. -/
def dryRunNext (expectedDim : Nat) (existing : String → Option Central.Document)
    (state : (String → Option String) × List (ExtractedDocument × Verdict)) (doc : ExtractedDocument) :
    (String → Option String) × List (ExtractedDocument × Verdict) :=
  if known existing state.1 doc then (state.1, state.2 ++ [(doc, .skipped)])
  else match validateDocument doc expectedDim with
    | some reason => (state.1, state.2 ++ [(doc, .invalid reason)])
    | none =>
      ((match hashOf doc with
        | none => state.1
        | some hash => Function.update state.1 hash (some doc.docId)),
        state.2 ++ [(doc, .inserted)])

/-- The verdicts of a dry run. -/
def dryRun (expectedDim : Nat) (db : Tables sql V) (documents : List ExtractedDocument) :
    List (ExtractedDocument × Verdict) :=
  let loaded := preloaded db documents
  (documents.foldl (dryRunNext expectedDim loaded.1) (loaded.2, [])).2

/-- The counts that a dry run adds to its report. -/
structure DryRunReport where
  wouldSkipExisting : Nat
  wouldFail : Nat
  wouldInsert : Nat

/-- `would_insert` is what is left of the documents. -/
def dryRunReport (expectedDim : Nat) (db : Tables sql V) (documents : List ExtractedDocument) : DryRunReport :=
  let verdicts := dryRun expectedDim db documents
  let wouldSkip := verdicts.countP fun entry => entry.2 = .skipped
  let wouldFail := verdicts.countP fun entry => entry.2.isInvalid
  ⟨wouldSkip, wouldFail, documents.length - wouldSkip - wouldFail⟩

end AgentOS.Etl
