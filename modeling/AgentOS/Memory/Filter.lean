import AgentOS.Memory.StoreAgreement

/-!
# Filtering documents

`_doc_filter_sql` of both memory stores, as a condition on a row.  The date of a document is its `published_at`, or else
`ingested_at` in the local store and `created_at` in the central one.  How the database orders two strings is an
argument; SQLite compares code points.
-/

namespace AgentOS

variable {R Blob V : Type}

/-! ### Dates -/

/-- `s[:10]`, and `substr(s, 1, 10)`. -/
def dateOf (s : String) : String := String.ofList (s.toList.take 10)

/-- `YYYY-MM-DD`. -/
def isIsoDate (s : String) : Bool :=
  match s.toList with
  | [y₁, y₂, y₃, y₄, '-', m₁, m₂, '-', d₁, d₂] => [y₁, y₂, y₃, y₄, m₁, m₂, d₁, d₂].all Char.isDigit
  | _ => false

/-- A value that is not the empty string; `if value:` and `NULLIF(value, '')`. -/
def nonEmpty (value : Option String) : Option String := value.filter fun s => s ≠ ""

/-- `_now_iso`. -/
def Central.Instant.isoformat (now : Central.Instant) : String := now.date ++ "T" ++ now.time

/-! ### Filters -/

/-- The arguments of `_doc_filter_sql`. -/
structure DocFilter where
  sourceType : Option String
  dateFrom : Option String
  dateTo : Option String

/-- The arguments that `query` lets through: a known source type, and dates as `validate_iso_date` returns them. -/
structure DocFilter.Valid (f : DocFilter) : Prop where
  sourceType : ∀ t, f.sourceType = some t → t ∈ validSourceTypes
  dateFrom : ∀ d, f.dateFrom = some d → isIsoDate (dateOf d) = true
  dateTo : ∀ d, f.dateTo = some d → isIsoDate (dateOf d) = true

/-- `substr(COALESCE(NULLIF(d.published_at, ''), d.ingested_at, ''), 1, 10)`. -/
def DocumentRow.filterDate (row : DocumentRow) : String :=
  dateOf (((nonEmpty row.publishedAt).or row.ingestedAt).getD "")

/-- `_doc_filter_sql` of the local store. -/
def DocFilter.selects (f : DocFilter) (row : DocumentRow) : Bool :=
  ((nonEmpty f.sourceType).all fun t => row.sourceType = t) &&
    ((nonEmpty f.dateFrom).all fun d => dateOf d ≤ row.filterDate) &&
    ((nonEmpty f.dateTo).all fun d => row.filterDate ≤ dateOf d)

/-- The documents that are eligible for a query of the local store. -/
def MemoryDb.eligible (db : MemoryDb Blob) (f : DocFilter) : List String :=
  (db.documents.rows.filter f.selects).map DocumentRow.docId

namespace Central

variable (sql : Sql) (le : String → String → Bool)

/-- `SUBSTRING(COALESCE(NULLIF(d.published_at, N''), CONVERT(char(10), d.created_at, 23)), 1, 10)`. -/
def StoredDocument.filterDate (row : StoredDocument) : String :=
  dateOf ((row.publishedAt.filter fun p => sql.key p ≠ sql.key "").getD row.createdAt.date)

/-- `_doc_filter_sql` of the central store. -/
def selects (f : DocFilter) (row : StoredDocument) : Bool :=
  ((nonEmpty f.sourceType).all fun t => sql.key row.sourceType = sql.key t) &&
    ((nonEmpty f.dateFrom).all fun d => le (dateOf d) (row.filterDate sql)) &&
    ((nonEmpty f.dateTo).all fun d => le (row.filterDate sql) (dateOf d))

variable {sql}

/-- The documents that are eligible for a query of the central store. -/
def Tables.eligible (db : Tables sql V) (f : DocFilter) : List String :=
  (db.documents.rows.filter (selects sql le f)).map fun row => row.documentId

/-- What the collation does with dates and source types: it orders dates by their digits, has none of them for blank,
and tells the source types apart. -/
structure Collates (sql : Sql) (le : String → String → Bool) : Prop where
  dates : ∀ a b, isIsoDate a = true → isIsoDate b = true → (le a b = true ↔ a ≤ b)
  blank : ∀ p, isIsoDate (dateOf p) = true → sql.key p ≠ sql.key ""
  sourceTypes : Set.InjOn sql.key {t | t ∈ validSourceTypes}

end Central

/-- Every query finds the same documents eligible in both stores. -/
def FilterAlike (le : String → String → Bool) {sql : Sql} (db : MemoryDb Blob) (hub : Central.Tables sql V) : Prop :=
  ∀ f : DocFilter, f.Valid → ∀ docId, docId ∈ db.eligible f ↔ docId ∈ hub.eligible le f

/-! ### Runs -/

def MemoryDb.empty : MemoryDb Blob := ⟨Table.empty, Table.empty, Table.empty, List.nodup_nil⟩

/-- A call on the local store; what raises leaves the store as it was. -/
def MemoryStore.serve (store : MemoryStore R Blob) (db : MemoryDb Blob) (call : Central.TimedCall R) : MemoryDb Blob :=
  match store.ingestDocuments db call.sourceDocs call.embedder call.now.isoformat with
  | none => db
  | some (db, _) => db

/-- The local store behind a sequence of calls. -/
def MemoryStore.after (store : MemoryStore R Blob) (calls : List (Central.TimedCall R)) : MemoryDb Blob :=
  calls.foldl store.serve MemoryDb.empty

/-- Every metadata-only update of a call leaves a `published_at`, or comes on the day of `created_at`. -/
def KeepsDate {sql : Sql} (hub : Central.Tables sql V) (call : Central.TimedCall R) : Prop :=
  ∀ doc ∈ call.sourceDocs, doc.chunks ≠ [] → ∀ row ∈ hub.documents.rows, row.documentId = doc.docId →
    row.contentHash = doc.contentHash → Central.metadataDiffers row.toDocument doc call.sourceMachineId = true →
    nonEmpty doc.publishedAt = none → row.createdAt.date = call.now.date

/-- The vectors of an embedder can be serialized, and `chunks_vec` takes them. -/
def Storable (store : MemoryStore R Blob) (embedder : Embedder R) : Prop :=
  ∀ texts vectors, embedder.embedDocuments texts = some vectors → ∀ vector ∈ vectors, ∃ embedding,
    store.sqliteVec.serializeFloat32 vector = some embedding ∧
      store.sqliteVec.accepts store.embeddingDim embedding = true

/-- A document as the adapters make it, which both stores take. -/
structure Ingestible (sql : Sql) (doc : SourceDocument) (embedder : Embedder R) (sourceMachineId : Option String) :
    Prop where
  acceptable : Central.Acceptable sql doc embedder sourceMachineId
  sourceType : doc.sourceType ∈ validSourceTypes
  publishedAt : ∀ p, nonEmpty doc.publishedAt = some p → isIsoDate (dateOf p) = true

/-- A call that both stores take. -/
structure Admitted (store : MemoryStore R Blob) (central : Central.MemoryStore R V) (sql : Sql)
    (sourceMachineId : Option String) (call : Central.TimedCall R) : Prop where
  machine : call.sourceMachineId = sourceMachineId
  clock : isIsoDate call.now.date = true
  castable : Central.Castable central call.embedder
  storable : Storable store call.embedder
  docs : ∀ doc ∈ call.sourceDocs, Ingestible sql doc call.embedder sourceMachineId

/-- The documents of a sequence of calls. -/
def documentsOf (calls : List (Central.TimedCall R)) : List SourceDocument :=
  calls.flatMap fun call => call.sourceDocs

/-- Documents with the same content have the same id. -/
def DistinctHashes (docs : List SourceDocument) : Prop :=
  ∀ a ∈ docs, ∀ b ∈ docs, a.contentHash = b.contentHash → a.docId = b.docId

/-- How many chunks documents have. -/
def chunkCount (docs : List SourceDocument) : Nat := (docs.map fun doc => doc.chunks.length).sum

end AgentOS
