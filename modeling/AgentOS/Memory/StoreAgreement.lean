import AgentOS.Memory.Representation
import AgentOS.Memory.Statements

/-!
# The store and its double

`MemoryStore` decides from the rows that a batch concerns and writes through transactions under a unique index;
`FakeMemoryStore` decides from its dicts.  `Agrees` relates what the two hold.

* `plan_eq`: two stores that agree make the same plan.
* `linked_writes`: along the loop over `to_write` no statement raises, since no two documents that are stored or to be
  written have the same content.
* `ingest_agrees`: sequences of calls leave stores that agree, with the same summaries.
-/

namespace AgentOS.Central

variable {R V : Type} {sql : Sql}

/-- The row of a chunk holds what the double holds, the meta as JSON and the vector as the column type has it. -/
structure Renders (store : MemoryStore R V) (sql : Sql) (row : StoredChunk V) (chunk : FakeChunk)
    (vector : List R) : Prop where
  chunkId : row.chunkId = chunk.chunkId
  documentId : row.documentId = chunk.documentId
  seq : row.seq = chunk.seq
  chunkText : row.chunkText = chunk.chunkText
  metaJson : row.metaJson = some (dumps sql.reprFloat (.obj chunk.metaDict))
  embeddingModel : row.embeddingModel = chunk.embeddingModel
  embeddingDim : row.embeddingDim = chunk.embeddingDim
  embedding : store.castVector store.embeddingDim vector = some row.embedding

/-- Both stores hold the same documents, chunks and vectors. -/
structure Agrees (store : MemoryStore R V) (db : Tables sql V) (fake : FakeMemoryStore R) : Prop where
  dim : fake.embeddingDim = store.embeddingDim
  documents : ∀ row : Document, (∃ stored ∈ db.documents.rows, stored.toDocument = row) ↔
    fake.documents row.documentId = some row
  keyed : ∀ id row, fake.documents id = some row → row.documentId = id
  chunks : ∀ row ∈ db.chunks.rows, ∃ chunk vector, fake.chunks row.chunkId = some chunk ∧
    fake.vectors row.chunkId = some vector ∧ Renders store sql row chunk vector
  complete : ∀ cid, (fake.chunks cid).isSome ∨ (fake.vectors cid).isSome → ∃ row ∈ db.chunks.rows, row.chunkId = cid

/-- A call at a time of the server's clock. -/
structure TimedCall (R : Type) extends Call R where
  now : Instant

/-- One call, with the summaries that have been returned; what raises leaves the store as it was. -/
def serve {σ : Type} (ingest : σ → TimedCall R → Option (σ × Summary)) (state : σ × List (Option Summary))
    (call : TimedCall R) : σ × List (Option Summary) :=
  match ingest state.1 call with
  | none => (state.1, state.2 ++ [none])
  | some (s, summary) => (s, state.2 ++ [some summary])

theorem serve_of_none {σ : Type} {ingest : σ → TimedCall R → Option (σ × Summary)}
    {state : σ × List (Option Summary)} {call : TimedCall R} (h : ingest state.1 call = none) :
    serve ingest state call = (state.1, state.2 ++ [none]) := by
  unfold serve
  rw [h]

theorem serve_of_some {σ : Type} {ingest : σ → TimedCall R → Option (σ × Summary)}
    {state : σ × List (Option Summary)} {call : TimedCall R} {s : σ} {summary : Summary}
    (h : ingest state.1 call = some (s, summary)) : serve ingest state call = (s, state.2 ++ [some summary]) := by
  unfold serve
  rw [h]

/-- A call on the tables. -/
def MemoryStore.serve (store : MemoryStore R V) : Tables sql V × List (Option Summary) → TimedCall R →
    Tables sql V × List (Option Summary) :=
  Central.serve fun db call => store.ingestDocuments db call.sourceDocs call.embedder call.sourceMachineId call.now

/-- A call on the double. -/
def FakeMemoryStore.serve : FakeMemoryStore R × List (Option Summary) → TimedCall R →
    FakeMemoryStore R × List (Option Summary) :=
  Central.serve fun fake call => fake.ingestDocuments call.sourceDocs call.embedder call.sourceMachineId

/-- A document as a caller may submit it: an id and a hash, chunks at distinct places, and values that fit. -/
structure Acceptable (sql : Sql) (doc : SourceDocument) (embedder : Embedder R) (sourceMachineId : Option String) :
    Prop where
  docId : doc.docId ≠ ""
  hash : doc.contentHash ≠ ""
  seqs : (doc.chunks.map ChunkInput.seq).Nodup
  fits : Fits sql doc embedder sourceMachineId

/-- No write of the call meets the unique index: none raises an integrity error. -/
def WithoutConflict (store : MemoryStore R V) (db : Tables sql V) (call : TimedCall R) : Prop :=
  ∀ vectorsByDoc before doc after,
    embedDocuments (having .write (MemoryStore.plan db call.sourceDocs call.sourceMachineId)) call.embedder =
      some vectorsByDoc →
    having .write (MemoryStore.plan db call.sourceDocs call.sourceMachineId) = before ++ doc :: after →
    ∀ summary, store.writeDocument call.embedder vectorsByDoc call.sourceMachineId call.now
      (before.foldl (store.writeNext call.embedder vectorsByDoc call.sourceMachineId call.now) (db, summary)).1 doc ≠
        .error .integrity

/-! ### One document -/

variable {S : Set String} {store : MemoryStore R V} {db db' : Tables sql V} {fake fake' : FakeMemoryStore R}
  {owner : String → Option String} {doc : SourceDocument} {docs : List SourceDocument} {embedder : Embedder R}
  {sourceMachineId : Option String} {now : Instant} {docId : String} {vectors : List (List R)}

/-- The two stores in the middle of a loop: they agree, and `owner` knows the owner of every hash. -/
private structure Linked (S : Set String) (owner : String → Option String) (store : MemoryStore R V)
    (db : Tables sql V) (fake : FakeMemoryStore R) : Prop where
  agrees : Agrees store db fake
  within : Within S db
  owned : ∀ row ∈ db.documents.rows, owner row.contentHash = some row.documentId

private theorem linked_deleteDocument (hexact : Set.InjOn sql.key S) (h : Linked S owner store db fake)
    (hid : docId ∈ S) :
    (db.deleteDocument docId).1 = (fake.deleteDocument docId).1 ∧
      Linked S owner store (db.deleteDocument docId).2 (fake.deleteDocument docId).2 := by
  have hrows := mem_documents_deleteDocument hexact h.within hid
  have hchunks := mem_chunks_deleteDocument hexact h.within hid
  have howns : ∀ row ∈ db.chunks.rows, fake.owns docId row.chunkId = true ↔ row.documentId = docId := by
    intro row hrow
    obtain ⟨chunk, vector, hchunk, -, hrender⟩ := h.agrees.chunks row hrow
    rw [FakeMemoryStore.owns_eq_true, hchunk, hrender.documentId]
    simp
  refine ⟨?_, ⟨⟨h.agrees.dim, fun row => ?_, fun id row hrow => ?_, fun row hrow => ?_, fun cid hcid => ?_⟩,
    within_deleteDocument h.within docId, fun row hrow => h.owned row ((hrows row).1 hrow).1⟩⟩
  · rw [Bool.eq_iff_iff, existed_deleteDocument hexact h.within hid]
    show _ ↔ (fake.documents docId).isSome = true
    rw [Option.isSome_iff_exists]
    constructor
    · rintro ⟨stored, hstored, rfl⟩
      exact ⟨_, (h.agrees.documents stored.toDocument).1 ⟨stored, hstored, rfl⟩⟩
    · rintro ⟨row, hrow⟩
      obtain rfl := h.agrees.keyed docId row hrow
      obtain ⟨stored, hstored, rfl⟩ := (h.agrees.documents row).2 hrow
      exact ⟨stored, hstored, rfl⟩
  · rw [FakeMemoryStore.documents_deleteDocument, ← h.agrees.documents]
    constructor
    · rintro ⟨stored, hstored, rfl⟩
      obtain ⟨hstored, hne⟩ := (hrows stored).1 hstored
      exact ⟨hne, stored, hstored, rfl⟩
    · rintro ⟨hne, stored, hstored, rfl⟩
      exact ⟨stored, (hrows stored).2 ⟨hstored, hne⟩, rfl⟩
  · exact h.agrees.keyed id row (FakeMemoryStore.documents_deleteDocument.1 hrow).2
  · obtain ⟨hrow, hne⟩ := (hchunks row).1 hrow
    obtain ⟨chunk, vector, hchunk, hvector, hrender⟩ := h.agrees.chunks row hrow
    refine ⟨chunk, vector, FakeMemoryStore.chunks_deleteDocument.2 ⟨hchunk, by rw [← hrender.documentId]; exact hne⟩,
      FakeMemoryStore.vectors_deleteDocument.2 ⟨fun howned => hne ((howns row hrow).1 howned), hvector⟩, hrender⟩
  · have hold : ((fake.chunks cid).isSome ∨ (fake.vectors cid).isSome) ∧ ¬ fake.owns docId cid := by
      rcases hcid with hcid | hcid
      · obtain ⟨chunk, hchunk⟩ := Option.isSome_iff_exists.1 hcid
        obtain ⟨hchunk, hne⟩ := FakeMemoryStore.chunks_deleteDocument.1 hchunk
        refine ⟨Or.inl (Option.isSome_iff_exists.2 ⟨chunk, hchunk⟩), fun howned => hne ?_⟩
        obtain ⟨chunk', hchunk', hmine⟩ := FakeMemoryStore.owns_eq_true.1 howned
        obtain rfl := Option.some.inj (hchunk.symm.trans hchunk')
        exact hmine
      · obtain ⟨vector, hvector⟩ := Option.isSome_iff_exists.1 hcid
        obtain ⟨howned, hvector⟩ := FakeMemoryStore.vectors_deleteDocument.1 hvector
        exact ⟨Or.inr (Option.isSome_iff_exists.2 ⟨vector, hvector⟩), howned⟩
    obtain ⟨row, hrow, rfl⟩ := h.agrees.complete cid hold.1
    exact ⟨row, (hchunks row).2 ⟨hrow, fun hmine => hold.2 ((howns row hrow).2 hmine)⟩, rfl⟩

variable {vectorsByDoc : String → Option (List (List R))}

/-- Both stores write a document that the columns take. -/
private theorem linked_writeDocument (now : Instant) (hexact : Set.InjOn sql.key S)
    (h : Linked S owner store db fake)
    (hdoc : Submitted S doc) (hadmissible : FakeMemoryStore.Admissible doc)
    (hfits : Fits sql doc embedder sourceMachineId) (hslice : vectorsByDoc doc.docId = some vectors)
    (hvectors : ∀ vector ∈ vectors, (store.castVector store.embeddingDim vector).isSome)
    (howner : owner doc.contentHash = some doc.docId) :
    ∃ db', store.writeDocument embedder vectorsByDoc sourceMachineId now db doc =
        .ok ((fake.deleteDocument doc.docId).1, db') ∧
      Linked S owner store db'
        ((fake.deleteDocument doc.docId).2.writeDocument doc vectors embedder sourceMachineId) := by
  obtain ⟨hexisted, hdeleted⟩ := linked_deleteDocument hexact h hdoc.docId
  have hrows := mem_documents_deleteDocument hexact h.within hdoc.docId
  have hchunkRows := mem_chunks_deleteDocument hexact h.within hdoc.docId
  obtain ⟨db', hdb', hdocuments, hchunks⟩ := writeDocument_ok now hexact h.within hdoc hfits hslice hvectors
    fun row hrow hsame => by
      have hown := h.owned row hrow
      rw [hsame, howner] at hown
      exact (Option.some.inj hown).symm
  simp only [← hrows] at hdocuments
  simp only [← hchunkRows] at hchunks
  rw [hexisted] at hdb'
  generalize (db.deleteDocument doc.docId).2 = mid at *
  have habsent : ∀ row ∈ mid.documents.rows, row.documentId ≠ doc.docId := fun row hrow => ((hrows row).1 hrow).2
  have habsentChunks : ∀ row ∈ mid.chunks.rows, row.documentId ≠ doc.docId :=
    fun row hrow => ((hchunkRows row).1 hrow).2
  generalize (fake.deleteDocument doc.docId).2 = fmid at *
  refine ⟨db', hdb', ⟨⟨hdeleted.agrees.dim, fun row => ?_, fun id row hrow => ?_, fun row hrow => ?_, fun cid hcid => ?_⟩,
    within_write hdeleted.within hdoc (fun row => (hdocuments row).1) fun row => (hchunks row).1, fun row hrow => ?_⟩⟩
  · rw [FakeMemoryStore.documents_writeDocument, ← hdeleted.agrees.documents]
    constructor
    · rintro ⟨stored, hstored, rfl⟩
      rcases (hdocuments stored).1 hstored with hstored | rfl
      · exact Or.inr ⟨habsent stored hstored, stored, hstored, rfl⟩
      · exact Or.inl ⟨rfl, rfl⟩
    · rintro (⟨-, rfl⟩ | ⟨-, stored, hstored, rfl⟩)
      · exact ⟨_, (hdocuments _).2 (Or.inr rfl), rfl⟩
      · exact ⟨stored, (hdocuments stored).2 (Or.inl hstored), rfl⟩
  · rcases FakeMemoryStore.documents_writeDocument.1 hrow with ⟨rfl, rfl⟩ | ⟨-, hrow⟩
    · rfl
    · exact hdeleted.agrees.keyed id row hrow
  · rcases (hchunks row).1 hrow with hrow | ⟨pair, hpair, embedding, hembedding, rfl⟩
    · obtain ⟨chunk, vector, hchunk, hvector, hrender⟩ := hdeleted.agrees.chunks row hrow
      have hother : ∀ pair ∈ doc.chunks.zip vectors, row.chunkId ≠ chunkId doc.docId pair.1.seq := by
        intro pair _ hsame
        rw [(hdeleted.within.chunks row hrow).2.2] at hsame
        exact habsentChunks row hrow (chunkId_inj hsame).1
      exact ⟨chunk, vector, (FakeMemoryStore.chunks_writeDocument hadmissible).2 (Or.inr ⟨hother, hchunk⟩),
        (FakeMemoryStore.vectors_writeDocument hadmissible).2 (Or.inr ⟨hother, hvector⟩), hrender⟩
    · exact ⟨_, _, (FakeMemoryStore.chunks_writeDocument hadmissible).2 (Or.inl ⟨pair, hpair, rfl, rfl⟩),
        (FakeMemoryStore.vectors_writeDocument hadmissible).2 (Or.inl ⟨pair, hpair, rfl, rfl⟩),
        ⟨rfl, rfl, rfl, rfl, rfl, rfl, rfl, hembedding⟩⟩
  · have hnew : ∀ pair ∈ doc.chunks.zip vectors, ∃ row ∈ db'.chunks.rows,
        row.chunkId = chunkId doc.docId pair.1.seq := by
      intro pair hpair
      obtain ⟨embedding, hembedding⟩ := Option.isSome_iff_exists.1 (hvectors pair.2 (List.of_mem_zip hpair).2)
      exact ⟨_, (hchunks _).2 (Or.inr ⟨pair, hpair, embedding, hembedding, rfl⟩), rfl⟩
    have hold : (fmid.chunks cid).isSome ∨ (fmid.vectors cid).isSome → ∃ row ∈ db'.chunks.rows, row.chunkId = cid := by
      intro hcid
      obtain ⟨row, hrow, rfl⟩ := hdeleted.agrees.complete cid hcid
      exact ⟨row, (hchunks row).2 (Or.inl hrow), rfl⟩
    rcases hcid with hcid | hcid
    · obtain ⟨chunk, hchunk⟩ := Option.isSome_iff_exists.1 hcid
      rcases (FakeMemoryStore.chunks_writeDocument hadmissible).1 hchunk with ⟨pair, hpair, rfl, -⟩ | ⟨-, hchunk⟩
      · exact hnew pair hpair
      · exact hold (Or.inl (Option.isSome_iff_exists.2 ⟨chunk, hchunk⟩))
    · obtain ⟨vector, hvector⟩ := Option.isSome_iff_exists.1 hcid
      rcases (FakeMemoryStore.vectors_writeDocument hadmissible).1 hvector with ⟨pair, hpair, rfl, -⟩ | ⟨-, hvector⟩
      · exact hnew pair hpair
      · exact hold (Or.inr (Option.isSome_iff_exists.2 ⟨vector, hvector⟩))
  · rcases (hdocuments row).1 hrow with hrow | rfl
    · exact hdeleted.owned row hrow
    · exact howner

/-- Both stores describe a document anew. -/
private theorem linked_updateDocumentMetadata (now : Instant) (hexact : Set.InjOn sql.key S)
    (h : Linked S owner store db fake)
    (hid : doc.docId ∈ S) (hfits : Tables.fitsMetadata sql doc sourceMachineId = true) :
    ∃ db', db.updateDocumentMetadata doc sourceMachineId now = .ok db' ∧
      Linked S owner store db' (fake.updateDocumentMetadata doc sourceMachineId) := by
  obtain ⟨db', hdb', hchunks, hrows⟩ := updateDocumentMetadata_ok now hexact h.within hid hfits
  obtain ⟨hfakeChunks, hfakeVectors, -, hdim⟩ := FakeMemoryStore.updateDocumentMetadata_rest fake doc
    sourceMachineId
  have hkept : ∀ old : StoredDocument,
      (if old.documentId = doc.docId then Tables.setMetadata doc sourceMachineId now old else old).toDocument =
        if old.documentId = doc.docId then describe doc sourceMachineId old.toDocument else old.toDocument := by
    intro old
    split
    · rfl
    · rfl
  have hkeptFake : ∀ prior : Document,
      (if prior.documentId = doc.docId then describe doc sourceMachineId prior else prior).documentId =
        prior.documentId := by
    intro prior
    split
    · rfl
    · rfl
  refine ⟨db', hdb', ⟨⟨hdim.trans h.agrees.dim, fun row => ?_, fun id row hrow => ?_, ?_, ?_⟩,
    within_update h.within hchunks fun row hrow => (hrows row).1 hrow, fun row hrow => ?_⟩⟩
  · rw [FakeMemoryStore.documents_updateDocumentMetadata]
    constructor
    · rintro ⟨stored, hstored, rfl⟩
      obtain ⟨old, hold, rfl⟩ := (hrows stored).1 hstored
      obtain ⟨hid, -⟩ := kept_setMetadata doc sourceMachineId now old
      refine ⟨old.toDocument, ?_, ?_⟩
      · rw [hid]
        exact (h.agrees.documents old.toDocument).1 ⟨old, hold, rfl⟩
      · rw [hid, hkept old]
    · rintro ⟨prior, hprior, hrow⟩
      have hsame : prior.documentId = row.documentId := h.agrees.keyed _ _ hprior
      rw [← hsame] at hprior hrow
      obtain ⟨old, hold, rfl⟩ := (h.agrees.documents prior).2 hprior
      exact ⟨_, (hrows _).2 ⟨old, hold, rfl⟩, (hkept old).trans hrow.symm⟩
  · obtain ⟨prior, hprior, rfl⟩ := FakeMemoryStore.documents_updateDocumentMetadata.1 hrow
    have hidPrior := h.agrees.keyed id prior hprior
    rw [← hidPrior, hkeptFake]
  · rw [hchunks, hfakeChunks, hfakeVectors]
    exact h.agrees.chunks
  · rw [hchunks, hfakeChunks, hfakeVectors]
    exact h.agrees.complete
  · obtain ⟨old, hold, rfl⟩ := (hrows row).1 hrow
    obtain ⟨hid, hhash⟩ := kept_setMetadata doc sourceMachineId now old
    rw [hid, hhash]
    exact h.owned old hold

/-! ### One call -/

/-- A document of a call, with its strings among `S`. -/
private structure Accepted (S : Set String) (sql : Sql) (doc : SourceDocument) (embedder : Embedder R)
    (sourceMachineId : Option String) : Prop where
  submitted : Submitted S doc
  docId : doc.docId ≠ ""
  hash : doc.contentHash ≠ ""
  fits : Fits sql doc embedder sourceMachineId

private theorem Accepted.admissible (h : Accepted S sql doc embedder sourceMachineId) :
    FakeMemoryStore.Admissible doc :=
  ⟨h.hash, h.submitted.seqs⟩

/-- **The plans.**  The rows of the ids and the hashes of a batch decide what the whole store decides. -/
private theorem plan_eq (sourceMachineId : Option String) (h : Agrees store db fake)
    (hindex : ∀ hash id, fake.hashOwner hash = some id ↔ ∃ row, fake.documents id = some row ∧ row.contentHash = hash)
    (hdocs : ∀ doc ∈ docs, doc.docId ≠ "" ∧ doc.contentHash ≠ "") :
    MemoryStore.plan db docs sourceMachineId = fake.plan docs sourceMachineId := by
  refine classify_congr (fun doc hdoc => Option.ext fun row => ?_) fun doc hdoc => Option.ext fun id => ?_
  · constructor
    · intro hrow
      obtain ⟨stored, hstored, rfl, hid, -⟩ := of_preload_existing hrow
      rw [← hid]
      exact (h.documents stored.toDocument).1 ⟨stored, hstored, rfl⟩
    · intro hrow
      have hid := h.keyed doc.docId row hrow
      rw [← hid] at hrow ⊢
      obtain ⟨stored, hstored, rfl⟩ := (h.documents row).2 hrow
      refine preload_existing hstored ?_ ?_
      · rw [hid]
        exact List.mem_map_of_mem hdoc
      · rw [hid]
        exact (hdocs doc hdoc).1
  · rw [hindex]
    constructor
    · intro howner
      obtain ⟨stored, hstored, hhash, rfl⟩ := of_preload_owner howner
      exact ⟨stored.toDocument, (h.documents stored.toDocument).1 ⟨stored, hstored, rfl⟩, hhash⟩
    · rintro ⟨row, hrow, hhash⟩
      obtain rfl := h.keyed id row hrow
      obtain ⟨stored, hstored, rfl⟩ := (h.documents row).2 hrow
      rw [← hhash]
      refine preload_owner _ hstored ?_ ?_
      · rw [hhash]
        exact List.mem_map_of_mem hdoc
      · rw [hhash]
        exact (hdocs doc hdoc).2

/-- Every document of the loop over `to_write` has vectors that the column takes. -/
private def Sliced (store : MemoryStore R V) (vectorsByDoc : String → Option (List (List R)))
    (docs : List SourceDocument) : Prop :=
  ∀ doc ∈ docs, ∃ vectors, vectorsByDoc doc.docId = some vectors ∧
    ∀ vector ∈ vectors, (store.castVector store.embeddingDim vector).isSome

private theorem linked_writes (now : Instant) (summary : Summary) (hexact : Set.InjOn sql.key S)
    (h : Linked S owner store db fake)
    (hdocs : ∀ doc ∈ docs, Accepted S sql doc embedder sourceMachineId ∧ owner doc.contentHash = some doc.docId)
    (hsliced : Sliced store vectorsByDoc docs) : ∃ fake' summary',
      docs.foldlM (FakeMemoryStore.writeNext embedder vectorsByDoc sourceMachineId) (fake, summary) =
        some (fake', summary') ∧
      (docs.foldl (store.writeNext embedder vectorsByDoc sourceMachineId now) (db, summary)).2 = summary' ∧
      Linked S owner store
        (docs.foldl (store.writeNext embedder vectorsByDoc sourceMachineId now) (db, summary)).1 fake' := by
  induction docs generalizing db fake summary with
  | nil => exact ⟨fake, summary, rfl, rfl, h⟩
  | cons doc docs ih =>
    obtain ⟨hacceptable, howner⟩ := hdocs doc List.mem_cons_self
    obtain ⟨vectors, hslice, hvectors⟩ := hsliced doc List.mem_cons_self
    obtain ⟨db', hdb', hlinked⟩ := linked_writeDocument now hexact h hacceptable.submitted
      hacceptable.admissible hacceptable.fits hslice hvectors howner
    have hsql : store.writeNext embedder vectorsByDoc sourceMachineId now (db, summary) doc =
        (db', summary.wrote doc (fake.deleteDocument doc.docId).1) := by
      unfold MemoryStore.writeNext
      rw [hdb']
    have hfake : FakeMemoryStore.writeNext embedder vectorsByDoc sourceMachineId (fake, summary) doc =
        some ((fake.deleteDocument doc.docId).2.writeDocument doc vectors embedder sourceMachineId,
          summary.wrote doc (fake.deleteDocument doc.docId).1) := by
      unfold FakeMemoryStore.writeNext
      rw [hslice]
      rfl
    rw [List.foldlM_cons, List.foldl_cons, hfake, hsql]
    exact ih _ hlinked (fun d hd => hdocs d (List.mem_cons_of_mem _ hd)) fun d hd => hsliced d (List.mem_cons_of_mem _ hd)

private theorem linked_updates (now : Instant) (hexact : Set.InjOn sql.key S) {state : Tables sql V × Summary}
    (twin : FakeMemoryStore R × Summary) (hsummary : state.2 = twin.2) (h : Linked S owner store state.1 twin.1)
    (docs : List SourceDocument) (hdocs : ∀ doc ∈ docs, Accepted S sql doc embedder sourceMachineId) :
    (docs.foldl (MemoryStore.updateNext sourceMachineId now) state).2 =
        (docs.foldl (FakeMemoryStore.updateNext sourceMachineId) twin).2 ∧
      Linked S owner store (docs.foldl (MemoryStore.updateNext sourceMachineId now) state).1
        (docs.foldl (FakeMemoryStore.updateNext sourceMachineId) twin).1 := by
  induction docs generalizing state twin with
  | nil => exact ⟨hsummary, h⟩
  | cons doc docs ih =>
    have hacceptable := hdocs doc List.mem_cons_self
    obtain ⟨db', hdb', hlinked⟩ := linked_updateDocumentMetadata now hexact h hacceptable.submitted.docId
      (Bool.and_eq_true_iff.1 hacceptable.fits.1).2
    have hsql : MemoryStore.updateNext sourceMachineId now state doc =
        (db', { state.2 with documentsMetadataUpdated := state.2.documentsMetadataUpdated + 1 }) := by
      unfold MemoryStore.updateNext
      rw [hdb']
    rw [List.foldl_cons, List.foldl_cons, hsql]
    refine ih _ ?_ hlinked fun d hd => hdocs d (List.mem_cons_of_mem _ hd)
    rw [hsummary]
    rfl

private theorem linked_removals (hexact : Set.InjOn sql.key S) {state : Tables sql V × Summary}
    {twin : FakeMemoryStore R × Summary} (hsummary : state.2 = twin.2) (h : Linked S owner store state.1 twin.1)
    (docs : List SourceDocument) (hdocs : ∀ doc ∈ docs, doc.docId ∈ S) :
    (docs.foldl MemoryStore.removeNext state).2 = (docs.foldl FakeMemoryStore.removeNext twin).2 ∧
      Linked S owner store (docs.foldl MemoryStore.removeNext state).1
        (docs.foldl FakeMemoryStore.removeNext twin).1 := by
  induction docs generalizing state twin with
  | nil => exact ⟨hsummary, h⟩
  | cons doc docs ih =>
    have hlinked := (linked_deleteDocument hexact h (hdocs doc List.mem_cons_self)).2
    refine ih ?_ hlinked fun d hd => hdocs d (List.mem_cons_of_mem _ hd)
    show { state.2 with documentsRemoved := state.2.documentsRemoved + 1 } = _
    rw [hsummary]
    rfl

private theorem sliced_of_embed (hcastable : Castable store embedder)
    (hembed : embedDocuments docs embedder = some vectorsByDoc) (hchunks : ∀ doc ∈ docs, doc.chunks ≠ []) :
    Sliced store vectorsByDoc docs := by
  intro doc hdoc
  obtain ⟨slice, hslice, hvectors⟩ := exists_slice hembed hdoc hchunks
  refine ⟨slice, hslice, fun vector hvector => ?_⟩
  obtain ⟨text, texts, vectors, hcall, hmem⟩ := hvectors vector hvector
  exact hcastable texts vectors hcall vector (List.of_mem_zip hmem).2

/-- What holds between two calls. -/
private structure Paired (S : Set String) (store : MemoryStore R V) (db : Tables sql V) (fake : FakeMemoryStore R) :
    Prop where
  agrees : Agrees store db fake
  within : Within S db
  index : ∀ hash id, fake.hashOwner hash = some id ↔ ∃ row, fake.documents id = some row ∧ row.contentHash = hash

private theorem linked_of_paired (h : Paired S store db fake) :
    Linked S (seenAfter fake.documents sourceMachineId fake.hashOwner docs) store db fake where
  agrees := h.agrees
  within := h.within
  owned := by
    intro row hrow
    refine seenAfter_of_some ((h.index _ _).2 ⟨row.toDocument, ?_, rfl⟩)
    exact (h.agrees.documents row.toDocument).1 ⟨row, hrow, rfl⟩

private theorem writes_acceptable (fake : FakeMemoryStore R)
    (hdocs : ∀ doc ∈ docs, Accepted S sql doc embedder sourceMachineId) :
    ∀ doc ∈ having .write (fake.plan docs sourceMachineId), Accepted S sql doc embedder sourceMachineId ∧
      seenAfter fake.documents sourceMachineId fake.hashOwner docs doc.contentHash = some doc.docId :=
  fun doc hdoc => ⟨hdocs doc (mem_of_mem_having hdoc), seenAfter_of_write hdoc⟩

/-- **One call.**  Either both stores raise, or both return the same summary and agree behind the call. -/
private theorem ingest_paired (now : Instant) (hexact : Set.InjOn sql.key S) (h : Paired S store db fake)
    (hdocs : ∀ doc ∈ docs, Accepted S sql doc embedder sourceMachineId) (hcastable : Castable store embedder) :
    (store.ingestDocuments db docs embedder sourceMachineId now = none ∧
        fake.ingestDocuments docs embedder sourceMachineId = none) ∨
      ∃ db' fake' summary, store.ingestDocuments db docs embedder sourceMachineId now = some (db', summary) ∧
        fake.ingestDocuments docs embedder sourceMachineId = some (fake', summary) ∧ Agrees store db' fake' ∧
        Within S db' := by
  have hplan := plan_eq sourceMachineId h.agrees h.index
    fun doc hdoc => ⟨(hdocs doc hdoc).docId, (hdocs doc hdoc).hash⟩
  unfold MemoryStore.ingestDocuments FakeMemoryStore.ingestDocuments
  rw [hplan, h.agrees.dim]
  by_cases hdim : embedder.dim = store.embeddingDim
  · rw [if_pos hdim, if_pos hdim]
    dsimp only
    cases hembed : embedDocuments (having .write (fake.plan docs sourceMachineId)) embedder with
    | none => exact Or.inl ⟨rfl, rfl⟩
    | some vectorsByDoc =>
      obtain ⟨fake₁, summary₁, hfake, hsummary, hlinked⟩ := linked_writes now
        (Summary.planned (fake.plan docs sourceMachineId)) hexact (linked_of_paired h) (writes_acceptable fake hdocs)
        (sliced_of_embed hcastable hembed fun doc hdoc => chunks_of_write hdoc)
      have hplanned : ∀ wanted, ∀ doc ∈ having wanted (fake.plan docs sourceMachineId),
          Accepted S sql doc embedder sourceMachineId := fun wanted doc hdoc => hdocs doc (mem_of_mem_having hdoc)
      obtain ⟨hsummary, hlinked⟩ := linked_updates now hexact (fake₁, summary₁) hsummary hlinked _
        (hplanned .update)
      obtain ⟨hsummary, hlinked⟩ := linked_removals hexact hsummary hlinked _
        fun doc hdoc => (hplanned .remove doc hdoc).submitted.docId
      refine Or.inr ⟨_, _, _, rfl, ?_, hlinked.agrees, hlinked.within⟩
      rw [Option.bind_eq_bind, Option.bind_some, hfake, hsummary]
      rfl
  · rw [if_neg hdim, if_neg hdim]
    exact Or.inl ⟨rfl, rfl⟩

/-- No write of a call meets the unique index. -/
private theorem withoutConflict_of_paired (hexact : Set.InjOn sql.key S) (h : Paired S store db fake)
    {call : TimedCall R} (hdocs : ∀ doc ∈ call.sourceDocs, Accepted S sql doc call.embedder call.sourceMachineId)
    (hcastable : Castable store call.embedder) : WithoutConflict store db call := by
  intro vectorsByDoc before doc after hembed hplanned summary hconflict
  rw [plan_eq call.sourceMachineId h.agrees h.index fun doc hdoc => ⟨(hdocs doc hdoc).docId,
    (hdocs doc hdoc).hash⟩] at hembed hplanned
  have haccepted := writes_acceptable fake hdocs
  have hsliced := sliced_of_embed hcastable hembed fun doc hdoc => chunks_of_write hdoc
  rw [hplanned] at haccepted hsliced
  obtain ⟨fake₁, -, -, -, hlinked⟩ := linked_writes call.now summary hexact (linked_of_paired h)
    (fun d (hd : d ∈ before) => haccepted d (List.mem_append_left _ hd))
    fun d hd => hsliced d (List.mem_append_left _ hd)
  obtain ⟨hacceptable, howner⟩ := haccepted doc (List.mem_append_right _ List.mem_cons_self)
  obtain ⟨vectors, hslice, hvectors⟩ := hsliced doc (List.mem_append_right _ List.mem_cons_self)
  obtain ⟨db', hdb', -⟩ := linked_writeDocument call.now hexact hlinked hacceptable.submitted
    hacceptable.admissible hacceptable.fits hslice hvectors howner
  rw [hdb'] at hconflict
  cases hconflict

/-! ### Sequences of calls -/

private theorem fst_serve (calls : List (TimedCall R)) (state : FakeMemoryStore R × List (Option Summary))
    (versions : String → Option (Version R)) : (calls.foldl FakeMemoryStore.serve state).1 =
      ((calls.map TimedCall.toCall).foldl FakeMemoryStore.callNext (state.1, versions)).1 := by
  induction calls generalizing state versions with
  | nil => rfl
  | cons call calls ih =>
    have hnext : (FakeMemoryStore.serve state call).1 =
        (FakeMemoryStore.callNext (state.1, versions) call.toCall).1 := by
      unfold FakeMemoryStore.callNext
      cases hrun : state.1.ingestDocuments call.sourceDocs call.embedder call.sourceMachineId with
      | none =>
        have hserve : FakeMemoryStore.serve state call = (state.1, state.2 ++ [none]) := serve_of_none hrun
        rw [hserve]
      | some result =>
        have hserve : FakeMemoryStore.serve state call = (result.1, state.2 ++ [some result.2]) := serve_of_some hrun
        rw [hserve]
    rw [List.map_cons, List.foldl_cons, List.foldl_cons,
      ih _ (FakeMemoryStore.callNext (state.1, versions) call.toCall).2, hnext]

private theorem accepted_of_mem {calls : List (TimedCall R)} {call : TimedCall R} (hcall : call ∈ calls)
    (hdoc : doc ∈ call.sourceDocs) (h : Acceptable sql doc call.embedder call.sourceMachineId)
    (hS : textsOf (calls.flatMap fun call => call.sourceDocs) ⊆ S) :
    Accepted S sql doc call.embedder call.sourceMachineId where
  submitted := by
    have hmem : doc ∈ calls.flatMap fun call => call.sourceDocs := List.mem_flatMap.2 ⟨call, hcall, hdoc⟩
    exact ⟨hS ⟨doc, hmem, Or.inl rfl⟩, hS ⟨doc, hmem, Or.inr (Or.inl rfl)⟩,
      fun chunk hchunk => hS ⟨doc, hmem, Or.inr (Or.inr ⟨chunk, hchunk, rfl⟩)⟩, h.seqs⟩
  docId := h.docId
  hash := h.hash
  fits := h.fits

/-- The tables behind a sequence of calls, with the summaries. -/
def MemoryStore.after (store : MemoryStore R V) (sql : Sql) (calls : List (TimedCall R)) :
    Tables sql V × List (Option Summary) :=
  calls.foldl store.serve (Tables.empty, [])

/-- The double behind a sequence of calls, with the summaries. -/
def FakeMemoryStore.after (embeddingDim : Nat) (calls : List (TimedCall R)) :
    FakeMemoryStore R × List (Option Summary) :=
  calls.foldl FakeMemoryStore.serve (FakeMemoryStore.empty embeddingDim, [])

private theorem index_after (sql : Sql) (embeddingDim : Nat) {calls : List (TimedCall R)}
    (hcalls : ∀ call ∈ calls, ∀ doc ∈ call.sourceDocs, Acceptable sql doc call.embedder call.sourceMachineId) :
    ∀ hash id, (FakeMemoryStore.after embeddingDim calls).1.hashOwner hash = some id ↔
      ∃ row, (FakeMemoryStore.after embeddingDim calls).1.documents id = some row ∧ row.contentHash = hash := by
  have hrepresents := FakeMemoryStore.represents_calls embeddingDim (calls.map TimedCall.toCall) (by
    intro call hcall doc hdoc
    obtain ⟨timed, htimed, rfl⟩ := List.mem_map.1 hcall
    have h := hcalls timed htimed doc hdoc
    exact ⟨h.hash, h.seqs⟩)
  have hindex := hrepresents.index
  rw [← fst_serve calls (FakeMemoryStore.empty embeddingDim, []) fun _ => none] at hindex
  exact hindex

private theorem after_paired (hexact : Set.InjOn sql.key S) (calls : List (TimedCall R))
    (hS : textsOf (calls.flatMap fun call => call.sourceDocs) ⊆ S)
    (hcalls : ∀ call ∈ calls, Castable store call.embedder ∧
      ∀ doc ∈ call.sourceDocs, Acceptable sql doc call.embedder call.sourceMachineId) :
    (store.after sql calls).2 = (FakeMemoryStore.after store.embeddingDim calls).2 ∧
      Paired S store (store.after sql calls).1 (FakeMemoryStore.after store.embeddingDim calls).1 := by
  induction calls using List.reverseRecOn with
  | nil =>
    refine ⟨rfl, ⟨⟨rfl, fun row => ?_, fun id row h => ?_, fun row h => ?_, fun cid h => ?_⟩, ⟨?_, ?_⟩,
      index_after sql _ (by simp)⟩⟩
    · refine iff_of_false ?_ (Option.some_ne_none row).symm
      rintro ⟨stored, hstored, -⟩
      cases hstored
    · exact absurd h (Option.some_ne_none row).symm
    · cases h
    · rcases h with h | h <;> cases h
    · exact fun row h => absurd h List.not_mem_nil
    · exact fun row h => absurd h List.not_mem_nil
  | append_singleton calls call ih =>
    have hmem : call ∈ calls ++ [call] := List.mem_append_right _ List.mem_cons_self
    obtain ⟨hsummaries, hpaired⟩ := ih (fun s hs => hS (by
      obtain ⟨d, hd, hs⟩ := hs
      exact ⟨d, by rw [List.flatMap_append]; exact List.mem_append_left _ hd, hs⟩))
      fun c hc => hcalls c (List.mem_append_left _ hc)
    have hindex := index_after sql store.embeddingDim fun c hc => (hcalls c hc).2
    have hsql : store.after sql (calls ++ [call]) = store.serve (store.after sql calls) call := by
      unfold MemoryStore.after
      rw [List.foldl_append]
      rfl
    have hfake : FakeMemoryStore.after store.embeddingDim (calls ++ [call]) =
        FakeMemoryStore.serve (FakeMemoryStore.after store.embeddingDim calls) call := by
      unfold FakeMemoryStore.after
      rw [List.foldl_append]
      rfl
    rw [hfake] at hindex
    rw [hsql, hfake]
    rcases ingest_paired call.now hexact hpaired
      (fun doc hdoc => accepted_of_mem hmem hdoc ((hcalls call hmem).2 doc hdoc) hS) (hcalls call hmem).1 with
      ⟨hnone, hnone'⟩ | ⟨db', fake', summary, hsome, hsome', hagrees, hwithin⟩
    · have hserve : store.serve (store.after sql calls) call =
          ((store.after sql calls).1, (store.after sql calls).2 ++ [none]) := serve_of_none hnone
      have hserve' : FakeMemoryStore.serve (FakeMemoryStore.after store.embeddingDim calls) call =
          ((FakeMemoryStore.after store.embeddingDim calls).1,
            (FakeMemoryStore.after store.embeddingDim calls).2 ++ [none]) := serve_of_none hnone'
      rw [hserve, hserve']
      exact ⟨by rw [hsummaries], hpaired⟩
    · have hserve : store.serve (store.after sql calls) call =
          (db', (store.after sql calls).2 ++ [some summary]) := serve_of_some hsome
      have hserve' : FakeMemoryStore.serve (FakeMemoryStore.after store.embeddingDim calls) call =
          (fake', (FakeMemoryStore.after store.embeddingDim calls).2 ++ [some summary]) := serve_of_some hsome'
      rw [hserve'] at hindex
      rw [hserve, hserve']
      exact ⟨by rw [hsummaries], hagrees, hwithin, hindex⟩

/-- **The store and its double agree.**  Every sequence of calls on the empty stores returns the same summaries and
leaves the same documents, chunks and vectors; every call makes the same plan of the rows that it concerns as of the
whole store, and no write meets the unique index. -/
theorem ingest_agrees (store : MemoryStore R V) (calls : List (TimedCall R))
    (hexact : Set.InjOn sql.key (textsOf (calls.flatMap fun call => call.sourceDocs)))
    (hcalls : ∀ call ∈ calls, Castable store call.embedder ∧
      ∀ doc ∈ call.sourceDocs, Acceptable sql doc call.embedder call.sourceMachineId) :
    (store.after sql calls).2 = (FakeMemoryStore.after store.embeddingDim calls).2 ∧
      Agrees store (store.after sql calls).1 (FakeMemoryStore.after store.embeddingDim calls).1 ∧
      ∀ before call after, calls = before ++ call :: after →
        MemoryStore.plan (store.after sql before).1 call.sourceDocs call.sourceMachineId =
            (FakeMemoryStore.after store.embeddingDim before).1.plan call.sourceDocs call.sourceMachineId ∧
          WithoutConflict store (store.after sql before).1 call := by
  obtain ⟨hsummaries, hpaired⟩ := after_paired hexact calls subset_rfl hcalls
  refine ⟨hsummaries, hpaired.agrees, ?_⟩
  rintro before call after rfl
  have hmem : call ∈ before ++ call :: after := List.mem_append_right _ List.mem_cons_self
  obtain ⟨-, hpaired⟩ := after_paired hexact before (fun s hs => by
    obtain ⟨d, hd, hs⟩ := hs
    exact ⟨d, by rw [List.flatMap_append]; exact List.mem_append_left _ hd, hs⟩)
    fun c hc => hcalls c (List.mem_append_left _ hc)
  have haccepted := fun doc hdoc => accepted_of_mem hmem hdoc ((hcalls call hmem).2 doc hdoc) subset_rfl
  exact ⟨plan_eq _ hpaired.agrees hpaired.index fun doc hdoc => ⟨(haccepted doc hdoc).docId, (haccepted doc hdoc).hash⟩,
    withoutConflict_of_paired hexact hpaired haccepted (hcalls call hmem).1⟩

/-- A batch in which an id comes twice and a second document has the content of its first version, and one that removes
a document and writes another with the content that has become free. -/
def tradedCalls : List (TimedCall Int) :=
  [⟨⟨[note "a" "one", note "a" "two", note "b" "one"], letterCount, none⟩, noon⟩,
    ⟨⟨[emptied "a" "two", note "c" "one"], letterCount, some "m"⟩, noon⟩]

private def tradedTexts : List String := ["a", "b", "c", "one", "two", "mem:a:0", "mem:b:0", "mem:c:0"]

theorem ingest_agrees_traded :
    (letterStore.after Sql.sample tradedCalls).2 = (FakeMemoryStore.after 1 tradedCalls).2 ∧
      Agrees letterStore (letterStore.after Sql.sample tradedCalls).1 (FakeMemoryStore.after 1 tradedCalls).1 ∧
      ∀ before call after, tradedCalls = before ++ call :: after →
        MemoryStore.plan (letterStore.after Sql.sample before).1 call.sourceDocs call.sourceMachineId =
            (FakeMemoryStore.after 1 before).1.plan call.sourceDocs call.sourceMachineId ∧
          WithoutConflict letterStore (letterStore.after Sql.sample before).1 call := by
  have htexts : textsOf (tradedCalls.flatMap fun call => call.sourceDocs) ⊆ {s | s ∈ tradedTexts} := by
    rintro s ⟨doc, hdoc, hs⟩
    have hall : ∀ doc ∈ tradedCalls.flatMap fun call => call.sourceDocs, doc.docId ∈ tradedTexts ∧
        doc.contentHash ∈ tradedTexts ∧ ∀ chunk ∈ doc.chunks, chunkId doc.docId chunk.seq ∈ tradedTexts := by
      decide +kernel
    obtain ⟨hid, hhash, hchunks⟩ := hall doc hdoc
    rcases hs with rfl | rfl | ⟨chunk, hchunk, rfl⟩
    · exact hid
    · exact hhash
    · exact hchunks chunk hchunk
  have hkeys : ∀ s ∈ tradedTexts, ∀ t ∈ tradedTexts, Sql.sample.key s = Sql.sample.key t → s = t := by decide +kernel
  refine ingest_agrees letterStore tradedCalls (fun s hs t ht => hkeys s (htexts hs) t (htexts ht)) ?_
  intro call hcall
  have hembedder : call.embedder = letterCount := by
    simp only [tradedCalls, List.mem_cons, List.not_mem_nil, or_false] at hcall
    rcases hcall with rfl | rfl <;> rfl
  rw [hembedder]
  refine ⟨castable_letterCount, fun doc hdoc => ?_⟩
  have hall : ∀ call ∈ tradedCalls, ∀ doc ∈ call.sourceDocs, doc.docId ≠ "" ∧ doc.contentHash ≠ "" ∧
      (doc.chunks.map ChunkInput.seq).Nodup ∧
      Tables.fitsDocument Sql.sample doc call.sourceMachineId = true ∧ ∀ chunk ∈ doc.chunks,
        Tables.fitsChunk Sql.sample (MemoryStore.chunkRow Sql.sample.reprFloat doc letterCount chunk ()) = true := by
    decide +kernel
  obtain ⟨hid, hhash, hseqs, hfits⟩ := hall call hcall doc hdoc
  exact ⟨hid, hhash, hseqs, hfits⟩

end AgentOS.Central
