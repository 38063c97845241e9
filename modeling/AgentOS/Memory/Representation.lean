import AgentOS.Memory.Plans

/-!
# The representation of the double

`FakeMemoryStore` keeps documents, chunks, vectors and an index of the hashes in four dicts.  `Represents` says how they
belong together, and `represents_calls` that every sequence of calls keeps it.  What is in them is said by
`stored_of_written`: a document that was written stays until it is removed.

A call may write one id several times, and then the vectors of the earlier writes are those of the last one.  The loop
therefore keeps `Shelved`, which asks for the right chunks only of the ids that are not written again.
-/

namespace AgentOS.Central

variable {R : Type}

/-- A version of a document that was written, with the embedder of that call. -/
structure Version (R : Type) where
  doc : SourceDocument
  embedder : Embedder R

/-- A call of `ingest_documents`. -/
structure Call (R : Type) where
  sourceDocs : List SourceDocument
  embedder : Embedder R
  sourceMachineId : Option String

namespace FakeMemoryStore

/-- The last version of every document, behind the writes of a plan. -/
def record (embedder : Embedder R) (versions : String → Option (Version R)) (docs : List SourceDocument) :
    String → Option (Version R) :=
  docs.foldl (fun versions doc => Function.update versions doc.docId (some ⟨doc, embedder⟩)) versions

/-- One call, with the last version of every document that was written; what raises leaves the store as it was. -/
def callNext (state : FakeMemoryStore R × (String → Option (Version R))) (call : Call R) :
    FakeMemoryStore R × (String → Option (Version R)) :=
  match state.1.ingestDocuments call.sourceDocs call.embedder call.sourceMachineId with
  | none => state
  | some (store, _) =>
    (store, record call.embedder state.2 (having .write (state.1.plan call.sourceDocs call.sourceMachineId)))

/-- The row of a document and its chunks are those of a version, and every chunk has a vector of its own text. -/
structure Stored (store : FakeMemoryStore R) (row : Document) (version : Version R) : Prop where
  docId : version.doc.docId = row.documentId
  hash : row.contentHash = version.doc.contentHash
  chunks : ∀ cid chunkRow, store.chunks cid = some chunkRow ∧ chunkRow.documentId = row.documentId ↔
    ∃ chunk ∈ version.doc.chunks, cid = chunkId row.documentId chunk.seq ∧
      chunkRow = fakeChunk version.doc version.embedder chunk
  vectors : ∀ chunk ∈ version.doc.chunks, ∃ vector,
    store.vectors (chunkId row.documentId chunk.seq) = some vector ∧ Embeds version.embedder chunk.text vector

/-- The four dicts belong together: no two documents have the same content, the index is the inverse of the hashes,
the chunks of a document are those of its last version, and nothing belongs to a document that is absent. -/
structure Represents (store : FakeMemoryStore R) (versions : String → Option (Version R)) : Prop where
  unique : ∀ id id' row row', store.documents id = some row → store.documents id' = some row' →
    row.contentHash = row'.contentHash → id = id'
  index : ∀ hash id, store.hashOwner hash = some id ↔
    ∃ row, store.documents id = some row ∧ row.contentHash = hash
  named : ∀ id row, store.documents id = some row → row.documentId = id ∧ row.contentHash ≠ ""
  stored : ∀ id row, store.documents id = some row → ∃ version, versions id = some version ∧ store.Stored row version
  present : ∀ cid chunkRow, store.chunks cid = some chunkRow →
    cid = chunkId chunkRow.documentId chunkRow.seq ∧ (store.documents chunkRow.documentId).isSome
  vectors : ∀ cid, (store.vectors cid).isSome → (store.chunks cid).isSome

/-- A document as a caller may submit it. -/
def Admissible (doc : SourceDocument) : Prop := doc.contentHash ≠ "" ∧ (doc.chunks.map ChunkInput.seq).Nodup

/-! ### One document -/

/-- `Represents` in the middle of a loop: `owner` is `seen_hashes` at its end, and the ids of `pending` are still to be
written. -/
private structure Shelved (owner : String → Option String) (pending : List String)
    (versions : String → Option (Version R)) (store : FakeMemoryStore R) : Prop where
  owner : ∀ id row, store.documents id = some row →
    row.documentId = id ∧ row.contentHash ≠ "" ∧ owner row.contentHash = some id
  index : ∀ hash id, store.hashOwner hash = some id ↔
    ∃ row, store.documents id = some row ∧ row.contentHash = hash
  keyed : ∀ cid chunkRow, store.chunks cid = some chunkRow →
    cid = chunkId chunkRow.documentId chunkRow.seq ∧ (store.documents chunkRow.documentId).isSome
  vectors : ∀ cid, (store.vectors cid).isSome → (store.chunks cid).isSome
  stored : ∀ id row, id ∉ pending → store.documents id = some row →
    ∃ version, versions id = some version ∧ store.Stored row version

variable {owner : String → Option String} {pending : List String} {versions : String → Option (Version R)}
  {store store' : FakeMemoryStore R} {doc : SourceDocument} {docs : List SourceDocument} {docId : String}

/-- What a store holds of a document depends on the chunks of this document alone. -/
private theorem Stored.congr {row : Document} {version : Version R} (h : store.Stored row version)
    (hchunks : ∀ cid chunkRow, chunkRow.documentId = row.documentId →
      (store'.chunks cid = some chunkRow ↔ store.chunks cid = some chunkRow))
    (hvectors : ∀ seq, store'.vectors (chunkId row.documentId seq) = store.vectors (chunkId row.documentId seq)) :
    store'.Stored row version where
  docId := h.docId
  hash := h.hash
  chunks := by
    intro cid chunkRow
    rw [← h.chunks cid chunkRow]
    exact and_congr_left fun hid => hchunks cid chunkRow hid
  vectors := by
    intro chunk hchunk
    rw [hvectors]
    exact h.vectors chunk hchunk

private theorem shelved_deleteDocument (h : Shelved owner pending versions store) (docId : String) :
    Shelved owner pending versions (store.deleteDocument docId).2 := by
  refine ⟨fun id row hrow => h.owner id row (documents_deleteDocument.1 hrow).2, fun hash id => ?_,
    fun cid chunkRow hchunk => ?_, fun cid hvector => ?_, fun id row hpending hrow => ?_⟩
  · simp only [documents_deleteDocument]
    cases hrow : store.documents docId with
    | none =>
      have hkept : (store.deleteDocument docId).2.hashOwner = store.hashOwner := by
        simp only [deleteDocument, hrow]
      rw [hkept, h.index]
      constructor
      · rintro ⟨row, hid, hhash⟩
        refine ⟨row, ⟨?_, hid⟩, hhash⟩
        rintro rfl
        cases hrow.symm.trans hid
      · rintro ⟨row, ⟨-, hid⟩, hhash⟩
        exact ⟨row, hid, hhash⟩
    | some old =>
      obtain ⟨-, hnonempty, howner⟩ := h.owner docId old hrow
      have hdropped : (store.deleteDocument docId).2.hashOwner =
          Function.update store.hashOwner old.contentHash none := by
        simp only [deleteDocument, hrow]
        exact if_pos ⟨hnonempty, (h.index _ _).2 ⟨old, hrow, rfl⟩⟩
      rw [hdropped]
      by_cases hhash : hash = old.contentHash
      · subst hhash
        rw [Function.update_self]
        refine iff_of_false (by simp) ?_
        rintro ⟨row, ⟨hne, hid⟩, hsame⟩
        have howner' := (h.owner id row hid).2.2
        rw [hsame, howner] at howner'
        exact hne (Option.some.inj howner').symm
      · rw [Function.update_of_ne hhash, h.index]
        constructor
        · rintro ⟨row, hid, hrowHash⟩
          refine ⟨row, ⟨?_, hid⟩, hrowHash⟩
          rintro rfl
          obtain rfl := Option.some.inj (hrow.symm.trans hid)
          exact hhash hrowHash.symm
        · rintro ⟨row, ⟨-, hid⟩, hrowHash⟩
          exact ⟨row, hid, hrowHash⟩
  · obtain ⟨hchunk, hother⟩ := chunks_deleteDocument.1 hchunk
    obtain ⟨hcid, hsome⟩ := h.keyed cid chunkRow hchunk
    obtain ⟨row, hrow⟩ := Option.isSome_iff_exists.1 hsome
    exact ⟨hcid, Option.isSome_iff_exists.2 ⟨row, documents_deleteDocument.2 ⟨hother, hrow⟩⟩⟩
  · obtain ⟨vector, hvector⟩ := Option.isSome_iff_exists.1 hvector
    obtain ⟨hkept, hvector⟩ := vectors_deleteDocument.1 hvector
    obtain ⟨chunkRow, hchunk⟩ :=
      Option.isSome_iff_exists.1 (h.vectors cid (Option.isSome_iff_exists.2 ⟨vector, hvector⟩))
    refine Option.isSome_iff_exists.2 ⟨chunkRow, chunks_deleteDocument.2 ⟨hchunk, fun hmine => hkept ?_⟩⟩
    exact owns_eq_true.2 ⟨chunkRow, hchunk, hmine⟩
  · obtain ⟨hne, hrow⟩ := documents_deleteDocument.1 hrow
    obtain ⟨version, hversion, hstored⟩ := h.stored id row hpending hrow
    obtain ⟨hid, -, -⟩ := h.owner id row hrow
    refine ⟨version, hversion, hstored.congr (fun cid chunkRow hmine => ?_) fun seq => ?_⟩
    · rw [chunks_deleteDocument]
      exact and_iff_left (by rw [hmine, hid]; exact hne)
    · refine Option.ext fun vector => ?_
      rw [vectors_deleteDocument]
      refine and_iff_right fun howned => hne ?_
      obtain ⟨chunkRow, hchunk, hmine⟩ := owns_eq_true.1 howned
      rw [← hid, (chunkId_inj (h.keyed _ chunkRow hchunk).1).1, hmine]

variable {vectors : List (List R)} {embedder : Embedder R} {sourceMachineId : Option String}

theorem documents_writeDocument {id : String} {row : Document} :
    (store.writeDocument doc vectors embedder sourceMachineId).documents id = some row ↔
      id = doc.docId ∧ row = document doc sourceMachineId ∨ id ≠ doc.docId ∧ store.documents id = some row := by
  show Function.update store.documents doc.docId (some (document doc sourceMachineId)) id = some row ↔ _
  by_cases hid : id = doc.docId
  · rw [hid, Function.update_self]
    simp [eq_comm]
  · rw [Function.update_of_ne hid]
    simp [hid]

theorem chunks_writeDocument (hadmissible : Admissible doc) {cid : String} {chunkRow : FakeChunk} :
    (store.writeDocument doc vectors embedder sourceMachineId).chunks cid = some chunkRow ↔
      (∃ pair ∈ doc.chunks.zip vectors, cid = chunkId doc.docId pair.1.seq ∧ chunkRow = fakeChunk doc embedder pair.1) ∨
        (∀ pair ∈ doc.chunks.zip vectors, cid ≠ chunkId doc.docId pair.1.seq) ∧ store.chunks cid = some chunkRow :=
  assign_chunks hadmissible.2

theorem vectors_writeDocument (hadmissible : Admissible doc) {cid : String} {vector : List R} :
    (store.writeDocument doc vectors embedder sourceMachineId).vectors cid = some vector ↔
      (∃ pair ∈ doc.chunks.zip vectors, cid = chunkId doc.docId pair.1.seq ∧ vector = pair.2) ∨
        (∀ pair ∈ doc.chunks.zip vectors, cid ≠ chunkId doc.docId pair.1.seq) ∧ store.vectors cid = some vector :=
  assign_chunks hadmissible.2

private theorem exists_pair {chunk : ChunkInput} (hlength : vectors.length = doc.chunks.length)
    (h : chunk ∈ doc.chunks) : ∃ vector, (chunk, vector) ∈ doc.chunks.zip vectors := by
  have hfst : (doc.chunks.zip vectors).map Prod.fst = doc.chunks := List.map_fst_zip (by rw [hlength])
  rw [← hfst] at h
  obtain ⟨⟨_, vector⟩, hpair, rfl⟩ := List.mem_map.1 h
  exact ⟨vector, hpair⟩

/-- A document that is written with its own vectors is stored. -/
private theorem stored_writeDocument (hadmissible : Admissible doc)
    (hfresh : ∀ cid chunkRow, store.chunks cid = some chunkRow → chunkRow.documentId ≠ doc.docId)
    (hlength : vectors.length = doc.chunks.length)
    (hembeds : ∀ pair ∈ doc.chunks.zip vectors, Embeds embedder pair.1.text pair.2) :
    (store.writeDocument doc vectors embedder sourceMachineId).Stored (document doc sourceMachineId)
      ⟨doc, embedder⟩ where
  docId := rfl
  hash := rfl
  chunks := by
    intro cid chunkRow
    rw [chunks_writeDocument hadmissible]
    constructor
    · rintro ⟨⟨pair, hpair, rfl, rfl⟩ | ⟨-, hchunk⟩, hmine⟩
      · exact ⟨pair.1, (List.of_mem_zip hpair).1, rfl, rfl⟩
      · exact absurd hmine (hfresh cid chunkRow hchunk)
    · rintro ⟨chunk, hchunk, rfl, rfl⟩
      obtain ⟨vector, hpair⟩ := exists_pair hlength hchunk
      exact ⟨Or.inl ⟨(chunk, vector), hpair, rfl, rfl⟩, rfl⟩
  vectors := by
    intro chunk hchunk
    obtain ⟨vector, hpair⟩ := exists_pair hlength hchunk
    exact ⟨vector, (vectors_writeDocument hadmissible).2 (Or.inl ⟨(chunk, vector), hpair, rfl, rfl⟩),
      hembeds (chunk, vector) hpair⟩

private theorem shelved_writeDocument (h : Shelved owner (doc.docId :: pending) versions store)
    (habsent : store.documents doc.docId = none) (hadmissible : Admissible doc)
    (howner : owner doc.contentHash = some doc.docId)
    (hslice : doc.docId ∉ pending →
      vectors.length = doc.chunks.length ∧ ∀ pair ∈ doc.chunks.zip vectors, Embeds embedder pair.1.text pair.2) :
    Shelved owner pending (Function.update versions doc.docId (some ⟨doc, embedder⟩))
      (store.writeDocument doc vectors embedder sourceMachineId) := by
  have hfresh : ∀ cid chunkRow, store.chunks cid = some chunkRow → chunkRow.documentId ≠ doc.docId := by
    intro cid chunkRow hchunk hmine
    have hsome := (h.keyed cid chunkRow hchunk).2
    rw [hmine, habsent] at hsome
    cases hsome
  refine ⟨fun id row hrow => ?_, fun hash id => ?_, fun cid chunkRow hchunk => ?_, fun cid hvector => ?_,
    fun id row hpending hrow => ?_⟩
  · rcases documents_writeDocument.1 hrow with ⟨rfl, rfl⟩ | ⟨-, hrow⟩
    · exact ⟨rfl, hadmissible.1, howner⟩
    · exact h.owner id row hrow
  · show (if doc.contentHash ≠ "" then Function.update store.hashOwner doc.contentHash (some doc.docId)
      else store.hashOwner) hash = some id ↔ _
    rw [if_pos hadmissible.1]
    simp only [documents_writeDocument]
    by_cases hhash : hash = doc.contentHash
    · subst hhash
      rw [Function.update_self]
      constructor
      · intro hid
        obtain rfl := Option.some.inj hid
        exact ⟨_, Or.inl ⟨rfl, rfl⟩, rfl⟩
      · rintro ⟨row, ⟨rfl, -⟩ | ⟨hne, hrow⟩, hsame⟩
        · rfl
        · have howner' := (h.owner id row hrow).2.2
          rw [hsame, howner] at howner'
          exact absurd (Option.some.inj howner').symm hne
    · rw [Function.update_of_ne hhash, h.index]
      constructor
      · rintro ⟨row, hrow, hsame⟩
        refine ⟨row, Or.inr ⟨?_, hrow⟩, hsame⟩
        rintro rfl
        cases habsent.symm.trans hrow
      · rintro ⟨row, ⟨-, rfl⟩ | ⟨-, hrow⟩, hsame⟩
        · exact absurd hsame.symm hhash
        · exact ⟨row, hrow, hsame⟩
  · rcases (chunks_writeDocument hadmissible).1 hchunk with ⟨pair, -, rfl, rfl⟩ | ⟨-, hchunk⟩
    · exact ⟨rfl, Option.isSome_iff_exists.2 ⟨_, documents_writeDocument.2 (Or.inl ⟨rfl, rfl⟩)⟩⟩
    · obtain ⟨hcid, hsome⟩ := h.keyed cid chunkRow hchunk
      obtain ⟨row, hrow⟩ := Option.isSome_iff_exists.1 hsome
      exact ⟨hcid, Option.isSome_iff_exists.2
        ⟨row, documents_writeDocument.2 (Or.inr ⟨hfresh cid chunkRow hchunk, hrow⟩)⟩⟩
  · obtain ⟨vector, hvector⟩ := Option.isSome_iff_exists.1 hvector
    rw [Option.isSome_iff_exists]
    rcases (vectors_writeDocument hadmissible).1 hvector with ⟨pair, hpair, hcid, -⟩ | ⟨hother, hvector⟩
    · exact ⟨_, (chunks_writeDocument hadmissible).2 (Or.inl ⟨pair, hpair, hcid, rfl⟩)⟩
    · obtain ⟨chunkRow, hchunk⟩ :=
        Option.isSome_iff_exists.1 (h.vectors cid (Option.isSome_iff_exists.2 ⟨vector, hvector⟩))
      exact ⟨chunkRow, (chunks_writeDocument hadmissible).2 (Or.inr ⟨hother, hchunk⟩)⟩
  · rcases documents_writeDocument.1 hrow with ⟨rfl, rfl⟩ | ⟨hne, hrow⟩
    · obtain ⟨hlength, hembeds⟩ := hslice hpending
      exact ⟨⟨doc, embedder⟩, Function.update_self _ _ _, stored_writeDocument hadmissible hfresh hlength hembeds⟩
    · obtain ⟨version, hversion, hstored⟩ := h.stored id row (by simp [hne, hpending]) hrow
      obtain ⟨hid, -, -⟩ := h.owner id row hrow
      refine ⟨version, by rw [Function.update_of_ne hne, hversion], hstored.congr (fun cid chunkRow hmine => ?_)
        fun seq => ?_⟩
      · rw [chunks_writeDocument hadmissible]
        constructor
        · rintro (⟨pair, -, -, rfl⟩ | ⟨-, hchunk⟩)
          · exact absurd (hmine.symm.trans rfl) (by rw [hid]; exact hne)
          · exact hchunk
        · intro hchunk
          refine Or.inr ⟨fun pair _ hcid => hne ?_, hchunk⟩
          rw [(h.keyed cid chunkRow hchunk).1] at hcid
          rw [← hid, ← hmine, (chunkId_inj hcid).1]
      · refine Option.ext fun vector => ?_
        rw [vectors_writeDocument hadmissible]
        constructor
        · rintro (⟨pair, -, hcid, -⟩ | ⟨-, hvector⟩)
          · exact absurd ((chunkId_inj hcid).1) (by rw [hid]; exact hne)
          · exact hvector
        · exact fun hvector => Or.inr ⟨fun pair _ hcid => hne (by rw [← hid, (chunkId_inj hcid).1]), hvector⟩

theorem documents_updateDocumentMetadata {id : String} {row : Document} :
    (store.updateDocumentMetadata doc sourceMachineId).documents id = some row ↔ ∃ prior,
      store.documents id = some prior ∧ row = if id = doc.docId then describe doc sourceMachineId prior else prior := by
  unfold updateDocumentMetadata
  cases hold : store.documents doc.docId with
  | none =>
    by_cases hid : id = doc.docId
    · rw [hid, hold]
      simp
    · simp [hid, eq_comm]
  | some old =>
    by_cases hid : id = doc.docId
    · rw [hid, hold]
      simp [eq_comm]
    · simp [hid, eq_comm]

/-- An update of the metadata concerns the dict of the documents alone. -/
theorem updateDocumentMetadata_rest (store : FakeMemoryStore R) (doc : SourceDocument)
    (sourceMachineId : Option String) :
    (store.updateDocumentMetadata doc sourceMachineId).chunks = store.chunks ∧
      (store.updateDocumentMetadata doc sourceMachineId).vectors = store.vectors ∧
      (store.updateDocumentMetadata doc sourceMachineId).hashOwner = store.hashOwner ∧
      (store.updateDocumentMetadata doc sourceMachineId).embeddingDim = store.embeddingDim := by
  unfold updateDocumentMetadata
  split
  · exact ⟨rfl, rfl, rfl, rfl⟩
  · exact ⟨rfl, rfl, rfl, rfl⟩

private theorem shelved_updateDocumentMetadata (h : Shelved owner pending versions store) (doc : SourceDocument) :
    Shelved owner pending versions (store.updateDocumentMetadata doc sourceMachineId) := by
  obtain ⟨hchunks, hvectors, hindex, -⟩ :=
    updateDocumentMetadata_rest store doc sourceMachineId
  have hkept : ∀ (id : String) (prior : Document),
      (if id = doc.docId then describe doc sourceMachineId prior else prior).documentId = prior.documentId ∧
        (if id = doc.docId then describe doc sourceMachineId prior else prior).contentHash = prior.contentHash := by
    intro id prior
    split
    · exact ⟨rfl, rfl⟩
    · exact ⟨rfl, rfl⟩
  refine ⟨fun id row hrow => ?_, fun hash id => ?_, fun cid chunkRow hchunk => ?_,
    by rw [hchunks, hvectors]; exact h.vectors, fun id row hpending hrow => ?_⟩
  · obtain ⟨prior, hprior, rfl⟩ := documents_updateDocumentMetadata.1 hrow
    rw [(hkept id prior).1, (hkept id prior).2]
    exact h.owner id prior hprior
  · rw [hindex, h.index hash id]
    constructor
    · rintro ⟨row, hrow, hhash⟩
      exact ⟨_, documents_updateDocumentMetadata.2 ⟨row, hrow, rfl⟩, (hkept id row).2.trans hhash⟩
    · rintro ⟨row, hrow, hhash⟩
      obtain ⟨prior, hprior, rfl⟩ := documents_updateDocumentMetadata.1 hrow
      exact ⟨prior, hprior, (hkept id prior).2.symm.trans hhash⟩
  · rw [hchunks] at hchunk
    obtain ⟨hcid, hsome⟩ := h.keyed cid chunkRow hchunk
    obtain ⟨prior, hprior⟩ := Option.isSome_iff_exists.1 hsome
    exact ⟨hcid, Option.isSome_iff_exists.2 ⟨_, documents_updateDocumentMetadata.2 ⟨prior, hprior, rfl⟩⟩⟩
  · obtain ⟨prior, hprior, rfl⟩ := documents_updateDocumentMetadata.1 hrow
    obtain ⟨version, hversion, hstored⟩ := h.stored id prior hpending hprior
    refine ⟨version, hversion, ⟨?_, ?_, ?_, ?_⟩⟩
    · rw [(hkept id prior).1, hstored.docId]
    · rw [(hkept id prior).2, hstored.hash]
    · rw [(hkept id prior).1, hchunks]
      exact hstored.chunks
    · rw [(hkept id prior).1, hvectors]
      exact hstored.vectors

/-! ### A call -/

variable {vectorsByDoc : String → Option (List (List R))} {summary summary' : Summary}

private theorem shelved_writes (owner : String → Option String)
    (h : Shelved owner (docs.map SourceDocument.docId) versions store)
    (hdocs : ∀ doc ∈ docs, Admissible doc ∧ owner doc.contentHash = some doc.docId)
    (hslice : ∀ before doc after, docs = before ++ doc :: after → doc.docId ∉ after.map SourceDocument.docId →
      ∃ slice, vectorsByDoc doc.docId = some slice ∧ slice.length = doc.chunks.length ∧
        ∀ pair ∈ doc.chunks.zip slice, Embeds embedder pair.1.text pair.2)
    (hrun : docs.foldlM (writeNext embedder vectorsByDoc sourceMachineId) (store, summary) =
      some (store', summary')) : Shelved owner [] (record embedder versions docs) store' := by
  induction docs generalizing versions store summary with
  | nil =>
    obtain ⟨rfl, -⟩ := Prod.mk.inj (Option.some.inj hrun)
    exact h
  | cons doc docs ih =>
    rw [List.foldlM_cons] at hrun
    obtain ⟨⟨mid, summary₁⟩, hnext, hrun⟩ := Option.bind_eq_some_iff.1 hrun
    obtain ⟨vectors, hvectors, hmid⟩ := Option.map_eq_some_iff.1 hnext
    obtain ⟨rfl, -⟩ := Prod.mk.inj hmid
    obtain ⟨hadmissible, howner⟩ := hdocs doc List.mem_cons_self
    have habsent : (store.deleteDocument doc.docId).2.documents doc.docId = none := Function.update_self _ _ _
    refine ih ?_ (fun d hd => hdocs d (List.mem_cons_of_mem _ hd)) (fun before d after heq hlast => ?_) hrun
    · refine shelved_writeDocument (shelved_deleteDocument h doc.docId) habsent hadmissible howner fun hlast => ?_
      obtain ⟨slice, hown, hspec⟩ := hslice [] doc docs rfl hlast
      obtain rfl := Option.some.inj (hvectors.symm.trans hown)
      exact hspec
    · exact hslice (doc :: before) d after (by rw [heq]; rfl) hlast

private theorem shelved_updates (sourceMachineId : Option String) {state : FakeMemoryStore R × Summary}
    (h : Shelved owner pending versions state.1) (docs : List SourceDocument) :
    Shelved owner pending versions (docs.foldl (updateNext sourceMachineId) state).1 :=
  Fold.preserves (I := fun state : FakeMemoryStore R × Summary => Shelved owner pending versions state.1) h
    fun doc _ _ hstate => shelved_updateDocumentMetadata hstate doc

private theorem shelved_removals {state : FakeMemoryStore R × Summary} (h : Shelved owner pending versions state.1)
    (docs : List SourceDocument) : Shelved owner pending versions (docs.foldl removeNext state).1 :=
  Fold.preserves (I := fun state : FakeMemoryStore R × Summary => Shelved owner pending versions state.1) h
    fun doc _ _ hstate => shelved_deleteDocument hstate doc.docId

private theorem represents_of_shelved (h : Shelved owner [] versions store) : store.Represents versions where
  unique := by
    intro id id' row row' hrow hrow' hsame
    have howner := (h.owner id row hrow).2.2
    rw [hsame, (h.owner id' row' hrow').2.2] at howner
    exact (Option.some.inj howner).symm
  index := h.index
  named := fun id row hrow => ⟨(h.owner id row hrow).1, (h.owner id row hrow).2.1⟩
  stored := fun id row hrow => h.stored id row List.not_mem_nil hrow
  present := h.keyed
  vectors := h.vectors

private theorem shelved_empty (embeddingDim : Nat) :
    Shelved (fun _ => none) [] versions (FakeMemoryStore.empty embeddingDim : FakeMemoryStore R) where
  owner := fun _ _ h => absurd h (Option.some_ne_none _).symm
  index := by
    intro hash id
    refine iff_of_false (Option.some_ne_none _).symm ?_
    rintro ⟨row, hrow, -⟩
    exact (Option.some_ne_none _).symm hrow
  keyed := fun _ _ h => absurd h (Option.some_ne_none _).symm
  vectors := fun _ h => absurd h Bool.false_ne_true
  stored := fun _ _ _ h => absurd h (Option.some_ne_none _).symm

private theorem shelved_of_represents (h : store.Represents versions)
    (howner : ∀ hash id, store.hashOwner hash = some id → owner hash = some id) (pending : List String) :
    Shelved owner pending versions store where
  owner := fun id row hrow =>
    ⟨(h.named id row hrow).1, (h.named id row hrow).2, howner _ _ ((h.index _ _).2 ⟨row, hrow, rfl⟩)⟩
  index := h.index
  keyed := h.present
  vectors := h.vectors
  stored := fun id row _ hrow => h.stored id row hrow

/-- A call keeps the representation. -/
theorem represents_ingestDocuments (h : store.Represents versions) (hdocs : ∀ doc ∈ docs, Admissible doc)
    (hrun : store.ingestDocuments docs embedder sourceMachineId = some (store', summary')) :
    store'.Represents (record embedder versions (having .write (store.plan docs sourceMachineId))) := by
  unfold ingestDocuments at hrun
  split at hrun
  case isFalse => cases hrun
  case isTrue =>
    obtain ⟨vectorsByDoc, hembed, hrun⟩ := Option.bind_eq_some_iff.1 hrun
    obtain ⟨⟨written, summary₁⟩, hwrites, hrun⟩ := Option.bind_eq_some_iff.1 hrun
    have hwritten := shelved_writes (seenAfter store.documents sourceMachineId store.hashOwner docs)
      (shelved_of_represents h (fun _ _ => seenAfter_of_some) _)
      (fun doc hdoc => ⟨hdocs doc (mem_of_mem_having hdoc), seenAfter_of_write hdoc⟩)
      (fun before doc after heq hlast => embeds_slice (heq ▸ hembed)
        (chunks_of_write (heq ▸ List.mem_append_right before List.mem_cons_self)) hlast) hwrites
    have hupdated := @shelved_updates _ _ _ _ sourceMachineId (written, summary₁) hwritten
      (having .update (store.plan docs sourceMachineId))
    have hend := shelved_removals hupdated (having .remove (store.plan docs sourceMachineId))
    rw [show _ = (store', summary') from Option.some.inj hrun] at hend
    exact represents_of_shelved hend

/-- What raises does so before the first write. -/
theorem ingestDocuments_eq_none : store.ingestDocuments docs embedder sourceMachineId = none ↔
    embedder.dim ≠ store.embeddingDim ∨
      embedDocuments (having .write (store.plan docs sourceMachineId)) embedder = none := by
  unfold ingestDocuments
  split
  case isFalse hdim => exact iff_of_true rfl (Or.inl hdim)
  case isTrue hdim =>
    cases hembed : embedDocuments (having .write (store.plan docs sourceMachineId)) embedder with
    | none =>
      refine iff_of_true ?_ (Or.inr rfl)
      dsimp only
      rw [hembed]
      rfl
    | some vectorsByDoc =>
      refine iff_of_false ?_ (by simp [hdim])
      have hwrites : ∀ (writes : List SourceDocument), (∀ doc ∈ writes, ∃ slice, vectorsByDoc doc.docId = some slice) →
          ∀ state, ∃ end', writes.foldlM (writeNext embedder vectorsByDoc sourceMachineId) state = some end' := by
        intro writes
        induction writes with
        | nil => exact fun _ state => ⟨state, rfl⟩
        | cons doc writes ih =>
          intro hslices state
          obtain ⟨slice, hslice⟩ := hslices doc List.mem_cons_self
          rw [List.foldlM_cons]
          unfold writeNext
          rw [hslice]
          exact ih (fun d hd => hslices d (List.mem_cons_of_mem _ hd)) _
      obtain ⟨written, hwritten⟩ := hwrites (having .write (store.plan docs sourceMachineId))
        (fun doc hdoc => (exists_slice hembed hdoc fun d hd => chunks_of_write hd).imp fun _ h => h.1)
        (store, Summary.planned (store.plan docs sourceMachineId))
      dsimp only
      rw [hembed, Option.bind_eq_bind, Option.bind_some, hwritten]
      exact Option.some_ne_none _

/-- The representation holds behind every sequence of calls. -/
theorem represents_calls (embeddingDim : Nat) (calls : List (Call R))
    (hcalls : ∀ call ∈ calls, ∀ doc ∈ call.sourceDocs, Admissible doc) :
    (calls.foldl callNext (FakeMemoryStore.empty embeddingDim, fun _ => none)).1.Represents
      (calls.foldl callNext (FakeMemoryStore.empty embeddingDim, fun _ => none)).2 := by
  refine Fold.preserves (I := fun state : FakeMemoryStore R × (String → Option (Version R)) =>
    state.1.Represents state.2) (represents_of_shelved (shelved_empty embeddingDim)) fun call hcall state hstate => ?_
  unfold callNext
  split
  · exact hstate
  case h_2 store summary hrun => exact represents_ingestDocuments hstate (hcalls call hcall) hrun

/-- **The representation holds after each call**, whatever ids and hashes repeat within a call or from call to call. -/
theorem represents_after_each_call (embeddingDim : Nat) (calls : List (Call R))
    (hcalls : ∀ call ∈ calls, ∀ doc ∈ call.sourceDocs, Admissible doc) (n : Nat) :
    ((calls.take n).foldl callNext (FakeMemoryStore.empty embeddingDim, fun _ => none)).1.Represents
      ((calls.take n).foldl callNext (FakeMemoryStore.empty embeddingDim, fun _ => none)).2 :=
  represents_calls embeddingDim (calls.take n) fun call hcall => hcalls call (List.mem_of_mem_take hcall)

/-- One id twice in a call, and then a second document with the content that the first write of it had. -/
theorem represents_repeated_id :
    let calls : List (Call Int) := [⟨[note "a" "one", note "a" "three"], letterCount, none⟩,
      ⟨[note "b" "one", emptied "a" "three"], letterCount, none⟩]
    ((calls.take 2).foldl callNext (FakeMemoryStore.empty 1, fun _ => none)).1.Represents
      ((calls.take 2).foldl callNext (FakeMemoryStore.empty 1, fun _ => none)).2 := by
  refine represents_after_each_call 1 _ (fun call hcall doc hdoc => ?_) 2
  simp only [List.mem_cons, List.not_mem_nil, or_false] at hcall
  rcases hcall with rfl | rfl
  · simp only [List.mem_cons, List.not_mem_nil, or_false] at hdoc
    rcases hdoc with rfl | rfl <;> exact ⟨by decide, by decide⟩
  · simp only [List.mem_cons, List.not_mem_nil, or_false] at hdoc
    rcases hdoc with rfl | rfl <;> exact ⟨by decide, by decide⟩

/-! ### What is stored -/

private theorem isSome_writes {id : String}
    (hrun : docs.foldlM (writeNext embedder vectorsByDoc sourceMachineId) (store, summary) = some (store', summary')) :
    (store'.documents id).isSome ↔ (store.documents id).isSome ∨ id ∈ docs.map SourceDocument.docId := by
  induction docs generalizing store summary with
  | nil =>
    obtain ⟨rfl, -⟩ := Prod.mk.inj (Option.some.inj hrun)
    simp
  | cons doc docs ih =>
    rw [List.foldlM_cons] at hrun
    obtain ⟨⟨mid, summary₁⟩, hnext, hrun⟩ := Option.bind_eq_some_iff.1 hrun
    obtain ⟨vectors, -, hmid⟩ := Option.map_eq_some_iff.1 hnext
    obtain ⟨rfl, -⟩ := Prod.mk.inj hmid
    rw [ih hrun, List.map_cons, List.mem_cons, ← or_assoc]
    refine or_congr_left ?_
    simp only [Option.isSome_iff_exists, documents_writeDocument]
    -- the row of the id is deleted and written anew
    by_cases hid : id = doc.docId
    · simp [hid]
    · simp [hid]

private theorem isSome_updates (sourceMachineId : Option String) (state : FakeMemoryStore R × Summary)
    (docs : List SourceDocument) (id : String) :
    ((docs.foldl (updateNext sourceMachineId) state).1.documents id).isSome = (state.1.documents id).isSome :=
  Fold.preserves (I := fun end' : FakeMemoryStore R × Summary =>
    (end'.1.documents id).isSome = (state.1.documents id).isSome) rfl fun doc _ end' hend => by
      rw [← hend, Bool.eq_iff_iff]
      simp only [updateNext, Option.isSome_iff_exists, documents_updateDocumentMetadata]
      constructor
      · rintro ⟨_, prior, hprior, -⟩
        exact ⟨prior, hprior⟩
      · rintro ⟨prior, hprior⟩
        exact ⟨_, prior, hprior, rfl⟩

private theorem isSome_removals {state : FakeMemoryStore R × Summary} {id : String} :
    ((docs.foldl removeNext state).1.documents id).isSome ↔
      (state.1.documents id).isSome ∧ id ∉ docs.map SourceDocument.docId := by
  induction docs generalizing state with
  | nil => simp
  | cons doc docs ih =>
    rw [List.foldl_cons, ih]
    simp only [removeNext, Option.isSome_iff_exists, documents_deleteDocument, List.map_cons, List.mem_cons, not_or,
      exists_and_left]
    tauto

/-- A call adds the documents that it writes, and takes away those that it removes. -/
theorem isSome_ingestDocuments {id : String}
    (hrun : store.ingestDocuments docs embedder sourceMachineId = some (store', summary')) :
    (store'.documents id).isSome ↔
      ((store.documents id).isSome ∨
        id ∈ (having .write (store.plan docs sourceMachineId)).map SourceDocument.docId) ∧
      id ∉ (having .remove (store.plan docs sourceMachineId)).map SourceDocument.docId := by
  unfold ingestDocuments at hrun
  split at hrun
  case isFalse => cases hrun
  case isTrue =>
    obtain ⟨vectorsByDoc, -, hrun⟩ := Option.bind_eq_some_iff.1 hrun
    obtain ⟨⟨written, summary₁⟩, hwrites, hrun⟩ := Option.bind_eq_some_iff.1 hrun
    have hend := @isSome_removals R (having .remove (store.plan docs sourceMachineId))
      ((having .update (store.plan docs sourceMachineId)).foldl (updateNext sourceMachineId) (written, summary₁)) id
    rw [show _ = (store', summary') from Option.some.inj hrun, isSome_updates, isSome_writes hwrites] at hend
    exact hend

/-- The store behind the first `n` calls, with the versions that were written. -/
def stateAfter (embeddingDim : Nat) (calls : List (Call R)) (n : Nat) :
    FakeMemoryStore R × (String → Option (Version R)) :=
  (calls.take n).foldl callNext (FakeMemoryStore.empty embeddingDim, fun _ => none)

/-- The ids to which a call gives a verdict and acts on it; a call that raises acts on none. -/
def acted (verdict : Verdict) (store : FakeMemoryStore R) (call : Call R) : List String :=
  if (store.ingestDocuments call.sourceDocs call.embedder call.sourceMachineId).isSome then
    (having verdict (store.plan call.sourceDocs call.sourceMachineId)).map SourceDocument.docId
  else []

private theorem isSome_callNext (state : FakeMemoryStore R × (String → Option (Version R))) (call : Call R)
    (id : String) : ((callNext state call).1.documents id).isSome ↔
      ((state.1.documents id).isSome ∨ id ∈ acted .write state.1 call) ∧ id ∉ acted .remove state.1 call := by
  unfold callNext acted
  cases hrun : state.1.ingestDocuments call.sourceDocs call.embedder call.sourceMachineId with
  | none => simp
  | some result => exact isSome_ingestDocuments hrun

/-- **A document that was written and not removed since is stored.** -/
theorem stored_of_written (embeddingDim : Nat) {calls : List (Call R)} {id : String} {k n : Nat} {call : Call R}
    (hcall : calls[k]? = some call) (hwritten : id ∈ acted .write (stateAfter embeddingDim calls k).1 call)
    (hkn : k < n)
    (hkept : ∀ j later, k ≤ j → j < n → calls[j]? = some later →
      id ∉ acted .remove (stateAfter embeddingDim calls j).1 later) :
    ((stateAfter embeddingDim calls n).1.documents id).isSome := by
  have hnext : ∀ j later, calls[j]? = some later →
      stateAfter embeddingDim calls (j + 1) = callNext (stateAfter embeddingDim calls j) later := by
    intro j later hlater
    rw [stateAfter, List.take_add_one, hlater, List.foldl_append]
    rfl
  -- behind call `k` the document is there, and no later call takes it away
  induction n, hkn using Nat.le_induction with
  | base =>
    rw [hnext k call hcall, isSome_callNext]
    exact ⟨Or.inr hwritten, hkept k call le_rfl (Nat.lt_succ_self k) hcall⟩
  | succ n hkn ih =>
    have hstored := ih fun j later hkj hjn => hkept j later hkj (Nat.lt_succ_of_lt hjn)
    cases hlater : calls[n]? with
    | none =>
      rw [stateAfter, List.take_add_one, hlater, Option.toList_none, List.append_nil]
      exact hstored
    | some later =>
      rw [hnext n later hlater, isSome_callNext]
      exact ⟨Or.inl hstored, hkept n later (by omega) (Nat.lt_succ_self n) hlater⟩

end FakeMemoryStore

end AgentOS.Central
