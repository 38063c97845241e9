import AgentOS.Memory.Plans
import Mathlib.Data.Set.Function

/-!
# The statements of the central memory store

What the transactions of `MemoryStore` do to the rows, in a database that tells the ids and hashes in play apart.

* `writeDocument_ok` and `writeDocument_refused`: a document that the columns take becomes the row of its id, and its
  chunks replace the chunks it had; one that they do not take raises, and not with an integrity error.
* `mem_updateDocumentMetadata` and the lemmas on `deleteDocument` say the same of the other two loops.
-/

namespace AgentOS.Central

variable {R V : Type} {sql : Sql} {S : Set String}

/-- The strings of a batch that the database compares. -/
def textsOf (docs : List SourceDocument) : Set String :=
  {s | ∃ doc ∈ docs, s = doc.docId ∨ s = doc.contentHash ∨ ∃ chunk ∈ doc.chunks, s = chunkId doc.docId chunk.seq}

/-- The ids and hashes of the tables are among `S`, and every chunk has the id that its document and its place make. -/
structure Within (S : Set String) (db : Tables sql V) : Prop where
  documents : ∀ row ∈ db.documents.rows, row.documentId ∈ S ∧ row.contentHash ∈ S
  chunks : ∀ row ∈ db.chunks.rows,
    row.chunkId ∈ S ∧ row.documentId ∈ S ∧ row.chunkId = chunkId row.documentId row.seq

/-- The values of a document and of its chunks fit the columns. -/
def Fits (sql : Sql) (doc : SourceDocument) (embedder : Embedder R) (sourceMachineId : Option String) : Prop :=
  Tables.fitsDocument sql doc sourceMachineId = true ∧ ∀ chunk ∈ doc.chunks, Tables.fitsChunk sql
    (MemoryStore.chunkRow sql.reprFloat doc embedder chunk ()) = true

/-- The column takes every vector that the embedder returns. -/
def Castable (store : MemoryStore R V) (embedder : Embedder R) : Prop :=
  ∀ texts vectors, embedder.embedDocuments texts = some vectors →
    ∀ vector ∈ vectors, (store.castVector store.embeddingDim vector).isSome

variable {store : MemoryStore R V} {db db' : Tables sql V} {doc : SourceDocument} {embedder : Embedder R}
  {sourceMachineId : Option String} {now : Instant} {docId : String} {vectors : List (List R)}

/-! ### Deleting -/

theorem mem_documents_deleteDocument (hexact : Set.InjOn sql.key S) (hwithin : Within S db) (hid : docId ∈ S)
    (row : StoredDocument) :
    row ∈ (db.deleteDocument docId).2.documents.rows ↔ row ∈ db.documents.rows ∧ row.documentId ≠ docId := by
  refine Table.mem_delete.trans (and_congr_right fun hrow => ?_)
  rw [decide_eq_true_iff, hexact.eq_iff (hwithin.documents row hrow).1 hid]

theorem mem_chunks_deleteDocument (hexact : Set.InjOn sql.key S) (hwithin : Within S db) (hid : docId ∈ S)
    (row : StoredChunk V) :
    row ∈ (db.deleteDocument docId).2.chunks.rows ↔ row ∈ db.chunks.rows ∧ row.documentId ≠ docId := by
  refine Table.mem_delete.trans (and_congr_right fun hrow => ?_)
  rw [decide_eq_true_iff, hexact.eq_iff (hwithin.chunks row hrow).2.1 hid]

theorem existed_deleteDocument (hexact : Set.InjOn sql.key S) (hwithin : Within S db) (hid : docId ∈ S) :
    (db.deleteDocument docId).1 = true ↔ ∃ row ∈ db.documents.rows, row.documentId = docId := by
  show (db.documents.lookup (sql.key docId)).isSome = true ↔ _
  rw [Table.lookup_isSome, List.mem_map]
  refine exists_congr fun row => and_congr_right fun hrow => ?_
  exact hexact.eq_iff (hwithin.documents row hrow).1 hid

theorem within_deleteDocument (hwithin : Within S db) (docId : String) : Within S (db.deleteDocument docId).2 where
  documents := fun row hrow => hwithin.documents row (Table.mem_delete.1 hrow).1
  chunks := fun row hrow => hwithin.chunks row (Table.mem_delete.1 hrow).1

/-! ### Inserting -/

private theorem insertDocument_ok (now : Instant)
    (hfits : Tables.fitsDocument sql doc sourceMachineId = true)
    (hfresh : ∀ row ∈ db.documents.rows, sql.key row.documentId ≠ sql.key doc.docId ∧
      sql.key row.contentHash ≠ sql.key doc.contentHash) :
    ∃ db', db.insertDocument doc sourceMachineId now = .ok db' ∧ db'.chunks = db.chunks ∧
      db'.documents.rows = db.documents.rows ++ [⟨document doc sourceMachineId, now, now⟩] := by
  unfold Tables.insertDocument
  rw [if_pos hfits]
  split
  case isTrue hhash =>
    obtain ⟨row, hrow, hsame⟩ := List.mem_map.1 hhash
    exact absurd hsame (hfresh row hrow).2
  case isFalse =>
    split
    case h_1 hinsert =>
      obtain ⟨row, hrow, hsame⟩ := List.mem_map.1 (Table.lookup_isSome.1 (Table.insert_eq_none.1 hinsert))
      exact absurd hsame (hfresh row hrow).1
    case h_2 documents hinsert => exact ⟨_, rfl, rfl, Table.insert_rows hinsert⟩

private theorem insertChunk_ok (row : StoredChunk V) (hfits : Tables.fitsChunk sql row = true)
    (hdocument : (db.documents.lookup (sql.key row.documentId)).isSome)
    (hfresh : ∀ other ∈ db.chunks.rows, sql.key other.chunkId ≠ sql.key row.chunkId) :
    ∃ db', db.insertChunk row = .ok db' ∧ db'.documents = db.documents ∧ db'.chunks.rows = db.chunks.rows ++ [row] := by
  unfold Tables.insertChunk
  rw [if_pos hfits, dif_pos hdocument]
  split
  case h_1 hinsert =>
    obtain ⟨other, hother, hsame⟩ := List.mem_map.1 (Table.lookup_isSome.1 (Table.insert_eq_none.1 hinsert))
    exact absurd hsame (hfresh other hother)
  case h_2 chunks hinsert => exact ⟨_, rfl, rfl, Table.insert_rows hinsert⟩

/-- The rows of chunks that are written with their vectors. -/
def Inserted (store : MemoryStore R V) (sql : Sql) (doc : SourceDocument) (embedder : Embedder R)
    (pairs : List (ChunkInput × List R)) (row : StoredChunk V) : Prop :=
  ∃ pair ∈ pairs, ∃ embedding, store.castVector store.embeddingDim pair.2 = some embedding ∧
    row = MemoryStore.chunkRow sql.reprFloat doc embedder pair.1 embedding

private theorem insertChunks_ok (embedder : Embedder R) {pairs : List (ChunkInput × List R)}
    (hfits : ∀ pair ∈ pairs,
      Tables.fitsChunk sql (MemoryStore.chunkRow sql.reprFloat doc embedder pair.1 ()) = true)
    (hvectors : ∀ pair ∈ pairs, (store.castVector store.embeddingDim pair.2).isSome)
    (hdocument : (db.documents.lookup (sql.key doc.docId)).isSome)
    (hfresh : ∀ pair ∈ pairs, ∀ other ∈ db.chunks.rows, sql.key other.chunkId ≠ sql.key (chunkId doc.docId pair.1.seq))
    (hdistinct : (pairs.map fun pair => sql.key (chunkId doc.docId pair.1.seq)).Nodup) :
    ∃ db', pairs.foldlM (store.insertNext doc embedder) db = .ok db' ∧ db'.documents = db.documents ∧
      ∀ row, row ∈ db'.chunks.rows ↔ row ∈ db.chunks.rows ∨ Inserted store sql doc embedder pairs row := by
  induction pairs generalizing db with
  | nil =>
    refine ⟨db, rfl, rfl, fun row => (or_iff_left ?_).symm⟩
    rintro ⟨pair, hpair, -⟩
    cases hpair
  | cons pair pairs ih =>
    obtain ⟨embedding, hembedding⟩ := Option.isSome_iff_exists.1 (hvectors pair List.mem_cons_self)
    obtain ⟨mid, hmid, hdocuments, hrows⟩ := insertChunk_ok
      (MemoryStore.chunkRow sql.reprFloat doc embedder pair.1 embedding) (hfits pair List.mem_cons_self)
      hdocument (hfresh pair List.mem_cons_self)
    rw [List.map_cons, List.nodup_cons] at hdistinct
    obtain ⟨db', hdb', hdocuments', hrows'⟩ := @ih mid (fun p hp => hfits p (List.mem_cons_of_mem _ hp))
      (fun p hp => hvectors p (List.mem_cons_of_mem _ hp)) (by rw [hdocuments]; exact hdocument)
      (fun p hp other hother => by
        rw [hrows] at hother
        rcases List.mem_append.1 hother with hother | hother
        · exact hfresh p (List.mem_cons_of_mem _ hp) other hother
        · obtain rfl := List.mem_singleton.1 hother
          exact fun hsame => hdistinct.1 (List.mem_map.2 ⟨p, hp, hsame.symm⟩))
      hdistinct.2
    refine ⟨db', ?_, hdocuments'.trans hdocuments, fun row => ?_⟩
    · rw [List.foldlM_cons]
      unfold MemoryStore.insertNext
      rw [hembedding]
      exact (Except.bind_eq_ok).2 ⟨mid, hmid, hdb'⟩
    · rw [hrows', hrows, List.mem_append, List.mem_singleton, or_assoc]
      refine or_congr_right ?_
      constructor
      · rintro (rfl | ⟨p, hp, hrow⟩)
        · exact ⟨pair, List.mem_cons_self, embedding, hembedding, rfl⟩
        · exact ⟨p, List.mem_cons_of_mem _ hp, hrow⟩
      · rintro ⟨p, hp, e, he, rfl⟩
        rcases List.mem_cons.1 hp with rfl | hp
        · rw [hembedding] at he
          obtain rfl := Option.some.inj he
          exact Or.inl rfl
        · exact Or.inr ⟨p, hp, e, he, rfl⟩

/-- A row that does not fit is an error of the data, whatever is written before it. -/
private theorem insertChunks_refused (embedder : Embedder R) {pairs : List (ChunkInput × List R)}
    (hrefused : ∃ pair ∈ pairs,
      ¬ Tables.fitsChunk sql (MemoryStore.chunkRow sql.reprFloat doc embedder pair.1 ()) = true)
    (hvectors : ∀ pair ∈ pairs, (store.castVector store.embeddingDim pair.2).isSome)
    (hdocument : (db.documents.lookup (sql.key doc.docId)).isSome)
    (hfresh : ∀ pair ∈ pairs, ∀ other ∈ db.chunks.rows, sql.key other.chunkId ≠ sql.key (chunkId doc.docId pair.1.seq))
    (hdistinct : (pairs.map fun pair => sql.key (chunkId doc.docId pair.1.seq)).Nodup) :
    pairs.foldlM (store.insertNext doc embedder) db = .error .data := by
  induction pairs generalizing db with
  | nil =>
    obtain ⟨pair, hpair, -⟩ := hrefused
    cases hpair
  | cons pair pairs ih =>
    obtain ⟨embedding, hembedding⟩ := Option.isSome_iff_exists.1 (hvectors pair List.mem_cons_self)
    have hnext : store.insertNext doc embedder db pair =
        db.insertChunk (MemoryStore.chunkRow sql.reprFloat doc embedder pair.1 embedding) := by
      unfold MemoryStore.insertNext
      rw [hembedding]
    rw [List.foldlM_cons, hnext]
    by_cases hfits : Tables.fitsChunk sql (MemoryStore.chunkRow sql.reprFloat doc embedder pair.1 ()) = true
    · obtain ⟨mid, hmid, hdocuments, hrows⟩ := insertChunk_ok
        (MemoryStore.chunkRow sql.reprFloat doc embedder pair.1 embedding) hfits hdocument
        (hfresh pair List.mem_cons_self)
      rw [List.map_cons, List.nodup_cons] at hdistinct
      rw [hmid]
      refine @ih mid ?_ (fun p hp => hvectors p (List.mem_cons_of_mem _ hp)) (by rw [hdocuments]; exact hdocument)
        (fun p hp other hother => ?_) hdistinct.2
      · obtain ⟨p, hp, hunfit⟩ := hrefused
        rcases List.mem_cons.1 hp with rfl | hp
        · exact absurd hfits hunfit
        · exact ⟨p, hp, hunfit⟩
      · rw [hrows] at hother
        rcases List.mem_append.1 hother with hother | hother
        · exact hfresh p (List.mem_cons_of_mem _ hp) other hother
        · obtain rfl := List.mem_singleton.1 hother
          exact fun hsame => hdistinct.1 (List.mem_map.2 ⟨p, hp, hsame.symm⟩)
    · have hrefused : db.insertChunk (MemoryStore.chunkRow sql.reprFloat doc embedder pair.1 embedding) =
          .error .data := if_neg hfits
      rw [hrefused]
      rfl

/-! ### Writing -/

/-- A document that a caller may submit, with its strings among `S`. -/
structure Submitted (S : Set String) (doc : SourceDocument) : Prop where
  docId : doc.docId ∈ S
  hash : doc.contentHash ∈ S
  chunkIds : ∀ chunk ∈ doc.chunks, chunkId doc.docId chunk.seq ∈ S
  seqs : (doc.chunks.map ChunkInput.seq).Nodup

variable {vectorsByDoc : String → Option (List (List R))}

/-- The document is inserted behind its `DELETE`, and the ids of its chunks are free. -/
private theorem replaceDocument_ok (now : Instant) (hexact : Set.InjOn sql.key S) (hwithin : Within S db)
    (hdoc : Submitted S doc)
    (hfits : Tables.fitsDocument sql doc sourceMachineId = true) (vectors : List (List R))
    (hhash : ∀ row ∈ db.documents.rows, row.contentHash = doc.contentHash → row.documentId = doc.docId) :
    ∃ mid, (db.deleteDocument doc.docId).2.insertDocument doc sourceMachineId now = .ok mid ∧
      (∀ row, row ∈ mid.documents.rows ↔ (row ∈ db.documents.rows ∧ row.documentId ≠ doc.docId) ∨
        row = ⟨document doc sourceMachineId, now, now⟩) ∧
      (∀ row, row ∈ mid.chunks.rows ↔ row ∈ db.chunks.rows ∧ row.documentId ≠ doc.docId) ∧
      (mid.documents.lookup (sql.key doc.docId)).isSome ∧
      (∀ pair ∈ doc.chunks.zip vectors, ∀ other ∈ mid.chunks.rows,
        sql.key other.chunkId ≠ sql.key (chunkId doc.docId pair.1.seq)) ∧
      ((doc.chunks.zip vectors).map fun pair => sql.key (chunkId doc.docId pair.1.seq)).Nodup := by
  have hdeleted := mem_documents_deleteDocument hexact hwithin hdoc.docId
  have hdeletedChunks := mem_chunks_deleteDocument hexact hwithin hdoc.docId
  obtain ⟨mid, hmid, hchunks, hrows⟩ := insertDocument_ok now hfits
    fun row hrow => by
      obtain ⟨hrow, hother⟩ := (hdeleted row).1 hrow
      obtain ⟨hid, hrowHash⟩ := hwithin.documents row hrow
      exact ⟨fun h => hother (hexact hid hdoc.docId h), fun h => hother (hhash row hrow (hexact hrowHash hdoc.hash h))⟩
  have hplaces : ∀ pair ∈ doc.chunks.zip vectors, chunkId doc.docId pair.1.seq ∈ S :=
    fun pair hpair => hdoc.chunkIds pair.1 (List.of_mem_zip hpair).1
  refine ⟨mid, hmid, fun row => ?_, fun row => ?_, ?_, fun pair hpair other hother hsame => ?_, ?_⟩
  · rw [hrows, List.mem_append, List.mem_singleton, hdeleted]
  · rw [hchunks, hdeletedChunks]
  · rw [Table.lookup_isSome, hrows]
    exact List.mem_map.2 ⟨_, List.mem_append_right _ (List.mem_singleton_self _), rfl⟩
  · rw [hchunks] at hother
    obtain ⟨hother, hne⟩ := (hdeletedChunks other).1 hother
    obtain ⟨hcid, -, haddress⟩ := hwithin.chunks other hother
    have hids := hexact hcid (hplaces pair hpair) hsame
    rw [haddress] at hids
    exact hne (chunkId_inj hids).1
  · have hmap := List.Nodup.map_on (f := sql.key) (fun a ha b hb hsame => ?_) (nodup_chunkIds vectors hdoc.seqs)
    · rw [List.map_map] at hmap
      exact hmap
    · obtain ⟨pair, hpair, rfl⟩ := List.mem_map.1 ha
      obtain ⟨pair', hpair', rfl⟩ := List.mem_map.1 hb
      exact hexact (hplaces pair hpair) (hplaces pair' hpair') hsame

/-- **A document that is written.**  Where the columns take it and no other document has its content, its row replaces
the row of its id, and its chunks replace the chunks of that id. -/
theorem writeDocument_ok (now : Instant) (hexact : Set.InjOn sql.key S) (hwithin : Within S db)
    (hdoc : Submitted S doc)
    (hfits : Fits sql doc embedder sourceMachineId) (hslice : vectorsByDoc doc.docId = some vectors)
    (hvectors : ∀ vector ∈ vectors, (store.castVector store.embeddingDim vector).isSome)
    (hhash : ∀ row ∈ db.documents.rows, row.contentHash = doc.contentHash → row.documentId = doc.docId) :
    ∃ db', store.writeDocument embedder vectorsByDoc sourceMachineId now db doc =
        .ok ((db.deleteDocument doc.docId).1, db') ∧
      (∀ row, row ∈ db'.documents.rows ↔ (row ∈ db.documents.rows ∧ row.documentId ≠ doc.docId) ∨
        row = ⟨document doc sourceMachineId, now, now⟩) ∧
      ∀ row, row ∈ db'.chunks.rows ↔ (row ∈ db.chunks.rows ∧ row.documentId ≠ doc.docId) ∨
        Inserted store sql doc embedder (doc.chunks.zip vectors) row := by
  obtain ⟨mid, hmid, hdocuments, hchunks, hpresent, hfresh, hdistinct⟩ :=
    replaceDocument_ok now hexact hwithin hdoc hfits.1 vectors hhash
  obtain ⟨db', hdb', hsame, hrows⟩ := insertChunks_ok embedder
    (fun pair hpair => hfits.2 pair.1 (List.of_mem_zip hpair).1)
    (fun pair hpair => hvectors pair.2 (List.of_mem_zip hpair).2) hpresent hfresh hdistinct
  refine ⟨db', ?_, fun row => ?_, fun row => ?_⟩
  · refine Except.bind_eq_ok.2 ⟨mid, hmid, ?_⟩
    rw [hslice]
    exact Except.bind_eq_ok.2 ⟨db', hdb', rfl⟩
  · rw [hsame, hdocuments]
  · rw [hrows, hchunks]

/-- The strings behind a write are those before it and those of its document. -/
theorem within_write (h : Within S db) (hdoc : Submitted S doc)
    (hdocuments : ∀ row ∈ db'.documents.rows, row ∈ db.documents.rows ∨ row = ⟨document doc sourceMachineId, now, now⟩)
    (hchunks : ∀ row ∈ db'.chunks.rows, row ∈ db.chunks.rows ∨
      Inserted store sql doc embedder (doc.chunks.zip vectors) row) : Within S db' where
  documents := by
    intro row hrow
    rcases hdocuments row hrow with hrow | rfl
    · exact h.documents row hrow
    · exact ⟨hdoc.docId, hdoc.hash⟩
  chunks := by
    intro row hrow
    rcases hchunks row hrow with hrow | ⟨pair, hpair, embedding, -, rfl⟩
    · exact h.chunks row hrow
    · exact ⟨hdoc.chunkIds pair.1 (List.of_mem_zip hpair).1, hdoc.docId, rfl⟩

/-- A document that the columns do not take raises, and not with an integrity error. -/
theorem writeDocument_refused (now : Instant) (hexact : Set.InjOn sql.key S) (hwithin : Within S db)
    (hdoc : Submitted S doc)
    (hfits : ¬ Fits sql doc embedder sourceMachineId) (hslice : vectorsByDoc doc.docId = some vectors)
    (hlength : vectors.length = doc.chunks.length)
    (hvectors : ∀ vector ∈ vectors, (store.castVector store.embeddingDim vector).isSome)
    (hhash : ∀ row ∈ db.documents.rows, row.contentHash = doc.contentHash → row.documentId = doc.docId) :
    store.writeDocument embedder vectorsByDoc sourceMachineId now db doc = .error .data := by
  unfold MemoryStore.writeDocument
  dsimp only
  by_cases hdocument : Tables.fitsDocument sql doc sourceMachineId = true
  · obtain ⟨mid, hmid, -, -, hpresent, hfresh, hdistinct⟩ :=
      replaceDocument_ok now hexact hwithin hdoc hdocument vectors hhash
    have hchunk : ∃ chunk ∈ doc.chunks,
        ¬ Tables.fitsChunk sql (MemoryStore.chunkRow sql.reprFloat doc embedder chunk ()) = true := by
      by_contra hall
      push Not at hall
      exact hfits ⟨hdocument, hall⟩
    obtain ⟨chunk, hchunk, hunfit⟩ := hchunk
    have hfst : (doc.chunks.zip vectors).map Prod.fst = doc.chunks := List.map_fst_zip (by rw [hlength])
    rw [← hfst] at hchunk
    obtain ⟨pair, hpair, rfl⟩ := List.mem_map.1 hchunk
    have hrefused := insertChunks_refused embedder
      ⟨pair, hpair, hunfit⟩ (fun pair hpair => hvectors pair.2 (List.of_mem_zip hpair).2) hpresent hfresh hdistinct
    rw [hmid, hslice]
    show (doc.chunks.zip vectors).foldlM (store.insertNext doc embedder) mid >>= _ = _
    rw [hrefused]
    rfl
  · have hrefused : (db.deleteDocument doc.docId).2.insertDocument doc sourceMachineId now = .error .data :=
      if_neg hdocument
    rw [hrefused]
    rfl

/-! ### Updating -/

theorem updateDocumentMetadata_ok (now : Instant) (hexact : Set.InjOn sql.key S) (hwithin : Within S db)
    (hid : doc.docId ∈ S)
    (hfits : Tables.fitsMetadata sql doc sourceMachineId = true) :
    ∃ db', db.updateDocumentMetadata doc sourceMachineId now = .ok db' ∧ db'.chunks = db.chunks ∧
      ∀ row, row ∈ db'.documents.rows ↔ ∃ old ∈ db.documents.rows,
        row = if old.documentId = doc.docId then Tables.setMetadata doc sourceMachineId now old else old := by
  refine ⟨_, if_pos hfits, rfl, fun row => ?_⟩
  refine List.mem_map.trans (exists_congr fun old => and_congr_right fun hold => ?_)
  rw [eq_comm]
  simp only [decide_eq_true_eq, hexact.eq_iff (hwithin.documents old hold).1 hid]

/-- A row that an update may have met has its id and its hash. -/
theorem kept_setMetadata (doc : SourceDocument) (sourceMachineId : Option String) (now : Instant)
    (old : StoredDocument) :
    (if old.documentId = doc.docId then Tables.setMetadata doc sourceMachineId now old else old).documentId =
        old.documentId ∧
      (if old.documentId = doc.docId then Tables.setMetadata doc sourceMachineId now old else old).contentHash =
        old.contentHash := by
  split
  · exact ⟨rfl, rfl⟩
  · exact ⟨rfl, rfl⟩

theorem within_update (h : Within S db) (hchunks : db'.chunks = db.chunks)
    (hrows : ∀ row ∈ db'.documents.rows, ∃ old ∈ db.documents.rows,
      row = if old.documentId = doc.docId then Tables.setMetadata doc sourceMachineId now old else old) :
    Within S db' where
  documents := by
    intro row hrow
    obtain ⟨old, hold, rfl⟩ := hrows row hrow
    obtain ⟨hid, hhash⟩ := kept_setMetadata doc sourceMachineId now old
    rw [hid, hhash]
    exact h.documents old hold
  chunks := by
    rw [hchunks]
    exact h.chunks

theorem updateDocumentMetadata_refused (hfits : ¬ Tables.fitsMetadata sql doc sourceMachineId = true) :
    db.updateDocumentMetadata doc sourceMachineId now = .error .data :=
  if_neg hfits

/-! ### Preloading -/

variable {docIds hashes : List String} {hash : String}

theorem of_preload_existing {row : Document} (h : (preload db docIds hashes).1 docId = some row) :
    ∃ stored ∈ db.documents.rows, stored.toDocument = row ∧ row.documentId = docId ∧
      ∃ id ∈ docIds, id ≠ "" ∧ sql.key docId = sql.key id := by
  obtain ⟨stored, hstored, heq⟩ := List.mem_map.1 (Dict.mem_of_assign h)
  obtain ⟨rfl, rfl⟩ := Prod.mk.inj heq
  obtain ⟨hrow, hselected⟩ := List.mem_filter.1 hstored
  obtain ⟨id, hid, hkey⟩ := List.any_eq_true.1 hselected
  obtain ⟨hne, hkey⟩ := of_decide_eq_true hkey
  exact ⟨stored, hrow, rfl, rfl, id, hid, hne, hkey⟩

theorem preload_existing {stored : StoredDocument} (hrow : stored ∈ db.documents.rows)
    (hid : stored.documentId ∈ docIds) (hne : stored.documentId ≠ "") :
    (preload db docIds hashes).1 stored.documentId = some stored.toDocument := by
  refine Dict.assign_of_forall (List.mem_map.2 ⟨stored, List.mem_filter.2 ⟨hrow, ?_⟩, rfl⟩) fun row hmem => ?_
  · exact List.any_eq_true.2 ⟨_, hid, decide_eq_true ⟨hne, rfl⟩⟩
  · obtain ⟨other, hother, heq⟩ := List.mem_map.1 hmem
    obtain ⟨hsame, rfl⟩ := Prod.mk.inj heq
    rw [Table.eq_of_key (List.mem_filter.1 hother).1 hrow (congrArg sql.key hsame)]

theorem of_preload_owner (h : (preload db docIds hashes).2 hash = some docId) :
    ∃ stored ∈ db.documents.rows, stored.contentHash = hash ∧ stored.documentId = docId := by
  obtain ⟨stored, hstored, heq⟩ := List.mem_map.1 (Dict.mem_of_assign h)
  obtain ⟨rfl, rfl⟩ := Prod.mk.inj heq
  rcases List.mem_append.1 (List.mem_filter.1 hstored).1 with hrow | hrow
  · exact ⟨stored, (List.mem_filter.1 hrow).1, rfl, rfl⟩
  · exact ⟨stored, (List.mem_filter.1 hrow).1, rfl, rfl⟩

theorem eq_of_hash {stored other : StoredDocument} (hrow : stored ∈ db.documents.rows)
    (hother : other ∈ db.documents.rows) (h : stored.contentHash = other.contentHash) : stored = other :=
  List.inj_on_of_nodup_map db.hashes hrow hother (congrArg sql.key h)

theorem preload_owner (docIds : List String) {stored : StoredDocument} (hrow : stored ∈ db.documents.rows)
    (hhash : stored.contentHash ∈ hashes) (hne : stored.contentHash ≠ "") :
    (preload db docIds hashes).2 stored.contentHash = some stored.documentId := by
  refine Dict.assign_of_forall (List.mem_map.2 ⟨stored, List.mem_filter.2 ⟨List.mem_append_right _
    (List.mem_filter.2 ⟨hrow, ?_⟩), by simpa using hne⟩, rfl⟩) fun id hmem => ?_
  · exact List.any_eq_true.2 ⟨_, hhash, decide_eq_true ⟨hne, rfl⟩⟩
  · obtain ⟨other, hother, heq⟩ := List.mem_map.1 hmem
    obtain ⟨hsame, rfl⟩ := Prod.mk.inj heq
    have hmem : other ∈ db.documents.rows := by
      rcases List.mem_append.1 (List.mem_filter.1 hother).1 with hother | hother
      · exact (List.mem_filter.1 hother).1
      · exact (List.mem_filter.1 hother).1
    rw [eq_of_hash hmem hrow hsame]

theorem castable_letterCount : Castable letterStore letterCount := by
  intro texts vectors h vector hvector
  obtain rfl := Option.some.inj h
  obtain ⟨text, -, rfl⟩ := List.mem_map.1 hvector
  rfl

end AgentOS.Central
