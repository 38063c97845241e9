import AgentOS.Memory.Filter

/-!
# Writes of the local memory store

A document that the adapters make is written: its chunks get ids that are free in both tables, and `chunk_id` is free
because it names the document.

* `Sound` is what the tables keep: ids are counted up, and every vector belongs to a chunk.
* `writeDocument_ok`: the savepoint of a document does not raise.
-/

namespace AgentOS

variable {R Blob : Type} {store : MemoryStore R Blob} {embedder : Embedder R} {db db' : MemoryDb Blob}
  {doc : SourceDocument} {docId ingestedAt : String} {vectors : List (List R)} {n : Nat}

/-- The ids of the chunks are at most `n`, every chunk has the id that its document and its place make, and every vector
is that of a chunk. -/
structure MemoryDb.Sound (db : MemoryDb Blob) (n : Nat) : Prop where
  ids : ∀ row ∈ db.chunks.rows, 0 < row.id ∧ row.id ≤ n
  chunkIds : ∀ row ∈ db.chunks.rows, row.chunkId = Central.chunkId row.docId row.seq
  vectors : ∀ row ∈ db.chunksVec.rows, ∃ chunk ∈ db.chunks.rows, chunk.id = row.chunkRowid

theorem MemoryDb.sound_empty : (MemoryDb.empty : MemoryDb Blob).Sound 0 := 
  ⟨fun _ h => (by cases h), fun _ h => (by cases h), fun _ h => by cases h⟩

theorem MemoryDb.Sound.mono (h : db.Sound n) {m : Nat} (hm : n ≤ m) : db.Sound m :=
  ⟨fun row hrow => ⟨(h.ids row hrow).1, (h.ids row hrow).2.trans (by omega)⟩, h.chunkIds, h.vectors⟩

/-! ### Ids -/

private theorem lt_nextId {row : ChunkRow} (hrow : row ∈ db.chunks.rows) : row.id < db.nextId := by
  unfold MemoryDb.nextId
  have hmem : row.id ∈ db.chunks.rows.map ChunkRow.id := List.mem_map_of_mem hrow
  cases hmax : (db.chunks.rows.map ChunkRow.id).max? with
  | none =>
    rw [List.max?_eq_none_iff] at hmax
    rw [hmax] at hmem
    cases hmem
  | some top =>
    have hle := (List.max?_eq_some_iff.1 hmax).2 row.id hmem
    rw [Option.getD_some]
    omega

private theorem MemoryDb.Sound.nextId (h : db.Sound n) : 0 < db.nextId ∧ db.nextId ≤ n + 1 := by
  unfold MemoryDb.nextId
  cases hmax : (db.chunks.rows.map ChunkRow.id).max? with
  | none =>
    rw [Option.getD_none]
    omega
  | some top =>
    obtain ⟨row, hrow, rfl⟩ := List.mem_map.1 (List.max?_eq_some_iff.1 hmax).1
    obtain ⟨hpos, hle⟩ := h.ids row hrow
    rw [Option.getD_some]
    omega

/-! ### Rows -/

private theorem insertChunks_rows {rows : List ChunkRow}
    (hints : ∀ row ∈ rows, sqliteInteger row.id ∧ sqliteInteger row.seq)
    (hids : ((db.chunks.rows ++ rows).map ChunkRow.id).Nodup)
    (hchunkIds : ((db.chunks.rows ++ rows).map ChunkRow.chunkId).Nodup) :
    ∃ db', rows.foldlM MemoryDb.insertChunk db = .ok db' ∧ db'.chunksVec = db.chunksVec ∧
      db'.chunks.rows = db.chunks.rows ++ rows := by
  induction rows generalizing db with
  | nil => exact ⟨db, rfl, rfl, (List.append_nil _).symm⟩
  | cons row rows ih =>
    have hfree : row.chunkId ∉ db.chunks.rows.map ChunkRow.chunkId := by
      rw [List.map_append, List.nodup_append] at hchunkIds
      exact fun hmem => hchunkIds.2.2 _ hmem _ List.mem_cons_self rfl
    have hnew : db.chunks.lookup row.id = none := by
      rw [← Option.not_isSome_iff_eq_none, Table.lookup_isSome]
      rw [List.map_append, List.nodup_append] at hids
      exact fun hmem => hids.2.2 _ hmem _ List.mem_cons_self rfl
    obtain ⟨mid, hmid, hvec, hrows⟩ : ∃ mid, db.insertChunk row = .ok mid ∧ mid.chunksVec = db.chunksVec ∧
        mid.chunks.rows = db.chunks.rows ++ [row] := by
      unfold MemoryDb.insertChunk
      rw [if_pos (hints row List.mem_cons_self), dif_neg hfree]
      split
      case h_1 hinsert =>
        rw [Table.insert_eq_none, hnew] at hinsert
        cases hinsert
      case h_2 chunks hinsert => exact ⟨_, rfl, rfl, Table.insert_rows hinsert⟩
    have hsplit : mid.chunks.rows ++ rows = db.chunks.rows ++ row :: rows := by
      rw [hrows, List.append_assoc]
      rfl
    obtain ⟨db', hdb', hvec', hrows'⟩ := @ih mid (fun r hr => hints r (List.mem_cons_of_mem _ hr))
      (by rw [hsplit]; exact hids) (by rw [hsplit]; exact hchunkIds)
    refine ⟨db', ?_, hvec'.trans hvec, hrows'.trans hsplit⟩
    rw [List.foldlM_cons]
    exact Except.bind_eq_ok.2 ⟨mid, hmid, hdb'⟩

private theorem insertVectors_rows {rows : List (VectorRow Blob)}
    (haccepts : ∀ row ∈ rows, store.sqliteVec.accepts store.embeddingDim row.embedding = true)
    (hids : ((db.chunksVec.rows ++ rows).map VectorRow.chunkRowid).Nodup) :
    ∃ db', rows.foldlM (MemoryDb.insertVector store) db = .ok db' ∧ db'.chunks = db.chunks ∧
      db'.chunksVec.rows = db.chunksVec.rows ++ rows := by
  induction rows generalizing db with
  | nil => exact ⟨db, rfl, rfl, (List.append_nil _).symm⟩
  | cons row rows ih =>
    have hnew : db.chunksVec.lookup row.chunkRowid = none := by
      rw [← Option.not_isSome_iff_eq_none, Table.lookup_isSome]
      rw [List.map_append, List.nodup_append] at hids
      exact fun hmem => hids.2.2 _ hmem _ List.mem_cons_self rfl
    obtain ⟨chunksVec, hinsert⟩ := Table.exists_insert hnew
    have hmid : MemoryDb.insertVector store db row = .ok { db with chunksVec } := by
      unfold MemoryDb.insertVector
      rw [if_pos (haccepts row List.mem_cons_self), hinsert]
    have hrows := Table.insert_rows hinsert
    have hsplit : chunksVec.rows ++ rows = db.chunksVec.rows ++ row :: rows := by
      rw [hrows, List.append_assoc]
      rfl
    obtain ⟨db', hdb', hchunks, hrows'⟩ := @ih { db with chunksVec }
      (fun r hr => haccepts r (List.mem_cons_of_mem _ hr)) (by rw [hsplit]; exact hids)
    refine ⟨db', ?_, hchunks, hrows'.trans hsplit⟩
    rw [List.foldlM_cons]
    exact Except.bind_eq_ok.2 ⟨_, hmid, hdb'⟩

/-! ### Chunks -/

private theorem map_fst_numbered (db : MemoryDb Blob) (doc : SourceDocument) (vectors : List (List R)) :
    (db.numbered doc vectors).map Prod.fst = doc.chunks.zip vectors := by
  unfold MemoryDb.numbered
  rw [List.map_map]
  exact List.zipIdx_map_fst 0 _

private theorem map_snd_numbered (db : MemoryDb Blob) (doc : SourceDocument) (vectors : List (List R)) :
    (db.numbered doc vectors).map Prod.snd =
      (List.range' 0 (doc.chunks.zip vectors).length).map fun offset : Nat => db.nextId + (offset : Int) := by
  unfold MemoryDb.numbered
  rw [List.map_map, ← List.zipIdx_map_snd, List.map_map]
  rfl

private theorem nodup_numbered (db : MemoryDb Blob) (doc : SourceDocument) (vectors : List (List R)) :
    ((db.numbered doc vectors).map Prod.snd).Nodup := by
  rw [map_snd_numbered]
  refine (List.nodup_range' 1).map fun a b hab => ?_
  have hsum : db.nextId + (a : Int) = db.nextId + b := hab
  omega

private theorem numbered_bounds {entry : (ChunkInput × List R) × Int} (hentry : entry ∈ db.numbered doc vectors) :
    db.nextId ≤ entry.2 ∧ entry.2 < db.nextId + doc.chunks.length := by
  have hmem := List.mem_map_of_mem (f := Prod.snd) hentry
  rw [map_snd_numbered] at hmem
  obtain ⟨offset, hoffset, hid⟩ := List.mem_map.1 hmem
  have hlt := (List.mem_range'_1.1 hoffset).2
  rw [List.length_zip] at hlt
  rw [← hid]
  omega

private theorem serialize_all (entries : List ((ChunkInput × List R) × Int))
    (hvectors : ∀ entry ∈ entries, ∃ embedding, store.sqliteVec.serializeFloat32 entry.1.2 = some embedding ∧
      store.sqliteVec.accepts store.embeddingDim embedding = true) :
    ∃ rows : List (VectorRow Blob), entries.mapM (fun ((_, vector), id) =>
        match store.sqliteVec.serializeFloat32 vector with
        | none => Except.error WriteError.serialize
        | some embedding => .ok (VectorRow.mk id embedding)) = .ok rows ∧
      rows.map VectorRow.chunkRowid = entries.map Prod.snd ∧
      ∀ row ∈ rows, store.sqliteVec.accepts store.embeddingDim row.embedding = true := by
  induction entries with
  | nil => exact ⟨[], rfl, rfl, by simp⟩
  | cons entry entries ih =>
    obtain ⟨rows, hrows, hids, haccepts⟩ := ih fun e he => hvectors e (List.mem_cons_of_mem _ he)
    obtain ⟨embedding, hserialize, haccept⟩ := hvectors entry List.mem_cons_self
    obtain ⟨⟨chunk, vector⟩, id⟩ := entry
    refine ⟨⟨id, embedding⟩ :: rows, ?_, by rw [List.map_cons, List.map_cons, hids], fun row hrow => ?_⟩
    · dsimp only at hserialize
      rw [List.mapM_cons]
      dsimp only
      rw [hserialize, hrows]
      rfl
    · rcases List.mem_cons.1 hrow with rfl | hrow
      · exact haccept
      · exact haccepts row hrow

/-- The chunks of a document and their vectors are inserted, where its old ones have been deleted. -/
private theorem insertChunks_ok (h : db.Sound n) (hfresh : ∀ row ∈ db.chunks.rows, row.docId ≠ doc.docId)
    (hseqs : (doc.chunks.map ChunkInput.seq).Nodup) (hints : ∀ chunk ∈ doc.chunks, sqliteInteger chunk.seq)
    (hvectors : ∀ vector ∈ vectors, ∃ embedding, store.sqliteVec.serializeFloat32 vector = some embedding ∧
      store.sqliteVec.accepts store.embeddingDim embedding = true)
    (hroom : n + doc.chunks.length < 2 ^ 63) :
    ∃ db', store.insertChunks embedder db doc vectors = .ok db' ∧ db'.Sound (n + doc.chunks.length) := by
  obtain ⟨hpos, hnext⟩ := h.nextId
  have hpairs : ∀ entry ∈ db.numbered doc vectors, entry.1 ∈ doc.chunks.zip vectors := fun entry hentry =>
    map_fst_numbered db doc vectors ▸ List.mem_map_of_mem (f := Prod.fst) hentry
  let rows := (db.numbered doc vectors).map fun ((chunk, _), id) => store.chunkRow doc embedder chunk id
  have hrows : ∀ row ∈ rows, ∃ entry ∈ db.numbered doc vectors, row =
      store.chunkRow doc embedder entry.1.1 entry.2 := by
    intro row hrow
    obtain ⟨entry, hentry, rfl⟩ := List.mem_map.1 hrow
    exact ⟨entry, hentry, rfl⟩
  have hids : rows.map ChunkRow.id = (db.numbered doc vectors).map Prod.snd := by
    show List.map _ (List.map _ _) = _
    rw [List.map_map]
    rfl
  have hchunkIds : rows.map ChunkRow.chunkId =
      (doc.chunks.zip vectors).map fun pair => Central.chunkId doc.docId pair.1.seq := by
    show List.map _ (List.map _ _) = _
    rw [List.map_map, ← map_fst_numbered db doc vectors, List.map_map]
    rfl
  obtain ⟨vecRows, hvecRows, hvecIds, haccepts⟩ := @serialize_all R Blob store (db.numbered doc vectors)
    fun entry hentry => hvectors entry.1.2 (List.of_mem_zip (hpairs entry hentry)).2
  have hbounds : ∀ id ∈ (db.numbered doc vectors).map Prod.snd,
      db.nextId ≤ id ∧ id < db.nextId + doc.chunks.length := by
    intro id hid
    obtain ⟨entry, hentry, rfl⟩ := List.mem_map.1 hid
    exact numbered_bounds hentry
  obtain ⟨mid, hmid, hmidVec, hmidRows⟩ := @insertChunks_rows Blob db rows
    (by
      intro row hrow
      obtain ⟨entry, hentry, rfl⟩ := hrows row hrow
      obtain ⟨hle, hlt⟩ := numbered_bounds hentry
      refine ⟨⟨?_, ?_⟩, hints _ (List.of_mem_zip (hpairs entry hentry)).1⟩
      · show _ ≤ entry.2
        omega
      · show entry.2 < _
        omega)
    (by
      rw [List.map_append, hids, List.nodup_append]
      refine ⟨db.chunks.unique, nodup_numbered db doc vectors, fun id hid id' hid' hsame => ?_⟩
      obtain ⟨row, hrow, rfl⟩ := List.mem_map.1 hid
      have hold := lt_nextId hrow
      have hnew := (hbounds id' hid').1
      omega)
    (by
      rw [List.map_append, hchunkIds, List.nodup_append]
      refine ⟨db.chunkIds, Central.nodup_chunkIds vectors hseqs, fun id hid id' hid' hsame => ?_⟩
      obtain ⟨row, hrow, rfl⟩ := List.mem_map.1 hid
      obtain ⟨pair, -, rfl⟩ := List.mem_map.1 hid'
      rw [h.chunkIds row hrow] at hsame
      exact hfresh row hrow (Central.chunkId_inj hsame).1)
  obtain ⟨db', hdb', hchunks, hvecs⟩ := @insertVectors_rows R Blob store mid vecRows haccepts (by
    rw [hmidVec, List.map_append, hvecIds, List.nodup_append]
    refine ⟨db.chunksVec.unique, nodup_numbered db doc vectors, fun id hid id' hid' hsame => ?_⟩
    obtain ⟨row, hrow, rfl⟩ := List.mem_map.1 hid
    obtain ⟨chunk, hchunk, hchunkId⟩ := h.vectors row hrow
    have hold := lt_nextId hchunk
    have hnew := (hbounds id' hid').1
    omega)
  refine ⟨db', ?_, ⟨fun row hrow => ?_, fun row hrow => ?_, fun row hrow => ?_⟩⟩
  · exact Except.bind_eq_ok.2 ⟨vecRows, hvecRows, Except.bind_eq_ok.2 ⟨mid, hmid, hdb'⟩⟩
  · rw [hchunks, hmidRows] at hrow
    rcases List.mem_append.1 hrow with hrow | hrow
    · have hold := h.ids row hrow
      omega
    · obtain ⟨entry, hentry, rfl⟩ := hrows row hrow
      obtain ⟨hle, hlt⟩ := numbered_bounds hentry
      show 0 < entry.2 ∧ entry.2 ≤ _
      omega
  · rw [hchunks, hmidRows] at hrow
    rcases List.mem_append.1 hrow with hrow | hrow
    · exact h.chunkIds row hrow
    · obtain ⟨entry, hentry, rfl⟩ := hrows row hrow
      rfl
  · rw [hvecs, hmidVec] at hrow
    rw [hchunks, hmidRows]
    rcases List.mem_append.1 hrow with hrow | hrow
    · obtain ⟨chunk, hchunk, hid⟩ := h.vectors row hrow
      exact ⟨chunk, List.mem_append_left _ hchunk, hid⟩
    · have hmem := List.mem_map_of_mem (f := VectorRow.chunkRowid) hrow
      rw [hvecIds, ← hids] at hmem
      obtain ⟨chunk, hchunk, hid⟩ := List.mem_map.1 hmem
      exact ⟨chunk, List.mem_append_right _ hchunk, hid⟩

/-! ### Documents -/

theorem MemoryDb.sound_deleteDocument (h : db.Sound n) (docId : String) : (db.deleteDocument docId).2.Sound n where
  ids := fun row hrow => h.ids row (Table.mem_delete.1 hrow).1
  chunkIds := fun row hrow => h.chunkIds row (Table.mem_delete.1 hrow).1
  vectors := by
    intro row hrow
    obtain ⟨hrow, hkept⟩ := Table.mem_delete.1 hrow
    obtain ⟨chunk, hchunk, hid⟩ := h.vectors row hrow
    refine ⟨chunk, Table.mem_delete.2 ⟨hchunk, fun hmine => hkept ?_⟩, hid⟩
    rw [List.contains_iff_mem]
    exact List.mem_map.2 ⟨chunk, List.mem_filter.2 ⟨hchunk, hmine⟩, hid⟩

/-- **A document that is written.**  The savepoint of a document that the adapters make does not raise. -/
theorem writeDocument_ok (embedder : Embedder R) (ingestedAt : String) (h : db.Sound n)
    (htype : doc.sourceType ∈ validSourceTypes)
    (hseqs : (doc.chunks.map ChunkInput.seq).Nodup) (hints : ∀ chunk ∈ doc.chunks, sqliteInteger chunk.seq)
    {vectorsByDoc : String → Option (List (List R))} (hslice : vectorsByDoc doc.docId = some vectors)
    (hvectors : ∀ vector ∈ vectors, ∃ embedding, store.sqliteVec.serializeFloat32 vector = some embedding ∧
      store.sqliteVec.accepts store.embeddingDim embedding = true)
    (hroom : n + doc.chunks.length < 2 ^ 63) :
    ∃ existed db', store.writeDocument embedder vectorsByDoc ingestedAt db doc = .ok (existed, db') ∧
      db'.Sound (n + doc.chunks.length) := by
  have hgone : (db.deleteDocument doc.docId).2.documents.lookup doc.docId = none := by
    rw [lookup_deleteDocument, if_pos rfl]
  obtain ⟨documents, hinsert⟩ := Table.exists_insert (t := (db.deleteDocument doc.docId).2.documents)
    (r := doc.row ingestedAt) hgone
  have hinserted : (db.deleteDocument doc.docId).2.insertDocument doc ingestedAt =
      .ok { (db.deleteDocument doc.docId).2 with documents } := by
    unfold MemoryDb.insertDocument
    rw [if_pos htype, hinsert]
  have hsound := MemoryDb.sound_deleteDocument h doc.docId
  obtain ⟨db', hdb', hsound'⟩ := @insertChunks_ok R Blob store embedder
    { (db.deleteDocument doc.docId).2 with documents } doc vectors n ⟨hsound.ids, hsound.chunkIds, hsound.vectors⟩
    (fun row hrow hmine => (Table.mem_delete.1 hrow).2 (decide_eq_true hmine)) hseqs hints hvectors hroom
  refine ⟨(db.deleteDocument doc.docId).1, db', ?_, hsound'⟩
  refine Except.bind_eq_ok.2 ⟨_, hinserted, ?_⟩
  rw [hslice]
  exact Except.bind_eq_ok.2 ⟨db', hdb', rfl⟩

/-- A document that the adapters make is described anew. -/
theorem updateDocumentMetadata_ok (db : MemoryDb Blob) (ingestedAt : String)
    (htype : doc.sourceType ∈ validSourceTypes) :
    ∃ db', db.updateDocumentMetadata doc ingestedAt = .ok db' ∧ db'.chunks = db.chunks ∧
      db'.chunksVec = db.chunksVec ∧ ∀ row, row ∈ db'.documents.rows ↔ ∃ old ∈ db.documents.rows,
        row = if old.docId = doc.docId then doc.describe ingestedAt old else old := by
  refine ⟨_, if_pos htype, rfl, rfl, fun row => ?_⟩
  refine List.mem_map.trans (exists_congr fun old => and_congr_right fun _ => ?_)
  rw [eq_comm]
  simp only [decide_eq_true_eq]

theorem MemoryDb.Sound.congr (h : db.Sound n) (hchunks : db'.chunks = db.chunks)
    (hvec : db'.chunksVec = db.chunksVec) : db'.Sound n := by
  obtain ⟨hids, hchunkIds, hvectors⟩ := h
  rw [← hchunks] at hids hchunkIds
  rw [← hvec, ← hchunks] at hvectors
  exact ⟨hids, hchunkIds, hvectors⟩

end AgentOS
