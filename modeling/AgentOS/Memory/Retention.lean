import AgentOS.Memory.Owners
import AgentOS.Memory.Representation
import AgentOS.Memory.Statements

/-!
# What a batch retains

Both stores retain the content of every document of a batch, unless it is `Lost`: `content_retained_iff`.  The double
takes every document; the tables refuse those whose values do not fit their columns, and report them.
-/

namespace AgentOS.Central

variable {R V : Type} {sql : Sql}

/-! ### The double -/

namespace FakeMemoryStore

/-- The hash of a stored document. -/
def hashOf (store : FakeMemoryStore R) (id : String) : Option String := (store.documents id).map Document.contentHash

/-- The content is in a document that is stored, with the chunks of a version that has this content. -/
def Retains (store : FakeMemoryStore R) (versions : String → Option (Version R)) (hash : String) : Prop :=
  ∃ id row version, store.documents id = some row ∧ versions id = some version ∧ row.contentHash = hash ∧
    version.doc.contentHash = hash ∧ store.Stored row version

variable {store store' : FakeMemoryStore R} {doc : SourceDocument} {docs : List SourceDocument}
  {embedder : Embedder R} {sourceMachineId : Option String} {vectorsByDoc : String → Option (List (List R))}
  {summary summary' : Summary} {id : String} {versions : String → Option (Version R)}

private theorem hashOf_deleteDocument (docId : String) :
    (store.deleteDocument docId).2.hashOf id = if id = docId then none else store.hashOf id := by
  show (Function.update store.documents docId none id).map Document.contentHash = _
  rw [Function.update_apply]
  split
  · rfl
  · rfl

private theorem hashOf_writeDocument {vectors : List (List R)} :
    (store.writeDocument doc vectors embedder sourceMachineId).hashOf id =
      if id = doc.docId then some doc.contentHash else store.hashOf id := by
  show (Function.update store.documents doc.docId (some (document doc sourceMachineId)) id).map Document.contentHash = _
  rw [Function.update_apply]
  split
  · rfl
  · rfl

private theorem hashOf_updateDocumentMetadata :
    (store.updateDocumentMetadata doc sourceMachineId).hashOf id = store.hashOf id := by
  unfold updateDocumentMetadata
  cases hold : store.documents doc.docId with
  | none => rfl
  | some row =>
    show (Function.update store.documents doc.docId (some (describe doc sourceMachineId row)) id).map
      Document.contentHash = _
    rw [Function.update_apply]
    split
    case isTrue hid =>
      rw [hid]
      unfold hashOf
      rw [hold]
      rfl
    case isFalse => rfl

private theorem hashOf_writes
    (hrun : docs.foldlM (writeNext embedder vectorsByDoc sourceMachineId) (store, summary) = some (store', summary'))
    (hdistinct : (docs.map SourceDocument.docId).Nodup) :
    (∀ doc ∈ docs, store'.hashOf doc.docId = some doc.contentHash) ∧
      (∀ id, id ∉ docs.map SourceDocument.docId → store'.hashOf id = store.hashOf id) ∧
      summary'.documentsFailed = summary.documentsFailed := by
  induction docs generalizing store summary with
  | nil =>
    obtain ⟨rfl, rfl⟩ := Prod.mk.inj (Option.some.inj hrun)
    exact ⟨by simp, fun _ _ => rfl, rfl⟩
  | cons doc docs ih =>
    rw [List.foldlM_cons] at hrun
    obtain ⟨⟨mid, summary₁⟩, hnext, hrun⟩ := Option.bind_eq_some_iff.1 hrun
    obtain ⟨vectors, hvectors, hmid⟩ := Option.map_eq_some_iff.1 hnext
    obtain ⟨rfl, rfl⟩ := Prod.mk.inj hmid
    rw [List.map_cons, List.nodup_cons] at hdistinct
    obtain ⟨hmem, hrest, hfailed⟩ := ih hrun hdistinct.2
    have hstep : ∀ id, ((store.deleteDocument doc.docId).2.writeDocument doc vectors embedder sourceMachineId).hashOf id =
        if id = doc.docId then some doc.contentHash else store.hashOf id := by
      intro id
      rw [hashOf_writeDocument, hashOf_deleteDocument]
      split
      · rfl
      · rfl
    refine ⟨fun d hd => ?_, fun id hid => ?_, hfailed⟩
    · rcases List.mem_cons.1 hd with rfl | hd
      · exact (hrest _ hdistinct.1).trans ((hstep _).trans (if_pos rfl))
      · exact hmem d hd
    · rw [List.map_cons, List.mem_cons, not_or] at hid
      exact (hrest id hid.2).trans ((hstep id).trans (if_neg hid.1))

private theorem hashOf_updates (sourceMachineId : Option String) (docs : List SourceDocument)
    (state : FakeMemoryStore R × Summary) : (docs.foldl (updateNext sourceMachineId) state).1.hashOf = state.1.hashOf ∧
      (docs.foldl (updateNext sourceMachineId) state).2.documentsFailed = state.2.documentsFailed :=
  Fold.preserves (I := fun s : FakeMemoryStore R × Summary =>
    s.1.hashOf = state.1.hashOf ∧ s.2.documentsFailed = state.2.documentsFailed) ⟨rfl, rfl⟩
    fun _ _ _ h => ⟨(funext fun _ => hashOf_updateDocumentMetadata).trans h.1, h.2⟩

private theorem hashOf_removals (docs : List SourceDocument) (state : FakeMemoryStore R × Summary) :
    (∀ id, (docs.foldl removeNext state).1.hashOf id =
        if id ∈ docs.map SourceDocument.docId then none else state.1.hashOf id) ∧
      (docs.foldl removeNext state).2.documentsFailed = state.2.documentsFailed := by
  induction docs generalizing state with
  | nil => exact ⟨fun _ => rfl, rfl⟩
  | cons doc docs ih =>
    obtain ⟨hhash, hfailed⟩ := ih (removeNext state doc)
    refine ⟨fun id => ?_, hfailed⟩
    have hnext : (removeNext state doc).1.hashOf id = if id = doc.docId then none else state.1.hashOf id :=
      hashOf_deleteDocument doc.docId
    rw [List.foldl_cons, hhash, hnext, List.map_cons]
    by_cases hid : id = doc.docId
    · simp [hid]
    · simp [hid]

/-- The hashes of the double behind a call. -/
private theorem batch_ingestDocuments (h : store.Represents versions)
    (hdistinct : (docs.map SourceDocument.docId).Nodup)
    (hrun : store.ingestDocuments docs embedder sourceMachineId = some (store', summary')) :
    Batch store.documents store.hashOwner sourceMachineId (fun _ => True) docs store.hashOf store'.hashOf ∧
      summary'.documentsFailed = [] := by
  unfold ingestDocuments at hrun
  split at hrun
  case isFalse => cases hrun
  case isTrue =>
    obtain ⟨vectorsByDoc, hembed, hrun⟩ := Option.bind_eq_some_iff.1 hrun
    obtain ⟨⟨written, summary₁⟩, hwrites, hrun⟩ := Option.bind_eq_some_iff.1 hrun
    obtain ⟨hwritten, hrest, hfailed⟩ := hashOf_writes hwrites (nodup_having hdistinct .write)
    obtain ⟨hupdated, hfailed₁⟩ := hashOf_updates sourceMachineId
      (having .update (store.plan docs sourceMachineId)) (written, summary₁)
    obtain ⟨hremoved, hfailed₂⟩ := hashOf_removals (having .remove (store.plan docs sourceMachineId))
      ((having .update (store.plan docs sourceMachineId)).foldl (updateNext sourceMachineId) (written, summary₁))
    rw [show _ = (store', summary') from Option.some.inj hrun] at hremoved hfailed₂
    have hend : ∀ id, store'.hashOf id = if id ∈ (having .remove (store.plan docs sourceMachineId)).map
        SourceDocument.docId then none else written.hashOf id := by
      intro id
      rw [hremoved, hupdated]
    have hout : ∀ doc v wanted, (doc, v) ∈ store.plan docs sourceMachineId → wanted ≠ v →
        doc.docId ∉ (having wanted (store.plan docs sourceMachineId)).map SourceDocument.docId :=
      fun doc v wanted hentry hne => notMem_having hdistinct hentry hne
    refine ⟨⟨hdistinct, fun doc _ id => ?_, fun doc _ row hrow => ?_, fun id hid => ?_, fun doc hdoc _ => ?_,
      fun doc _ hrefused => absurd trivial hrefused, fun doc hdoc => ?_, fun doc v hentry hwrite hremove => ?_⟩,
      hfailed₂.trans (hfailed₁.trans hfailed)⟩
    · rw [h.index]
      exact Option.map_eq_some_iff.symm
    · exact Option.map_eq_some_iff.2 ⟨row, hrow, rfl⟩
    · have hnot : ∀ wanted, id ∉ (having wanted (store.plan docs sourceMachineId)).map SourceDocument.docId :=
        fun wanted hmem => hid (mem_map_docId_of_having hmem)
      rw [hend, if_neg (hnot .remove), hrest id (hnot .write)]
    · rw [hend, if_neg (hout doc .write .remove (mem_having.1 hdoc) (by decide)), hwritten doc hdoc]
    · exact (hend _).trans (if_pos (List.mem_map_of_mem hdoc))
    · rw [hend, if_neg (hout doc v .remove hentry hremove.symm), hrest doc.docId (hout doc v .write hentry hwrite.symm)]

/-- A hash that a document has is retained with its chunks, since the representation is kept. -/
private theorem retains_iff (h : store.Represents versions) {hash : String} :
    store.Retains versions hash ↔ ∃ id, store.hashOf id = some hash := by
  constructor
  · rintro ⟨id, row, version, hrow, -, hhash, -⟩
    exact ⟨id, Option.map_eq_some_iff.2 ⟨row, hrow, hhash⟩⟩
  · rintro ⟨id, hid⟩
    obtain ⟨row, hrow, hhash⟩ := Option.map_eq_some_iff.1 hid
    obtain ⟨version, hversion, hstored⟩ := h.stored id row hrow
    exact ⟨id, row, version, hrow, hversion, hhash, hstored.hash.symm.trans hhash, hstored⟩

private theorem retained_iff (h : store.Represents versions) (hdocs : ∀ doc ∈ docs, Admissible doc)
    (hdistinct : (docs.map SourceDocument.docId).Nodup)
    (hrun : store.ingestDocuments docs embedder sourceMachineId = some (store', summary')) :
    (∀ doc ∈ docs, doc.chunks ≠ [] → doc.docId ∉ summary'.documentsFailed.map Failure.docId →
        store'.Retains (record embedder versions (having .write (store.plan docs sourceMachineId))) doc.contentHash) ↔
      ∀ doc ∈ docs, doc.chunks ≠ [] → ¬ Lost store.documents store.hashOwner (fun _ => True) docs doc := by
  obtain ⟨hbatch, hfailed⟩ := batch_ingestDocuments h hdistinct hrun
  have hafter := represents_ingestDocuments h hdocs hrun
  refine forall_congr' fun doc => forall_congr' fun hdoc => forall_congr' fun hchunks => ?_
  rw [hfailed, ← exists_owner_iff hbatch hdoc hchunks fun _ => trivial, retains_iff hafter]
  exact forall_prop_of_true List.not_mem_nil

end FakeMemoryStore

/-! ### The tables -/

/-- The hash of a stored document. -/
def hashOf (db : Tables sql V) (id : String) : Option String :=
  (db.documents.rows.find? fun row => row.documentId = id).map fun row => row.contentHash

/-- The row is a chunk of a document. -/
def IsChunkOf (db : Tables sql V) (id : String) (row : StoredChunk V) : Prop :=
  row ∈ db.chunks.rows ∧ row.documentId = id

/-- The content is in a document that is stored, with the chunks of a document of the batch that has this content, or
with the chunks that it had with this content before the batch. -/
def MemoryStore.Retains (store : MemoryStore R V) (embedder : Embedder R) (docs : List SourceDocument)
    (db db' : Tables sql V) (hash : String) : Prop :=
  ∃ row ∈ db'.documents.rows, row.contentHash = hash ∧
    ((∃ other ∈ docs, other.docId = row.documentId ∧ other.contentHash = hash ∧ ∃ vectors : List (List R),
        vectors.length = other.chunks.length ∧ ∀ chunk, IsChunkOf db' row.documentId chunk ↔
          Inserted store sql other embedder (other.chunks.zip vectors) chunk) ∨
      (∃ old ∈ db.documents.rows, old.documentId = row.documentId ∧ old.contentHash = hash) ∧
        ∀ chunk, IsChunkOf db' row.documentId chunk ↔ IsChunkOf db row.documentId chunk)

section Tables

variable {S : Set String} {store : MemoryStore R V} {db db' : Tables sql V} {doc : SourceDocument}
  {docs : List SourceDocument} {embedder : Embedder R} {sourceMachineId : Option String} {now : Instant}
  {vectorsByDoc : String → Option (List (List R))} {summary : Summary} {id hash : String}

theorem hashOf_eq_some : hashOf db id = some hash ↔
    ∃ row ∈ db.documents.rows, row.documentId = id ∧ row.contentHash = hash := by
  unfold hashOf
  rw [Option.map_eq_some_iff]
  constructor
  · rintro ⟨row, hrow, rfl⟩
    exact ⟨row, List.mem_of_find?_eq_some hrow, by simpa using List.find?_some hrow, rfl⟩
  · rintro ⟨row, hrow, rfl, rfl⟩
    have hsome : (db.documents.rows.find? fun r => r.documentId = row.documentId).isSome := by
      rw [List.find?_isSome]
      exact ⟨row, hrow, by simp⟩
    obtain ⟨found, hfound⟩ := Option.isSome_iff_exists.1 hsome
    have hsame : found.documentId = row.documentId := by simpa using List.find?_some hfound
    obtain rfl := Table.eq_of_key (List.mem_of_find?_eq_some hfound) hrow (congrArg sql.key hsame)
    exact ⟨found, hfound, rfl⟩

/-- What the loops do to one id: its hash, its chunks, and whether it has failed. -/
private def view (state : Tables sql V × Summary) (id : String) : Option String × (StoredChunk V → Prop) × Prop :=
  (hashOf state.1 id, IsChunkOf state.1 id, id ∈ state.2.documentsFailed.map Failure.docId)

private theorem view_congr {state state' : Tables sql V × Summary}
    (hdocuments : ∀ row, row.documentId = id → (row ∈ state'.1.documents.rows ↔ row ∈ state.1.documents.rows))
    (hchunks : ∀ row, row.documentId = id → (row ∈ state'.1.chunks.rows ↔ row ∈ state.1.chunks.rows))
    (hfailed : id ∈ state'.2.documentsFailed.map Failure.docId ↔ id ∈ state.2.documentsFailed.map Failure.docId) :
    view state' id = view state id := by
  refine Prod.ext (Option.ext fun hash => ?_) (Prod.ext (funext fun row => propext ?_) (propext hfailed))
  · show hashOf state'.1 id = some hash ↔ hashOf state.1 id = some hash
    rw [hashOf_eq_some, hashOf_eq_some]
    constructor
    · rintro ⟨row, hrow, hid, hhash⟩
      exact ⟨row, (hdocuments row hid).1 hrow, hid, hhash⟩
    · rintro ⟨row, hrow, hid, hhash⟩
      exact ⟨row, (hdocuments row hid).2 hrow, hid, hhash⟩
  · exact and_congr_left fun hid => hchunks row hid

private theorem failed_append {documentsFailed : List Failure} {failure : Failure} :
    id ∈ (documentsFailed ++ [failure]).map Failure.docId ↔
      id ∈ documentsFailed.map Failure.docId ∨ id = failure.docId := by
  rw [List.map_append, List.mem_append, List.map_singleton, List.mem_singleton]

/-- What holds along the loop over `to_write`: the hashes of the batch have their owners. -/
private structure Writing (S : Set String) (owner : String → Option String) (hashes : List String)
    (db : Tables sql V) : Prop where
  within : Within S db
  owned : ∀ row ∈ db.documents.rows, row.contentHash ∈ hashes → owner row.contentHash = some row.documentId

open Classical in
/-- What a round of the loop over `to_write` makes of the view of its document. -/
private noncomputable def viewWritten (store : MemoryStore R V) (sql : Sql) (embedder : Embedder R)
    (sourceMachineId : Option String) (vectorsByDoc : String → Option (List (List R))) (doc : SourceDocument)
    (before : Option String × (StoredChunk V → Prop) × Prop) : Option String × (StoredChunk V → Prop) × Prop :=
  if Fits sql doc embedder sourceMachineId then
    (some doc.contentHash,
      Inserted store sql doc embedder (doc.chunks.zip ((vectorsByDoc doc.docId).getD [])), before.2.2)
  else (before.1, before.2.1, True)

private theorem view_writeNext (hexact : Set.InjOn sql.key S) {owner : String → Option String} {hashes : List String}
    {state : Tables sql V × Summary} (h : Writing S owner hashes state.1) (hdoc : Submitted S doc)
    (hhash : doc.contentHash ∈ hashes) (howner : owner doc.contentHash = some doc.docId) {vectors : List (List R)}
    (hslice : vectorsByDoc doc.docId = some vectors) (hlength : vectors.length = doc.chunks.length)
    (hvectors : ∀ vector ∈ vectors, (store.castVector store.embeddingDim vector).isSome) :
    Writing S owner hashes (store.writeNext embedder vectorsByDoc sourceMachineId now state doc).1 ∧
      view (store.writeNext embedder vectorsByDoc sourceMachineId now state doc) doc.docId =
        viewWritten store sql embedder sourceMachineId vectorsByDoc doc (view state doc.docId) ∧
      ∀ id, id ≠ doc.docId →
        view (store.writeNext embedder vectorsByDoc sourceMachineId now state doc) id = view state id := by
  have hown : ∀ row ∈ state.1.documents.rows, row.contentHash = doc.contentHash → row.documentId = doc.docId := by
    intro row hrow hsame
    have howned := h.owned row hrow (hsame ▸ hhash)
    rw [hsame, howner] at howned
    exact (Option.some.inj howned).symm
  unfold viewWritten
  rw [hslice, Option.getD_some]
  by_cases hfits : Fits sql doc embedder sourceMachineId
  · obtain ⟨db', hdb', hdocuments, hchunks⟩ := writeDocument_ok now hexact h.within hdoc hfits hslice hvectors hown
    have hnext : store.writeNext embedder vectorsByDoc sourceMachineId now state doc =
        (db', state.2.wrote doc (state.1.deleteDocument doc.docId).1) := by
      unfold MemoryStore.writeNext
      rw [hdb']
    rw [hnext, if_pos hfits]
    refine ⟨⟨within_write h.within hdoc (fun row hrow => ((hdocuments row).1 hrow).imp_left And.left) fun row hrow =>
      ((hchunks row).1 hrow).imp_left And.left, fun row hrow hmem => ?_⟩, ?_, fun id hid => ?_⟩
    · rcases (hdocuments row).1 hrow with ⟨hrow, -⟩ | rfl
      · exact h.owned row hrow hmem
      · exact howner
    · refine Prod.ext (hashOf_eq_some.2 ⟨_, (hdocuments _).2 (Or.inr rfl), rfl, rfl⟩)
        (Prod.ext (funext fun row => propext ?_) rfl)
      show row ∈ db'.chunks.rows ∧ row.documentId = doc.docId ↔ _
      rw [hchunks]
      constructor
      · rintro ⟨⟨-, hne⟩ | hnew, hid⟩
        · exact absurd hid hne
        · exact hnew
      · rintro ⟨pair, hpair, embedding, hembedding, rfl⟩
        exact ⟨Or.inr ⟨pair, hpair, embedding, hembedding, rfl⟩, rfl⟩
    · refine view_congr (fun row hrow => ?_) (fun row hrow => ?_) Iff.rfl
      · rw [hdocuments, hrow]
        refine ⟨fun h => ?_, fun h => Or.inl ⟨h, hid⟩⟩
        rcases h with ⟨h, -⟩ | rfl
        · exact h
        · exact absurd hrow.symm hid
      · rw [hchunks, hrow]
        refine ⟨fun h => ?_, fun h => Or.inl ⟨h, hid⟩⟩
        rcases h with ⟨h, -⟩ | ⟨pair, -, embedding, -, rfl⟩
        · exact h
        · exact absurd hrow.symm hid
  · have hrefused := writeDocument_refused now hexact h.within hdoc hfits hslice hlength hvectors hown
    have hnext : store.writeNext embedder vectorsByDoc sourceMachineId now state doc =
        (state.1, state.2.failed doc .data) := by
      unfold MemoryStore.writeNext
      rw [hrefused]
    rw [hnext, if_neg hfits]
    refine ⟨h, Prod.ext rfl (Prod.ext rfl (eq_true (failed_append.2 (Or.inr rfl)))), fun id hid => ?_⟩
    exact view_congr (fun _ _ => Iff.rfl) (fun _ _ => Iff.rfl) (failed_append.trans (or_iff_left hid))

open Classical in
/-- What a round of the loop over `to_update` makes of the view of its document. -/
private noncomputable def viewUpdated (sql : Sql) (sourceMachineId : Option String) (doc : SourceDocument)
    (before : Option String × (StoredChunk V → Prop) × Prop) : Option String × (StoredChunk V → Prop) × Prop :=
  if Tables.fitsMetadata sql doc sourceMachineId = true then before else (before.1, before.2.1, True)

private theorem view_updateNext (hexact : Set.InjOn sql.key S) {state : Tables sql V × Summary}
    (h : Within S state.1) (hid : doc.docId ∈ S) :
    Within S (MemoryStore.updateNext sourceMachineId now state doc).1 ∧
      view (MemoryStore.updateNext sourceMachineId now state doc) doc.docId =
        viewUpdated sql sourceMachineId doc (view state doc.docId) ∧
      ∀ id, id ≠ doc.docId → view (MemoryStore.updateNext sourceMachineId now state doc) id = view state id := by
  unfold viewUpdated
  by_cases hfits : Tables.fitsMetadata sql doc sourceMachineId = true
  · obtain ⟨db', hdb', hchunks, hrows⟩ := updateDocumentMetadata_ok now hexact h hid hfits
    have hnext : MemoryStore.updateNext sourceMachineId now state doc =
        (db', { state.2 with documentsMetadataUpdated := state.2.documentsMetadataUpdated + 1 }) := by
      unfold MemoryStore.updateNext
      rw [hdb']
    have hview : ∀ id, view (MemoryStore.updateNext sourceMachineId now state doc) id = view state id := by
      intro id
      rw [hnext]
      refine Prod.ext (Option.ext fun hash => ?_) (Prod.ext (funext fun row => ?_) rfl)
      · show hashOf db' id = some hash ↔ hashOf state.1 id = some hash
        rw [hashOf_eq_some, hashOf_eq_some]
        constructor
        · rintro ⟨row, hrow, rfl, rfl⟩
          obtain ⟨old, hold, rfl⟩ := (hrows row).1 hrow
          obtain ⟨hid, hhash⟩ := kept_setMetadata doc sourceMachineId now old
          exact ⟨old, hold, hid.symm, hhash.symm⟩
        · rintro ⟨old, hold, rfl, rfl⟩
          exact ⟨_, (hrows _).2 ⟨old, hold, rfl⟩, kept_setMetadata doc sourceMachineId now old⟩
      · show (row ∈ db'.chunks.rows ∧ row.documentId = id) = _
        rw [hchunks]
        rfl
    refine ⟨?_, by rw [hview, if_pos hfits], fun id _ => hview id⟩
    rw [hnext]
    exact within_update h hchunks fun row hrow => (hrows row).1 hrow
  · have hnext : MemoryStore.updateNext sourceMachineId now state doc = (state.1, state.2.failed doc .data) := by
      unfold MemoryStore.updateNext
      rw [updateDocumentMetadata_refused hfits]
    rw [hnext, if_neg hfits]
    refine ⟨h, Prod.ext rfl (Prod.ext rfl (eq_true (failed_append.2 (Or.inr rfl)))), fun id hne => ?_⟩
    exact view_congr (fun _ _ => Iff.rfl) (fun _ _ => Iff.rfl) (failed_append.trans (or_iff_left hne))

private theorem view_removeNext (hexact : Set.InjOn sql.key S) {state : Tables sql V × Summary}
    (h : Within S state.1) (hid : doc.docId ∈ S) :
    Within S (MemoryStore.removeNext state doc).1 ∧
      view (MemoryStore.removeNext state doc) doc.docId =
        (none, fun _ => False, (view state doc.docId).2.2) ∧
      ∀ id, id ≠ doc.docId → view (MemoryStore.removeNext state doc) id = view state id := by
  have hrows := mem_documents_deleteDocument hexact h hid
  have hchunks := mem_chunks_deleteDocument hexact h hid
  refine ⟨within_deleteDocument h doc.docId, Prod.ext ?_ (Prod.ext (funext fun row => eq_false ?_) rfl),
    fun id hne => view_congr (fun row hrow => ?_) (fun row hrow => ?_) Iff.rfl⟩
  · refine Option.eq_none_iff_forall_not_mem.2 fun hash hhash => ?_
    obtain ⟨row, hrow, hmine, -⟩ := hashOf_eq_some.1 hhash
    exact ((hrows row).1 hrow).2 hmine
  · rintro ⟨hrow, hmine⟩
    exact ((hchunks row).1 hrow).2 hmine
  · exact (hrows row).trans (and_iff_left (by rw [hrow]; exact hne))
  · exact (hchunks row).trans (and_iff_left (by rw [hrow]; exact hne))

/-! ### A call on the tables -/

/-- What a call does to the documents of the batch, and to the others. -/
private structure Served (store : MemoryStore R V) (embedder : Embedder R) (sourceMachineId : Option String)
    (plan : List (SourceDocument × Verdict)) (vectorsByDoc : String → Option (List (List R)))
    (before after : Tables sql V × Summary) : Prop where
  others : ∀ id, (∀ wanted, id ∉ (having wanted plan).map SourceDocument.docId) → view after id = view before id
  written : ∀ doc ∈ having .write plan, view after doc.docId =
    viewWritten store sql embedder sourceMachineId vectorsByDoc doc (view before doc.docId)
  updated : ∀ doc ∈ having .update plan, view after doc.docId =
    viewUpdated sql sourceMachineId doc (view before doc.docId)
  removed : ∀ doc ∈ having .remove plan, view after doc.docId =
    (none, fun _ => False, (view before doc.docId).2.2)
  untouched : ∀ doc v, (doc, v) ∈ plan → v ≠ .write → v ≠ .update → v ≠ .remove →
    view after doc.docId = view before doc.docId

private theorem submitted_of_mem (hS : textsOf docs ⊆ S) (hseqs : ∀ doc ∈ docs, (doc.chunks.map ChunkInput.seq).Nodup)
    (hdoc : doc ∈ docs) : Submitted S doc where
  docId := hS ⟨doc, hdoc, Or.inl rfl⟩
  hash := hS ⟨doc, hdoc, Or.inr (Or.inl rfl)⟩
  chunkIds := fun chunk hchunk => hS ⟨doc, hdoc, Or.inr (Or.inr ⟨chunk, hchunk, rfl⟩)⟩
  seqs := hseqs doc hdoc

/-- Every document of a loop over distinct ids has its own vectors. -/
private theorem own_slice (hvectors : Castable store embedder)
    (hembed : embedDocuments docs embedder = some vectorsByDoc) (hdistinct : (docs.map SourceDocument.docId).Nodup)
    (hdoc : doc ∈ docs) (hchunks : doc.chunks ≠ []) : ∃ vectors, vectorsByDoc doc.docId = some vectors ∧
      vectors.length = doc.chunks.length ∧
      ∀ vector ∈ vectors, (store.castVector store.embeddingDim vector).isSome := by
  obtain ⟨before, after, rfl⟩ := List.append_of_mem hdoc
  rw [List.map_append, List.map_cons] at hdistinct
  have hlast := (List.nodup_cons.1 (List.nodup_append.1 hdistinct).2.1).1
  obtain ⟨slice, hslice, hlength, hembeds⟩ := embeds_slice hembed hchunks hlast
  refine ⟨slice, hslice, hlength, fun vector hvector => ?_⟩
  have hsnd : (doc.chunks.zip slice).map Prod.snd = slice := List.map_snd_zip (by rw [hlength])
  rw [← hsnd] at hvector
  obtain ⟨pair, hpair, rfl⟩ := List.mem_map.1 hvector
  obtain ⟨texts, vectors, hcall, hmem⟩ := hembeds pair hpair
  exact hvectors texts vectors hcall pair.2 (List.of_mem_zip hmem).2

variable {summary' : Summary}

private theorem served_ingestDocuments (hexact : Set.InjOn sql.key S) (hwithin : Within S db)
    (hS : textsOf docs ⊆ S) (hdocs : ∀ doc ∈ docs, FakeMemoryStore.Admissible doc)
    (hdistinct : (docs.map SourceDocument.docId).Nodup) (hvectors : Castable store embedder)
    (hrun : store.ingestDocuments db docs embedder sourceMachineId now = some (db', summary')) :
    ∃ vectorsByDoc, (∀ doc ∈ having .write (MemoryStore.plan db docs sourceMachineId), ∃ vectors,
        vectorsByDoc doc.docId = some vectors ∧ vectors.length = doc.chunks.length) ∧
      Served store embedder sourceMachineId (MemoryStore.plan db docs sourceMachineId) vectorsByDoc
        (db, Summary.planned (MemoryStore.plan db docs sourceMachineId)) (db', summary') := by
  unfold MemoryStore.ingestDocuments at hrun
  split at hrun
  case isFalse => cases hrun
  case isTrue =>
    obtain ⟨vectorsByDoc, hembed, hrun⟩ := Option.bind_eq_some_iff.1 hrun
    have hend : (having .remove (MemoryStore.plan db docs sourceMachineId)).foldl MemoryStore.removeNext
        ((having .update (MemoryStore.plan db docs sourceMachineId)).foldl (MemoryStore.updateNext sourceMachineId now)
          ((having .write (MemoryStore.plan db docs sourceMachineId)).foldl
            (store.writeNext embedder vectorsByDoc sourceMachineId now)
            (db, Summary.planned (MemoryStore.plan db docs sourceMachineId)))) = (db', summary') :=
      Option.some.inj hrun
    have hsubmitted := fun doc (hdoc : doc ∈ docs) =>
      submitted_of_mem hS (fun d hd => (hdocs d hd).2) hdoc
    have hplanned : ∀ wanted, ∀ doc ∈ having wanted (MemoryStore.plan db docs sourceMachineId), doc ∈ docs :=
      fun wanted doc hdoc => mem_of_mem_having hdoc
    have hnodup : ∀ wanted, ((having wanted (MemoryStore.plan db docs sourceMachineId)).map
        SourceDocument.docId).Nodup := fun wanted => nodup_having hdistinct wanted
    have hslice := fun doc (hdoc : doc ∈ having .write (MemoryStore.plan db docs sourceMachineId)) =>
      own_slice hvectors hembed (hnodup .write) hdoc (chunks_of_write hdoc)
    have hout : ∀ doc v wanted, (doc, v) ∈ MemoryStore.plan db docs sourceMachineId → wanted ≠ v →
        doc.docId ∉ (having wanted (MemoryStore.plan db docs sourceMachineId)).map SourceDocument.docId :=
      fun doc v wanted hentry hne => notMem_having hdistinct hentry hne
    let loaded := preload db (docs.map SourceDocument.docId) (docs.map SourceDocument.contentHash)
    have hstart : Writing S (seenAfter loaded.1 sourceMachineId loaded.2 docs) (docs.map SourceDocument.contentHash)
        db :=
      ⟨hwithin, fun row hrow hmem => seenAfter_of_some (preload_owner (docs.map SourceDocument.docId) hrow hmem
        fun hempty => by
          obtain ⟨doc, hdoc, hhash⟩ := List.mem_map.1 hmem
          exact (hdocs doc hdoc).1 (hhash.trans hempty))⟩
    obtain ⟨hwriting, hwritten, hrest⟩ :=
      Fold.foldl_distinct (f := store.writeNext embedder vectorsByDoc sourceMachineId now)
      (fun state : Tables sql V × Summary => Writing S (seenAfter loaded.1 sourceMachineId loaded.2 docs)
        (docs.map SourceDocument.contentHash) state.1) view
      SourceDocument.docId (viewWritten store sql embedder sourceMachineId vectorsByDoc)
      (s := (db, Summary.planned (MemoryStore.plan db docs sourceMachineId))) hstart
      (fun doc hdoc state hstate => by
        obtain ⟨vectors, hown, hlength, htaken⟩ := hslice doc hdoc
        exact view_writeNext hexact hstate (hsubmitted doc (hplanned _ doc hdoc))
          (List.mem_map_of_mem (hplanned _ doc hdoc)) (seenAfter_of_write hdoc) hown hlength htaken)
      (hnodup .write)
    obtain ⟨hwithin₁, hupdated, hrest₁⟩ := Fold.foldl_distinct (f := MemoryStore.updateNext sourceMachineId now)
      (fun state : Tables sql V × Summary => Within S state.1) view SourceDocument.docId
      (viewUpdated sql sourceMachineId) hwriting.within
      (fun doc hdoc state hstate => view_updateNext hexact hstate (hsubmitted doc (hplanned _ doc hdoc)).docId)
      (hnodup .update)
    obtain ⟨-, hremoved, hrest₂⟩ := Fold.foldl_distinct (f := MemoryStore.removeNext)
      (fun state : Tables sql V × Summary => Within S state.1) view SourceDocument.docId
      (fun _ before => (none, fun _ => False, before.2.2)) hwithin₁
      (fun doc hdoc state hstate => view_removeNext hexact hstate (hsubmitted doc (hplanned _ doc hdoc)).docId)
      (hnodup .remove)
    rw [hend] at hremoved hrest₂
    refine ⟨vectorsByDoc, fun doc hdoc => ?_, ⟨fun id hid => ?_, fun doc hdoc => ?_, fun doc hdoc => ?_,
      fun doc hdoc => ?_, fun doc v hentry hwrite hupdate hremove => ?_⟩⟩
    · obtain ⟨vectors, hown, hlength, -⟩ := hslice doc hdoc
      exact ⟨vectors, hown, hlength⟩
    · rw [hrest₂ id (hid .remove), hrest₁ id (hid .update), hrest id (hid .write)]
    · have hentry := mem_having.1 hdoc
      rw [hrest₂ _ (hout doc .write .remove hentry (by decide)), hrest₁ _ (hout doc .write .update hentry (by decide)),
        hwritten doc hdoc]
    · have hentry := mem_having.1 hdoc
      rw [hrest₂ _ (hout doc .update .remove hentry (by decide)), hupdated doc hdoc,
        hrest _ (hout doc .update .write hentry (by decide))]
    · have hentry := mem_having.1 hdoc
      rw [hremoved doc hdoc, hrest₁ _ (hout doc .remove .update hentry (by decide)),
        hrest _ (hout doc .remove .write hentry (by decide))]
    · rw [hrest₂ _ (hout doc v .remove hentry hremove.symm), hrest₁ _ (hout doc v .update hentry hupdate.symm),
        hrest _ (hout doc v .write hentry hwrite.symm)]

/-- The hashes of the tables behind a call, and what has failed. -/
private theorem batch_of_served (hdocs : ∀ doc ∈ docs, FakeMemoryStore.Admissible doc)
    (hdistinct : (docs.map SourceDocument.docId).Nodup)
    (h : Served store embedder sourceMachineId (MemoryStore.plan db docs sourceMachineId) vectorsByDoc
      (db, Summary.planned (MemoryStore.plan db docs sourceMachineId)) (db', summary')) :
    Batch (preload db (docs.map SourceDocument.docId) (docs.map SourceDocument.contentHash)).1
      (preload db (docs.map SourceDocument.docId) (docs.map SourceDocument.contentHash)).2 sourceMachineId
      (fun doc => Fits sql doc embedder sourceMachineId) docs (hashOf db) (hashOf db') where
  distinct := hdistinct
  index := by
    intro doc hdoc id
    rw [hashOf_eq_some]
    constructor
    · intro howner
      obtain ⟨row, hrow, hhash, hid⟩ := of_preload_owner howner
      exact ⟨row, hrow, hid, hhash⟩
    · rintro ⟨row, hrow, rfl, hhash⟩
      rw [← hhash]
      exact preload_owner _ hrow (hhash ▸ List.mem_map_of_mem hdoc) (hhash ▸ (hdocs doc hdoc).1)
  loaded := by
    intro doc _ row hrow
    obtain ⟨stored, hstored, rfl, hid, -⟩ := of_preload_existing hrow
    exact hashOf_eq_some.2 ⟨stored, hstored, hid, rfl⟩
  other := fun id hid => congrArg Prod.fst (h.others id fun _ hmem => hid (mem_map_docId_of_having hmem))
  written := by
    intro doc hdoc hfits
    have hview := h.written doc hdoc
    unfold viewWritten at hview
    rw [if_pos hfits] at hview
    exact congrArg Prod.fst hview
  refused := by
    intro doc hdoc hfits
    have hview := h.written doc hdoc
    unfold viewWritten at hview
    rw [if_neg hfits] at hview
    exact congrArg Prod.fst hview
  removed := fun doc hdoc => congrArg Prod.fst (h.removed doc hdoc)
  kept := by
    intro doc v hentry hwrite hremove
    by_cases hupdate : v = .update
    · subst hupdate
      have hview := congrArg Prod.fst (h.updated doc (mem_having.2 hentry))
      unfold viewUpdated at hview
      split at hview
      · exact hview
      · exact hview
    · exact congrArg Prod.fst (h.untouched doc v hentry hwrite hupdate hremove)

/-- Who has failed was to be written or to be updated. -/
private theorem mem_of_failed (hdoc : doc ∈ docs)
    (h : Served store embedder sourceMachineId (MemoryStore.plan db docs sourceMachineId) vectorsByDoc
      (db, Summary.planned (MemoryStore.plan db docs sourceMachineId)) (db', summary'))
    (hfailed : doc.docId ∈ summary'.documentsFailed.map Failure.docId) :
    doc ∈ having .write (MemoryStore.plan db docs sourceMachineId) ∨
      doc ∈ having .update (MemoryStore.plan db docs sourceMachineId) := by
  obtain ⟨⟨_, v⟩, hentry, rfl⟩ : ∃ entry ∈ MemoryStore.plan db docs sourceMachineId, entry.1 = doc := by
    have hfst : (MemoryStore.plan db docs sourceMachineId).map Prod.fst = docs := map_fst_classify _ _ _ _
    rw [← hfst] at hdoc
    exact List.mem_map.1 hdoc
  by_cases hwrite : v = .write
  · exact Or.inl (mem_having.2 (hwrite ▸ hentry))
  by_cases hupdate : v = .update
  · exact Or.inr (mem_having.2 (hupdate ▸ hentry))
  -- a document with another verdict is as far from `documents_failed` as before the loops
  have hfailed : (view (db', summary') _).2.2 := hfailed
  by_cases hremove : v = .remove
  · rw [h.removed _ (mem_having.2 (hremove ▸ hentry))] at hfailed
    cases hfailed
  · rw [h.untouched _ v hentry hwrite hupdate hremove] at hfailed
    cases hfailed

/-- A hash that a row has is retained with its chunks. -/
private theorem retains_iff_hashOf
    (hslices : ∀ doc ∈ having .write (MemoryStore.plan db docs sourceMachineId), ∃ vectors,
      vectorsByDoc doc.docId = some vectors ∧ vectors.length = doc.chunks.length)
    (h : Served store embedder sourceMachineId (MemoryStore.plan db docs sourceMachineId) vectorsByDoc
      (db, Summary.planned (MemoryStore.plan db docs sourceMachineId)) (db', summary')) :
    store.Retains embedder docs db db' hash ↔ ∃ id, hashOf db' id = some hash := by
  constructor
  · rintro ⟨row, hrow, hhash, -⟩
    exact ⟨row.documentId, hashOf_eq_some.2 ⟨row, hrow, rfl, hhash⟩⟩
  · rintro ⟨id, hid⟩
    obtain ⟨row, hrow, rfl, hhash⟩ := hashOf_eq_some.1 hid
    refine ⟨row, hrow, hhash, ?_⟩
    have hsame : (view (db', summary') row.documentId).1 =
          (view (db, Summary.planned (MemoryStore.plan db docs sourceMachineId)) row.documentId).1 ∧
        (view (db', summary') row.documentId).2.1 =
          (view (db, Summary.planned (MemoryStore.plan db docs sourceMachineId)) row.documentId).2.1 →
        (∃ old ∈ db.documents.rows, old.documentId = row.documentId ∧ old.contentHash = hash) ∧
          ∀ chunk, IsChunkOf db' row.documentId chunk ↔ IsChunkOf db row.documentId chunk := by
      rintro ⟨hprior, hchunks⟩
      exact ⟨hashOf_eq_some.1 (hprior.symm.trans hid), fun chunk => Iff.of_eq (congrFun hchunks chunk)⟩
    by_cases hmem : ∃ wanted, row.documentId ∈ (having wanted (MemoryStore.plan db docs sourceMachineId)).map
        SourceDocument.docId
    · obtain ⟨v, hmem⟩ := hmem
      obtain ⟨doc, hdoc, hdocId⟩ := List.mem_map.1 hmem
      rw [← hdocId] at hid hsame ⊢
      by_cases hwrite : v = .write
      · subst hwrite
        have hview := h.written doc hdoc
        unfold viewWritten at hview
        obtain ⟨vectors, hown, hlength⟩ := hslices doc hdoc
        rw [hown, Option.getD_some] at hview
        split at hview
        · have hhash' : some doc.contentHash = some hash := (congrArg Prod.fst hview).symm.trans hid
          refine Or.inl ⟨doc, mem_of_mem_having hdoc, rfl, Option.some.inj hhash', vectors, hlength, fun chunk => ?_⟩
          exact Iff.of_eq (congrFun (congrArg (fun v => v.2.1) hview) chunk)
        · have hprior := congrArg Prod.fst hview
          have hchunks := congrArg (fun v => v.2.1) hview
          exact Or.inr (hsame ⟨hprior, hchunks⟩)
      by_cases hupdate : v = .update
      · subst hupdate
        have hview := h.updated doc hdoc
        unfold viewUpdated at hview
        split at hview
        · exact Or.inr (hsame ⟨congrArg Prod.fst hview, congrArg (fun v => v.2.1) hview⟩)
        · have hprior := congrArg Prod.fst hview
          have hchunks := congrArg (fun v => v.2.1) hview
          exact Or.inr (hsame ⟨hprior, hchunks⟩)
      by_cases hremove : v = .remove
      · subst hremove
        have hnone : none = some hash := (congrArg Prod.fst (h.removed doc hdoc)).symm.trans hid
        cases hnone
      have hview := h.untouched doc v (mem_having.1 hdoc) hwrite hupdate hremove
      exact Or.inr (hsame ⟨congrArg Prod.fst hview, congrArg (fun v => v.2.1) hview⟩)
    · have hview := h.others row.documentId fun wanted hwanted => hmem ⟨wanted, hwanted⟩
      exact Or.inr (hsame ⟨congrArg Prod.fst hview, congrArg (fun v => v.2.1) hview⟩)

private theorem retained_iff_of_served (hdocs : ∀ doc ∈ docs, FakeMemoryStore.Admissible doc)
    (hdistinct : (docs.map SourceDocument.docId).Nodup)
    (hslices : ∀ doc ∈ having .write (MemoryStore.plan db docs sourceMachineId), ∃ vectors,
      vectorsByDoc doc.docId = some vectors ∧ vectors.length = doc.chunks.length)
    (h : Served store embedder sourceMachineId (MemoryStore.plan db docs sourceMachineId) vectorsByDoc
      (db, Summary.planned (MemoryStore.plan db docs sourceMachineId)) (db', summary')) :
    (∀ doc ∈ docs, doc.chunks ≠ [] → doc.docId ∉ summary'.documentsFailed.map Failure.docId →
        store.Retains embedder docs db db' doc.contentHash) ↔
      ∀ doc ∈ docs, doc.chunks ≠ [] →
        ¬ Lost (preload db (docs.map SourceDocument.docId) (docs.map SourceDocument.contentHash)).1
          (preload db (docs.map SourceDocument.docId) (docs.map SourceDocument.contentHash)).2
          (fun doc => Fits sql doc embedder sourceMachineId) docs doc := by
  have hbatch := batch_of_served hdocs hdistinct h
  refine forall_congr' fun doc => forall_congr' fun hdoc => forall_congr' fun hchunks => ?_
  rw [retains_iff_hashOf hslices h]
  constructor
  · intro hretained hlost
    have hwrite : doc ∉ having .write (MemoryStore.plan db docs sourceMachineId) :=
      fun hwrite => not_lost_of_write hbatch hwrite hlost
    refine (exists_owner_iff hbatch hdoc hchunks fun hmem => absurd hmem hwrite).1 (hretained fun hfailed => ?_) hlost
    -- what is to be updated has the content already
    have hupdate := (mem_of_failed hdoc h hfailed).resolve_left hwrite
    obtain ⟨before, _, after, -, hentry⟩ := mem_classify.1 (mem_having.1 hupdate)
    obtain ⟨rfl, hverdict⟩ := Prod.mk.inj hentry
    obtain ⟨-, row, hrow, hhash⟩ := of_verdict_update hverdict.symm
    have hprior := hbatch.loaded doc hdoc row hrow
    rw [hhash] at hprior
    exact not_lost_of_owner ((hbatch.index doc hdoc doc.docId).2 hprior) hlost
  · intro hkept hfailed
    refine (exists_owner_iff hbatch hdoc hchunks fun hwrite => ?_).2 hkept
    by_contra hfits
    have hview := h.written doc hwrite
    unfold viewWritten at hview
    rw [if_neg hfits] at hview
    exact hfailed (of_eq_true (congrArg (fun v => v.2.2) hview))

end Tables

/-! ### Both stores -/

variable {docs : List SourceDocument} {embedder : Embedder R} {sourceMachineId : Option String}

/-- **What a batch retains.**  In both stores the content of every document that has chunks and has not failed is in a
stored document behind the batch, if and only if no document of the batch is `Lost`. -/
theorem content_retained_iff (hdocs : ∀ doc ∈ docs, FakeMemoryStore.Admissible doc)
    (hdistinct : (docs.map SourceDocument.docId).Nodup) :
    (∀ (fake fake' : FakeMemoryStore R) versions summary, fake.Represents versions →
      fake.ingestDocuments docs embedder sourceMachineId = some (fake', summary) →
      ((∀ doc ∈ docs, doc.chunks ≠ [] → doc.docId ∉ summary.documentsFailed.map Failure.docId →
          fake'.Retains (FakeMemoryStore.record embedder versions (having .write (fake.plan docs sourceMachineId)))
            doc.contentHash) ↔
        ∀ doc ∈ docs, doc.chunks ≠ [] → ¬ Lost fake.documents fake.hashOwner (fun _ => True) docs doc)) ∧
    ∀ (S : Set String) (store : MemoryStore R V) (db db' : Tables sql V) now summary, Set.InjOn sql.key S →
      Within S db → textsOf docs ⊆ S → Castable store embedder →
      store.ingestDocuments db docs embedder sourceMachineId now = some (db', summary) →
      ((∀ doc ∈ docs, doc.chunks ≠ [] → doc.docId ∉ summary.documentsFailed.map Failure.docId →
          store.Retains embedder docs db db' doc.contentHash) ↔
        ∀ doc ∈ docs, doc.chunks ≠ [] →
          ¬ Lost (preload db (docs.map SourceDocument.docId) (docs.map SourceDocument.contentHash)).1
            (preload db (docs.map SourceDocument.docId) (docs.map SourceDocument.contentHash)).2
            (fun doc => Fits sql doc embedder sourceMachineId) docs doc) := by
  constructor
  · intro fake fake' versions summary h hrun
    exact FakeMemoryStore.retained_iff h hdocs hdistinct hrun
  · intro S store db db' now summary hexact hwithin hS hvectors hrun
    obtain ⟨vectorsByDoc, hslices, hserved⟩ :=
      served_ingestDocuments hexact hwithin hS hdocs hdistinct hvectors hrun
    exact retained_iff_of_served hdocs hdistinct hslices hserved

/-- Two calls on the empty double. -/
def FakeMemoryStore.twoCalls (first second : List SourceDocument) : Option (FakeMemoryStore Int × Summary) :=
  ((FakeMemoryStore.empty 1).ingestDocuments first letterCount none).bind fun state =>
    state.1.ingestDocuments second letterCount none

/-- Two calls on the empty tables. -/
def MemoryStore.twoCalls (first second : List SourceDocument) : Option (Tables Sql.sample (List Int) × Summary) :=
  (letterStore.ingestDocuments Tables.empty first letterCount none noon).bind fun state =>
    letterStore.ingestDocuments state.1 second letterCount none noon

private theorem admissible_note (docId contentHash : String) (h : contentHash ≠ "") :
    FakeMemoryStore.Admissible (note docId contentHash) :=
  ⟨h, List.nodup_singleton _⟩

private theorem represents_firstCall {fake : FakeMemoryStore Int} {summary : Summary}
    (hrun : (FakeMemoryStore.empty 1).ingestDocuments [note "a" "one"] letterCount none = some (fake, summary)) :
    ∃ versions, fake.Represents versions :=
  ⟨_, FakeMemoryStore.represents_ingestDocuments (FakeMemoryStore.represents_calls 1 [] (by simp))
    (fun doc hdoc => List.mem_singleton.1 hdoc ▸ admissible_note "a" "one" (by decide)) hrun⟩

private def retainedTexts : List String := ["a", "b", "c", "one", "two", "mem:a:0", "mem:b:0", "mem:c:0"]

/-- Nothing is lost of a batch that brings one content of document `a` and one that nobody has. -/
private theorem not_lost_notes {existing : String → Option Document} {owner : String → Option String}
    {accepts : SourceDocument → Prop} (hone : owner "one" = some "a") (htwo : owner "two" = none) :
    ∀ doc ∈ [note "b" "one", note "c" "two"], doc.chunks ≠ [] →
      ¬ Lost existing owner accepts [note "b" "one", note "c" "two"] doc := by
  have hids : ∀ other ∈ [note "b" "one", note "c" "two"], some "a" ≠ some other.docId := by decide +kernel
  intro doc hdoc _ hlost
  simp only [List.mem_cons, List.not_mem_nil, or_false] at hdoc
  rcases hdoc with rfl | rfl
  · -- its owner is no document of the batch
    rcases hlost with ⟨other, hother, howner, -⟩ | ⟨hnone, -⟩
    · exact hids other hother (hone.symm.trans howner)
    · cases hone.symm.trans hnone
  · -- the first document to bring it is this one
    rcases hlost with ⟨other, -, howner, -⟩ | ⟨-, first, hfirst, hne, -⟩
    · cases htwo.symm.trans howner
    · have hfind : [note "b" "one", note "c" "two"].find? (carries (note "c" "two").contentHash) =
          some (note "c" "two") := rfl
      exact hne (Option.some.inj (hfirst.symm.trans hfind) ▸ rfl)

/-- A document whose content another one has, and one with content of its own. -/
theorem content_retained_reconciled :
    (∃ (fake fake' : FakeMemoryStore Int) (versions versions' : String → Option (Version Int)) (summary : Summary),
      fake.Represents versions ∧
      fake.ingestDocuments [note "b" "one", note "c" "two"] letterCount none = some (fake', summary) ∧
      ∀ doc ∈ [note "b" "one", note "c" "two"], doc.chunks ≠ [] →
        doc.docId ∉ summary.documentsFailed.map Failure.docId → fake'.Retains versions' doc.contentHash) ∧
    ∃ (db db' : Tables Sql.sample (List Int)) (summary : Summary),
      letterStore.ingestDocuments db [note "b" "one", note "c" "two"] letterCount none noon = some (db', summary) ∧
      ∀ doc ∈ [note "b" "one", note "c" "two"], doc.chunks ≠ [] →
        doc.docId ∉ summary.documentsFailed.map Failure.docId →
        letterStore.Retains letterCount [note "b" "one", note "c" "two"] db db' doc.contentHash := by
  have hdocs : ∀ doc ∈ [note "b" "one", note "c" "two"], FakeMemoryStore.Admissible doc := by
    intro doc hdoc
    simp only [List.mem_cons, List.not_mem_nil, or_false] at hdoc
    rcases hdoc with rfl | rfl
    · exact admissible_note "b" "one" (by decide)
    · exact admissible_note "c" "two" (by decide)
  have hkeys : ∀ s ∈ retainedTexts, ∀ t ∈ retainedTexts, Sql.sample.key s = Sql.sample.key t → s = t := by
    decide +kernel
  have htexts : textsOf [note "b" "one", note "c" "two"] ⊆ {s | s ∈ retainedTexts} := by
    rintro s ⟨doc, hdoc, hs⟩
    have hall : ∀ doc ∈ [note "b" "one", note "c" "two"], doc.docId ∈ retainedTexts ∧
        doc.contentHash ∈ retainedTexts ∧ ∀ chunk ∈ doc.chunks, chunkId doc.docId chunk.seq ∈ retainedTexts := by
      decide +kernel
    obtain ⟨hid, hhash, hchunks⟩ := hall doc hdoc
    rcases hs with rfl | rfl | ⟨chunk, hchunk, rfl⟩
    · exact hid
    · exact hhash
    · exact hchunks chunk hchunk
  constructor
  · obtain ⟨⟨fake, summary₁⟩, hfirst, howner⟩ := (Option.any_eq_true _ _).1
      (by decide +kernel : ((FakeMemoryStore.empty 1).ingestDocuments [note "a" "one"] letterCount none).any
        (fun state => decide (state.1.hashOwner "one" = some "a" ∧ state.1.hashOwner "two" = none)) = true)
    obtain ⟨hone, htwo⟩ := of_decide_eq_true howner
    obtain ⟨⟨fake', summary⟩, hrun, -⟩ := (Option.any_eq_true _ _).1
      (by decide +kernel :
        (FakeMemoryStore.twoCalls [note "a" "one"] [note "b" "one", note "c" "two"]).any (fun _ => true) = true)
    obtain ⟨_, hfirst', hsecond⟩ := Option.bind_eq_some_iff.1 hrun
    obtain rfl := Option.some.inj (hfirst.symm.trans hfirst')
    obtain ⟨versions, hversions⟩ := represents_firstCall hfirst
    exact ⟨fake, fake', versions, _, summary, hversions, hsecond,
      ((@content_retained_iff Int (List Int) Sql.sample _ letterCount none hdocs (by decide)).1 fake fake' versions
        summary hversions hsecond).2 (not_lost_notes hone htwo)⟩
  · obtain ⟨⟨db, summary₁⟩, hfirst, hwithin⟩ := (Option.any_eq_true _ _).1
      (by decide +kernel : (letterStore.ingestDocuments (Tables.empty : Tables Sql.sample (List Int)) [note "a" "one"]
        letterCount none noon).any (fun state =>
          decide ((∀ row ∈ state.1.documents.rows, row.documentId ∈ retainedTexts ∧ row.contentHash ∈ retainedTexts) ∧
            (∀ row ∈ state.1.chunks.rows, row.chunkId ∈ retainedTexts ∧ row.documentId ∈ retainedTexts ∧
              row.chunkId = chunkId row.documentId row.seq) ∧
            (preload state.1 ["b", "c"] ["one", "two"]).2 "one" = some "a" ∧
            (preload state.1 ["b", "c"] ["one", "two"]).2 "two" = none)) = true)
    obtain ⟨hdocuments, hchunks, hone, htwo⟩ := of_decide_eq_true hwithin
    obtain ⟨⟨db', summary⟩, hrun, -⟩ := (Option.any_eq_true _ _).1
      (by decide +kernel :
        (MemoryStore.twoCalls [note "a" "one"] [note "b" "one", note "c" "two"]).any (fun _ => true) = true)
    obtain ⟨_, hfirst', hsecond⟩ := Option.bind_eq_some_iff.1 hrun
    obtain rfl := Option.some.inj (hfirst.symm.trans hfirst')
    exact ⟨db, db', summary, hsecond, ((content_retained_iff hdocs (by decide)).2 {s | s ∈ retainedTexts} letterStore
      db db' noon summary (fun s hs t ht => hkeys s hs t ht) ⟨hdocuments, hchunks⟩ htexts castable_letterCount
        hsecond).2 (not_lost_notes hone htwo)⟩

/-- A document is given new content, and by the same call a second document comes with the content that it had.  Nothing
fails, and the content is in no document of either store. -/
theorem content_lost :
    (∃ fake summary, FakeMemoryStore.twoCalls [note "a" "one"] [note "a" "two", note "b" "one"] = some (fake, summary) ∧
      summary.documentsFailed = [] ∧ ∀ id row, fake.documents id = some row → row.contentHash ≠ "one") ∧
    ∃ db summary, MemoryStore.twoCalls [note "a" "one"] [note "a" "two", note "b" "one"] = some (db, summary) ∧
      summary.documentsFailed = [] ∧ ∀ row ∈ db.documents.rows, row.contentHash ≠ "one" := by
  constructor
  · obtain ⟨⟨fake', summary⟩, hrun, hend⟩ := (Option.any_eq_true _ _).1
      (by decide +kernel : (FakeMemoryStore.twoCalls [note "a" "one"] [note "a" "two", note "b" "one"]).any
        (fun state => state.2.documentsFailed.isEmpty && (state.1.hashOwner "one").isNone) = true)
    obtain ⟨hfailed, howner⟩ := Bool.and_eq_true_iff.1 hend
    obtain ⟨⟨fake, summary₁⟩, hfirst, hsecond⟩ := Option.bind_eq_some_iff.1 hrun
    obtain ⟨versions, hversions⟩ := represents_firstCall hfirst
    have hafter := FakeMemoryStore.represents_ingestDocuments hversions (fun doc hdoc => by
      simp only [List.mem_cons, List.not_mem_nil, or_false] at hdoc
      rcases hdoc with rfl | rfl
      · exact admissible_note "a" "two" (by decide)
      · exact admissible_note "b" "one" (by decide)) hsecond
    refine ⟨fake', summary, hrun, List.isEmpty_iff.1 hfailed, fun id row hrow hone => ?_⟩
    rw [(hafter.index "one" id).2 ⟨row, hrow, hone⟩] at howner
    cases howner
  · obtain ⟨⟨db, summary⟩, hrun, hend⟩ := (Option.any_eq_true _ _).1
      (by decide +kernel : (MemoryStore.twoCalls [note "a" "one"] [note "a" "two", note "b" "one"]).any
        (fun state => state.2.documentsFailed.isEmpty &&
          decide (∀ row ∈ state.1.documents.rows, row.contentHash ≠ "one")) = true)
    obtain ⟨hfailed, hrows⟩ := Bool.and_eq_true_iff.1 hend
    exact ⟨db, summary, hrun, List.isEmpty_iff.1 hfailed, of_decide_eq_true hrows⟩

end AgentOS.Central
