import AgentOS.Memory.Etl
import AgentOS.Memory.Statements

/-!
# The loop of the migration

* `of_writeDocument`: a transaction that succeeds appends the row of its document and a row for each of its chunks.
* `loadStep`: what a round of `_load` can do.
-/

namespace AgentOS.Etl

open Central (StoredChunk StoredDocument Tables)

variable {sql : Sql} {V : Type} {store : Central.MemoryStore PackedFloat V} {server : Server sql V}
  {sourceMachineId : Option String} {db db' : Tables sql V} {doc : ExtractedDocument}
  {existing : String → Option Central.Document}

/-! ### Transactions -/

theorem of_insertDocumentEtl {row : StoredDocument} (h : insertDocumentEtl db row = .ok db') :
    db'.documents.rows = db.documents.rows ++ [row] ∧ db'.chunks = db.chunks ∧
      db.documents.lookup (sql.key row.documentId) = none := by
  unfold insertDocumentEtl at h
  split at h
  case isFalse => cases h
  case isTrue =>
    split at h
    case isTrue => cases h
    case isFalse =>
      split at h
      case h_1 => cases h
      case h_2 documents hinsert =>
        obtain rfl := Except.ok.inj h
        refine ⟨Table.insert_rows hinsert, rfl, ?_⟩
        rw [← Option.not_isSome_iff_eq_none, ← Table.insert_eq_none, hinsert]
        exact Option.some_ne_none documents

private theorem of_insertChunk {row : StoredChunk V} (h : db.insertChunk row = .ok db') :
    db'.documents = db.documents ∧ db'.chunks.rows = db.chunks.rows ++ [row] := by
  unfold Tables.insertChunk at h
  split at h
  case isFalse => cases h
  case isTrue =>
    split at h
    case isFalse => cases h
    case isTrue =>
      split at h
      case h_1 => cases h
      case h_2 chunks hinsert =>
        obtain rfl := Except.ok.inj h
        exact ⟨rfl, Table.insert_rows hinsert⟩

/-- The row of a chunk that is written with its vector. -/
def IsRowOf (store : Central.MemoryStore PackedFloat V) (docId : String) (pair : ChunkInput × List PackedFloat)
    (row : StoredChunk V) : Prop :=
  row.documentId = docId ∧ row.seq = pair.1.seq ∧ row.chunkText = pair.1.text ∧
    store.castVector store.embeddingDim pair.2 = some row.embedding

theorem of_insertChunks {embedder : Embedder PackedFloat} {source : SourceDocument}
    {pairs : List (ChunkInput × List PackedFloat)} (h : pairs.foldlM (store.insertNext source embedder) db = .ok db') :
    db'.documents = db.documents ∧ ∃ rows, db'.chunks.rows = db.chunks.rows ++ rows ∧
      List.Forall₂ (IsRowOf store source.docId) pairs rows := by
  induction pairs generalizing db with
  | nil =>
    obtain rfl := Except.ok.inj h
    exact ⟨rfl, [], (List.append_nil _).symm, .nil⟩
  | cons pair pairs ih =>
    rw [List.foldlM_cons] at h
    obtain ⟨mid, hmid, hrest⟩ := Except.bind_eq_ok.1 h
    obtain ⟨hdocuments, rows, hrows, hall⟩ := ih hrest
    unfold Central.MemoryStore.insertNext at hmid
    split at hmid
    case h_1 => cases hmid
    case h_2 embedding hcast =>
      obtain ⟨hmidDocuments, hmidRows⟩ := of_insertChunk hmid
      refine ⟨hdocuments.trans hmidDocuments,
        Central.MemoryStore.chunkRow sql.reprFloat source embedder pair.1 embedding :: rows, ?_,
        .cons ⟨rfl, rfl, rfl, hcast⟩ hall⟩
      rw [hrows, hmidRows, List.append_assoc]
      rfl

/-- A transaction that succeeds appends the row of its document, which has not been there, and the rows of its
chunks. -/
theorem of_writeDocument (h : writeDocument store server sourceMachineId db doc = .ok db') :
    db'.documents.rows = db.documents.rows ++ [storedDocument server sourceMachineId doc] ∧
      db.documents.lookup (sql.key doc.docId) = none ∧
      ∃ rows, db'.chunks.rows = db.chunks.rows ++ rows ∧ List.Forall₂ (IsRowOf store doc.docId)
        ((sourceDocument doc).chunks.zip (doc.chunks.filterMap ExtractedChunk.vector)) rows := by
  unfold writeDocument at h
  obtain ⟨mid, hmid, hchunks⟩ := Except.bind_eq_ok.1 h
  obtain ⟨hdocuments, hsame, hfresh⟩ := of_insertDocumentEtl hmid
  obtain ⟨hkeep, rows, hrows, hall⟩ := of_insertChunks hchunks
  refine ⟨by rw [hkeep, hdocuments], hfresh, rows, ?_, hall⟩
  rw [hrows, hsame]

/-! ### Rounds -/

/-- What a round can do about a document. -/
inductive LoadStep (store : Central.MemoryStore PackedFloat V) (server : Server sql V) (sourceMachineId : Option String)
    (existing : String → Option Central.Document) (state : LoadState sql V) (doc : ExtractedDocument) :
    LoadState sql V → Prop
  | skipped (hknown : known existing state.seenHashes doc = true) :
    LoadStep store server sourceMachineId existing state doc
      { state with verdicts := state.verdicts ++ [(doc, .skipped)] }
  | invalid (hnew : ¬ known existing state.seenHashes doc = true) {reason : String}
    (hinvalid : validateDocument doc store.embeddingDim = some reason) :
    LoadStep store server sourceMachineId existing state doc
      { state with verdicts := state.verdicts ++ [(doc, .invalid reason)] }
  | raised (hnew : ¬ known existing state.seenHashes doc = true)
    (hvalid : validateDocument doc store.embeddingDim = none)
    (hraised : server.refuses state.db doc = true ∨
      ∃ error, writeDocument store server sourceMachineId state.db doc = .error error) :
    LoadStep store server sourceMachineId existing state doc
      { state with verdicts := state.verdicts ++ [(doc, .raised)] }
  | inserted (hnew : ¬ known existing state.seenHashes doc = true)
    (hvalid : validateDocument doc store.embeddingDim = none) {db : Tables sql V}
    (hwrite : writeDocument store server sourceMachineId state.db doc = .ok db)
    (htaken : ¬ server.refuses state.db doc = true) {hash : String} (hhash : hashOf doc = some hash) :
    LoadStep store server sourceMachineId existing state doc
      { db := db
        seenHashes := Function.update state.seenHashes hash (some doc.docId)
        verdicts := state.verdicts ++ [(doc, .inserted)] }

/-- A document that is valid has a hash. -/
theorem exists_hash (hvalid : validateDocument doc store.embeddingDim = none) :
    ∃ hash, hashOf doc = some hash ∧ doc.contentHash.getD "" = hash := by
  unfold validateDocument at hvalid
  split at hvalid
  case isTrue => cases hvalid
  case isFalse hne =>
    unfold hashOf
    cases hhash : doc.contentHash with
    | none =>
      rw [hhash] at hne
      exact absurd rfl hne
    | some hash =>
      rw [hhash] at hne
      refine ⟨hash, ?_, rfl⟩
      rw [Option.filter_some, if_pos (by simpa using hne)]

theorem loadStep (store : Central.MemoryStore PackedFloat V) (server : Server sql V) (sourceMachineId : Option String)
    (existing : String → Option Central.Document) (state : LoadState sql V) (doc : ExtractedDocument) :
    ∃ next, loadNext store server sourceMachineId existing state doc = next ∧
      LoadStep store server sourceMachineId existing state doc next := by
  refine ⟨_, rfl, ?_⟩
  unfold loadNext
  split
  case isTrue hknown => exact .skipped hknown
  case isFalse hnew =>
    split
    case h_1 reason hinvalid => exact .invalid hnew hinvalid
    case h_2 hvalid =>
      split
      case h_1 error herror => exact .raised hnew hvalid (Or.inr ⟨error, herror⟩)
      case h_2 db hwrite =>
        split
        case isTrue hrefuses => exact .raised hnew hvalid (Or.inl hrefuses)
        case isFalse htaken =>
          obtain ⟨hash, hhash, -⟩ := exists_hash hvalid
          rw [hhash]
          exact .inserted hnew hvalid hwrite htaken hhash

/-- A round keeps the verdicts on the documents before. -/
theorem verdicts_loadNext (store : Central.MemoryStore PackedFloat V) (server : Server sql V)
    (sourceMachineId : Option String) (existing : String → Option Central.Document) (state : LoadState sql V)
    (doc : ExtractedDocument) : ∃ verdict,
    (loadNext store server sourceMachineId existing state doc).verdicts = state.verdicts ++ [(doc, verdict)] := by
  obtain ⟨next, hnext, hstep⟩ := loadStep store server sourceMachineId existing state doc
  rw [hnext]
  cases hstep with
  | skipped => exact ⟨_, rfl⟩
  | invalid => exact ⟨_, rfl⟩
  | raised => exact ⟨_, rfl⟩
  | inserted => exact ⟨_, rfl⟩

theorem verdicts_foldl (store : Central.MemoryStore PackedFloat V) (server : Server sql V)
    (sourceMachineId : Option String) (existing : String → Option Central.Document) (state : LoadState sql V)
    (docs : List ExtractedDocument) :
    ∃ verdicts, (docs.foldl (loadNext store server sourceMachineId existing) state).verdicts =
      state.verdicts ++ verdicts ∧ verdicts.map Prod.fst = docs := by
  induction docs generalizing state with
  | nil => exact ⟨[], (List.append_nil _).symm, rfl⟩
  | cons doc docs ih =>
    obtain ⟨verdict, hverdict⟩ := verdicts_loadNext store server sourceMachineId existing state doc
    obtain ⟨verdicts, hverdicts, hdocs⟩ := ih (loadNext store server sourceMachineId existing state doc)
    refine ⟨(doc, verdict) :: verdicts, ?_, by rw [List.map_cons, hdocs]⟩
    rw [List.foldl_cons, hverdicts, hverdict, List.append_assoc]
    rfl

/-! ### Samples -/

/-- A store of vectors of one float. -/
def oneFloat : Central.MemoryStore PackedFloat (List PackedFloat) where
  embeddingDim := 1
  castVector dim vector := if vector.length = dim then some vector else none

/-- A server that refuses nothing. -/
def willing : Server Sql.sample (List PackedFloat) where
  now := Central.noon
  tryConvert _ := none
  refuses _ _ := false

end AgentOS.Etl
