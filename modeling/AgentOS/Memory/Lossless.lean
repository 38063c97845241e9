import AgentOS.Memory.Load

/-!
# What the migration loses

A load keeps what the corpus has if and only if no document that it inserts has a chunk without a vector
(`lossless_iff`).  A document with such a chunk and another one that has a vector passes the validation, and its
chunks without a vector are left out (`chunk_left_out`).
-/

namespace AgentOS.Etl

open Central (StoredChunk StoredDocument Tables)

variable {sql : Sql} {store : Central.MemoryStore PackedFloat (List PackedFloat)}
  {server : Server sql (List PackedFloat)} {sourceMachineId : Option String} {db : Tables sql (List PackedFloat)}
  {doc : ExtractedDocument} {existing : String → Option Central.Document} {jsonLoads : String → Option Json}
  {corpus : Corpus}

/-! ### Chunks -/

/-- The chunks of a document of the corpus: ordinal, text and vector. -/
def localChunks (corpus : Corpus) (docId : String) : List (Int × String × Option (List PackedFloat)) :=
  (corpus.chunks.rows.filter fun row => row.docId = docId).map fun row => (row.seq, row.text, vectorOf corpus row)

/-- The chunks of a document of the hub. -/
def hubChunks (db : Tables sql (List PackedFloat)) (docId : String) : List (Int × String × Option (List PackedFloat)) :=
  (db.chunks.rows.filter fun row => row.documentId = docId).map fun row => (row.seq, row.chunkText, some row.embedding)

/-- The chunks of an extracted document. -/
def extractedChunks (doc : ExtractedDocument) : List (Int × String × Option (List PackedFloat)) :=
  doc.chunks.map fun c => (c.seq, c.text, c.vector)

/-- Nothing of the document has been added. -/
def LeavesNothing (before after : Tables sql (List PackedFloat)) (docId : String) : Prop :=
  (∀ row ∈ after.documents.rows, row.documentId = docId → row ∈ before.documents.rows) ∧
    ∀ row ∈ after.chunks.rows, row.documentId = docId → row ∈ before.chunks.rows

/-- A document that counts as inserted has the chunks of the corpus, and one that is not there and has a chunk without a
vector counts as failed and leaves nothing. -/
structure Lossless (corpus : Corpus) (before : Tables sql (List PackedFloat))
    (state : LoadState sql (List PackedFloat)) : Prop where
  inserted : ∀ doc, (doc, .inserted) ∈ state.verdicts →
    (hubChunks state.db doc.docId).Perm (localChunks corpus doc.docId)
  impossible : ∀ entry ∈ state.verdicts, (∃ chunk ∈ localChunks corpus entry.1.docId, chunk.2.2 = none) →
    entry.2 ≠ .skipped →
    ((∃ reason, entry.2 = .invalid reason) ∨ entry.2 = .raised) ∧ LeavesNothing before state.db entry.1.docId

/-- Before a round: the document is there, or it is invalid, or its transaction raises, or all its chunks have
vectors. -/
def Safe (store : Central.MemoryStore PackedFloat (List PackedFloat)) (server : Server sql (List PackedFloat))
    (sourceMachineId : Option String) (existing : String → Option Central.Document)
    (state : LoadState sql (List PackedFloat)) (doc : ExtractedDocument) : Prop :=
  known existing state.seenHashes doc = true ∨ validateDocument doc store.embeddingDim ≠ none ∨
    server.refuses state.db doc = true ∨
    (∃ error, writeDocument store server sourceMachineId state.db doc = .error error) ∨
    ∀ chunk ∈ doc.chunks, chunk.vector.isSome = true

theorem extractedChunks_perm {row : DocumentRow} :
    (extractedChunks (extractDocument jsonLoads corpus row)).Perm (localChunks corpus row.docId) := by
  have hrows : (extractedChunks (extractDocument jsonLoads corpus row)) =
      ((chunkRows corpus).filter fun chunk => chunk.docId = row.docId).map
        fun chunk => (chunk.seq, chunk.text, vectorOf corpus chunk) := by
    show List.map _ (List.map _ _) = _
    rw [List.map_map]
    rfl
  rw [hrows]
  exact ((List.mergeSort_perm _ _).filter _).map _

/-- Where all chunks have vectors, each of them is written with its own. -/
private theorem pairs_eq (hall : ∀ chunk ∈ doc.chunks, chunk.vector.isSome = true) :
    ((sourceDocument doc).chunks.zip (doc.chunks.filterMap ExtractedChunk.vector)).map
      (fun pair => (pair.1.seq, pair.1.text, some pair.2)) = extractedChunks doc := by
  have husable : usableChunks doc = doc.chunks := List.filter_eq_self.2 hall
  show (((usableChunks doc).map fun c => (⟨c.seq, c.text, c.metaDict⟩ : ChunkInput)).zip _).map _ = doc.chunks.map _
  rw [husable]
  generalize doc.chunks = chunks at hall
  induction chunks with
  | nil => rfl
  | cons c chunks ih =>
    obtain ⟨vector, hvector⟩ := Option.isSome_iff_exists.1 (hall c List.mem_cons_self)
    rw [List.filterMap_cons_some hvector, List.map_cons, List.zip_cons_cons, List.map_cons, List.map_cons, hvector,
      ih fun c' hc' => hall c' (List.mem_cons_of_mem _ hc')]

/-- The rows that a transaction appends show the pairs that it writes. -/
private theorem rows_eq (hcast : ∀ n vector embedding, store.castVector n vector = some embedding → embedding = vector)
    {docId : String} {pairs : List (ChunkInput × List PackedFloat)} {rows : List (StoredChunk (List PackedFloat))}
    (h : List.Forall₂ (IsRowOf store docId) pairs rows) :
    rows.map (fun row => (row.seq, row.chunkText, some row.embedding)) =
        pairs.map (fun pair => (pair.1.seq, pair.1.text, some pair.2)) ∧ ∀ row ∈ rows, row.documentId = docId := by
  induction h with
  | nil => exact ⟨rfl, by simp⟩
  | @cons pair row pairs rows hrow _ ih =>
    obtain ⟨hdoc, hseq, htext, hvector⟩ := hrow
    refine ⟨?_, fun row' hrow' => ?_⟩
    · rw [List.map_cons, List.map_cons, ih.1, hseq, htext, hcast _ _ _ hvector]
    · rcases List.mem_cons.1 hrow' with rfl | hrow'
      · exact hdoc
      · exact ih.2 row' hrow'

/-! ### Rounds -/

/-- Behind a part of a run: what is inserted has all its chunks, and nothing else has been added. -/
private structure Migrated (db : Tables sql (List PackedFloat)) (done : List ExtractedDocument)
    (state : LoadState sql (List PackedFloat)) : Prop where
  processed : state.verdicts.map Prod.fst = done
  complete : ∀ doc, (doc, .inserted) ∈ state.verdicts → ∀ chunk ∈ doc.chunks, chunk.vector.isSome = true
  inserted : ∀ doc, (doc, .inserted) ∈ state.verdicts → hubChunks state.db doc.docId = extractedChunks doc
  documents : ∀ row ∈ state.db.documents.rows,
    row ∈ db.documents.rows ∨ ∃ doc, (doc, .inserted) ∈ state.verdicts ∧ row.documentId = doc.docId
  chunks : ∀ row ∈ state.db.chunks.rows,
    row ∈ db.chunks.rows ∨ ∃ doc, (doc, .inserted) ∈ state.verdicts ∧ row.documentId = doc.docId

private theorem mem_append_verdict {verdicts : List (ExtractedDocument × Verdict)} {verdict : Verdict}
    (hverdict : verdict ≠ .inserted) {doc' : ExtractedDocument} :
    (doc', .inserted) ∈ verdicts ++ [(doc, verdict)] ↔ (doc', .inserted) ∈ verdicts := by
  constructor
  · intro h
    rcases List.mem_append.1 h with h | h
    · exact h
    · exact absurd (Prod.mk.inj (List.mem_singleton.1 h)).2.symm hverdict
  · exact fun h => List.mem_append_left _ h

/-- A round that inserts nothing. -/
private theorem Migrated.append {done : List ExtractedDocument} {state : LoadState sql (List PackedFloat)}
    (h : Migrated db done state) {verdict : Verdict} (hverdict : verdict ≠ .inserted) :
    Migrated db (done ++ [doc]) { state with verdicts := state.verdicts ++ [(doc, verdict)] } where
  processed := by rw [List.map_append, h.processed]; rfl
  complete := fun doc' hdoc' => h.complete doc' ((mem_append_verdict hverdict).1 hdoc')
  inserted := fun doc' hdoc' => h.inserted doc' ((mem_append_verdict hverdict).1 hdoc')
  documents := fun row hrow =>
    (h.documents row hrow).imp_right (Exists.imp fun _ => And.imp_left (mem_append_verdict hverdict).2)
  chunks := fun row hrow =>
    (h.chunks row hrow).imp_right (Exists.imp fun _ => And.imp_left (mem_append_verdict hverdict).2)

/-- A document whose row is not there has no chunks. -/
private theorem hubChunks_of_fresh (h : db.documents.lookup (sql.key doc.docId) = none) :
    db.chunks.rows.filter (fun row => row.documentId = doc.docId) = [] := by
  rw [List.filter_eq_nil_iff]
  intro row hrow hid
  have hsome := db.references row hrow
  rw [of_decide_eq_true hid, h] at hsome
  cases hsome

private theorem migrated_loadNext (hcast : ∀ n vector embedding, store.castVector n vector = some embedding →
      embedding = vector) {done : List ExtractedDocument} {state : LoadState sql (List PackedFloat)}
    (hnodup : ((done ++ [doc]).map ExtractedDocument.docId).Nodup)
    (hsafe : Safe store server sourceMachineId existing state doc) (h : Migrated db done state) :
    Migrated db (done ++ [doc]) (loadNext store server sourceMachineId existing state doc) := by
  obtain ⟨next, hnext, hstep⟩ := loadStep store server sourceMachineId existing state doc
  rw [hnext]
  cases hstep with
  | skipped => exact h.append (by simp)
  | invalid => exact h.append (by simp)
  | raised => exact h.append (by simp)
  | @inserted hnew hvalid db' hwrite htaken hash hhash =>
    have hall : ∀ chunk ∈ doc.chunks, chunk.vector.isSome = true := by
      rcases hsafe with hknown | hinvalid | hrefuses | ⟨error, herror⟩ | hall
      · exact absurd hknown hnew
      · exact absurd hvalid hinvalid
      · exact absurd hrefuses htaken
      · rw [hwrite] at herror
        cases herror
      · exact hall
    obtain ⟨hdocuments, hfresh, rows, hchunks, hrows⟩ := of_writeDocument hwrite
    obtain ⟨hshown, hids⟩ := rows_eq hcast hrows
    have hother : ∀ doc', (doc', Verdict.inserted) ∈ state.verdicts → doc'.docId ≠ doc.docId := by
      intro doc' hdoc' hid
      have hmem : doc' ∈ done := h.processed ▸ List.mem_map_of_mem (f := Prod.fst) hdoc'
      rw [List.map_append, List.nodup_append] at hnodup
      exact hnodup.2.2 _ (List.mem_map_of_mem hmem) _ List.mem_cons_self hid
    refine ⟨by rw [List.map_append, h.processed]; rfl, fun doc' hdoc' => ?_, fun doc' hdoc' => ?_, fun row hrow => ?_,
      fun row hrow => ?_⟩
    · rcases List.mem_append.1 hdoc' with hdoc' | hdoc'
      · exact h.complete doc' hdoc'
      · obtain rfl := (Prod.mk.inj (List.mem_singleton.1 hdoc')).1
        exact hall
    · show List.map _ (db'.chunks.rows.filter _) = _
      rw [hchunks, List.filter_append]
      rcases List.mem_append.1 hdoc' with hdoc' | hdoc'
      · have hnone : rows.filter (fun row => row.documentId = doc'.docId) = [] := by
          rw [List.filter_eq_nil_iff]
          exact fun row hrow hid => hother doc' hdoc' ((of_decide_eq_true hid).symm.trans (hids row hrow))
        rw [hnone, List.append_nil]
        exact h.inserted doc' hdoc'
      · obtain rfl := (Prod.mk.inj (List.mem_singleton.1 hdoc')).1
        have hself : rows.filter (fun row => row.documentId = doc'.docId) = rows :=
          List.filter_eq_self.2 fun row hrow => decide_eq_true (hids row hrow)
        rw [hubChunks_of_fresh hfresh, hself, List.nil_append, hshown, pairs_eq hall]
    · rw [hdocuments] at hrow
      rcases List.mem_append.1 hrow with hrow | hrow
      · exact (h.documents row hrow).imp_right (Exists.imp fun _ => And.imp_left (List.mem_append_left _))
      · obtain rfl := List.mem_singleton.1 hrow
        exact Or.inr ⟨doc, List.mem_append_right _ List.mem_cons_self, rfl⟩
    · rw [hchunks] at hrow
      rcases List.mem_append.1 hrow with hrow | hrow
      · exact (h.chunks row hrow).imp_right (Exists.imp fun _ => And.imp_left (List.mem_append_left _))
      · exact Or.inr ⟨doc, List.mem_append_right _ List.mem_cons_self, hids row hrow⟩

private theorem migrated_foldl (hcast : ∀ n vector embedding, store.castVector n vector = some embedding →
      embedding = vector) {documents : List ExtractedDocument} {seen : String → Option String}
    (hnodup : (documents.map ExtractedDocument.docId).Nodup)
    (hsafe : ∀ before doc after, documents = before ++ doc :: after → Safe store server sourceMachineId existing
      (before.foldl (loadNext store server sourceMachineId existing) ⟨db, seen, []⟩) doc) :
    Migrated db documents (documents.foldl (loadNext store server sourceMachineId existing) ⟨db, seen, []⟩) := by
  have hprefix : ∀ before after, documents = before ++ after → Migrated db before
      (before.foldl (loadNext store server sourceMachineId existing) ⟨db, seen, []⟩) := by
    intro before
    induction before using List.reverseRecOn with
    | nil => exact fun _ _ => ⟨rfl, by simp, by simp, fun _ h => Or.inl h, fun _ h => Or.inl h⟩
    | append_singleton before doc ih =>
      intro after hdocuments
      have hsplit : documents = before ++ doc :: after := by
        rw [hdocuments, List.append_assoc]
        rfl
      have hnodup' : ((before ++ [doc]).map ExtractedDocument.docId).Nodup := by
        rw [hdocuments, List.map_append] at hnodup
        exact hnodup.of_append_left
      rw [List.foldl_append]
      exact migrated_loadNext hcast hnodup' (hsafe before doc after hsplit) (ih (doc :: after) hsplit)
  exact hprefix documents [] (List.append_nil _).symm

/-! ### The migration -/

theorem nodup_extract (jsonLoads : String → Option Json) (corpus : Corpus) :
    ((extract jsonLoads corpus).map ExtractedDocument.docId).Nodup := by
  unfold extract
  rw [List.map_map]
  exact ((List.mergeSort_perm _ _).map DocumentRow.docId).nodup_iff.2 corpus.documents.unique

private theorem extractedChunks_of_mem (hdoc : doc ∈ extract jsonLoads corpus) :
    (extractedChunks doc).Perm (localChunks corpus doc.docId) := by
  obtain ⟨row, -, rfl⟩ := List.mem_map.1 hdoc
  exact extractedChunks_perm

/-- A chunk of the corpus that has no vector is one of the extracted document. -/
private theorem exists_none_iff (hdoc : doc ∈ extract jsonLoads corpus) :
    (∃ chunk ∈ localChunks corpus doc.docId, chunk.2.2 = none) ↔
    ¬ ∀ chunk ∈ doc.chunks, chunk.vector.isSome = true := by
  have hperm := extractedChunks_of_mem hdoc
  constructor
  · rintro ⟨chunk, hchunk, hnone⟩ hall
    obtain ⟨c, hc, rfl⟩ := List.mem_map.1 (hperm.mem_iff.2 hchunk)
    have hvector : c.vector = none := hnone
    have hsome := hall c hc
    rw [hvector] at hsome
    cases hsome
  · intro h
    push Not at h
    obtain ⟨c, hc, hnone⟩ := h
    exact ⟨_, hperm.mem_iff.1 (List.mem_map_of_mem hc), Option.not_isSome_iff_eq_none.1 hnone⟩

/-- **The migration loses no chunk** if and only if, in every round, the document is there, or is invalid, or its
transaction raises, or all its chunks have vectors. -/
theorem lossless_iff (hcast : ∀ n vector embedding, store.castVector n vector = some embedding → embedding = vector)
    (jsonLoads : String → Option Json) (corpus : Corpus) (server : Server sql (List PackedFloat))
    (sourceMachineId : Option String) (db : Tables sql (List PackedFloat)) :
    Lossless corpus db (load store server sourceMachineId db (extract jsonLoads corpus)) ↔
      ∀ before doc after, extract jsonLoads corpus = before ++ doc :: after →
        Safe store server sourceMachineId (preloaded db (extract jsonLoads corpus)).1
          (before.foldl (loadNext store server sourceMachineId (preloaded db (extract jsonLoads corpus)).1)
            ⟨db, (preloaded db (extract jsonLoads corpus)).2, []⟩) doc := by
  constructor
  · intro h before doc after hsplit
    generalize hexisting : (preloaded db (extract jsonLoads corpus)).1 = existing
    generalize hstate : before.foldl (loadNext store server sourceMachineId existing)
      ⟨db, (preloaded db (extract jsonLoads corpus)).2, []⟩ = state
    obtain ⟨next, hnext, hstep⟩ := loadStep store server sourceMachineId existing state doc
    cases hstep with
    | skipped hknown => exact Or.inl hknown
    | invalid _ hinvalid => exact Or.inr (Or.inl (by rw [hinvalid]; exact Option.some_ne_none _))
    | raised _ _ hraised => exact Or.inr (Or.inr (hraised.imp_right Or.inl))
    | inserted hnew hvalid hwrite htaken hhash =>
      refine Or.inr (Or.inr (Or.inr (Or.inr ?_)))
      by_contra hlost
      have hdoc : doc ∈ extract jsonLoads corpus := by
        rw [hsplit]
        exact List.mem_append_right _ List.mem_cons_self
      have hentry : (doc, Verdict.inserted) ∈
          (load store server sourceMachineId db (extract jsonLoads corpus)).verdicts := by
        obtain ⟨verdicts, hverdicts, -⟩ := verdicts_foldl store server sourceMachineId existing
          (loadNext store server sourceMachineId existing state doc) after
        have hload : load store server sourceMachineId db (extract jsonLoads corpus) =
            after.foldl (loadNext store server sourceMachineId existing)
              (loadNext store server sourceMachineId existing state doc) := by
          unfold load
          dsimp only
          rw [hexisting]
          conv_lhs => rw [hsplit]
          rw [List.foldl_append, List.foldl_cons, ← hsplit, hstate]
        rw [hload, hverdicts, hnext]
        exact List.mem_append_left _ (List.mem_append_right _ List.mem_cons_self)
      obtain ⟨hfailed, -⟩ := h.impossible _ hentry ((exists_none_iff hdoc).2 hlost) (by simp)
      rcases hfailed with ⟨reason, hreason⟩ | hraised
      · cases hreason
      · cases hraised
  · intro hsafe
    have h := migrated_foldl hcast (nodup_extract jsonLoads corpus) hsafe
    have hmem : ∀ entry ∈ (load store server sourceMachineId db (extract jsonLoads corpus)).verdicts,
        entry.1 ∈ extract jsonLoads corpus := fun entry hentry =>
      h.processed ▸ List.mem_map_of_mem (f := Prod.fst) hentry
    refine ⟨fun doc hdoc => ?_, fun entry hentry hnone hskipped => ?_⟩
    · have hinserted := h.inserted doc hdoc
      exact (List.Perm.of_eq hinserted).trans (extractedChunks_of_mem (hmem _ hdoc))
    · have hlost := (exists_none_iff (hmem entry hentry)).1 hnone
      have hother : ∀ doc, (doc, Verdict.inserted) ∈
          (load store server sourceMachineId db (extract jsonLoads corpus)).verdicts → entry.1.docId ≠ doc.docId := by
        intro doc hdoc hid
        obtain rfl := List.inj_on_of_nodup_map (nodup_extract jsonLoads corpus) (hmem entry hentry) (hmem _ hdoc) hid
        exact hlost (h.complete _ hdoc)
      refine ⟨?_, fun row hrow hid => ?_, fun row hrow hid => ?_⟩
      · obtain ⟨doc, verdict⟩ := entry
        cases verdict with
        | skipped => exact absurd rfl hskipped
        | invalid reason => exact Or.inl ⟨reason, rfl⟩
        | raised => exact Or.inr rfl
        | inserted => exact absurd (h.complete doc hentry) hlost
      · refine (h.documents row hrow).resolve_right ?_
        rintro ⟨doc, hdoc, hid'⟩
        exact hother doc hdoc (hid.symm.trans hid')
      · refine (h.chunks row hrow).resolve_right ?_
        rintro ⟨doc, hdoc, hid'⟩
        exact hother doc hdoc (hid.symm.trans hid')

/-! ### Two chunks -/

private def noteRow : DocumentRow := ⟨"a", none, "document", none, some "one", none, none, none⟩

private def firstChunk : ChunkRow := ⟨1, "mem:a:0", "a", 0, "first", none, some "model", some 1⟩

private def secondChunk : ChunkRow := ⟨2, "mem:a:1", "a", 1, "second", none, some "model", some 1⟩

/-- A document with two chunks, and the rows of `chunks_vec`. -/
private def twoChunks (vectors : List (VectorRow (List UInt8))) (h : (vectors.map VectorRow.chunkRowid).Nodup) :
    Corpus where
  documents := ⟨[noteRow], List.nodup_singleton _⟩
  chunks := ⟨[firstChunk, secondChunk], by decide⟩
  chunksVec := ⟨vectors, h⟩
  chunkIds := by decide

/-- The second chunk has no vector. -/
private def halfEmbedded : Corpus := twoChunks [⟨1, [0, 0, 0, 0]⟩] (List.nodup_singleton _)

private def fullyEmbedded : Corpus := twoChunks [⟨1, [0, 0, 0, 0]⟩, ⟨2, [0, 0, 128, 63]⟩] (by decide)

private theorem extract_twoChunks {vectors : List (VectorRow (List UInt8))}
    {h : (vectors.map VectorRow.chunkRowid).Nodup} : extract (fun _ => none) (twoChunks vectors h) =
      [⟨"a", none, "document", none, some "one", none, none, none,
        [firstChunk, secondChunk].map (extractChunk (fun _ => none) (twoChunks vectors h))⟩] := by
  have hchunks : chunkRows (twoChunks vectors h) = [firstChunk, secondChunk] :=
    List.mergeSort_of_pairwise (by
      show [firstChunk, secondChunk].Pairwise _
      decide)
  have hdocuments : (twoChunks vectors h).documents.rows.mergeSort (fun a b => a.docId ≤ b.docId) = [noteRow] :=
    List.mergeSort_of_pairwise (List.pairwise_singleton _ _)
  unfold extract
  rw [hdocuments, List.map_singleton]
  unfold extractDocument
  rw [hchunks]
  rfl

/-- The chunk without a vector is left out, and the document counts as inserted. -/
theorem chunk_left_out : ¬ Lossless halfEmbedded Tables.empty
    (load oneFloat willing none Tables.empty (extract (fun _ => none) halfEmbedded)) := by
  intro h
  have hextract : extract (fun _ => none) halfEmbedded = _ := extract_twoChunks
  have hverdicts : (load oneFloat willing none Tables.empty (extract (fun _ => none) halfEmbedded)).verdicts.map
      (fun entry => (entry.1.docId, entry.2)) = [("a", .inserted)] := by
    rw [hextract]
    decide +kernel
  obtain ⟨entry, hentry, hshown⟩ := List.mem_map.1 (hverdicts ▸ List.mem_singleton_self _)
  obtain ⟨hid, hinserted⟩ := Prod.mk.inj hshown
  have hlost : ∃ chunk ∈ localChunks halfEmbedded entry.1.docId, chunk.2.2 = none := by
    rw [hid]
    decide
  obtain ⟨hfailed, -⟩ := h.impossible entry hentry hlost (hinserted ▸ (by simp))
  rcases hfailed with ⟨reason, hreason⟩ | hraised
  · cases hinserted.symm.trans hreason
  · cases hinserted.symm.trans hraised

private theorem cast_oneFloat {n : Nat} {vector embedding : List PackedFloat}
    (h : oneFloat.castVector n vector = some embedding) : embedding = vector := by
  unfold oneFloat at h
  dsimp only at h
  split at h
  · exact (Option.some.inj h).symm
  · cases h

/-- Both chunks have vectors. -/
theorem lossless_fullyEmbedded : Lossless fullyEmbedded Tables.empty
    (load oneFloat willing none Tables.empty (extract (fun _ => none) fullyEmbedded)) := by
  refine (lossless_iff (fun _ _ _ => cast_oneFloat) (fun _ => none) fullyEmbedded willing none Tables.empty).2 ?_
  intro before doc after hsplit
  have hdoc : doc ∈ extract (fun _ => none) fullyEmbedded := by
    rw [hsplit]
    exact List.mem_append_right _ List.mem_cons_self
  have hextract : extract (fun _ => none) fullyEmbedded = _ := extract_twoChunks
  rw [hextract] at hdoc
  obtain rfl := List.mem_singleton.1 hdoc
  exact Or.inr (Or.inr (Or.inr (Or.inr (by decide))))

end AgentOS.Etl
