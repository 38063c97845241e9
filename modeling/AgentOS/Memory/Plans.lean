import AgentOS.Memory.Central
import AgentOS.Python.Strings

/-!
# Plans of the central memory store

What `_classify` makes of a batch, and how `_embed_documents` slices the vectors.

* `mem_classify` and the lemmas on `verdict` say which verdict a document gets.
* `seenAfter_of_write` is the reason why no two documents are ever stored with the same content: every hash that is
  stored or admitted has one owner in `seen_hashes`, and keeps it.
* `seenAfter_eq` says who that owner is.
* `embeds_slice` says that the slice of a document holds the vectors of its own chunks.
-/

namespace AgentOS.Central

variable {existing : String → Option Document} {sourceMachineId : Option String} {seen : String → Option String}
  {doc : SourceDocument} {docs : List SourceDocument} {prior : Option Document} {owner : Option String}

/-! ### Verdicts -/

theorem verdict_eq_write : verdict prior owner sourceMachineId doc = .write ↔
    doc.chunks ≠ [] ∧ (∀ row, prior = some row → row.contentHash ≠ doc.contentHash) ∧
      ∀ id, owner = some id → id = doc.docId := by
  unfold verdict
  by_cases hchunks : doc.chunks = []
  · rw [if_pos hchunks]
    refine iff_of_false ?_ fun h => h.1 hchunks
    split <;> simp
  · rw [if_neg hchunks]
    cases prior with
    | none => cases owner <;> simp [hchunks]
    | some row =>
      by_cases hhash : row.contentHash = doc.contentHash
      · simp only [Option.filter_some, hhash, decide_true, if_true]
        refine iff_of_false ?_ fun h => h.2.1 row rfl hhash
        split <;> simp
      · have hnone : (some row).filter (fun row => decide (row.contentHash = doc.contentHash)) = none := by
          rw [Option.filter_some, if_neg (by simpa using hhash)]
        rw [hnone]
        cases owner <;> simp [hchunks, hhash]

theorem verdict_eq_remove :
    verdict prior owner sourceMachineId doc = .remove ↔ doc.chunks = [] ∧ prior.isSome = true := by
  unfold verdict
  by_cases hchunks : doc.chunks = []
  · rw [if_pos hchunks]
    split <;> simp_all
  · rw [if_neg hchunks]
    refine iff_of_false ?_ fun h => hchunks h.1
    split
    · split <;> simp
    · split <;> simp

theorem of_verdict_update (h : verdict prior owner sourceMachineId doc = .update) :
    doc.chunks ≠ [] ∧ ∃ row, prior = some row ∧ row.contentHash = doc.contentHash := by
  unfold verdict at h
  split at h
  · split at h <;> cases h
  case isFalse hchunks =>
    refine ⟨hchunks, ?_⟩
    split at h
    case h_1 row hrow =>
      obtain ⟨hprior, hhash⟩ := Option.filter_eq_some_iff.1 hrow
      exact ⟨row, hprior, by simpa using hhash⟩
    case h_2 => split at h <;> cases h

/-! ### `seen_hashes` -/

/-- `seen_hashes` behind a part of the loop. -/
def seenAfter (existing : String → Option Document) (sourceMachineId : Option String) (seen : String → Option String)
    (docs : List SourceDocument) : String → Option String :=
  docs.foldl (seenNext existing sourceMachineId) seen

/-- An entry of the plan is a document with the verdict of its own round. -/
theorem mem_classify {entry : SourceDocument × Verdict} : entry ∈ classify existing sourceMachineId seen docs ↔
    ∃ before doc after, docs = before ++ doc :: after ∧ entry = (doc, verdict (existing doc.docId)
      (seenAfter existing sourceMachineId seen before doc.contentHash) sourceMachineId doc) := by
  induction docs generalizing seen with
  | nil =>
    refine iff_of_false (List.not_mem_nil) ?_
    rintro ⟨before, doc, after, h, -⟩
    exact absurd h.symm (by simp)
  | cons head docs ih =>
    rw [classify, List.mem_cons, ih]
    constructor
    · rintro (h | ⟨before, doc, after, rfl, h⟩)
      · exact ⟨[], head, docs, rfl, h⟩
      · exact ⟨head :: before, doc, after, rfl, h⟩
    · rintro ⟨before, doc, after, hdocs, h⟩
      cases before with
      | nil =>
        obtain ⟨rfl, rfl⟩ := List.cons.inj hdocs
        exact Or.inl h
      | cons first before =>
        obtain ⟨rfl, rfl⟩ := List.cons.inj hdocs
        exact Or.inr ⟨before, doc, after, rfl, h⟩

theorem mem_having {wanted : Verdict} {plan : List (SourceDocument × Verdict)} :
    doc ∈ having wanted plan ↔ (doc, wanted) ∈ plan := by
  unfold having
  rw [List.mem_map]
  constructor
  · rintro ⟨⟨_, w⟩, hentry, rfl⟩
    obtain ⟨hmem, hw⟩ := List.mem_filter.1 hentry
    obtain rfl : w = wanted := by simpa using hw
    exact hmem
  · exact fun h => ⟨(doc, wanted), List.mem_filter.2 ⟨h, by simp⟩, rfl⟩

theorem map_fst_classify (existing : String → Option Document) (sourceMachineId : Option String)
    (seen : String → Option String) (docs : List SourceDocument) :
    (classify existing sourceMachineId seen docs).map Prod.fst = docs := by
  induction docs generalizing seen with
  | nil => rfl
  | cons doc docs ih => rw [classify, List.map_cons, ih]

theorem mem_of_mem_having {wanted : Verdict} (h : doc ∈ having wanted (classify existing sourceMachineId seen docs)) :
    doc ∈ docs := by
  rw [← map_fst_classify existing sourceMachineId seen docs]
  exact List.mem_map_of_mem (mem_having.1 h)

theorem mem_map_docId_of_having {wanted : Verdict} {docId : String}
    (h : docId ∈ (having wanted (classify existing sourceMachineId seen docs)).map SourceDocument.docId) :
    docId ∈ docs.map SourceDocument.docId := by
  obtain ⟨doc, hdoc, rfl⟩ := List.mem_map.1 h
  exact List.mem_map_of_mem (mem_of_mem_having hdoc)

theorem nodup_having (h : (docs.map SourceDocument.docId).Nodup) (wanted : Verdict) :
    ((having wanted (classify existing sourceMachineId seen docs)).map SourceDocument.docId).Nodup := by
  refine h.sublist (List.Sublist.map _ ?_)
  conv_rhs => rw [← map_fst_classify existing sourceMachineId seen docs]
  exact List.filter_sublist.map Prod.fst

/-- A document whose id comes once has one verdict. -/
theorem notMem_having (h : (docs.map SourceDocument.docId).Nodup) {v wanted : Verdict}
    (hentry : (doc, v) ∈ classify existing sourceMachineId seen docs) (hne : wanted ≠ v) :
    doc.docId ∉ (having wanted (classify existing sourceMachineId seen docs)).map SourceDocument.docId := by
  intro hmem
  obtain ⟨other, hother, hsame⟩ := List.mem_map.1 hmem
  have hids : ((classify existing sourceMachineId seen docs).map fun entry => entry.1.docId).Nodup := by
    have hmap : (classify existing sourceMachineId seen docs).map (fun entry => entry.1.docId) =
        ((classify existing sourceMachineId seen docs).map Prod.fst).map SourceDocument.docId :=
      (List.map_map).symm
    rw [hmap, map_fst_classify]
    exact h
  have heq := List.inj_on_of_nodup_map hids (mem_having.1 hother) hentry hsame
  exact hne (congrArg Prod.snd heq)

theorem chunks_of_write (h : doc ∈ having .write (classify existing sourceMachineId seen docs)) : doc.chunks ≠ [] := by
  obtain ⟨before, doc', after, -, hentry⟩ := mem_classify.1 (mem_having.1 h)
  obtain ⟨rfl, hverdict⟩ := Prod.mk.inj hentry
  exact (verdict_eq_write.1 hverdict.symm).1

private theorem seenNext_of_some {h id : String} (hseen : seen h = some id) :
    seenNext existing sourceMachineId seen doc h = some id := by
  unfold seenNext
  split
  case isTrue hwrite =>
    obtain ⟨-, -, howner⟩ := verdict_eq_write.1 hwrite
    by_cases hh : h = doc.contentHash
    · subst hh
      rw [Function.update_self, howner id hseen]
    · rw [Function.update_of_ne hh, hseen]
  case isFalse => exact hseen

/-- An owner stays the owner. -/
theorem seenAfter_of_some {h id : String} (hseen : seen h = some id) :
    seenAfter existing sourceMachineId seen docs h = some id :=
  Fold.preserves (I := fun s : String → Option String => s h = some id) hseen fun _ _ _ hs => seenNext_of_some hs

/-- A document that is written owns its hash at the end of the loop. -/
theorem seenAfter_of_write (h : doc ∈ having .write (classify existing sourceMachineId seen docs)) :
    seenAfter existing sourceMachineId seen docs doc.contentHash = some doc.docId := by
  obtain ⟨before, doc', after, rfl, hentry⟩ := mem_classify.1 (mem_having.1 h)
  obtain ⟨rfl, hverdict⟩ := Prod.mk.inj hentry
  have hnext : seenNext existing sourceMachineId (seenAfter existing sourceMachineId seen before) doc doc.contentHash =
      some doc.docId := by
    unfold seenNext
    rw [if_pos hverdict.symm, Function.update_self]
  unfold seenAfter
  rw [List.foldl_append, List.foldl_cons]
  exact seenAfter_of_some hnext

/-- A document has chunks of this content. -/
def carries (h : String) (doc : SourceDocument) : Bool := doc.chunks ≠ [] ∧ doc.contentHash = h

/-- **The owner of a hash.**  It is the one that was known before the batch, or else the first document of the batch
that has chunks of that content. -/
theorem seenAfter_eq (hindex : ∀ doc ∈ docs, ∀ row, existing doc.docId = some row →
      row.contentHash = doc.contentHash → (seen doc.contentHash).isSome) (h : String) :
    seenAfter existing sourceMachineId seen docs h =
        (seen h).or ((docs.find? (carries h)).map SourceDocument.docId) := by
  cases hseen : seen h with
  | some id => exact seenAfter_of_some hseen
  | none =>
    rw [Option.none_or]
    induction docs generalizing seen with
    | nil => exact hseen
    | cons doc docs ih =>
      show seenAfter existing sourceMachineId (seenNext existing sourceMachineId seen doc) docs h = _
      by_cases hcarries : carries h doc = true
      · obtain ⟨hchunks, hhash⟩ : doc.chunks ≠ [] ∧ doc.contentHash = h := by simpa [carries] using hcarries
        have hwrite : verdict (existing doc.docId) (seen doc.contentHash) sourceMachineId doc = .write := by
          refine verdict_eq_write.2 ⟨hchunks, fun row hrow hsame => ?_, fun id hid => ?_⟩
          · have hsome := hindex doc List.mem_cons_self row hrow hsame
            rw [hhash, hseen] at hsome
            cases hsome
          · rw [hhash, hseen] at hid
            cases hid
        rw [List.find?_cons_of_pos hcarries]
        refine seenAfter_of_some ?_
        unfold seenNext
        rw [if_pos hwrite, hhash, Function.update_self]
      · rw [List.find?_cons_of_neg hcarries]
        have hkeep : seenNext existing sourceMachineId seen doc h = none := by
          unfold seenNext
          split
          case isTrue hwrite =>
            have hne : h ≠ doc.contentHash := by
              rintro rfl
              exact hcarries (by simpa [carries] using (verdict_eq_write.1 hwrite).1)
            rw [Function.update_of_ne hne, hseen]
          case isFalse => exact hseen
        refine ih (fun doc' hdoc' row hrow hsame => ?_) hkeep
        obtain ⟨id, hid⟩ := Option.isSome_iff_exists.1 (hindex doc' (List.mem_cons_of_mem _ hdoc') row hrow hsame)
        rw [seenNext_of_some hid]
        rfl

/-- The classification reads the rows of the ids and the owners of the hashes of the batch, and nothing else. -/
theorem classify_congr {existing' : String → Option Document} {seen' : String → Option String}
    (hexisting : ∀ doc ∈ docs, existing doc.docId = existing' doc.docId)
    (hseen : ∀ doc ∈ docs, seen doc.contentHash = seen' doc.contentHash) :
    classify existing sourceMachineId seen docs = classify existing' sourceMachineId seen' docs := by
  induction docs generalizing seen seen' with
  | nil => rfl
  | cons doc docs ih =>
    rw [classify, classify, hexisting doc List.mem_cons_self, hseen doc List.mem_cons_self]
    refine congrArg _ (ih (fun d hd => hexisting d (List.mem_cons_of_mem _ hd)) fun d hd => ?_)
    have hd' := hseen d (List.mem_cons_of_mem _ hd)
    unfold seenNext
    rw [hexisting doc List.mem_cons_self, hseen doc List.mem_cons_self]
    split
    · by_cases hhash : d.contentHash = doc.contentHash
      · rw [hhash, Function.update_self, Function.update_self]
      · rw [Function.update_of_ne hhash, Function.update_of_ne hhash, hd']
    · exact hd'

/-! ### Chunk ids -/

/-- A chunk id names the document and the place of the chunk. -/
theorem chunkId_inj {docId docId' : String} {seq seq' : Int} (h : chunkId docId seq = chunkId docId' seq') :
    docId = docId' ∧ seq = seq' := by
  obtain ⟨hid, hseq⟩ := append_sep_inj ':' (colon_notMem_toString seq) (colon_notMem_toString seq') h
  exact ⟨(String.append_right_inj _).1 hid, toString_int_injective hseq⟩

variable {R β : Type} {vectors : List (List R)}

private theorem map_fst_zip_sublist (chunks : List ChunkInput) (vectors : List (List R)) :
    ((chunks.zip vectors).map Prod.fst).Sublist chunks := by
  induction chunks generalizing vectors with
  | nil => simp
  | cons chunk chunks ih =>
    cases vectors with
    | nil => simp
    | cons vector vectors => exact (ih vectors).cons_cons chunk

/-- The ids of the chunks that are written with a vector are distinct. -/
theorem nodup_chunkIds (vectors : List (List R)) (hseqs : (doc.chunks.map ChunkInput.seq).Nodup) :
    ((doc.chunks.zip vectors).map fun pair => chunkId doc.docId pair.1.seq).Nodup := by
  have hkeys : (doc.chunks.zip vectors).map (fun pair => chunkId doc.docId pair.1.seq) =
      (((doc.chunks.zip vectors).map Prod.fst).map ChunkInput.seq).map (chunkId doc.docId) := by
    simp only [List.map_map, Function.comp_def]
  rw [hkeys]
  exact (hseqs.sublist ((map_fst_zip_sublist _ _).map _)).map fun _ _ h => (chunkId_inj h).2

/-- What a loop over the chunks of a document leaves of a dict. -/
theorem assign_chunks {d : String → Option β} {f : ChunkInput × List R → β} {cid : String} {v : β}
    (hseqs : (doc.chunks.map ChunkInput.seq).Nodup) :
    Dict.assign d ((doc.chunks.zip vectors).map fun pair => (chunkId doc.docId pair.1.seq, f pair)) cid = some v ↔
      (∃ pair ∈ doc.chunks.zip vectors, cid = chunkId doc.docId pair.1.seq ∧ v = f pair) ∨
        (∀ pair ∈ doc.chunks.zip vectors, cid ≠ chunkId doc.docId pair.1.seq) ∧ d cid = some v := by
  have hkeys : ((doc.chunks.zip vectors).map fun pair => (chunkId doc.docId pair.1.seq, f pair)).map Prod.fst =
      (doc.chunks.zip vectors).map fun pair => chunkId doc.docId pair.1.seq := by
    simp only [List.map_map, Function.comp_def]
  rw [Dict.assign_eq_some (by rw [hkeys]; exact nodup_chunkIds vectors hseqs), hkeys]
  simp only [List.mem_map, Prod.mk.injEq, not_exists, not_and]
  constructor
  · rintro (⟨pair, hpair, rfl, rfl⟩ | ⟨hother, hv⟩)
    · exact Or.inl ⟨pair, hpair, rfl, rfl⟩
    · exact Or.inr ⟨fun pair hpair h => hother pair hpair h.symm, hv⟩
  · rintro (⟨pair, hpair, rfl, rfl⟩ | ⟨hother, hv⟩)
    · exact Or.inl ⟨pair, hpair, rfl, rfl⟩
    · exact Or.inr ⟨fun pair hpair h => hother pair hpair h.symm, hv⟩

/-! ### Slices -/

variable {embedder : Embedder R} {out : String → Option (List (List R))}

/-- The embedder has returned this vector for this text. -/
def Embeds (embedder : Embedder R) (text : String) (vector : List R) : Prop :=
  ∃ texts vectors, embedder.embedDocuments texts = some vectors ∧ (text, vector) ∈ texts.zip vectors

private theorem sliceVectors_of_notMem {docId : String} {vectors : List (List R)}
    (h : docId ∉ docs.map SourceDocument.docId) : sliceVectors out docs vectors docId = out docId := by
  induction docs generalizing out vectors with
  | nil => rfl
  | cons doc docs ih =>
    rw [List.map_cons, List.mem_cons, not_or] at h
    rw [sliceVectors, ih h.2, Function.update_of_ne h.1]

private theorem sliceVectors_spec {before after : List SourceDocument} {vectors : List (List R)}
    (hlast : doc.docId ∉ after.map SourceDocument.docId)
    (hlength : vectors.length = ((before ++ doc :: after).flatMap fun doc => doc.chunks.map ChunkInput.text).length) :
    ∃ slice, sliceVectors out (before ++ doc :: after) vectors doc.docId = some slice ∧
      slice.length = doc.chunks.length ∧
      ∀ pair ∈ (doc.chunks.map ChunkInput.text).zip slice,
        pair ∈ ((before ++ doc :: after).flatMap fun doc => doc.chunks.map ChunkInput.text).zip vectors := by
  induction before generalizing out vectors with
  | nil =>
    rw [List.nil_append, List.flatMap_cons] at hlength ⊢
    rw [List.length_append, List.length_map] at hlength
    refine ⟨vectors.take doc.chunks.length, ?_, by rw [List.length_take]; omega, fun pair hpair => ?_⟩
    · rw [sliceVectors, sliceVectors_of_notMem hlast, Function.update_self]
    · rw [← List.take_append_drop doc.chunks.length vectors, List.zip_append (by simp; omega)]
      exact List.mem_append_left _ hpair
  | cons first before ih =>
    rw [List.cons_append, List.flatMap_cons] at hlength ⊢
    rw [List.length_append, List.length_map] at hlength
    obtain ⟨slice, hslice, hlen, hzip⟩ :=
      @ih (Function.update out first.docId (some (vectors.take first.chunks.length)))
      (vectors.drop first.chunks.length) (by rw [List.length_drop]; omega)
    refine ⟨slice, hslice, hlen, fun pair hpair => ?_⟩
    rw [← List.take_append_drop first.chunks.length vectors, List.zip_append (by simp; omega)]
    exact List.mem_append_right _ (hzip pair hpair)

private theorem eq_append_of_mem {docId : String} (h : docId ∈ docs.map SourceDocument.docId) :
    ∃ before doc after, docs = before ++ doc :: after ∧ doc.docId = docId ∧
      docId ∉ after.map SourceDocument.docId := by
  induction docs with
  | nil => cases h
  | cons first docs ih =>
    by_cases hmem : docId ∈ docs.map SourceDocument.docId
    · obtain ⟨before, doc, after, rfl, hdoc, hlast⟩ := ih hmem
      exact ⟨first :: before, doc, after, rfl, hdoc, hlast⟩
    · rw [List.map_cons, List.mem_cons] at h
      exact ⟨[], first, docs, rfl, (h.resolve_right hmem).symm, hmem⟩

/-- **The vectors of a document.**  The entry of an id is the slice of the last document of this id. -/
theorem embeds_slice {before after : List SourceDocument}
    (h : embedDocuments (before ++ doc :: after) embedder = some out) (hchunks : doc.chunks ≠ [])
    (hlast : doc.docId ∉ after.map SourceDocument.docId) : ∃ slice, out doc.docId = some slice ∧
      slice.length = doc.chunks.length ∧ ∀ pair ∈ doc.chunks.zip slice, Embeds embedder pair.1.text pair.2 := by
  unfold embedDocuments at h
  dsimp only at h
  split at h
  case isTrue hnone =>
    refine absurd hnone ?_
    obtain ⟨chunk, chunks, hcons⟩ := List.exists_cons_of_ne_nil hchunks
    refine List.ne_nil_of_mem (a := chunk.text) (List.mem_flatMap.2 ⟨doc, by simp, ?_⟩)
    rw [hcons]
    exact List.mem_cons_self
  case isFalse =>
    split at h
    · cases h
    case h_2 vectors hvectors =>
      split at h
      case isFalse => cases h
      case isTrue hlength =>
        obtain rfl := Option.some.inj h
        obtain ⟨slice, hslice, hlen, hzip⟩ := sliceVectors_spec hlast hlength
        refine ⟨slice, hslice, hlen, fun pair hpair => ⟨_, vectors, hvectors, hzip _ ?_⟩⟩
        rw [List.zip_map_left]
        exact List.mem_map.2 ⟨pair, hpair, rfl⟩

/-- Every document that is embedded has vectors, and they come from the embedder. -/
theorem exists_slice (h : embedDocuments docs embedder = some out) (hdoc : doc ∈ docs)
    (hall : ∀ doc ∈ docs, doc.chunks ≠ []) :
    ∃ slice, out doc.docId = some slice ∧ ∀ vector ∈ slice, ∃ text, Embeds embedder text vector := by
  obtain ⟨before, last, after, rfl, hid, hlast⟩ :=
    eq_append_of_mem (List.mem_map_of_mem (f := SourceDocument.docId) hdoc)
  rw [← hid] at hlast
  obtain ⟨slice, hslice, hlength, hembeds⟩ := embeds_slice h (hall last (by simp)) hlast
  refine ⟨slice, hid ▸ hslice, fun vector hvector => ?_⟩
  have hsnd : (last.chunks.zip slice).map Prod.snd = slice := List.map_snd_zip (by rw [hlength])
  rw [← hsnd] at hvector
  obtain ⟨pair, hpair, rfl⟩ := List.mem_map.1 hvector
  exact ⟨pair.1.text, hembeds pair hpair⟩

/-! ### Samples -/

/-- An embedder that counts letters. -/
def letterCount : Embedder Int where
  modelName := "letters"
  dim := 1
  embedDocuments texts := some (texts.map fun text => [(text.length : Int)])

/-- A document with one chunk, whose text is its content. -/
def note (docId contentHash : String) : SourceDocument where
  docId := docId
  title := docId
  sourceType := "document"
  sourcePath := none
  contentHash := contentHash
  provenance := "uploaded"
  publishedAt := none
  chunks := [⟨0, contentHash, []⟩]

/-- A document whose content is gone. -/
def emptied (docId contentHash : String) : SourceDocument := { note docId contentHash with chunks := [] }

/-- A time of the server's clock. -/
def noon : Instant := ⟨"2026-07-01", "12:00:00", by decide⟩

/-- A store whose column takes the vectors of its dimension. -/
def letterStore : MemoryStore Int (List Int) where
  embeddingDim := 1
  castVector n vector := if vector.length = n then some vector else none

end AgentOS.Central
