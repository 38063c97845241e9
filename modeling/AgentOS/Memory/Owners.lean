import AgentOS.Memory.Plans

/-!
# The owners behind a batch

A document whose content another document already owns is reconciled: nothing is written for it.  The classification
looks at the owners before the batch, and the owner may be given other content, or be removed, by the same batch; then
the content that was reconciled with it is in no document any more.

* `Lost` says when this happens, in terms of the batch and the owners before it.
* `exists_owner_iff` is the argument, over any two maps from ids to hashes that are related as the verdicts say
  (`Batch`).
-/

namespace AgentOS.Central

/-- The content of a document is in no document behind a batch.  Its owner is emptied, or is the first of the batch to
bring content that nobody owns; or nobody owns the content, and the first document to bring it is another one, which is
refused. -/
def Lost (existing : String → Option Document) (owner : String → Option String) (accepts : SourceDocument → Prop)
    (docs : List SourceDocument) (doc : SourceDocument) : Prop :=
  (∃ other ∈ docs, owner doc.contentHash = some other.docId ∧ other.docId ≠ doc.docId ∧
      (other.chunks = [] ∧ (existing other.docId).isSome = true ∨ owner other.contentHash = none ∧
        docs.find? (carries other.contentHash) = some other ∧ accepts other)) ∨
    owner doc.contentHash = none ∧ ∃ first, docs.find? (carries doc.contentHash) = some first ∧
      first.docId ≠ doc.docId ∧ ¬ accepts first

/-- How the hashes of the documents behind a batch follow from those before it. -/
structure Batch (existing : String → Option Document) (owner : String → Option String)
    (sourceMachineId : Option String) (accepts : SourceDocument → Prop) (docs : List SourceDocument)
    (prior after : String → Option String) : Prop where
  distinct : (docs.map SourceDocument.docId).Nodup
  index : ∀ doc ∈ docs, ∀ id, owner doc.contentHash = some id ↔ prior id = some doc.contentHash
  loaded : ∀ doc ∈ docs, ∀ row, existing doc.docId = some row → prior doc.docId = some row.contentHash
  other : ∀ id, id ∉ docs.map SourceDocument.docId → after id = prior id
  written : ∀ doc ∈ having .write (classify existing sourceMachineId owner docs), accepts doc →
    after doc.docId = some doc.contentHash
  refused : ∀ doc ∈ having .write (classify existing sourceMachineId owner docs), ¬ accepts doc →
    after doc.docId = prior doc.docId
  removed : ∀ doc ∈ having .remove (classify existing sourceMachineId owner docs), after doc.docId = none
  kept : ∀ doc v, (doc, v) ∈ classify existing sourceMachineId owner docs → v ≠ .write → v ≠ .remove →
    after doc.docId = prior doc.docId

variable {existing : String → Option Document} {owner : String → Option String} {sourceMachineId : Option String}
  {accepts : SourceDocument → Prop} {docs before after' : List SourceDocument} {prior after : String → Option String}
  {doc : SourceDocument}

private theorem seenAfter_before (h : Batch existing owner sourceMachineId accepts docs prior after)
    (hdocs : docs = before ++ doc :: after') (hash : String) :
    seenAfter existing sourceMachineId owner before hash =
      (owner hash).or ((before.find? (carries hash)).map SourceDocument.docId) := by
  refine seenAfter_eq (fun d hd row hrow hsame => ?_) hash
  have hmem : d ∈ docs := by
    rw [hdocs]
    exact List.mem_append_left _ hd
  have hprior := h.loaded d hmem row hrow
  rw [hsame] at hprior
  rw [(h.index d hmem d.docId).2 hprior]
  rfl

/-- A document that owns its content already, or is the first to bring content that nobody owns, is written, unless its
own row has the content. -/
private theorem mem_write_iff (h : Batch existing owner sourceMachineId accepts docs prior after)
    (hdocs : docs = before ++ doc :: after') (hchunks : doc.chunks ≠ []) :
    doc ∈ having .write (classify existing sourceMachineId owner docs) ↔
      (∀ row, existing doc.docId = some row → row.contentHash ≠ doc.contentHash) ∧
        (owner doc.contentHash = some doc.docId ∨
          owner doc.contentHash = none ∧ docs.find? (carries doc.contentHash) = some doc) := by
  have hcarries : carries doc.contentHash doc = true := by simpa [carries] using hchunks
  have hother : ∀ d ∈ before, d.docId ≠ doc.docId := by
    intro d hd hsame
    have hdistinct := h.distinct
    rw [hdocs, List.map_append, List.map_cons] at hdistinct
    exact (List.nodup_append.1 hdistinct).2.2 _ (List.mem_map_of_mem hd) _ List.mem_cons_self hsame
  have hbehind : doc ∉ after' := by
    intro hd
    have hdistinct := h.distinct
    rw [hdocs, List.map_append, List.map_cons] at hdistinct
    exact (List.nodup_cons.1 (List.nodup_append.1 hdistinct).2.1).1 (List.mem_map_of_mem hd)
  have hfind : docs.find? (carries doc.contentHash) = some doc ↔ before.find? (carries doc.contentHash) = none := by
    rw [hdocs, List.find?_append, List.find?_cons_of_pos hcarries]
    cases hfirst : before.find? (carries doc.contentHash) with
    | none => simp
    | some first =>
      refine iff_of_false (fun hsame => ?_) (by simp)
      obtain rfl : first = doc := by simpa using hsame
      exact hother first (List.mem_of_find?_eq_some hfirst) rfl
  have hverdict : doc ∈ having .write (classify existing sourceMachineId owner docs) ↔ verdict (existing doc.docId)
      (seenAfter existing sourceMachineId owner before doc.contentHash) sourceMachineId doc = .write := by
    rw [mem_having, mem_classify]
    constructor
    · rintro ⟨before', d, rest, hsplit, hentry⟩
      obtain ⟨rfl, hv⟩ := Prod.mk.inj hentry
      have hbefore : doc ∉ before := fun hd => hother doc hd rfl
      obtain ⟨rfl, -⟩ := (List.append_cons_inj_of_notMem hbefore hbehind).1 (hdocs.symm.trans hsplit)
      exact hv.symm
    · exact fun hv => ⟨before, doc, after', hdocs, by rw [hv]⟩
  rw [hverdict, verdict_eq_write, and_iff_right hchunks]
  refine and_congr_right fun _ => ?_
  rw [seenAfter_before h hdocs, hfind]
  cases howner : owner doc.contentHash with
  | some id => simp
  | none =>
    cases hfirst : before.find? (carries doc.contentHash) with
    | none => simp
    | some first =>
      have hne := hother first (List.mem_of_find?_eq_some hfirst)
      simp [hne]

private theorem mem_write_of_owner_none (h : Batch existing owner sourceMachineId accepts docs prior after)
    (hdoc : doc ∈ docs) (hchunks : doc.chunks ≠ []) (howner : owner doc.contentHash = none)
    (hfirst : docs.find? (carries doc.contentHash) = some doc) :
    doc ∈ having .write (classify existing sourceMachineId owner docs) := by
  obtain ⟨before, rest, hdocs⟩ := List.append_of_mem hdoc
  refine (mem_write_iff h hdocs hchunks).2 ⟨fun row hrow hsame => ?_, Or.inr ⟨howner, hfirst⟩⟩
  have hprior := h.loaded doc hdoc row hrow
  rw [hsame, ← h.index doc hdoc, howner] at hprior
  cases hprior

private theorem owner_of_mem_write (h : Batch existing owner sourceMachineId accepts docs prior after)
    (hwrite : doc ∈ having .write (classify existing sourceMachineId owner docs)) :
    owner doc.contentHash = some doc.docId ∨
      owner doc.contentHash = none ∧ docs.find? (carries doc.contentHash) = some doc := by
  obtain ⟨before, rest, hdocs⟩ := List.append_of_mem (mem_of_mem_having hwrite)
  exact ((mem_write_iff h hdocs (chunks_of_write hwrite)).1 hwrite).2

private theorem mem_remove_iff :
    doc ∈ having .remove (classify existing sourceMachineId owner docs) ↔
      doc ∈ docs ∧ doc.chunks = [] ∧ (existing doc.docId).isSome = true := by
  rw [mem_having, mem_classify]
  constructor
  · rintro ⟨before, d, rest, rfl, hentry⟩
    obtain ⟨rfl, hv⟩ := Prod.mk.inj hentry
    exact ⟨by simp, verdict_eq_remove.1 hv.symm⟩
  · rintro ⟨hdoc, hremove⟩
    obtain ⟨before, rest, rfl⟩ := List.append_of_mem hdoc
    exact ⟨before, doc, rest, rfl, by rw [verdict_eq_remove.2 hremove]⟩

/-- A document that is neither written nor removed keeps its hash. -/
private theorem after_eq_prior (h : Batch existing owner sourceMachineId accepts docs prior after) (hdoc : doc ∈ docs)
    (hwrite : doc ∈ having .write (classify existing sourceMachineId owner docs) → ¬ accepts doc)
    (hremove : doc ∉ having .remove (classify existing sourceMachineId owner docs)) :
    after doc.docId = prior doc.docId := by
  by_cases hmem : doc ∈ having .write (classify existing sourceMachineId owner docs)
  · exact h.refused doc hmem (hwrite hmem)
  · obtain ⟨⟨_, v⟩, hentry, rfl⟩ : ∃ entry ∈ classify existing sourceMachineId owner docs, entry.1 = doc := by
      rw [← map_fst_classify existing sourceMachineId owner docs] at hdoc
      exact List.mem_map.1 hdoc
    refine h.kept _ v hentry ?_ ?_
    · rintro rfl
      exact hmem (mem_having.2 hentry)
    · rintro rfl
      exact hremove (mem_having.2 hentry)

/-- Who owns a hash behind the batch owned it before, or has been written with it. -/
private theorem of_after (h : Batch existing owner sourceMachineId accepts docs prior after) {id hash : String}
    (hafter : after id = some hash) : prior id = some hash ∨
      ∃ d ∈ having .write (classify existing sourceMachineId owner docs),
        accepts d ∧ d.docId = id ∧ d.contentHash = hash := by
  by_cases hid : id ∈ docs.map SourceDocument.docId
  · obtain ⟨d, hd, rfl⟩ := List.mem_map.1 hid
    by_cases hwrite : d ∈ having .write (classify existing sourceMachineId owner docs) ∧ accepts d
    · rw [h.written d hwrite.1 hwrite.2] at hafter
      exact Or.inr ⟨d, hwrite.1, hwrite.2, rfl, Option.some.inj hafter⟩
    · have hremove : d ∉ having .remove (classify existing sourceMachineId owner docs) := by
        intro hremove
        rw [h.removed d hremove] at hafter
        cases hafter
      rw [after_eq_prior h hd (fun hmem haccepts => hwrite ⟨hmem, haccepts⟩) hremove] at hafter
      exact Or.inl hafter
  · rw [h.other id hid] at hafter
    exact Or.inl hafter

/-- The owner of a hash is the only one that can own it behind the batch. -/
private theorem eq_owner_of_after (h : Batch existing owner sourceMachineId accepts docs prior after)
    (hdoc : doc ∈ docs) {id id' : String} (howner : owner doc.contentHash = some id)
    (hafter : after id' = some doc.contentHash) : id' = id := by
  rcases of_after h hafter with hprior | ⟨d, hwrite, -, rfl, hhash⟩
  · have := (h.index doc hdoc id').2 hprior
    rw [howner] at this
    exact (Option.some.inj this).symm
  · rcases owner_of_mem_write h hwrite with hown | ⟨hnone, -⟩
    · rw [hhash, howner] at hown
      exact (Option.some.inj hown).symm
    · rw [hhash, howner] at hnone
      cases hnone

private theorem eq_of_docId (h : Batch existing owner sourceMachineId accepts docs prior after) {d d' : SourceDocument}
    (hd : d ∈ docs) (hd' : d' ∈ docs) (hsame : d.docId = d'.docId) : d = d' :=
  List.inj_on_of_nodup_map h.distinct hd hd' hsame

/-- Content that another document owned before the batch. -/
private theorem exists_owner_of_owned (h : Batch existing owner sourceMachineId accepts docs prior after)
    (hdoc : doc ∈ docs) {other : SourceDocument} (hother : other ∈ docs)
    (howner : owner doc.contentHash = some other.docId) : after other.docId = some doc.contentHash ↔
      ¬ (other.chunks = [] ∧ (existing other.docId).isSome = true ∨ owner other.contentHash = none ∧
        docs.find? (carries other.contentHash) = some other ∧ accepts other) := by
  have hprior := (h.index doc hdoc other.docId).1 howner
  by_cases hremove : other ∈ having .remove (classify existing sourceMachineId owner docs)
  · rw [h.removed other hremove]
    exact iff_of_false (Option.some_ne_none _).symm fun hkept => hkept (Or.inl (mem_remove_iff.1 hremove).2)
  · have hnot : ¬ (other.chunks = [] ∧ (existing other.docId).isSome = true) :=
      fun hempty => hremove (mem_remove_iff.2 ⟨hother, hempty⟩)
    rw [or_iff_right hnot]
    by_cases hwrite : other ∈ having .write (classify existing sourceMachineId owner docs) ∧ accepts other
    · rw [h.written other hwrite.1 hwrite.2]
      rcases owner_of_mem_write h hwrite.1 with hown | hown
      · rw [h.index other hother, hprior] at hown
        refine iff_of_true hown.symm fun hlost => ?_
        rw [← Option.some.inj hown, howner] at hlost
        cases hlost.1
      · refine iff_of_false (fun hsame => ?_) fun hkept => hkept ⟨hown.1, hown.2, hwrite.2⟩
        rw [Option.some.inj hsame, howner] at hown
        cases hown.1
    · rw [after_eq_prior h hother (fun hmem haccepts => hwrite ⟨hmem, haccepts⟩) hremove, hprior]
      refine iff_of_true rfl fun hlost => hwrite ⟨?_, hlost.2.2⟩
      have hchunks : other.chunks ≠ [] := by
        have hcarries := List.find?_some hlost.2.1
        exact (of_decide_eq_true hcarries).1
      exact mem_write_of_owner_none h hother hchunks hlost.1 hlost.2.1

/-- Content that nobody owned before the batch. -/
private theorem exists_owner_of_new (h : Batch existing owner sourceMachineId accepts docs prior after)
    (hdoc : doc ∈ docs) (howner : owner doc.contentHash = none) {first : SourceDocument}
    (hfirst : docs.find? (carries doc.contentHash) = some first) :
    (∃ id, after id = some doc.contentHash) ↔ accepts first := by
  have hmem := List.mem_of_find?_eq_some hfirst
  have hcarries : carries doc.contentHash first = true := List.find?_some hfirst
  obtain ⟨hchunks, hhash⟩ := of_decide_eq_true hcarries
  constructor
  · rintro ⟨id, hafter⟩
    rcases of_after h hafter with hprior | ⟨d, hwrite, haccepts, -, hsame⟩
    · rw [← h.index doc hdoc, howner] at hprior
      cases hprior
    · rcases owner_of_mem_write h hwrite with hown | ⟨-, hfind⟩
      · rw [hsame, howner] at hown
        cases hown
      · rw [hsame, hfirst] at hfind
        obtain rfl := Option.some.inj hfind
        exact haccepts
  · intro haccepts
    rw [← hhash] at howner hfirst
    exact ⟨first.docId, hhash ▸ h.written first (mem_write_of_owner_none h hmem hchunks howner hfirst) haccepts⟩

/-- **The content of a document behind a batch.**  Some document owns it, unless it is lost. -/
theorem exists_owner_iff (h : Batch existing owner sourceMachineId accepts docs prior after) (hdoc : doc ∈ docs)
    (hchunks : doc.chunks ≠ [])
    (haccepts : doc ∈ having .write (classify existing sourceMachineId owner docs) → accepts doc) :
    (∃ id, after id = some doc.contentHash) ↔ ¬ Lost existing owner accepts docs doc := by
  unfold Lost
  cases howner : owner doc.contentHash with
  | none =>
    obtain ⟨first, hfirst⟩ : ∃ first, docs.find? (carries doc.contentHash) = some first :=
      Option.isSome_iff_exists.1 (List.find?_isSome.2 ⟨doc, hdoc, by simpa [carries] using hchunks⟩)
    rw [exists_owner_of_new h hdoc howner hfirst]
    simp only [reduceCtorEq, false_and, and_false, exists_false, false_or, true_and, hfirst,
      Option.some.injEq, exists_eq_left', not_and, not_not]
    refine ⟨fun hyes _ => hyes, fun hyes => ?_⟩
    by_cases hsame : first.docId = doc.docId
    · obtain rfl := eq_of_docId h (List.mem_of_find?_eq_some hfirst) hdoc hsame
      exact haccepts (mem_write_of_owner_none h hdoc hchunks howner hfirst)
    · exact hyes hsame
  | some id =>
    have hprior := (h.index doc hdoc id).1 howner
    have hiff : (∃ id', after id' = some doc.contentHash) ↔ after id = some doc.contentHash := by
      constructor
      · rintro ⟨id', hafter⟩
        exact eq_owner_of_after h hdoc howner hafter ▸ hafter
      · exact fun hafter => ⟨id, hafter⟩
    rw [hiff, or_iff_left (by simp)]
    by_cases hself : id = doc.docId
    · subst hself
      refine iff_of_true ?_ ?_
      · by_cases hwrite : doc ∈ having .write (classify existing sourceMachineId owner docs)
        · exact h.written doc hwrite (haccepts hwrite)
        · rw [after_eq_prior h hdoc (fun hmem => absurd hmem hwrite)
            fun hremove => hchunks (mem_remove_iff.1 hremove).2.1, hprior]
      · rintro ⟨other, -, hsame, hne, -⟩
        exact hne (Option.some.inj hsame).symm
    · by_cases hid : id ∈ docs.map SourceDocument.docId
      · obtain ⟨other, hother, rfl⟩ := List.mem_map.1 hid
        rw [exists_owner_of_owned h hdoc hother howner]
        refine not_congr ⟨fun hlost => ⟨other, hother, rfl, hself, hlost⟩, ?_⟩
        rintro ⟨other', hother', hsame, -, hlost⟩
        obtain rfl := eq_of_docId h hother hother' (Option.some.inj hsame)
        exact hlost
      · refine iff_of_true ((h.other id hid).trans hprior) ?_
        rintro ⟨other, hother, hsame, -, -⟩
        exact hid (Option.some.inj hsame ▸ List.mem_map_of_mem hother)

/-- A document that owns its content already does not lose it. -/
theorem not_lost_of_owner (howner : owner doc.contentHash = some doc.docId) :
    ¬ Lost existing owner accepts docs doc := by
  rintro (⟨other, -, hsame, hne, -⟩ | ⟨hnone, -⟩)
  · exact hne (Option.some.inj (hsame.symm.trans howner))
  · cases hnone.symm.trans howner

/-- A document that is to be written does not lose its content to another one. -/
theorem not_lost_of_write (h : Batch existing owner sourceMachineId accepts docs prior after)
    (hwrite : doc ∈ having .write (classify existing sourceMachineId owner docs)) :
    ¬ Lost existing owner accepts docs doc := by
  rcases owner_of_mem_write h hwrite with howner | ⟨hnone, hfirst⟩
  · exact not_lost_of_owner howner
  · rintro (⟨other, -, hsame, -, -⟩ | ⟨-, first, hfirst', hne, -⟩)
    · cases hnone.symm.trans hsame
    · rw [hfirst] at hfirst'
      exact hne (congrArg SourceDocument.docId (Option.some.inj hfirst')).symm

end AgentOS.Central
