import AgentOS.Lib.Tally
import Mathlib.Algebra.Order.BigOperators.Group.List
import Mathlib.Algebra.Order.Field.Basic
import Mathlib.Data.List.Sort
import Mathlib.Data.Rat.Lemmas
import Mathlib.Logic.Function.Basic
import Mathlib.Tactic.Positivity

/-!
# Rank fusion

`memory_core/retrieval.py`, with exact scores, and `_dedup_by_doc`, which both stores have.  Ids may be of any type that
is ordered.

* `rank_fusion_and_quota`: the laws of the fused ranking, and what the quota leaves.
-/

namespace AgentOS.Retrieval

section

variable {α : Type*} [LinearOrder α]

/-- `RRF_K`. -/
def rrfK : Nat := 60

/-- `(-score, id)` is not larger. -/
def NotBehind (a b : α × ℚ) : Prop := b.2 < a.2 ∨ a.2 = b.2 ∧ a.1 ≤ b.1

instance : DecidableRel (NotBehind (α := α)) := fun a b =>
  inferInstanceAs (Decidable (b.2 < a.2 ∨ a.2 = b.2 ∧ a.1 ≤ b.1))

/-- What a ranked list adds to the scores. -/
def contributions (k : Nat) (ranked : List α) : List (α × ℚ) :=
  (ranked.zipIdx 1).map fun item => (item.1, 1 / ((k : ℚ) + (item.2 : ℚ)))

/-- `reciprocal_rank_fusion`. -/
def reciprocalRankFusion (rankedLists : List (List α)) (k : Nat := rrfK) : List (α × ℚ) :=
  (rankedLists.foldl (fun scores ranked => Tally.addAll scores (contributions k ranked)) []).mergeSort
    fun a b => NotBehind a b

/-- `fuse_ranked_ids`. -/
def fuseRankedIds (vectorIds keywordIds : List α) (topK : Int) (k : Nat := rrfK) : List (α × ℚ) :=
  let fused := reciprocalRankFusion [vectorIds, keywordIds] k
  if topK > 0 then fused.take topK.toNat else fused

end

section

variable {ρ δ : Type*} [DecidableEq δ] (docId : ρ → δ) (maxPerDoc topK : Int)

/-- The loop of `_dedup_by_doc`. -/
def dedupRows : List ρ → (δ → Int) → List ρ → List ρ
  | [], _, kept => kept
  | row :: results, counts, kept =>
    if counts (docId row) ≥ maxPerDoc then dedupRows results counts kept
    else if (kept ++ [row]).length ≥ topK then kept ++ [row]
    else dedupRows results (Function.update counts (docId row) (counts (docId row) + 1)) (kept ++ [row])

/-- `_dedup_by_doc`. -/
def dedupByDoc (results : List ρ) : List ρ := dedupRows docId maxPerDoc topK results (fun _ => 0) []

end

/-! ### Scores -/

section

variable {α : Type*} [LinearOrder α] {k : Nat} {v w ranked : List α} {a b : α}

/-- The sum of what a ranked list adds to an id. -/
def contribution (k : Nat) (ranked : List α) (a : α) : ℚ :=
  (((contributions k ranked).filter fun pair => pair.1 = a).map Prod.snd).sum

omit [LinearOrder α] in
private theorem map_fst_contributions (k : Nat) (ranked : List α) : (contributions k ranked).map Prod.fst = ranked := by
  rw [contributions, List.map_map]
  exact List.zipIdx_map_fst 1 ranked

private theorem filter_zipIdx_of_notMem (h : a ∉ ranked) (k n : Nat) :
    ((ranked.zipIdx n).map fun item => (item.1, 1 / ((k : ℚ) + (item.2 : ℚ)))).filter (fun pair => pair.1 = a) = [] := by
  rw [List.filter_eq_nil_iff]
  intro pair hpair
  obtain ⟨item, hitem, rfl⟩ := List.mem_map.1 hpair
  rw [decide_eq_true_eq]
  rintro rfl
  exact h (List.zipIdx_map_fst n ranked ▸ List.mem_map_of_mem hitem)

private theorem contribution_of_notMem (h : a ∉ ranked) : contribution k ranked a = 0 := by
  rw [contribution, contributions, filter_zipIdx_of_notMem h]
  rfl

/-- An id that is ranked once gets the reciprocal of its place. -/
private theorem contribution_of_split {front back : List α} (h : (front ++ a :: back).Nodup) :
    contribution k (front ++ a :: back) a = 1 / ((k : ℚ) + ((1 + front.length : Nat) : ℚ)) := by
  have hnot := (List.nodup_cons.1 (List.nodup_middle.1 h)).1
  rw [List.mem_append, not_or] at hnot
  obtain ⟨hfront, hback⟩ := hnot
  rw [contribution, contributions, List.zipIdx_append, List.zipIdx_cons, List.map_append, List.map_cons,
    List.filter_append, filter_zipIdx_of_notMem hfront, List.filter_cons_of_pos (by simp),
    filter_zipIdx_of_notMem hback]
  exact add_zero _

private theorem contribution_nonneg (k : Nat) (ranked : List α) (a : α) : 0 ≤ contribution k ranked a := by
  refine List.sum_nonneg fun x hx => ?_
  obtain ⟨pair, hpair, rfl⟩ := List.mem_map.1 hx
  obtain ⟨item, -, rfl⟩ := List.mem_map.1 (List.mem_filter.1 hpair).1
  positivity

/-- What is ranked ahead gets more. -/
private theorem contribution_lt (hranked : ranked.Nodup) (h : [a, b].Sublist ranked) :
    contribution k ranked b < contribution k ranked a := by
  obtain ⟨l, r, rfl, ha, hb⟩ := List.cons_sublist_iff.1 h
  obtain ⟨front, mid, rfl⟩ := List.append_of_mem ha
  obtain ⟨mid', back, rfl⟩ := List.append_of_mem (List.singleton_sublist.1 hb)
  have hcontribution : contribution k (front ++ a :: mid ++ (mid' ++ b :: back)) a =
      1 / ((k : ℚ) + ((1 + front.length : Nat) : ℚ)) := by
    rw [List.append_assoc, List.cons_append] at hranked ⊢
    exact contribution_of_split hranked
  rw [hcontribution]
  rw [← List.append_assoc] at hranked ⊢
  rw [contribution_of_split hranked]
  refine one_div_lt_one_div_of_lt (by positivity) ?_
  rw [add_lt_add_iff_left, Nat.cast_lt, List.length_append, List.length_append, List.length_cons]
  omega

/-! ### The fused ranking -/

/-- `scores`, for two rankings. -/
private def scores (k : Nat) (v w : List α) : List (α × ℚ) := Tally.addAll [] (contributions k v ++ contributions k w)

private theorem reciprocalRankFusion_pair (k : Nat) (v w : List α) :
    reciprocalRankFusion [v, w] k = (scores k v w).mergeSort fun a b => NotBehind a b := by
  rw [scores, Tally.addAll, List.foldl_append]
  rfl

private theorem mem_scores_iff {x : ℚ} : (a, x) ∈ scores k v w ↔
    (a ∈ v ∨ a ∈ w) ∧ contribution k v a + contribution k w a = x := by
  rw [scores, Tally.mem_tally_iff, List.map_append, map_fst_contributions, map_fst_contributions, List.mem_append,
    List.filter_append, List.map_append, List.sum_append]
  rfl

private theorem nodup_scores (k : Nat) (v w : List α) : ((scores k v w).map Prod.fst).Nodup :=
  Tally.nodup_keys_addAll (t := []) List.nodup_nil _

private theorem notBehind_trans {a b c : α × ℚ} (hab : NotBehind a b) (hbc : NotBehind b c) : NotBehind a c := by
  rcases hab with hab | ⟨hab, hid⟩
  · rcases hbc with hbc | ⟨hbc, -⟩
    · exact Or.inl (hbc.trans hab)
    · exact Or.inl (hbc ▸ hab)
  · rcases hbc with hbc | ⟨hbc, hid'⟩
    · exact Or.inl (hab.symm ▸ hbc)
    · exact Or.inr ⟨hab.trans hbc, hid.trans hid'⟩

private theorem notBehind_total (a b : α × ℚ) : NotBehind a b ∨ NotBehind b a := by
  rcases lt_trichotomy a.2 b.2 with hlt | heq | hgt
  · exact Or.inr (Or.inl hlt)
  · exact (le_total a.1 b.1).imp (fun h => Or.inr ⟨heq, h⟩) fun h => Or.inr ⟨heq.symm, h⟩
  · exact Or.inl (Or.inl hgt)

private theorem notBehind_antisymm {a b : α × ℚ} (hab : NotBehind a b) (hba : NotBehind b a) : a = b := by
  rcases hab with hab | ⟨heq, hid⟩
  · rcases hba with hba | ⟨heq, -⟩
    · exact absurd hba hab.asymm
    · exact absurd hab heq.not_lt
  · rcases hba with hba | ⟨-, hid'⟩
    · exact absurd hba heq.not_lt
    · exact Prod.ext (le_antisymm hid hid') heq

private theorem mem_fused_iff {x : ℚ} : (a, x) ∈ reciprocalRankFusion [v, w] k ↔
    (a ∈ v ∨ a ∈ w) ∧ contribution k v a + contribution k w a = x := by
  rw [reciprocalRankFusion_pair, List.mem_mergeSort, mem_scores_iff]

private theorem sorted_fused (k : Nat) (v w : List α) : (reciprocalRankFusion [v, w] k).Pairwise NotBehind := by
  rw [reciprocalRankFusion_pair]
  refine (List.pairwise_mergeSort ?_ ?_ _).imp fun h => of_decide_eq_true h
  · exact fun a b c hab hbc => decide_eq_true (notBehind_trans (of_decide_eq_true hab) (of_decide_eq_true hbc))
  · intro a b
    simpa using notBehind_total a b

private theorem nodup_fused (k : Nat) (v w : List α) : ((reciprocalRankFusion [v, w] k).map Prod.fst).Nodup := by
  rw [reciprocalRankFusion_pair]
  exact ((List.mergeSort_perm _ _).map Prod.fst).nodup_iff.2 (nodup_scores k v w)

private theorem mem_ids_iff : a ∈ (reciprocalRankFusion [v, w] k).map Prod.fst ↔ a ∈ v ∨ a ∈ w := by
  constructor
  · intro h
    obtain ⟨⟨a, x⟩, hpair, rfl⟩ := List.mem_map.1 h
    exact (mem_fused_iff.1 hpair).1
  · exact fun h => List.mem_map.2 ⟨(a, _), mem_fused_iff.2 ⟨h, rfl⟩, rfl⟩

/-- An id with a larger score stands in front. -/
private theorem sublist_of_lt (ha : a ∈ v ∨ a ∈ w) (hb : b ∈ v ∨ b ∈ w)
    (h : contribution k v b + contribution k w b < contribution k v a + contribution k w a) :
    [a, b].Sublist ((reciprocalRankFusion [v, w] k).map Prod.fst) := by
  obtain ⟨front, back, hsplit⟩ := List.append_of_mem (mem_fused_iff (k := k).2 ⟨ha, rfl⟩)
  have hsorted := sorted_fused k v w
  have hmem := mem_fused_iff (k := k).2 ⟨hb, rfl⟩
  rw [hsplit] at hsorted hmem ⊢
  rw [List.map_append, List.map_cons]
  have hnot : ¬ NotBehind (b, contribution k v b + contribution k w b) (a, contribution k v a + contribution k w a) := by
    rintro (hlt | ⟨heq, -⟩)
    · exact hlt.asymm h
    · exact heq.not_lt h
  rcases List.mem_append.1 hmem with hmem | hmem
  · exact absurd ((List.pairwise_append.1 hsorted).2.2 _ hmem _ List.mem_cons_self) hnot
  · rcases List.mem_cons.1 hmem with heq | hmem
    · obtain ⟨rfl, -⟩ := Prod.mk.inj heq
      exact absurd h (lt_irrefl _)
    · have hback : [b].Sublist (back.map Prod.fst) := List.singleton_sublist.2 (List.mem_map_of_mem hmem)
      exact (hback.cons_cons a).trans (List.sublist_append_right _ _)

/-- What is ahead of an id in each ranking that has it gets a larger score. -/
private theorem ahead_of_ahead (hv : v.Nodup) (hw : w.Nodup) (hb : b ∈ v ∨ b ∈ w) (hbv : b ∈ v → [a, b].Sublist v)
    (hbw : b ∈ w → [a, b].Sublist w) : [a, b].Sublist ((reciprocalRankFusion [v, w] k).map Prod.fst) := by
  have hle : ∀ ranked : List α, ranked.Nodup → (b ∈ ranked → [a, b].Sublist ranked) →
      contribution k ranked b ≤ contribution k ranked a := by
    intro ranked hranked h
    by_cases hmem : b ∈ ranked
    · exact (contribution_lt hranked (h hmem)).le
    · rw [contribution_of_notMem hmem]
      exact contribution_nonneg k ranked a
  rcases hb with hb | hb
  · have ha : a ∈ v := (hbv hb).subset List.mem_cons_self
    exact sublist_of_lt (Or.inl ha) (Or.inl hb) (add_lt_add_of_lt_of_le (contribution_lt hv (hbv hb)) (hle w hw hbw))
  · have ha : a ∈ w := (hbw hb).subset List.mem_cons_self
    exact sublist_of_lt (Or.inr ha) (Or.inr hb) (add_lt_add_of_le_of_lt (hle v hv hbv) (contribution_lt hw (hbw hb)))

/-- `top_k` cuts the fused ranking. -/
private theorem fuseRankedIds_eq (k : Nat) (v w : List α) {topK : Int} (htop : 1 ≤ topK) :
    fuseRankedIds v w topK k = (reciprocalRankFusion [v, w] k).take topK.toNat := by
  have hpos : topK > 0 := htop
  rw [fuseRankedIds, if_pos hpos]

/-- A smaller `top_k` leaves a beginning. -/
private theorem fuseRankedIds_prefix (k : Nat) (v w : List α) {topK topK' : Int} (htop : 1 ≤ topK) (h : topK ≤ topK') :
    fuseRankedIds v w topK k <+: fuseRankedIds v w topK' k := by
  rw [fuseRankedIds_eq k v w htop, fuseRankedIds_eq k v w (htop.trans h)]
  exact List.take_prefix_take_left (Int.toNat_le_toNat h)

private theorem fused_comm (k : Nat) (v w : List α) :
    reciprocalRankFusion [v, w] k = reciprocalRankFusion [w, v] k := by
  have hperm : (scores k v w).Perm (scores k w v) := by
    refine (List.perm_ext_iff_of_nodup (nodup_scores k v w).of_map (nodup_scores k w v).of_map).2 ?_
    rintro ⟨a, x⟩
    rw [mem_scores_iff, mem_scores_iff, or_comm, add_comm]
  refine List.Perm.eq_of_pairwise (fun a b _ _ => notBehind_antisymm) (sorted_fused k v w) (sorted_fused k w v) ?_
  rw [reciprocalRankFusion_pair, reciprocalRankFusion_pair]
  exact (List.mergeSort_perm _ _).trans (hperm.trans (List.mergeSort_perm _ _).symm)

end

/-! ### The quota -/

section

variable {ρ δ : Type*} [DecidableEq δ] {docId : ρ → δ} {maxPerDoc topK : Int} {kept : List ρ}

/-- How many rows a document has. -/
def rowsOf (docId : ρ → δ) (rows : List ρ) (doc : δ) : Int := (rows.filter fun row => docId row = doc).length

private theorem rowsOf_append (docId : ρ → δ) (l r : List ρ) (doc : δ) :
    rowsOf docId (l ++ r) doc = rowsOf docId l doc + rowsOf docId r doc := by
  rw [rowsOf, List.filter_append, List.length_append]
  rfl

private theorem rowsOf_singleton (docId : ρ → δ) (row : ρ) (doc : δ) :
    rowsOf docId [row] doc = if docId row = doc then 1 else 0 := by
  by_cases h : docId row = doc
  · simp [rowsOf, h]
  · simp [rowsOf, h]

/-- The invariant of the loop, and what it keeps and omits of the rows that are left. -/
private theorem dedupRows_spec (pool : List ρ) (counts : δ → Int) (hcounts : ∀ doc, counts doc = rowsOf docId kept doc)
    (hquota : ∀ doc, rowsOf docId kept doc ≤ maxPerDoc) (htop : (kept.length : Int) < topK) :
    ∃ more omitted, dedupRows docId maxPerDoc topK pool counts kept = kept ++ more ∧ more.Sublist pool ∧
      ((kept ++ more).length : Int) ≤ topK ∧ (∀ doc, rowsOf docId (kept ++ more) doc ≤ maxPerDoc) ∧
      (((kept ++ more).length : Int) < topK → (more ++ omitted).Perm pool ∧
        ∀ row ∈ omitted, rowsOf docId (kept ++ more) (docId row) = maxPerDoc) := by
  induction pool generalizing counts kept with
  | nil =>
    rw [dedupRows]
    refine ⟨[], [], (List.append_nil kept).symm, List.nil_sublist _, ?_, ?_, fun _ => ⟨List.Perm.nil, ?_⟩⟩
    · rw [List.append_nil]
      exact htop.le
    · rw [List.append_nil]
      exact hquota
    · exact fun row hrow => absurd hrow List.not_mem_nil
  | cons row pool ih =>
    rw [dedupRows]
    by_cases hfull : counts (docId row) ≥ maxPerDoc
    · rw [if_pos hfull]
      obtain ⟨more, omitted, heq, hsub, hlength, hdocs, hmax⟩ := ih counts hcounts hquota htop
      refine ⟨more, row :: omitted, heq, hsub.cons row, hlength, hdocs, fun hshort => ?_⟩
      obtain ⟨hperm, hat⟩ := hmax hshort
      refine ⟨List.perm_middle.trans (hperm.cons row), fun r hr => ?_⟩
      rcases List.mem_cons.1 hr with rfl | hr
      · -- a document that is at its quota stays there
        refine le_antisymm (hdocs _) ?_
        rw [rowsOf_append, ← hcounts]
        exact le_add_of_le_of_nonneg hfull (Int.natCast_nonneg _)
      · exact hat r hr
    · have hrow : ∀ doc, rowsOf docId (kept ++ [row]) doc ≤ maxPerDoc := by
        intro doc
        rw [rowsOf_append, rowsOf_singleton]
        split
        · rename_i hdoc
          rw [← hdoc, ← hcounts]
          exact Int.add_one_le_of_lt (not_le.1 hfull)
        · rw [add_zero]
          exact hquota doc
      rw [if_neg hfull]
      by_cases hend : ((kept ++ [row]).length : Int) ≥ topK
      · -- the last row that is asked for; nothing is said of the rest of the pool
        rw [if_pos hend]
        refine ⟨[row], [], rfl, List.singleton_sublist.2 List.mem_cons_self, ?_, hrow, fun hshort => absurd hend ?_⟩
        · rw [List.length_append]
          exact Int.add_one_le_of_lt htop
        · exact not_le.2 hshort
      · rw [if_neg hend]
        have hnext : ∀ doc, Function.update counts (docId row) (counts (docId row) + 1) doc =
            rowsOf docId (kept ++ [row]) doc := by
          intro doc
          rw [rowsOf_append, rowsOf_singleton]
          by_cases hdoc : docId row = doc
          · rw [← hdoc, Function.update_self, if_pos rfl, hcounts]
          · rw [Function.update_of_ne (Ne.symm hdoc), if_neg hdoc, add_zero, hcounts]
        obtain ⟨more, omitted, heq, hsub, hlength, hdocs, hmax⟩ := ih _ hnext hrow (not_le.1 hend)
        rw [List.append_assoc] at heq hlength hdocs hmax
        exact ⟨row :: more, omitted, heq, hsub.cons_cons row, hlength, hdocs,
          fun hshort => ⟨(hmax hshort).1.cons row, (hmax hshort).2⟩⟩

theorem dedupByDoc_spec (docId : ρ → δ) (pool : List ρ) (hmax : 1 ≤ maxPerDoc) (htop : 1 ≤ topK) :
    (dedupByDoc docId maxPerDoc topK pool).Sublist pool ∧
    ((dedupByDoc docId maxPerDoc topK pool).length : Int) ≤ topK ∧
    (∀ doc, rowsOf docId (dedupByDoc docId maxPerDoc topK pool) doc ≤ maxPerDoc) ∧
    (((dedupByDoc docId maxPerDoc topK pool).length : Int) < topK →
      ∃ omitted, (dedupByDoc docId maxPerDoc topK pool ++ omitted).Perm pool ∧
        ∀ row ∈ omitted, rowsOf docId (dedupByDoc docId maxPerDoc topK pool) (docId row) = maxPerDoc) := by
  have hnone : ∀ doc, rowsOf docId [] doc ≤ maxPerDoc := fun doc => le_trans zero_le_one hmax
  obtain ⟨more, omitted, heq, hsub, hlength, hdocs, hrest⟩ :=
    dedupRows_spec pool (fun _ => 0) (fun _ => rfl) hnone (Int.lt_of_lt_of_le Int.zero_lt_one htop)
  rw [List.nil_append] at heq hlength hdocs hrest
  rw [dedupByDoc, heq]
  exact ⟨hsub, hlength, hdocs, fun hshort => ⟨omitted, hrest hshort⟩⟩

end

/-- **Fusion and quota.**  The fused ranking has each id of the two rankings once, keeps the order in which they agree,
does not depend on which is which, and is cut at `top_k`.  The quota keeps rows in their order, as many as it can. -/
theorem rank_fusion_and_quota {α ρ δ : Type*} [LinearOrder α] [DecidableEq δ] {v w : List α} (hv : v.Nodup)
    (hw : w.Nodup) (k : Nat) (docId : ρ → δ) (pool : List ρ) {maxPerDoc topK : Int} (hmax : 1 ≤ maxPerDoc)
    (htop : 1 ≤ topK) :
    (((reciprocalRankFusion [v, w] k).map Prod.fst).Nodup ∧
      (∀ a, a ∈ (reciprocalRankFusion [v, w] k).map Prod.fst ↔ a ∈ v ∨ a ∈ w) ∧
      (∀ a b, (b ∈ v ∨ b ∈ w) → (b ∈ v → [a, b].Sublist v) → (b ∈ w → [a, b].Sublist w) →
        [a, b].Sublist ((reciprocalRankFusion [v, w] k).map Prod.fst)) ∧
      (reciprocalRankFusion [v, w] k = reciprocalRankFusion [w, v] k ∧
        ∀ n, fuseRankedIds v w n k = fuseRankedIds w v n k) ∧
      fuseRankedIds v w topK k = (reciprocalRankFusion [v, w] k).take topK.toNat ∧
      ∀ n, topK ≤ n → fuseRankedIds v w topK k <+: fuseRankedIds v w n k) ∧
    (dedupByDoc docId maxPerDoc topK pool).Sublist pool ∧
    ((dedupByDoc docId maxPerDoc topK pool).length : Int) ≤ topK ∧
    (∀ doc, rowsOf docId (dedupByDoc docId maxPerDoc topK pool) doc ≤ maxPerDoc) ∧
    (((dedupByDoc docId maxPerDoc topK pool).length : Int) < topK →
      ∃ omitted, (dedupByDoc docId maxPerDoc topK pool ++ omitted).Perm pool ∧
        ∀ row ∈ omitted, rowsOf docId (dedupByDoc docId maxPerDoc topK pool) (docId row) = maxPerDoc) := by
  refine ⟨⟨nodup_fused k v w, fun a => mem_ids_iff, fun a b hb hbv hbw => ahead_of_ahead hv hw hb hbv hbw,
    ⟨fused_comm k v w, fun n => ?_⟩, fuseRankedIds_eq k v w htop, fun n hn => fuseRankedIds_prefix k v w htop hn⟩,
    dedupByDoc_spec docId pool hmax htop⟩
  rw [fuseRankedIds, fuseRankedIds, fused_comm]

/-- Two rankings that share an id, and three rows of two documents. -/
theorem rank_fusion_and_quota_small :
    (((reciprocalRankFusion [[3, 1, 2], [2, 4]] rrfK).map Prod.fst).Nodup ∧
      (∀ a : Nat, a ∈ (reciprocalRankFusion [[3, 1, 2], [2, 4]] rrfK).map Prod.fst ↔ a ∈ [3, 1, 2] ∨ a ∈ [2, 4]) ∧
      (∀ a b : Nat, (b ∈ [3, 1, 2] ∨ b ∈ [2, 4]) → (b ∈ [3, 1, 2] → [a, b].Sublist [3, 1, 2]) →
        (b ∈ [2, 4] → [a, b].Sublist [2, 4]) →
        [a, b].Sublist ((reciprocalRankFusion [[3, 1, 2], [2, 4]] rrfK).map Prod.fst)) ∧
      (reciprocalRankFusion [[3, 1, 2], [2, 4]] rrfK = reciprocalRankFusion [[2, 4], [3, 1, 2]] rrfK ∧
        ∀ n, fuseRankedIds [3, 1, 2] [2, 4] n rrfK = fuseRankedIds [2, 4] [3, 1, 2] n rrfK) ∧
      fuseRankedIds [3, 1, 2] [2, 4] 2 rrfK = (reciprocalRankFusion [[3, 1, 2], [2, 4]] rrfK).take 2 ∧
      ∀ n, 2 ≤ n → fuseRankedIds [3, 1, 2] [2, 4] 2 rrfK <+: fuseRankedIds [3, 1, 2] [2, 4] n rrfK) ∧
    (dedupByDoc Prod.fst 1 2 [("a", 0), ("a", 1), ("b", 0)]).Sublist [("a", 0), ("a", 1), ("b", 0)] ∧
    ((dedupByDoc Prod.fst 1 2 [("a", 0), ("a", 1), ("b", 0)]).length : Int) ≤ 2 ∧
    (∀ doc, rowsOf Prod.fst (dedupByDoc Prod.fst 1 2 [("a", 0), ("a", 1), ("b", 0)]) doc ≤ 1) ∧
    (((dedupByDoc Prod.fst 1 2 [("a", 0), ("a", 1), ("b", 0)]).length : Int) < 2 →
      ∃ omitted, (dedupByDoc Prod.fst 1 2 [("a", 0), ("a", 1), ("b", 0)] ++ omitted).Perm
          [("a", 0), ("a", 1), ("b", 0)] ∧
        ∀ row ∈ omitted, rowsOf Prod.fst (dedupByDoc Prod.fst 1 2 [("a", 0), ("a", 1), ("b", 0)]) row.1 = 1) :=
  rank_fusion_and_quota (by decide) (by decide) rrfK Prod.fst _ le_rfl (by decide)

end AgentOS.Retrieval
