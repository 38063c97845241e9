import AgentOS.Lib.Paths
import Mathlib.Data.List.FinRange
import Mathlib.Data.Set.Card

/-!
# Paths in a graph

`graph_find_path` of `mcp/shared_graph_tools.py`.  Ids of nodes may be of any type, and so may the relationships.

* `graph_find_path_complete`: it returns the simple paths of at most so many edges, ten of the shortest if there are
  more.
-/

namespace AgentOS.GraphTools

/-- What the tools read of an edge. -/
structure Edge (α ρ : Type*) where
  source : α
  target : α
  relationship : ρ

/-- An item of `queue`. -/
structure Entry (α ρ : Type*) where
  node : α
  path : List α
  rels : List ρ

/-- An item of `paths`. -/
structure FoundPath (α ρ : Type*) where
  path : List α
  relationships : List ρ

section

variable {α ρ : Type*} [DecidableEq α]

/-- `adj.get(node, [])`, in the order in which the loop over the edges appends. -/
def adjacent (edges : List (Edge α ρ)) (directed : Bool) (node : α) : List (α × ρ) :=
  edges.flatMap fun edge =>
    (if edge.source = node then [(edge.target, edge.relationship)] else []) ++
      if !directed ∧ edge.target = node then [(edge.source, edge.relationship)] else []

/-- The loop over the queue, with a bound on its rounds; `none` is a loop that is not done then. -/
def searchPaths (adj : α → List (α × ρ)) (target : α) (tooLong : Nat → Bool) (cap : Nat) :
    Nat → List (Entry α ρ) → List (FoundPath α ρ) → Option (List (FoundPath α ρ))
  | _, [], paths => some paths
  | 0, _ :: _, paths => if paths.length < cap then none else some paths
  | rounds + 1, entry :: queue, paths =>
    if paths.length < cap then
      if tooLong entry.path.length then searchPaths adj target tooLong cap rounds queue paths
      else if entry.node = target then
        searchPaths adj target tooLong cap rounds queue (paths ++ [⟨entry.path, entry.rels⟩])
      else
        let next := ((adj entry.node).filter fun step => step.1 ∉ entry.path).map fun step =>
          ⟨step.1, entry.path ++ [step.1], entry.rels ++ [step.2]⟩
        searchPaths adj target tooLong cap rounds (queue ++ next) paths
    else some paths

/-- `graph_find_path`, with a bound on the rounds of its loop. -/
def graphFindPath (rounds : Nat) (edges : List (Edge α ρ)) (source target : α) (maxDepth : Int) (directed : Bool) :
    Option (List (FoundPath α ρ)) :=
  searchPaths (adjacent edges directed) target (fun n => (n : Int) - 1 > maxDepth) 10 rounds [⟨source, [source], []⟩] []

end

/-! ### Paths as sequences of edges -/

section

variable {α ρ : Type*} [DecidableEq α]

/-- The steps that an edge allows from a node; an edge is known by its place among the edges. -/
def steps (edges : List (Edge α ρ)) (directed : Bool) (node : α) : List (α × Fin edges.length) :=
  (List.finRange edges.length).flatMap fun i =>
    (if (edges.get i).source = node then [((edges.get i).target, i)] else []) ++
      if !directed ∧ (edges.get i).target = node then [((edges.get i).source, i)] else []

/-- What is returned for a path. -/
def shown (edges : List (Edge α ρ)) (source : α) (p : List (α × Fin edges.length)) : FoundPath α ρ where
  path := Paths.nodes source p
  relationships := p.map fun step => (edges.get step.2).relationship

variable {edges : List (Edge α ρ)} {directed : Bool}

theorem mem_steps {node : α} {step : α × Fin edges.length} : step ∈ steps edges directed node ↔
    (edges.get step.2).source = node ∧ (edges.get step.2).target = step.1 ∨
      directed = false ∧ (edges.get step.2).target = node ∧ (edges.get step.2).source = step.1 := by
  obtain ⟨other, i⟩ := step
  unfold steps
  simp only [List.mem_flatMap, List.mem_finRange, true_and, List.mem_append, List.mem_ite_nil_right, List.mem_singleton,
    Prod.mk.injEq, Bool.not_eq_true']
  constructor
  · rintro ⟨j, ⟨hsource, rfl, rfl⟩ | ⟨⟨hdirected, htarget⟩, rfl, rfl⟩⟩
    · exact Or.inl ⟨hsource, rfl⟩
    · exact Or.inr ⟨hdirected, htarget, rfl⟩
  · rintro (⟨hsource, rfl⟩ | ⟨hdirected, htarget, rfl⟩)
    · exact ⟨i, Or.inl ⟨hsource, rfl, rfl⟩⟩
    · exact ⟨i, Or.inr ⟨⟨hdirected, htarget⟩, rfl, rfl⟩⟩

theorem adjacent_eq (edges : List (Edge α ρ)) (directed : Bool) (node : α) : adjacent edges directed node =
    (steps edges directed node).map fun step => (step.1, (edges.get step.2).relationship) := by
  have hedges : edges = (List.finRange edges.length).map edges.get := (List.map_get_finRange edges).symm
  unfold adjacent steps
  conv_lhs => rw [hedges]
  rw [List.flatMap_map, List.map_flatMap]
  refine List.flatMap_congr fun i _ => ?_
  rw [List.map_append, apply_ite (List.map _), apply_ite (List.map _)]
  rfl

/-- The steps from a node that an edge allows, other than to the node itself: there is one at most. -/
private theorem filter_step (edge : Edge α ρ) {β : Type*} (i : β) (directed : Bool) (node : α) :
    ((if edge.source = node then [(edge.target, i)] else []) ++
      if !directed ∧ edge.target = node then [(edge.source, i)] else []).filter (·.1 ≠ node) = [] ∨
    ∃ other, ((if edge.source = node then [(edge.target, i)] else []) ++
      if !directed ∧ edge.target = node then [(edge.source, i)] else []).filter (·.1 ≠ node) = [(other, i)] := by
  by_cases hsource : edge.source = node
  · have hback : (if !directed ∧ edge.target = node then [(edge.source, i)] else []).filter (·.1 ≠ node) = [] := by
      rw [List.filter_eq_nil_iff]
      intro step hstep
      rw [List.mem_ite_nil_right, List.mem_singleton] at hstep
      rw [hstep.2]
      simpa using hsource
    rw [List.filter_append, hback, List.append_nil, if_pos hsource]
    by_cases htarget : edge.target = node
    · exact Or.inl (by simp [htarget])
    · exact Or.inr ⟨edge.target, by simp [htarget]⟩
  · rw [if_neg hsource, List.nil_append]
    split
    · exact Or.inr ⟨edge.source, by simp [hsource]⟩
    · exact Or.inl rfl

/-- Other than from a node to itself, a step is known by its edge. -/
theorem ordered_steps (edges : List (Edge α ρ)) (directed : Bool) : Paths.Ordered (steps edges directed) := by
  intro node
  unfold steps
  rw [List.filter_flatMap, List.pairwise_flatMap]
  constructor
  · intro i _
    rcases filter_step (edges.get i) i directed node with h | ⟨other, h⟩
    · rw [h]
      exact List.Pairwise.nil
    · rw [h]
      exact List.pairwise_singleton _ _
  · refine (List.pairwise_lt_finRange edges.length).imp ?_
    intro i j hlt s hs t ht
    have hlabel : ∀ k, ∀ step ∈ ((if (edges.get k).source = node then [((edges.get k).target, k)] else []) ++
        if !directed ∧ (edges.get k).target = node then [((edges.get k).source, k)] else []).filter (·.1 ≠ node),
        step.2 = k := by
      intro k step hstep
      rcases filter_step (edges.get k) k directed node with h | ⟨other, h⟩
      · rw [h] at hstep
        cases hstep
      · rw [h] at hstep
        rw [List.mem_singleton.1 hstep]
    rwa [hlabel i s hs, hlabel j t ht]

/-! ### The loop -/

variable (adj : α → List (α × ρ)) (target : α) (tooLong : Nat → Bool) in
/-- What the loop appends to the queue for an entry. -/
private def children (entry : Entry α ρ) : List (Entry α ρ) :=
  if tooLong entry.path.length ∨ entry.node = target then []
  else ((adj entry.node).filter fun step => step.1 ∉ entry.path).map fun step =>
    ⟨step.1, entry.path ++ [step.1], entry.rels ++ [step.2]⟩

variable (target : α) (tooLong : Nat → Bool) in
/-- What the loop appends to the paths for an entry. -/
private def report (entry : Entry α ρ) : Option (FoundPath α ρ) :=
  if !tooLong entry.path.length ∧ entry.node = target then some ⟨entry.path, entry.rels⟩ else none

private theorem searchPaths_eq_run (adj : α → List (α × ρ)) (target : α) (tooLong : Nat → Bool) (cap rounds : Nat)
    (queue : List (Entry α ρ)) (paths : List (FoundPath α ρ)) :
    searchPaths adj target tooLong cap rounds queue paths =
      Queue.run (children adj target tooLong) (report target tooLong) cap rounds queue paths := by
  induction rounds generalizing queue paths with
  | zero =>
    cases queue with
    | nil => rfl
    | cons entry queue => rfl
  | succ rounds ih =>
    cases queue with
    | nil => rfl
    | cons entry queue =>
      rw [searchPaths, Queue.run, children, report]
      split
      · by_cases hlong : tooLong entry.path.length = true
        · simp [hlong, ih]
        · by_cases htarget : entry.node = target
          · simp [hlong, htarget, ih]
          · simp [hlong, htarget, ih]
      · rfl

variable (edges : List (Edge α ρ)) (source : α) in
/-- The entry of a walk. -/
private def entryOf (p : List (α × Fin edges.length)) : Entry α ρ :=
  ⟨Paths.endOf source p, Paths.nodes source p, p.map fun step => (edges.get step.2).relationship⟩

omit [DecidableEq α] in
private theorem entryOf_append_singleton (edges : List (Edge α ρ)) (source : α) (p : List (α × Fin edges.length))
    (step : α × Fin edges.length) : entryOf edges source (p ++ [step]) = ⟨step.1,
      (entryOf edges source p).path ++ [step.1],
      (entryOf edges source p).rels ++ [(edges.get step.2).relationship]⟩ := by
  rw [entryOf, Paths.endOf_append_singleton, Paths.nodes_append_singleton, List.map_append]
  rfl

section

variable (edges : List (Edge α ρ)) (directed : Bool) (source target : α) {tooLong : Nat → Bool} {bound : Nat}
  (hbound : ∀ n, tooLong (n + 1) = true ↔ bound < n) (p : List (α × Fin edges.length))

include hbound

omit [DecidableEq α] in
private theorem tooLong_iff : tooLong (entryOf edges source p).path.length = true ↔ bound < p.length := by
  rw [← hbound, entryOf, Paths.nodes, List.length_cons, List.length_map]

private theorem children_entryOf : children (adjacent edges directed) target tooLong (entryOf edges source p) =
    (Paths.extend (steps edges directed) source target bound p).map (entryOf edges source) := by
  have hdone : (tooLong (entryOf edges source p).path.length = true ∨ (entryOf edges source p).node = target) ↔
      bound < p.length ∨ Paths.endOf source p = target := or_congr_left (tooLong_iff edges source hbound p)
  rw [children, Paths.extend]
  by_cases h : bound < p.length ∨ Paths.endOf source p = target
  · rw [if_pos (hdone.2 h), if_pos h, List.map_nil]
  · rw [if_neg (mt hdone.1 h), if_neg h, adjacent_eq, List.filter_map, List.map_map, List.map_map]
    exact List.map_congr_left fun step _ => (entryOf_append_singleton edges source p step).symm

private theorem report_entryOf : report target tooLong (entryOf edges source p) =
    (Paths.report source target bound p).map (shown edges source) := by
  have hdone : ((!tooLong (entryOf edges source p).path.length) = true ∧ (entryOf edges source p).node = target) ↔
      p.length ≤ bound ∧ Paths.endOf source p = target := by
    rw [Bool.not_eq_true', ← Bool.not_eq_true, tooLong_iff edges source hbound p, Nat.not_lt]
    rfl
  rw [report, Paths.report]
  by_cases h : p.length ≤ bound ∧ Paths.endOf source p = target
  · rw [if_pos (hdone.2 h), if_pos h]
    rfl
  · rw [if_neg (mt hdone.1 h), if_neg h]
    rfl

/-- The search returns the first of the simple paths that are not too long. -/
theorem searchPaths_eq (cap : Nat) : ∃ rounds, ∀ more,
    searchPaths (adjacent edges directed) target tooLong cap (rounds + more) [⟨source, [source], []⟩] [] =
      some (((Paths.paths (steps edges directed) source target bound).take cap).map (shown edges source)) := by
  refine ⟨(Queue.layers (Paths.extend (steps edges directed) source target bound) (bound + 2) [[]]).length,
    fun more => ?_⟩
  have hrun := Queue.run_map (entryOf edges source) (shown edges source)
    (children_entryOf edges directed source target hbound) (report_entryOf edges source target hbound) cap
    ((Queue.layers (Paths.extend (steps edges directed) source target bound) (bound + 2) [[]]).length + more) [[]] []
  rw [Paths.run_extend cap more] at hrun
  rw [searchPaths_eq_run]
  exact hrun

end

/-! ### Soundness and completeness -/

/-- A path as the sequence of its edges: simple, from the source to the target, of at most so many edges. -/
def IsPathWithin (edges : List (Edge α ρ)) (directed : Bool) (source target : α) (maxDepth : Nat)
    (p : List (α × Fin edges.length)) : Prop :=
  Paths.IsPath (steps edges directed) source target p ∧ p.length ≤ maxDepth

/-- The edges of the paths. -/
def pathEdges (edges : List (Edge α ρ)) (directed : Bool) (source target : α) (maxDepth : Nat) :
    Set (List (Fin edges.length)) :=
  {is | ∃ p, IsPathWithin edges directed source target maxDepth p ∧ Paths.edges p = is}

/-- There are as many paths as sequences of edges. -/
theorem encard_pathEdges (edges : List (Edge α ρ)) (directed : Bool) (source target : α) (maxDepth : Nat) :
    (pathEdges edges directed source target maxDepth).encard =
      (Paths.paths (steps edges directed) source target maxDepth).length := by
  have hset : pathEdges edges directed source target maxDepth =
      (((Paths.paths (steps edges directed) source target maxDepth).map Paths.edges).toFinset : Set _) := by
    ext is
    rw [List.coe_toFinset]
    show (∃ p, IsPathWithin edges directed source target maxDepth p ∧ Paths.edges p = is) ↔ is ∈ List.map _ _
    simp only [List.mem_map, Paths.mem_paths_iff]
    rfl
  rw [hset, Set.encard_coe_eq_coe_finsetCard,
    List.toFinset_card_of_nodup (Paths.nodup_edges (ordered_steps edges directed)), List.length_map]

/-- **Soundness and completeness.**  The search returns only simple paths of at most `maxDepth` edges, each once and
shorter ones first, all of them if there are ten at most, and otherwise ten of the shortest. -/
theorem graph_find_path_complete (edges : List (Edge α ρ)) (source target : α) (maxDepth : Nat) (directed : Bool) :
    ∃ ps : List (List (α × Fin edges.length)),
      (∃ rounds, ∀ more, graphFindPath (rounds + more) edges source target maxDepth directed =
        some (ps.map (shown edges source))) ∧
      (∀ p ∈ ps, IsPathWithin edges directed source target maxDepth p) ∧
      (ps.map Paths.edges).Nodup ∧
      ps.Pairwise (fun p q => p.length ≤ q.length) ∧
      ((pathEdges edges directed source target maxDepth).encard ≤ 10 →
        ∀ p, IsPathWithin edges directed source target maxDepth p → p ∈ ps) ∧
      (10 < (pathEdges edges directed source target maxDepth).encard → ps.length = 10 ∧
        ∀ p, IsPathWithin edges directed source target maxDepth p → p ∉ ps → ∀ q ∈ ps, q.length ≤ p.length) ∧
      (source = target → ps = [[]]) := by
  have hordered := ordered_steps edges directed
  have hmem : ∀ p, p ∈ Paths.paths (steps edges directed) source target maxDepth ↔
      IsPathWithin edges directed source target maxDepth p := fun p => Paths.mem_paths_iff
  have hbound : ∀ n : Nat, decide (((n + 1 : Nat) : Int) - 1 > (maxDepth : Int)) = true ↔ maxDepth < n := by
    intro n
    rw [decide_eq_true_eq]
    omega
  have hlength : ∀ p q : List (α × Fin edges.length), List.Shortlex (· < ·) (Paths.edges p) (Paths.edges q) →
      p.length ≤ q.length := fun p q h => Paths.length_le_of_edges h
  refine ⟨(Paths.paths (steps edges directed) source target maxDepth).take 10,
    searchPaths_eq edges directed source target
    hbound 10, fun p hp => (hmem p).1 (List.mem_of_mem_take hp), ?_, ?_, ?_, ?_, ?_⟩
  · exact (Paths.nodup_edges hordered).sublist ((List.take_sublist 10 _).map _)
  · exact ((Paths.paths_sorted hordered).sublist (List.take_sublist 10 _)).imp fun h => hlength _ _ h
  · intro hfew p hp
    rw [encard_pathEdges] at hfew
    rw [List.take_of_length_le (Nat.cast_le.1 hfew)]
    exact (hmem p).2 hp
  · intro hmany
    rw [encard_pathEdges] at hmany
    have hmany : 10 < (Paths.paths (steps edges directed) source target maxDepth).length := Nat.cast_lt.1 hmany
    refine ⟨List.length_take_of_le (Nat.le_of_lt hmany), fun p hp hcut q hq => hlength _ _ ?_⟩
    exact Paths.shortlex_of_omitted hordered ((hmem p).2 hp) hcut hq
  · rintro rfl
    rw [Paths.paths_self]
    rfl

end

end AgentOS.GraphTools
