import AgentOS.GraphTools.FindPath
import AgentOS.Lib.Dict
import AgentOS.Lib.Hops
import Mathlib.Data.Finset.Sort
import Mathlib.Data.Finset.Union

/-!
# Subgraphs

`graph_get_subgraph` of `mcp/shared_graph_tools.py`.

* `subgraph_is_neighbourhood`: it returns the nodes within the depth of the seeds, and the edges between them.
-/

namespace AgentOS.GraphTools

/-- A node; `attrs` is all but its id. -/
structure Node (α ν : Type*) where
  id : α
  attrs : ν

/-- The order in which a set is iterated. -/
structure SetOrder (α : Type*) where
  list : Finset α → List α
  nodup : ∀ s, (list s).Nodup
  mem_iff : ∀ s a, a ∈ list s ↔ a ∈ s

structure Subgraph (α ν ρ : Type*) where
  nodes : List (Node α ν)
  edges : List (Edge α ρ)

section

variable {α ν ρ : Type*} [DecidableEq α]

/-- `{n.get("id"): n for n in nodes}`. -/
def allNodes (nodes : List (Node α ν)) : α → Option (Node α ν) :=
  Dict.assign (fun _ => none) (nodes.map fun node => (node.id, node))

/-- The other end of an edge at a node. -/
def otherEnd (node : α) (edge : Edge α ρ) : Option α :=
  if edge.source = node then some edge.target
  else if edge.target = node then some edge.source
  else none

/-- `next_level`. -/
def nextLevel (edges : List (Edge α ρ)) (level : Finset α) : Finset α :=
  level.biUnion fun node => (edges.filterMap (otherEnd node)).toFinset

/-- `graph_get_subgraph`. -/
def graphGetSubgraph (order : SetOrder α) (nodes : List (Node α ν)) (edges : List (Edge α ρ)) (seedNodes : List α)
    (depth : Int) : Subgraph α ν ρ :=
  let visited := Hops.spread (nextLevel edges) depth.toNat seedNodes.toFinset seedNodes.toFinset
  { nodes := (order.list visited).filterMap (allNodes nodes)
    edges := edges.filter fun edge => edge.source ∈ visited ∧ edge.target ∈ visited }

end

/-! ### Neighbourhoods -/

section

variable {α ν ρ : Type*}

/-- An edge joins the two, in either direction. -/
def Joined (edges : List (Edge α ρ)) (a b : α) : Prop :=
  ∃ edge ∈ edges, edge.source = a ∧ edge.target = b ∨ edge.target = a ∧ edge.source = b

/-- A known seed is within the depth. -/
def NearSeed (nodes : List (Node α ν)) (edges : List (Edge α ρ)) (seedNodes : List α) (depth : Nat) (id : α) : Prop :=
  ∃ seed ∈ seedNodes, seed ∈ nodes.map Node.id ∧ ∃ k ≤ depth, Hops (Joined edges) k seed id

variable [DecidableEq α] {nodes : List (Node α ν)} {edges : List (Edge α ρ)}

private theorem mem_nextLevel (level : Finset α) (b : α) : b ∈ nextLevel edges level ↔
    ∃ a ∈ level, Joined edges a b := by
  simp only [nextLevel, Finset.mem_biUnion, List.mem_toFinset, List.mem_filterMap]
  refine exists_congr fun a => and_congr_right fun _ => exists_congr fun edge => and_congr_right fun _ => ?_
  unfold otherEnd
  split
  · rename_i hsource
    rw [Option.some.injEq]
    constructor
    · exact fun htarget => Or.inl ⟨hsource, htarget⟩
    · rintro (⟨-, htarget⟩ | ⟨htarget, hsource'⟩)
      · exact htarget
      · rw [htarget, ← hsource, hsource']
  · rename_i hsource
    split
    · rename_i htarget
      rw [Option.some.injEq]
      exact ⟨fun h => Or.inr ⟨htarget, h⟩, fun h => (h.resolve_left fun h => hsource h.1).2⟩
    · rename_i htarget
      exact iff_of_false (by simp) fun h => h.elim (fun h => hsource h.1) fun h => htarget h.1

private theorem allNodes_eq_some (hids : (nodes.map Node.id).Nodup) {id : α} {node : Node α ν} :
    allNodes nodes id = some node ↔ node ∈ nodes ∧ node.id = id := by
  have hkeys : ((nodes.map fun node => (node.id, node)).map Prod.fst).Nodup := by
    rw [List.map_map]
    exact hids
  constructor
  · intro h
    obtain ⟨node', hnode, heq⟩ := List.mem_map.1 (Dict.mem_of_assign h)
    obtain ⟨rfl, rfl⟩ := Prod.mk.inj heq
    exact ⟨hnode, rfl⟩
  · rintro ⟨hnode, rfl⟩
    exact Dict.assign_of_mem hkeys (List.mem_map.2 ⟨node, hnode, rfl⟩)

/-- What is within hops of a seed is within hops of a known one, or is an unknown seed itself. -/
private theorem nearSeed_iff (hends : ∀ edge ∈ edges, edge.source ∈ nodes.map Node.id ∧ edge.target ∈ nodes.map Node.id)
    {seedNodes : List α} {depth : Nat} {id : α} (hid : id ∈ nodes.map Node.id) :
    (∃ seed ∈ seedNodes.toFinset, ∃ k ≤ depth, Hops (Joined edges) k seed id) ↔
      NearSeed nodes edges seedNodes depth id := by
  constructor
  · rintro ⟨seed, hseed, k, hk, h⟩
    refine ⟨seed, List.mem_toFinset.1 hseed, ?_, k, hk, h⟩
    cases k with
    | zero => exact Hops.zero_iff.1 h ▸ hid
    | succ k =>
      obtain ⟨b, ⟨edge, hedge, ⟨rfl, -⟩ | ⟨rfl, -⟩⟩, -⟩ := Hops.head_iff.1 h
      · exact (hends edge hedge).1
      · exact (hends edge hedge).2
  · rintro ⟨seed, hseed, -, h⟩
    exact ⟨seed, List.mem_toFinset.2 hseed, h⟩

/-- The nodes that are returned are those that were visited. -/
private theorem mem_nodes_iff (order : SetOrder α) (hids : (nodes.map Node.id).Nodup) (seedNodes : List α) (depth : Nat)
    (node : Node α ν) : node ∈ (graphGetSubgraph order nodes edges seedNodes depth).nodes ↔ node ∈ nodes ∧
      node.id ∈ Hops.spread (nextLevel edges) depth seedNodes.toFinset seedNodes.toFinset := by
  show node ∈ List.filterMap _ (order.list (Hops.spread (nextLevel edges) depth _ _)) ↔ _
  simp only [List.mem_filterMap, order.mem_iff, allNodes_eq_some hids]
  constructor
  · rintro ⟨id, hid, hnode, rfl⟩
    exact ⟨hnode, hid⟩
  · rintro ⟨hnode, hid⟩
    exact ⟨node.id, hid, hnode, rfl⟩

private theorem nodup_nodes (order : SetOrder α) (hids : (nodes.map Node.id).Nodup) (seedNodes : List α) (depth : Nat) :
    ((graphGetSubgraph order nodes edges seedNodes depth).nodes.map Node.id).Nodup := by
  show (List.map Node.id (List.filterMap _ (order.list (Hops.spread (nextLevel edges) depth _ _)))).Nodup
  rw [List.map_filterMap]
  refine (order.nodup _).filterMap fun a b id ha hb => ?_
  obtain ⟨node, hnode, rfl⟩ := Option.map_eq_some_iff.1 ha
  obtain ⟨node', hnode', hsame⟩ := Option.map_eq_some_iff.1 hb
  rw [← ((allNodes_eq_some hids).1 hnode).2, ← ((allNodes_eq_some hids).1 hnode').2, hsame]

/-- **The subgraph is the induced neighbourhood.**  The nodes that are returned are those within the depth of a known
seed, each once, and the edges are those of the graph with both ends among them. -/
theorem subgraph_is_neighbourhood (order : SetOrder α) (hids : (nodes.map Node.id).Nodup)
    (hends : ∀ edge ∈ edges, edge.source ∈ nodes.map Node.id ∧ edge.target ∈ nodes.map Node.id) (seedNodes : List α)
    (depth : Nat) :
    (∀ node, node ∈ (graphGetSubgraph order nodes edges seedNodes depth).nodes ↔
      node ∈ nodes ∧ NearSeed nodes edges seedNodes depth node.id) ∧
    ((graphGetSubgraph order nodes edges seedNodes depth).nodes.map Node.id).Nodup ∧
    (graphGetSubgraph order nodes edges seedNodes depth).edges = edges.filter fun edge =>
      edge.source ∈ (graphGetSubgraph order nodes edges seedNodes depth).nodes.map Node.id ∧
        edge.target ∈ (graphGetSubgraph order nodes edges seedNodes depth).nodes.map Node.id := by
  have hvisited : ∀ id ∈ nodes.map Node.id,
      id ∈ Hops.spread (nextLevel edges) depth seedNodes.toFinset seedNodes.toFinset ↔
        NearSeed nodes edges seedNodes depth id :=
    fun id hid => (Hops.mem_spread_self_iff mem_nextLevel).trans (nearSeed_iff hends hid)
  have hreturned : ∀ id ∈ nodes.map Node.id,
      id ∈ (graphGetSubgraph order nodes edges seedNodes depth).nodes.map Node.id ↔
      id ∈ Hops.spread (nextLevel edges) depth seedNodes.toFinset seedNodes.toFinset := by
    intro id hid
    constructor
    · intro h
      obtain ⟨node, hnode, rfl⟩ := List.mem_map.1 h
      exact ((mem_nodes_iff order hids seedNodes depth node).1 hnode).2
    · intro h
      obtain ⟨node, hnode, rfl⟩ := List.mem_map.1 hid
      exact List.mem_map_of_mem ((mem_nodes_iff order hids seedNodes depth node).2 ⟨hnode, h⟩)
  refine ⟨fun node => ?_, nodup_nodes order hids seedNodes depth, ?_⟩
  · rw [mem_nodes_iff order hids]
    exact and_congr_right fun hnode => hvisited node.id (List.mem_map_of_mem hnode)
  · refine List.filter_congr fun edge hedge => decide_eq_decide.2 ?_
    obtain ⟨hsource, htarget⟩ := hends edge hedge
    rw [hreturned _ hsource, hreturned _ htarget]
    rfl

end

/-! ### A triangle with a tail -/

private def natOrder : SetOrder Nat where
  list s := s.sort (· ≤ ·)
  nodup s := s.sort_nodup (· ≤ ·)
  mem_iff _ _ := Finset.mem_sort (· ≤ ·)

private def tailNodes : List (Node Nat Unit) := [⟨0, ()⟩, ⟨1, ()⟩, ⟨2, ()⟩, ⟨3, ()⟩]

private def tailEdges : List (Edge Nat Unit) := [⟨0, 1, ()⟩, ⟨2, 0, ()⟩, ⟨1, 2, ()⟩, ⟨2, 3, ()⟩]

/-- One hop from a known seed, with an unknown one. -/
theorem subgraph_is_neighbourhood_tail :
    (∀ node, node ∈ (graphGetSubgraph natOrder tailNodes tailEdges [0, 7] (1 : Nat)).nodes ↔
      node ∈ tailNodes ∧ NearSeed tailNodes tailEdges [0, 7] 1 node.id) ∧
    ((graphGetSubgraph natOrder tailNodes tailEdges [0, 7] (1 : Nat)).nodes.map Node.id).Nodup ∧
    (graphGetSubgraph natOrder tailNodes tailEdges [0, 7] (1 : Nat)).edges = tailEdges.filter fun edge =>
      edge.source ∈ (graphGetSubgraph natOrder tailNodes tailEdges [0, 7] (1 : Nat)).nodes.map Node.id ∧
        edge.target ∈ (graphGetSubgraph natOrder tailNodes tailEdges [0, 7] (1 : Nat)).nodes.map Node.id :=
  subgraph_is_neighbourhood natOrder (by decide) (by decide) [0, 7] 1

end AgentOS.GraphTools
