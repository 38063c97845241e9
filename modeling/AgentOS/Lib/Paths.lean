import AgentOS.Lib.Queue
import Mathlib.Data.List.Induction
import Mathlib.Data.List.Nodup
import Mathlib.Data.List.Shortlex

/-!
# Simple paths

The search that goes through all simple walks from a vertex, shorter ones first, and reports those that lead to another
vertex.  Edges are known by what `steps` lists with the vertices they lead to.

* `mem_paths_iff`: it finds the simple walks of at most so many edges, all of them.
* `paths_sorted`: it finds them in the order of their lengths, and then of their edges; `shortlex_of_omitted` is about
  the first of them.
-/

namespace Paths

variable {α ε : Type*} {steps : α → List (α × ε)} {a b : α} {bound k : Nat} {p : List (α × ε)}

/-- Where a walk from `a` ends. -/
def endOf (a : α) : List (α × ε) → α
  | [] => a
  | step :: p => endOf step.1 p

/-- The vertices of a walk from `a`. -/
def nodes (a : α) (p : List (α × ε)) : List α := a :: p.map Prod.fst

/-- A walk takes steps that there are. -/
def IsWalk (steps : α → List (α × ε)) : α → List (α × ε) → Prop
  | _, [] => True
  | a, step :: p => step ∈ steps a ∧ IsWalk steps step.1 p

/-- A walk from `a` to `b` that comes to no vertex twice. -/
structure IsPath (steps : α → List (α × ε)) (a b : α) (p : List (α × ε)) : Prop where
  walk : IsWalk steps a p
  simple : (nodes a p).Nodup
  ends : endOf a p = b

theorem endOf_append_singleton (a : α) (p : List (α × ε)) (step : α × ε) : endOf a (p ++ [step]) = step.1 := by
  induction p generalizing a with
  | nil => rfl
  | cons first p ih => exact ih first.1

theorem endOf_mem_nodes (a : α) (p : List (α × ε)) : endOf a p ∈ nodes a p := by
  induction p generalizing a with
  | nil => exact List.mem_singleton_self a
  | cons first p ih => exact List.mem_cons_of_mem a (ih first.1)

theorem getLast?_nodes (a : α) (p : List (α × ε)) : (nodes a p).getLast? = some (endOf a p) := by
  induction p generalizing a with
  | nil => rfl
  | cons first p ih =>
    show (a :: nodes first.1 p).getLast? = _
    rw [List.getLast?_cons, ih first.1]
    rfl

theorem isWalk_append_singleton {step : α × ε} :
    IsWalk steps a (p ++ [step]) ↔ IsWalk steps a p ∧ step ∈ steps (endOf a p) := by
  induction p generalizing a with
  | nil => exact and_comm
  | cons first p ih =>
    rw [List.cons_append, IsWalk, IsWalk, ih, and_assoc]
    rfl

theorem nodes_append_singleton (a : α) (p : List (α × ε)) (step : α × ε) :
    nodes a (p ++ [step]) = nodes a p ++ [step.1] := by
  rw [nodes, List.map_append]
  rfl

theorem nodup_nodes_append_singleton {step : α × ε} :
    (nodes a (p ++ [step])).Nodup ↔ (nodes a p).Nodup ∧ step.1 ∉ nodes a p := by
  rw [nodes_append_singleton, ← List.concat_eq_append, List.nodup_concat]
  exact and_comm

theorem isPath_nil (steps : α → List (α × ε)) (a : α) : IsPath steps a a [] := ⟨trivial, List.nodup_singleton a, rfl⟩

/-! ### The walks of the search -/

section

variable (steps : α → List (α × ε)) (a b : α) (bound : Nat)

/-- The walks that the search comes to. -/
inductive Reached : List (α × ε) → Prop where
  | nil : Reached []
  | append {p : List (α × ε)} {step : α × ε} (hp : Reached p) (hlength : p.length ≤ bound) (hend : endOf a p ≠ b)
      (hstep : step ∈ steps (endOf a p)) (hnew : step.1 ∉ nodes a p) : Reached (p ++ [step])

end

private theorem Reached.isPath (h : Reached steps a b bound p) : IsPath steps a (endOf a p) p := by
  induction h with
  | nil => exact isPath_nil steps a
  | append hp _ _ hstep hnew ih =>
    exact ⟨isWalk_append_singleton.2 ⟨ih.walk, hstep⟩, nodup_nodes_append_singleton.2 ⟨ih.simple, hnew⟩, rfl⟩

private theorem Reached.length_le (h : Reached steps a b bound p) : p.length ≤ bound + 1 := by
  cases h with
  | nil => exact Nat.zero_le _
  | append _ hlength _ _ _ =>
    rw [List.length_append]
    exact Nat.succ_le_succ hlength

/-- A simple walk that is not too long and comes to `b` at its end at most is come to. -/
private theorem reached_of_walk (hwalk : IsWalk steps a p) (hsimple : (nodes a p).Nodup)
    (hlength : p.length ≤ bound + 1) (hb : b ∉ (nodes a p).dropLast) : Reached steps a b bound p := by
  induction p using List.reverseRecOn with
  | nil => exact Reached.nil
  | append_singleton q step ih =>
    obtain ⟨hwalk, hstep⟩ := isWalk_append_singleton.1 hwalk
    obtain ⟨hsimple, hnew⟩ := nodup_nodes_append_singleton.1 hsimple
    rw [nodes_append_singleton, List.dropLast_concat] at hb
    rw [List.length_append] at hlength
    have hshort : q.length ≤ bound := Nat.le_of_succ_le_succ hlength
    refine Reached.append (ih hwalk hsimple (Nat.le_succ_of_le hshort) ?_) hshort ?_ hstep hnew
    · exact fun hmem => hb (List.dropLast_subset _ hmem)
    · rintro rfl
      exact hb (endOf_mem_nodes a q)

private theorem IsPath.notMem_dropLast (h : IsPath steps a b p) : b ∉ (nodes a p).dropLast := by
  rcases List.eq_nil_or_concat p with rfl | ⟨q, step, rfl⟩
  · exact List.not_mem_nil
  · rw [List.concat_eq_append] at h ⊢
    have hends := h.ends
    rw [endOf_append_singleton] at hends
    rw [nodes_append_singleton, List.dropLast_concat, ← hends]
    exact (nodup_nodes_append_singleton.1 h.simple).2

/-! ### The search -/

variable [DecidableEq α]

section

variable (steps : α → List (α × ε)) (a b : α) (bound : Nat)

/-- The walks that are appended for a walk: none if it leads to `b`, or is too long. -/
def extend (p : List (α × ε)) : List (List (α × ε)) :=
  if bound < p.length ∨ endOf a p = b then []
  else ((steps (endOf a p)).filter (·.1 ∉ nodes a p)).map (p ++ [·])

/-- The walk, if it leads to `b` and is not too long. -/
def report (p : List (α × ε)) : Option (List (α × ε)) :=
  if p.length ≤ bound ∧ endOf a p = b then some p else none

/-- What the search reports. -/
def paths : List (List (α × ε)) := (Queue.layers (extend steps a b bound) (bound + 2) [[]]).filterMap (report a b bound)

end

private theorem mem_extend_iff {q : List (α × ε)} : q ∈ extend steps a b bound p ↔ p.length ≤ bound ∧ endOf a p ≠ b ∧
    ∃ step ∈ steps (endOf a p), step.1 ∉ nodes a p ∧ p ++ [step] = q := by
  unfold extend
  split
  · rename_i hdone
    refine iff_of_false List.not_mem_nil ?_
    rintro ⟨hlength, hend, -⟩
    exact hdone.elim (Nat.not_lt.2 hlength) hend
  · rename_i hlive
    rw [not_or, Nat.not_lt] at hlive
    simp only [List.mem_map, List.mem_filter, decide_eq_true_eq, and_assoc]
    exact ⟨fun h => ⟨hlive.1, hlive.2, h⟩, fun h => h.2.2⟩

private theorem mem_layer_iff : p ∈ Queue.layer (extend steps a b bound) k [[]] ↔ Reached steps a b bound p ∧
    p.length = k := by
  induction k generalizing p with
  | zero =>
    constructor
    · intro h
      obtain rfl := List.mem_singleton.1 h
      exact ⟨Reached.nil, rfl⟩
    · rintro ⟨-, h⟩
      rw [List.length_eq_zero_iff.1 h]
      exact List.mem_singleton_self []
  | succ k ih =>
    rw [Queue.layer_succ, List.mem_flatMap]
    constructor
    · rintro ⟨q, hq, hp⟩
      obtain ⟨hreached, rfl⟩ := ih.1 hq
      obtain ⟨hlength, hend, step, hstep, hnew, rfl⟩ := mem_extend_iff.1 hp
      exact ⟨hreached.append hlength hend hstep hnew, by rw [List.length_append]; rfl⟩
    · rintro ⟨hreached, hk⟩
      cases hreached with
      | nil => cases hk
      | @append q step hq hlength hend hstep hnew =>
        rw [List.length_append] at hk
        exact ⟨q, ih.2 ⟨hq, Nat.succ.inj hk⟩, mem_extend_iff.2 ⟨hlength, hend, step, hstep, hnew, rfl⟩⟩

/-- The search finds the simple walks to `b` that are not too long. -/
theorem mem_paths_iff : p ∈ paths steps a b bound ↔ IsPath steps a b p ∧ p.length ≤ bound := by
  simp only [paths, List.mem_filterMap, Queue.mem_layers, mem_layer_iff, report]
  constructor
  · rintro ⟨q, ⟨k, -, hreached, -⟩, hq⟩
    split at hq
    · rename_i hfound
      obtain rfl := Option.some.inj hq
      exact ⟨hfound.2 ▸ hreached.isPath, hfound.1⟩
    · cases hq
  · rintro ⟨hpath, hlength⟩
    refine ⟨p, ⟨p.length, by omega, ?_, rfl⟩, if_pos ⟨hlength, hpath.ends⟩⟩
    exact reached_of_walk hpath.walk hpath.simple (Nat.le_succ_of_le hlength) hpath.notMem_dropLast

theorem paths_self (steps : α → List (α × ε)) (a : α) (bound : Nat) : paths steps a a bound = [[]] := by
  have hextend : extend steps a a bound [] = [] := if_pos (Or.inr rfl)
  rw [paths, Queue.layers, List.flatMap_singleton, hextend, Queue.layers_nil, List.append_nil]
  exact List.filterMap_cons_some (if_pos ⟨Nat.zero_le bound, rfl⟩)

/-- The loop of the search ends with the first of the paths. -/
theorem run_extend (cap more : Nat) : Queue.run (extend steps a b bound) (report a b bound) cap
    ((Queue.layers (extend steps a b bound) (bound + 2) [[]]).length + more) [[]] [] =
      some ((paths steps a b bound).take cap) := by
  refine Queue.run_eq (List.eq_nil_iff_forall_not_mem.2 fun p hp => ?_) more
  obtain ⟨hreached, hlength⟩ := mem_layer_iff.1 hp
  have hle := hreached.length_le
  omega

/-! ### The order of the paths -/

section

variable [LinearOrder ε]

/-- The steps that leave a vertex are listed in the order of their edges. -/
def Ordered (steps : α → List (α × ε)) : Prop := ∀ a, ((steps a).filter (·.1 ≠ a)).Pairwise fun s t => s.2 < t.2

/-- The edges of a walk. -/
def edges (p : List (α × ε)) : List ε := p.map Prod.snd

omit [DecidableEq α] [LinearOrder ε] in
theorem edges_append_singleton (p : List (α × ε)) (step : α × ε) : edges (p ++ [step]) = edges p ++ [step.2] := by
  rw [edges, List.map_append]
  rfl

omit [DecidableEq α] [LinearOrder ε] in
theorem length_edges (p : List (α × ε)) : (edges p).length = p.length := List.length_map _

theorem lex_append {x y : List ε} (h : List.Lex (· < ·) x y) (hlength : x.length = y.length) (x' y' : List ε) :
    List.Lex (· < ·) (x ++ x') (y ++ y') := by
  induction h with
  | nil => cases hlength
  | rel h => exact List.Lex.rel h
  | cons h ih => exact List.Lex.cons (ih (Nat.succ.inj hlength))

private theorem extend_sorted (hsteps : Ordered steps) :
    (extend steps a b bound p).Pairwise fun q r => List.Lex (· < ·) (edges q) (edges r) := by
  unfold extend
  split
  · exact List.Pairwise.nil
  · have hsublist : ((steps (endOf a p)).filter (·.1 ∉ nodes a p)).Sublist
        ((steps (endOf a p)).filter (·.1 ≠ endOf a p)) := by
      refine List.monotone_filter_right _ fun step hstep => ?_
      rw [decide_eq_true_eq] at hstep ⊢
      rintro hsame
      exact hstep (hsame ▸ endOf_mem_nodes a p)
    refine List.pairwise_map.2 (((hsteps (endOf a p)).sublist hsublist).imp fun hlt => ?_)
    rw [edges_append_singleton, edges_append_singleton]
    exact List.Lex.append_left _ (List.Lex.rel hlt) _

private theorem layer_sorted (hsteps : Ordered steps) (k : Nat) :
    (Queue.layer (extend steps a b bound) k [[]]).Pairwise fun q r => List.Lex (· < ·) (edges q) (edges r) := by
  induction k with
  | zero => exact List.pairwise_singleton _ _
  | succ k ih =>
    rw [Queue.layer_succ, List.pairwise_flatMap]
    refine ⟨fun p _ => extend_sorted hsteps, ih.imp_of_mem fun hp hq hlex => ?_⟩
    intro p' hp' q' hq'
    obtain ⟨-, -, s, -, -, rfl⟩ := mem_extend_iff.1 hp'
    obtain ⟨-, -, t, -, -, rfl⟩ := mem_extend_iff.1 hq'
    have hlength := (mem_layer_iff.1 hp).2.trans (mem_layer_iff.1 hq).2.symm
    rw [edges_append_singleton, edges_append_singleton]
    exact lex_append hlex (by rwa [length_edges, length_edges]) _ _

/-- The paths are found in the order of their lengths, and then of their edges. -/
theorem paths_sorted (hsteps : Ordered steps) :
    (paths steps a b bound).Pairwise fun p q => List.Shortlex (· < ·) (edges p) (edges q) := by
  have hlength : ∀ {k p}, p ∈ Queue.layer (extend steps a b bound) k [[]] → (edges p).length = k := by
    intro k p hp
    rw [length_edges]
    exact (mem_layer_iff.1 hp).2
  have hlayers : (Queue.layers (extend steps a b bound) (bound + 2) [[]]).Pairwise
      fun p q => List.Shortlex (· < ·) (edges p) (edges q) := by
    refine Queue.pairwise_layers (fun k => ?_) fun j k hjk p hp q hq => ?_
    · refine (layer_sorted hsteps k).imp_of_mem fun hp hq hlex => ?_
      exact List.Shortlex.of_lex ((hlength hp).trans (hlength hq).symm) hlex
    · exact List.Shortlex.of_length_lt (by rwa [hlength hp, hlength hq])
  unfold paths
  refine List.pairwise_filterMap.2 (hlayers.imp fun h p' hp' q' hq' => ?_)
  have hreport : ∀ {p q : List (α × ε)}, report a b bound p = some q → q = p := by
    intro p q h
    unfold report at h
    split at h
    · exact (Option.some.inj h).symm
    · cases h
  rwa [hreport hp', hreport hq']

theorem length_le_of_shortlex {x y : List ε} (h : List.Shortlex (· < ·) x y) : x.length ≤ y.length :=
  (List.shortlex_def.1 h).elim Nat.le_of_lt fun h => Nat.le_of_eq h.1

omit [DecidableEq α] in
theorem length_le_of_edges {q : List (α × ε)} (h : List.Shortlex (· < ·) (edges p) (edges q)) :
    p.length ≤ q.length := by
  have hle := length_le_of_shortlex h
  rwa [length_edges, length_edges] at hle

theorem nodup_edges (hsteps : Ordered steps) : ((paths steps a b bound).map edges).Nodup := by
  refine List.pairwise_map.2 ((paths_sorted hsteps).imp fun h heq => ?_)
  rw [heq] at h
  exact Std.Asymm.asymm _ _ h h

/-- Where the first paths are returned, the others come behind them. -/
theorem shortlex_of_omitted (hsteps : Ordered steps) {cap : Nat} {q : List (α × ε)} (hp : p ∈ paths steps a b bound)
    (hcut : p ∉ (paths steps a b bound).take cap) (hq : q ∈ (paths steps a b bound).take cap) :
    List.Shortlex (· < ·) (edges q) (edges p) := by
  have hsorted : (paths steps a b bound).Pairwise fun p q => List.Shortlex (· < ·) (edges p) (edges q) :=
    paths_sorted hsteps
  rw [← List.take_append_drop cap (paths steps a b bound)] at hp hsorted
  exact (List.pairwise_append.1 hsorted).2.2 q hq p ((List.mem_append.1 hp).resolve_left hcut)

end

end Paths
