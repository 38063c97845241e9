import AgentOS.GraphTools.CodeGraph
import AgentOS.Lib.Fold
import Mathlib.Order.Bounds.Basic

/-!
# Dependencies of a symbol

`code_get_dependencies` of `mcp/code_graph_tools.py`.

* `code_get_dependencies_true_iff`: it lists the nodes of the neighbourhood with their distances; the directions are
  right where the kinds of the edges that it meets agree with the way that it goes along them.
-/

namespace AgentOS.GraphTools

open Py

/-- `["depends-on", "imports", "uses"]`. -/
def dependencyKinds : List Str := [lit "depends-on", lit "imports", lit "uses"]

/-- An item of `queue`. -/
structure Pending where
  node : Str
  d : Int
  rel : Str

/-- An item of `dependencies["incoming"]`. -/
structure Incoming where
  source : Str
  relationship : Str
  depth : Int

/-- An item of `dependencies["outgoing"]`. -/
structure Outgoing where
  target : Str
  relationship : Str
  depth : Int

/-- `dependencies`. -/
structure Dependencies where
  incoming : List Incoming
  outgoing : List Outgoing

/-- What is appended for a neighbour. -/
def Dependencies.add (deps : Dependencies) (d : Int) (step : Str × Str) : Dependencies :=
  if step.2 ∈ dependencyKinds then { deps with incoming := deps.incoming ++ [⟨step.1, step.2, d⟩] }
  else { deps with outgoing := deps.outgoing ++ [⟨step.1, step.2, d⟩] }

theorem Dependencies.incoming_add (deps : Dependencies) (d : Int) (step : Str × Str) : (deps.add d step).incoming =
    deps.incoming ++ if step.2 ∈ dependencyKinds then [⟨step.1, step.2, d⟩] else [] := by
  rw [Dependencies.add]
  split
  · rfl
  · exact (List.append_nil _).symm

theorem Dependencies.outgoing_add (deps : Dependencies) (d : Int) (step : Str × Str) : (deps.add d step).outgoing =
    deps.outgoing ++ if step.2 ∈ dependencyKinds then [] else [⟨step.1, step.2, d⟩] := by
  rw [Dependencies.add]
  split
  · exact (List.append_nil _).symm
  · rfl

/-- The loop over the queue, with a bound on its rounds; `none` is a loop that is not done then. -/
def walkDependencies (adj : Str → List (Str × Str)) (depth : Int) :
    Nat → List Pending → List Str → Dependencies → Option Dependencies
  | _, [], _, deps => some deps
  | 0, _ :: _, _, _ => none
  | rounds + 1, entry :: queue, visited, deps =>
    if entry.d > depth ∨ entry.node ∈ visited then walkDependencies adj depth rounds queue visited deps
    else
      let visited := visited ++ [entry.node]
      let next := (adj entry.node).filter fun step => step.1 ∉ visited ∧ entry.d < depth
      walkDependencies adj depth rounds (queue ++ next.map fun step => ⟨step.1, entry.d + 1, step.2⟩) visited
        (next.foldl (fun deps step => deps.add (entry.d + 1) step) deps)

/-- `code_get_dependencies` of the graph in the file, with a bound on the rounds of its loop; an error is the
warning. -/
def codeGetDependencies (rounds : Nat) (graph : CodeGraph) (symbolName : Str) (depth : Int) :
    Option (Except Str Dependencies) :=
  let graph := normalizeCodeGraph graph
  (findSymbol graph.nodes symbolName).elim (some (Except.error (symbolNotFound symbolName))) fun symbolNode =>
    (walkDependencies (adjacent graph.edgeList false) depth rounds [⟨symbolNode.id, 0, lit "start"⟩] [] ⟨[], []⟩).map
      Except.ok

/-! ### The walks -/

section

variable {α ρ : Type*} [DecidableEq α] {edges : List (Edge α ρ)}

/-- Of the two ends of an edge, one leads to the other. -/
theorem labelled_steps (edges : List (Edge α ρ)) (directed : Bool) : Paths.Labelled (steps edges directed) := by
  rintro node ⟨b, i⟩ hs ⟨c, j⟩ ht hij
  obtain rfl : i = j := hij
  rw [Prod.mk.injEq]
  refine ⟨?_, rfl⟩
  rcases mem_steps.1 hs with ⟨hsource, hb⟩ | ⟨-, htarget, hb⟩
  · rcases mem_steps.1 ht with ⟨-, hc⟩ | ⟨-, htarget, hc⟩
    · exact hb.symm.trans hc
    · exact hb.symm.trans (htarget.trans (hsource.symm.trans hc))
  · rcases mem_steps.1 ht with ⟨hsource, hc⟩ | ⟨-, -, hc⟩
    · exact hb.symm.trans (hsource.trans (htarget.symm.trans hc))
    · exact hb.symm.trans hc

theorem exists_step_iff {a b : α} : (∃ step ∈ steps edges false a, step.1 = b) ↔ Joined edges a b := by
  constructor
  · rintro ⟨step, hstep, rfl⟩
    refine ⟨edges.get step.2, List.get_mem edges step.2, ?_⟩
    exact (mem_steps.1 hstep).imp_right And.right
  · rintro ⟨edge, hedge, h⟩
    obtain ⟨i, rfl⟩ := List.get_of_mem hedge
    refine ⟨(b, i), mem_steps.2 ?_, rfl⟩
    exact h.imp_right fun h => ⟨rfl, h⟩

theorem hops_steps_iff {n : Nat} {a b : α} :
    Hops (fun u v => ∃ step ∈ steps edges false u, step.1 = v) n a b ↔ Hops (Joined edges) n a b := by
  have heq : (fun u v => ∃ step ∈ steps edges false u, step.1 = v) = Joined edges := by
    funext u v
    exact propext exists_step_iff
  rw [heq]

/-- A walk ends where it begins or at an end of an edge. -/
theorem endOf_mem_ends (directed : Bool) (a : α) (p : List (α × Fin edges.length))
    (hp : Paths.IsWalk (steps edges directed) a p) :
    Paths.endOf a p ∈ (a :: (edges.map Edge.source ++ edges.map Edge.target)).toFinset := by
  rw [List.mem_toFinset]
  rcases List.eq_nil_or_concat p with rfl | ⟨q, step, rfl⟩
  · exact List.mem_cons_self
  · rw [List.concat_eq_append] at hp ⊢
    rw [Paths.endOf_append_singleton]
    refine List.mem_cons_of_mem _ (List.mem_append.2 ?_)
    rcases mem_steps.1 (Paths.isWalk_append_singleton.1 hp).2 with ⟨-, htarget⟩ | ⟨-, -, hsource⟩
    · exact Or.inr (htarget ▸ List.mem_map_of_mem (List.get_mem edges step.2))
    · exact Or.inl (hsource ▸ List.mem_map_of_mem (List.get_mem edges step.2))

end

/-! ### The loop -/

section

variable (edges : List (Edge Str Str)) (symbol : Str)

/-- The steps for which the loop appends to the queue. -/
private def fresh (depth : Nat) (visited : List Str) (d : Nat) (step : Str × Fin edges.length) : Bool :=
  step.1 ∉ visited ∧ d < depth

/-- What that asks of the nodes that have been visited. -/
private def Fresh (depth : Nat) (visited : Str → Prop) (d : Nat) (step : Str × Fin edges.length) : Prop :=
  ¬ visited step.1 ∧ d < depth

/-- The item of a walk. -/
private def pendingOf (p : List (Str × Fin edges.length)) : Pending where
  node := Paths.endOf symbol p
  d := p.length
  rel := (p.getLast?).elim (lit "start") fun step => (edges.get step.2).relationship

/-- What is listed for a walk. -/
private def list (deps : Dependencies) (p : List (Str × Fin edges.length)) : Dependencies :=
  (p.getLast?).elim deps fun step => deps.add p.length (step.1, (edges.get step.2).relationship)

private theorem list_append_singleton (deps : Dependencies) (p : List (Str × Fin edges.length))
    (step : Str × Fin edges.length) :
    list edges deps (p ++ [step]) = deps.add (p.length + 1) (step.1, (edges.get step.2).relationship) := by
  rw [list, List.getLast?_concat, List.length_append]
  rfl

private theorem keeps_fresh (depth : Nat) : Paths.Keeps (steps edges false) depth (fresh edges depth) where
  new visited d step hnew hd := decide_eq_true ⟨hnew, hd⟩
  sorted visited d u hu := by
    refine (ordered_steps edges false u).sublist (List.monotone_filter_right _ fun step hstep => ?_)
    rw [decide_eq_true_eq]
    rintro rfl
    exact (of_decide_eq_true hstep).1 hu

private theorem pendingOf_append_singleton (p : List (Str × Fin edges.length)) (step : Str × Fin edges.length) :
    pendingOf edges symbol (p ++ [step]) = ⟨step.1, (p.length : Int) + 1, (edges.get step.2).relationship⟩ := by
  rw [pendingOf, Paths.endOf_append_singleton, List.getLast?_concat, List.length_append]
  rfl

/-- The neighbours for which it does so. -/
private theorem filter_adjacent (depth : Nat) (visited : List Str) (p : List (Str × Fin edges.length)) :
    ((adjacent edges false (pendingOf edges symbol p).node).filter fun step =>
      step.1 ∉ visited ∧ (pendingOf edges symbol p).d < depth) =
    ((steps edges false (Paths.endOf symbol p)).filter (fresh edges depth visited p.length)).map fun step =>
      (step.1, (edges.get step.2).relationship) := by
  rw [adjacent_eq, List.filter_map]
  refine congrArg (List.map _) (List.filter_congr fun step _ => decide_eq_decide.2 ?_)
  exact and_congr_right fun _ => Int.ofNat_lt

/-- The loop is the search that visits a vertex when it comes to it first. -/
private theorem walkDependencies_eq (depth rounds : Nat) (queue done : List (List (Str × Fin edges.length))) :
    walkDependencies (adjacent edges false) depth rounds (queue.map (pendingOf edges symbol))
      (done.map (Paths.endOf symbol))
      ((Paths.pushes (steps edges false) symbol (fresh edges depth) [] done).foldl (list edges) ⟨[], []⟩) =
    (Paths.visit (steps edges false) symbol depth (fresh edges depth) rounds queue done).map fun final =>
      (Paths.pushes (steps edges false) symbol (fresh edges depth) [] final).foldl (list edges) ⟨[], []⟩ := by
  induction rounds generalizing queue done with
  | zero =>
    cases queue with
    | nil => rfl
    | cons p queue => rfl
  | succ rounds ih =>
    cases queue with
    | nil => rfl
    | cons p queue =>
      rw [List.map_cons, walkDependencies, Paths.visit]
      have hskip : ((pendingOf edges symbol p).d > depth ∨
          (pendingOf edges symbol p).node ∈ done.map (Paths.endOf symbol)) ↔
          depth < p.length ∨ Paths.endOf symbol p ∈ done.map (Paths.endOf symbol) := or_congr_left Int.ofNat_lt
      by_cases h : depth < p.length ∨ Paths.endOf symbol p ∈ done.map (Paths.endOf symbol)
      · rw [if_pos (hskip.2 h), if_pos h]
        exact ih queue done
      · have hvisited : done.map (Paths.endOf symbol) ++ [(pendingOf edges symbol p).node] =
            (done ++ [p]).map (Paths.endOf symbol) := by
          rw [List.map_append]
          rfl
        rw [if_neg (mt hskip.1 h), if_neg h, ← ih, Paths.pushes_append_singleton, List.nil_append, List.foldl_append,
          List.map_append]
        simp only [hvisited, filter_adjacent, Paths.onward, List.map_map, List.foldl_map, list_append_singleton]
        simp only [Function.comp_def, pendingOf_append_singleton]
        rfl

private theorem view_foldl_list {β : Type} {view : Dependencies → List β} {extra : Int → Str × Str → List β}
    (hadd : ∀ deps d step, view (Dependencies.add deps d step) = view deps ++ extra d step)
    (ps : List (List (Str × Fin edges.length))) (deps : Dependencies) :
    view (ps.foldl (list edges) deps) = view deps ++ ps.flatMap fun p => (p.getLast?).toList.flatMap fun step =>
      extra p.length (step.1, (edges.get step.2).relationship) := by
  refine Fold.foldl_append view _ (fun deps p => ?_) ps deps
  rw [list]
  cases p.getLast? with
  | none => exact (List.append_nil _).symm
  | some step => exact (hadd deps _ _).trans (congrArg _ (List.append_nil _).symm)

private theorem mem_incoming_list {ps : List (List (Str × Fin edges.length))} {e : Incoming} :
    e ∈ (ps.foldl (list edges) ⟨[], []⟩).incoming ↔ ∃ p ∈ ps, ∃ step ∈ p.getLast?,
      (edges.get step.2).relationship ∈ dependencyKinds ∧
        ⟨step.1, (edges.get step.2).relationship, p.length⟩ = e := by
  rw [view_foldl_list edges Dependencies.incoming_add]
  simp [eq_comm]

private theorem mem_outgoing_list {ps : List (List (Str × Fin edges.length))} {e : Outgoing} :
    e ∈ (ps.foldl (list edges) ⟨[], []⟩).outgoing ↔ ∃ p ∈ ps, ∃ step ∈ p.getLast?,
      (edges.get step.2).relationship ∉ dependencyKinds ∧
        ⟨step.1, (edges.get step.2).relationship, p.length⟩ = e := by
  rw [view_foldl_list edges Dependencies.outgoing_add]
  simp [eq_comm]

/-- The loop appends to the queue for a walk with one more step: it comes to the end of the walk for the first time, and
has not come to that of the step. -/
private def Listed (depth : Nat) (p : List (Str × Fin edges.length)) (step : Str × Fin edges.length) : Prop :=
  Paths.IsFirst (steps edges false) symbol p ∧ p.length < depth ∧ step ∈ steps edges false (Paths.endOf symbol p) ∧
    ∀ q, Paths.IsWalk (steps edges false) symbol q → Paths.endOf symbol q = step.1 →
      List.Shortlex (· < ·) (Paths.edges p) (Paths.edges q)

private theorem walkDependencies_spec (depth : Nat) : ∃ ps : List (List (Str × Fin edges.length)),
    (∃ rounds, ∀ more, walkDependencies (adjacent edges false) depth (rounds + more) [⟨symbol, 0, lit "start"⟩] []
      ⟨[], []⟩ = some (ps.foldl (list edges) ⟨[], []⟩)) ∧
    ∀ p, p ∈ ps ↔ ∃ q step, p = q ++ [step] ∧ Listed edges symbol depth q step := by
  have hkeep := keeps_fresh edges depth
  obtain ⟨rounds, final, hfinal, hsorted, hmem⟩ :=
    Paths.exists_visit (labelled_steps edges false) hkeep (endOf_mem_ends false symbol)
  refine ⟨Paths.pushes (steps edges false) symbol (fresh edges depth) [] final, ⟨rounds, fun more => ?_⟩, fun p => ?_⟩
  · have heq := walkDependencies_eq edges symbol depth (rounds + more) [[]] []
    rw [hfinal more] at heq
    exact heq
  · have hfresh : ∀ visited d step, fresh edges depth visited d step = true ↔ Fresh edges depth (· ∈ visited) d step :=
      fun visited d step => decide_eq_true_iff
    rw [Paths.mem_pushes_iff hfresh hsorted hmem]
    refine exists_congr fun q => exists_congr fun step => and_congr_right fun _ => ?_
    constructor
    · rintro ⟨hq, -, hstep, hnew, hlength⟩
      exact ⟨hq, hlength, hstep, (hq.before_iff (labelled_steps edges false)).1 hnew⟩
    · rintro ⟨hq, hlength, hstep, hbefore⟩
      exact ⟨hq, hlength.le, hstep, (hq.before_iff (labelled_steps edges false)).2 hbefore, hlength⟩

end

/-! ### True dependencies -/

section

variable (edges : List (Edge Str Str)) (symbol : Str) (depth : Nat)

/-- The node is in the neighbourhood that is walked. -/
def Within (n : Str) : Prop := ∃ k ≤ depth, Hops (Joined edges) k symbol n

/-- The node is listed with a depth. -/
def Dependencies.Lists (deps : Dependencies) (n : Str) (d : Int) : Prop :=
  (∃ e ∈ deps.incoming, e.source = n ∧ e.depth = d) ∨ ∃ e ∈ deps.outgoing, e.target = n ∧ e.depth = d

/-- The nodes of the neighbourhood are listed with their distances, and with an edge that goes the way it is said to. -/
structure TrueDependencies (deps : Dependencies) : Prop where
  incoming : ∀ e ∈ deps.incoming, ∃ edge ∈ edges, edge.source = e.source ∧ Within edges symbol depth edge.target
  outgoing : ∀ e ∈ deps.outgoing, ∃ edge ∈ edges, edge.target = e.target ∧ Within edges symbol depth edge.source
  complete : ∀ n, n ≠ symbol → Within edges symbol depth n → ∃ d, deps.Lists n d
  nearest : ∀ n d, deps.Lists n d →
    ∃ k : Nat, IsLeast {d | deps.Lists n d} k ∧ IsLeast {j | Hops (Joined edges) j symbol n} k

/-- A walk of fewer steps than the depth leads to `x`, and comes before all walks to `n`. -/
def ComesBefore (x n : Str) : Prop :=
  ∃ p, Paths.IsWalk (steps edges false) symbol p ∧ Paths.endOf symbol p = x ∧ p.length < depth ∧
    ∀ q, Paths.IsWalk (steps edges false) symbol q → Paths.endOf symbol q = n →
      List.Shortlex (· < ·) (Paths.edges p) (Paths.edges q)

/-- An edge of the three kinds is met at its target first, and another one at its source; or there is a further edge at
its other end that goes the right way. -/
def Directed : Prop := ∀ edge ∈ edges,
  (edge.relationship ∈ dependencyKinds → ComesBefore edges symbol depth edge.source edge.target →
    ∃ other ∈ edges, other.source = edge.target ∧ Within edges symbol depth other.target) ∧
  (edge.relationship ∉ dependencyKinds → ComesBefore edges symbol depth edge.target edge.source →
    ∃ other ∈ edges, other.target = edge.source ∧ Within edges symbol depth other.source)

end

section

variable {edges : List (Edge Str Str)} {symbol : Str} {depth : Nat} {p : List (Str × Fin edges.length)}
  {step : Str × Fin edges.length}

private theorem within_endOf (hp : Paths.IsWalk (steps edges false) symbol p) (hlength : p.length ≤ depth) :
    Within edges symbol depth (Paths.endOf symbol p) :=
  ⟨p.length, hlength, hops_steps_iff.1 (Paths.hops_iff.2 ⟨p, hp, rfl, rfl⟩)⟩

private theorem Listed.walk (h : Listed edges symbol depth p step) :
    Paths.IsWalk (steps edges false) symbol (p ++ [step]) := Paths.isWalk_append_singleton.2 ⟨h.1.1, h.2.2.1⟩

private theorem Listed.comesBefore (h : Listed edges symbol depth p step) :
    ComesBefore edges symbol depth (Paths.endOf symbol p) step.1 := ⟨p, h.1.1, rfl, h.2.1, h.2.2.2⟩

section

variable {ps : List (List (Str × Fin edges.length))}
  (hps : ∀ p, p ∈ ps ↔ ∃ q step, p = q ++ [step] ∧ Listed edges symbol depth q step)

include hps

private theorem exists_last_iff {Q : Nat → Str × Fin edges.length → Prop} :
    (∃ p ∈ ps, ∃ step ∈ p.getLast?, Q p.length step) ↔
      ∃ p step, Listed edges symbol depth p step ∧ Q (p.length + 1) step := by
  constructor
  · rintro ⟨p, hp, step, hstep, h⟩
    obtain ⟨q, last, rfl, hlisted⟩ := (hps p).1 hp
    rw [List.getLast?_concat, Option.mem_some_iff] at hstep
    obtain rfl := hstep
    rw [List.length_append] at h
    exact ⟨q, last, hlisted, h⟩
  · rintro ⟨p, step, hlisted, h⟩
    refine ⟨p ++ [step], (hps _).2 ⟨p, step, rfl, hlisted⟩, step, List.getLast?_concat, ?_⟩
    rw [List.length_append]
    exact h

private theorem mem_incoming_iff {e : Incoming} : e ∈ (ps.foldl (list edges) ⟨[], []⟩).incoming ↔
    ∃ p step, Listed edges symbol depth p step ∧ (edges.get step.2).relationship ∈ dependencyKinds ∧
      ⟨step.1, (edges.get step.2).relationship, p.length + 1⟩ = e :=
  (mem_incoming_list edges).trans (exists_last_iff hps
    (Q := fun n step => (edges.get step.2).relationship ∈ dependencyKinds ∧
      ⟨step.1, (edges.get step.2).relationship, n⟩ = e))

private theorem mem_outgoing_iff {e : Outgoing} : e ∈ (ps.foldl (list edges) ⟨[], []⟩).outgoing ↔
    ∃ p step, Listed edges symbol depth p step ∧ (edges.get step.2).relationship ∉ dependencyKinds ∧
      ⟨step.1, (edges.get step.2).relationship, p.length + 1⟩ = e :=
  (mem_outgoing_list edges).trans (exists_last_iff hps
    (Q := fun n step => (edges.get step.2).relationship ∉ dependencyKinds ∧
      ⟨step.1, (edges.get step.2).relationship, n⟩ = e))

private theorem lists_iff {n : Str} {d : Int} : (ps.foldl (list edges) ⟨[], []⟩).Lists n d ↔
    ∃ p step, Listed edges symbol depth p step ∧ step.1 = n ∧ (p.length : Int) + 1 = d := by
  constructor
  · rintro (⟨e, he, rfl, rfl⟩ | ⟨e, he, rfl, rfl⟩)
    · obtain ⟨p, step, h, -, rfl⟩ := (mem_incoming_iff hps).1 he
      exact ⟨p, step, h, rfl, rfl⟩
    · obtain ⟨p, step, h, -, rfl⟩ := (mem_outgoing_iff hps).1 he
      exact ⟨p, step, h, rfl, rfl⟩
  · rintro ⟨p, step, h, rfl, rfl⟩
    by_cases hkind : (edges.get step.2).relationship ∈ dependencyKinds
    · exact Or.inl ⟨_, (mem_incoming_iff hps).2 ⟨p, step, h, hkind, rfl⟩, rfl, rfl⟩
    · exact Or.inr ⟨_, (mem_outgoing_iff hps).2 ⟨p, step, h, hkind, rfl⟩, rfl, rfl⟩

end

/-- What comes before a neighbour comes so by a first walk. -/
private theorem exists_listed {x : Str} (h : ComesBefore edges symbol depth x step.1)
    (hstep : step ∈ steps edges false x) : ∃ q, Listed edges symbol depth q step := by
  obtain ⟨q, hq, rfl, hlength, hbefore⟩ := h
  obtain ⟨f, hf, hend, hle⟩ := Paths.exists_isFirst (labelled_steps edges false) hq
  refine ⟨f, hf, (hf.length_le hq hend.symm).trans_lt hlength, hend ▸ hstep, fun r hr hrend => ?_⟩
  rcases hle with rfl | hlt
  · exact hbefore r hr hrend
  · exact Paths.shortlex_trans hlt (hbefore r hr hrend)

/-- The last step of a first walk is listed. -/
private theorem listed_of_isFirst (h : Paths.IsFirst (steps edges false) symbol (p ++ [step]))
    (hlength : p.length < depth) : Listed edges symbol depth p step := by
  refine ⟨h.of_append (labelled_steps edges false), hlength, (Paths.isWalk_append_singleton.1 h.1).2, ?_⟩
  intro q hq hend
  have hle := h.length_le hq (by rw [hend, Paths.endOf_append_singleton])
  rw [List.length_append] at hle
  refine List.Shortlex.of_length_lt ?_
  rwa [Paths.length_edges, Paths.length_edges]

/-- A node other than the symbol is within the depth by the last step of a first walk. -/
private theorem exists_first_step {n : Str} {k : Nat} (hn : n ≠ symbol) (h : Hops (Joined edges) k symbol n)
    (hk : k ≤ depth) : ∃ p step, Listed edges symbol depth p step ∧ step.1 = n ∧ p.length + 1 ≤ k ∧
      Paths.IsFirst (steps edges false) symbol (p ++ [step]) := by
  obtain ⟨f, hf, hend, hle⟩ := Paths.exists_isFirst_of_hops (labelled_steps edges false) (hops_steps_iff.2 h)
  rcases List.eq_nil_or_concat f with rfl | ⟨p, step, rfl⟩
  · exact absurd hend.symm hn
  · rw [List.concat_eq_append] at hf hend hle
    rw [Paths.endOf_append_singleton] at hend
    rw [List.length_append] at hle
    exact ⟨p, step, listed_of_isFirst hf (hle.trans hk), hend, hle, hf⟩

/-- The nodes that are listed, and the smallest depths. -/
private theorem lists_nearest {ps : List (List (Str × Fin edges.length))}
    (hps : ∀ p, p ∈ ps ↔ ∃ q step, p = q ++ [step] ∧ Listed edges symbol depth q step) {n : Str} {d : Int}
    (h : (ps.foldl (list edges) ⟨[], []⟩).Lists n d) :
    ∃ k : Nat, IsLeast {d | (ps.foldl (list edges) ⟨[], []⟩).Lists n d} k ∧
      IsLeast {j | Hops (Joined edges) j symbol n} k := by
  obtain ⟨p, step, hp, rfl, rfl⟩ := (lists_iff hps).1 h
  have hn : step.1 ≠ symbol := fun heq => List.not_shortlex_nil_right (hp.2.2.2 [] trivial heq.symm)
  have hwalk : ∀ q s, Listed edges symbol depth q s → s.1 = step.1 →
      Paths.IsWalk (steps edges false) symbol (q ++ [s]) ∧ Paths.endOf symbol (q ++ [s]) = step.1 :=
    fun q s hq hs => ⟨hq.walk, (Paths.endOf_append_singleton symbol q s).trans hs⟩
  have hhops : Hops (Joined edges) (p.length + 1) symbol step.1 := by
    refine hops_steps_iff.1 (Paths.hops_iff.2 ⟨p ++ [step], hp.walk, (hwalk p step hp rfl).2, ?_⟩)
    rw [List.length_append]
    rfl
  -- among the entries of the node there is that of the first walk to it, which no walk is shorter than
  obtain ⟨q, s, hq, hs, -, hfirst⟩ := exists_first_step hn hhops hp.2.1
  have hleast : ∀ r, Paths.IsWalk (steps edges false) symbol r → Paths.endOf symbol r = step.1 →
      q.length + 1 ≤ r.length := by
    intro r hr hend
    have hle := hfirst.length_le hr (hend.trans (hwalk q s hq hs).2.symm)
    rwa [List.length_append] at hle
  refine ⟨q.length + 1, ⟨(lists_iff hps).2 ⟨q, s, hq, hs, rfl⟩, fun d hd => ?_⟩, ⟨?_, fun j hj => ?_⟩⟩
  · obtain ⟨r, t, hr, ht, rfl⟩ := (lists_iff hps).1 hd
    have hle := hleast (r ++ [t]) (hwalk r t hr ht).1 (hwalk r t hr ht).2
    rw [List.length_append] at hle
    exact Int.ofNat_le.2 hle
  · refine hops_steps_iff.1 (Paths.hops_iff.2 ⟨q ++ [s], hq.walk, (hwalk q s hq hs).2, ?_⟩)
    rw [List.length_append]
    rfl
  · obtain ⟨r, hr, hend, rfl⟩ := Paths.hops_iff.1 (hops_steps_iff.2 hj)
    exact hleast r hr hend

private theorem trueDependencies_iff {ps : List (List (Str × Fin edges.length))}
    (hps : ∀ p, p ∈ ps ↔ ∃ q step, p = q ++ [step] ∧ Listed edges symbol depth q step) :
    TrueDependencies edges symbol depth (ps.foldl (list edges) ⟨[], []⟩) ↔ Directed edges symbol depth := by
  constructor
  · intro h edge hedge
    obtain ⟨i, rfl⟩ := List.get_of_mem hedge
    constructor
    · -- met at its source first, the edge gives an entry for its target
      intro hkind hbefore
      have hstep : ((edges.get i).target, i) ∈ steps edges false (edges.get i).source := mem_steps.2 (Or.inl ⟨rfl, rfl⟩)
      obtain ⟨p, hp⟩ := exists_listed hbefore hstep
      exact h.incoming _ ((mem_incoming_iff hps).2 ⟨p, _, hp, hkind, rfl⟩)
    · intro hkind hbefore
      have hstep : ((edges.get i).source, i) ∈ steps edges false (edges.get i).target :=
        mem_steps.2 (Or.inr ⟨rfl, rfl, rfl⟩)
      obtain ⟨p, hp⟩ := exists_listed hbefore hstep
      exact h.outgoing _ ((mem_outgoing_iff hps).2 ⟨p, _, hp, hkind, rfl⟩)
  · intro h
    refine ⟨fun e he => ?_, fun e he => ?_, fun n hn hwithin => ?_, fun n d hlists => lists_nearest hps hlists⟩
    · obtain ⟨p, step, hp, hkind, rfl⟩ := (mem_incoming_iff hps).1 he
      have hbefore := hp.comesBefore
      have hmem := List.get_mem edges step.2
      rcases mem_steps.1 hp.2.2.1 with ⟨hsource, htarget⟩ | ⟨-, htarget, hsource⟩
      · rw [← hsource, ← htarget] at hbefore
        rw [← htarget]
        exact (h _ hmem).1 hkind hbefore
      · -- met at its target, the edge itself leads from the neighbour
        exact ⟨_, hmem, hsource, htarget ▸ within_endOf hp.1.1 hp.2.1.le⟩
    · obtain ⟨p, step, hp, hkind, rfl⟩ := (mem_outgoing_iff hps).1 he
      have hbefore := hp.comesBefore
      have hmem := List.get_mem edges step.2
      rcases mem_steps.1 hp.2.2.1 with ⟨hsource, htarget⟩ | ⟨-, htarget, hsource⟩
      · exact ⟨_, hmem, htarget, hsource ▸ within_endOf hp.1.1 hp.2.1.le⟩
      · rw [← hsource, ← htarget] at hbefore
        rw [← hsource]
        exact (h _ hmem).2 hkind hbefore
    · obtain ⟨k, hk, hhops⟩ := hwithin
      obtain ⟨p, step, hp, rfl, -, -⟩ := exists_first_step hn hhops hk
      exact ⟨_, (lists_iff hps).2 ⟨p, step, hp, rfl, rfl⟩⟩

end

/-- **Dependencies.**  They are true if and only if each edge that is met, at the end that comes first, goes the way
that its kind is taken to go, or there is another one that does. -/
theorem code_get_dependencies_true_iff (graph : CodeGraph) (symbolName : Str) {symbolNode : CodeNode}
    (hsymbol : findSymbol (normalizeCodeGraph graph).nodes symbolName = some symbolNode) (depth : Nat) :
    ∃ deps, (∃ rounds, ∀ more,
        codeGetDependencies (rounds + more) graph symbolName depth = some (Except.ok deps)) ∧
      (TrueDependencies (normalizeCodeGraph graph).edgeList symbolNode.id depth deps ↔
        Directed (normalizeCodeGraph graph).edgeList symbolNode.id depth) := by
  obtain ⟨ps, ⟨rounds, hrun⟩, hps⟩ := walkDependencies_spec (normalizeCodeGraph graph).edgeList symbolNode.id depth
  refine ⟨_, ⟨rounds, fun more => ?_⟩, trueDependencies_iff hps⟩
  rw [codeGetDependencies, hsymbol, Option.elim_some, hrun more]
  rfl

/-! ### A symbol that imports another -/

private def importing : CodeGraph where
  nodes := [⟨lit "a", none, none⟩, ⟨lit "b", none, none⟩]
  edges := none
  links := some [⟨lit "a", lit "b", none, some (lit "imports")⟩]

/-- What a symbol imports is listed as incoming, although no edge leads from it. -/
theorem code_get_dependencies_of_import :
    codeGetDependencies 2 importing (lit "a") 1 = some (Except.ok ⟨[⟨lit "b", lit "imports", 1⟩], []⟩) ∧
    ¬ TrueDependencies (normalizeCodeGraph importing).edgeList (lit "a") 1 ⟨[⟨lit "b", lit "imports", 1⟩], []⟩ := by
  constructor
  · rfl
  · intro h
    obtain ⟨edge, hedge, hsource, -⟩ := h.incoming _ List.mem_cons_self
    obtain rfl := List.mem_singleton.1 hedge
    exact absurd hsource (by decide +kernel)

private theorem findSymbol_importing :
    findSymbol (normalizeCodeGraph importing).nodes (lit "b") = some ⟨lit "b", none, none⟩ := by decide +kernel

/-- The symbol that is imported. -/
theorem code_get_dependencies_true_iff_imported :
    ∃ deps, (∃ rounds, ∀ more,
        codeGetDependencies (rounds + more) importing (lit "b") (2 : Nat) = some (Except.ok deps)) ∧
      TrueDependencies (normalizeCodeGraph importing).edgeList (lit "b") 2 deps := by
  obtain ⟨deps, hdeps, htrue⟩ := code_get_dependencies_true_iff importing (lit "b") findSymbol_importing 2
  refine ⟨deps, hdeps, htrue.2 fun edge hedge => ?_⟩
  obtain rfl := List.mem_singleton.1 hedge
  refine ⟨fun _ hbefore => ?_, fun hkind => absurd (by decide +kernel) hkind⟩
  -- the symbol itself is reached by no step, so nothing comes before it
  obtain ⟨p, -, -, -, hfirst⟩ := hbefore
  exact absurd (hfirst [] trivial rfl) List.not_shortlex_nil_right

end AgentOS.GraphTools
