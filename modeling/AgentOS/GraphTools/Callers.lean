import AgentOS.GraphTools.Dependencies

/-!
# Callers of a symbol

`code_find_callers` of `mcp/code_graph_tools.py`.

* `code_find_callers_closure`: the transitive search ends, and unless it is cut off it reports the nodes from which
  calls lead to the symbol, with the lengths of the shortest chains.
-/

namespace AgentOS.GraphTools

open Py

/-- An item of `callers`. -/
structure Caller where
  caller : Str
  relationship : Str
  depth : Int

/-- The edge is a call: `"call" in edge.get("relationship", "")`. -/
def Edge.IsCall (edge : Edge Str Str) : Prop := lit "call" <:+: edge.relationship

instance : DecidablePred Edge.IsCall := fun edge => inferInstanceAs (Decidable (lit "call" <:+: edge.relationship))

/-- What the loop over the edges appends for a node. -/
def callsTo (edges : List (Edge Str Str)) (node : Str) (depth : Int) : List Caller :=
  (edges.filter fun edge => edge.target = node ∧ edge.IsCall).map fun edge => ⟨edge.source, edge.relationship, depth⟩

/-- The loop over the queue, with a bound on its rounds; `none` is a loop that is not done then. -/
def walkCallers (edges : List (Edge Str Str)) (maxDepth : Int) :
    Nat → List (Str × Int) → List Str → List Caller → Option (List Caller)
  | _, [], _, callers => some callers
  | 0, _ :: _, _, callers => if callers.length < 100 then none else some callers
  | rounds + 1, (curr, d) :: queue, visited, callers =>
    if callers.length < 100 then
      if d > maxDepth ∨ curr ∈ visited then walkCallers edges maxDepth rounds queue visited callers
      else
        let found := callsTo edges curr d
        walkCallers edges maxDepth rounds (queue ++ found.map fun c => (c.caller, d + 1)) (visited ++ [curr])
          (callers ++ found)
    else some callers

/-- `code_find_callers` of the graph in the file, with a bound on the rounds of its loop; an error is the warning. -/
def codeFindCallers (rounds : Nat) (graph : CodeGraph) (symbolName : Str) (transitive : Bool) (maxDepth : Int) :
    Option (Except Str (List Caller)) :=
  let graph := normalizeCodeGraph graph
  (findSymbol graph.nodes symbolName).elim (some (Except.error (symbolNotFound symbolName))) fun symbolNode =>
    let callers := callsTo graph.edgeList symbolNode.id 1
    if transitive then
      (walkCallers graph.edgeList maxDepth rounds (callers.map fun c => (c.caller, 2)) [symbolNode.id] callers).map
        Except.ok
    else some (Except.ok callers)

/-! ### Chains of calls -/

/-- One node calls another. -/
def Calls (edges : List (Edge Str Str)) (a b : Str) : Prop := ∃ edge ∈ edges, edge.source = a ∧ edge.target = b ∧
    edge.IsCall

/-- The calls of a node, as steps to the callers. -/
private def callSteps (edges : List (Edge Str Str)) (node : Str) : List (Str × Fin edges.length) :=
  ((List.finRange edges.length).filter fun i => (edges.get i).target = node ∧ (edges.get i).IsCall).map fun i =>
    ((edges.get i).source, i)

section

variable {edges : List (Edge Str Str)}

private theorem mem_callSteps {node : Str} {step : Str × Fin edges.length} : step ∈ callSteps edges node ↔
    (edges.get step.2).source = step.1 ∧ (edges.get step.2).target = node ∧ (edges.get step.2).IsCall := by
  obtain ⟨other, i⟩ := step
  simp only [callSteps, List.mem_map, List.mem_filter, List.mem_finRange, true_and, decide_eq_true_eq, Prod.mk.injEq]
  constructor
  · rintro ⟨j, h, hsource, rfl⟩
    exact ⟨hsource, h⟩
  · rintro ⟨hsource, h⟩
    exact ⟨i, h, hsource, rfl⟩

private theorem callsTo_eq (edges : List (Edge Str Str)) (node : Str) (depth : Int) : callsTo edges node depth =
    (callSteps edges node).map fun step => ⟨step.1, (edges.get step.2).relationship, depth⟩ := by
  have hedges : edges = (List.finRange edges.length).map edges.get := (List.map_get_finRange edges).symm
  unfold callsTo callSteps
  conv_lhs => rw [hedges]
  rw [List.filter_map, List.map_map, List.map_map]
  rfl

private theorem labelled_callSteps (edges : List (Edge Str Str)) : Paths.Labelled (callSteps edges) := by
  rintro node ⟨b, i⟩ hs ⟨c, j⟩ ht hij
  obtain rfl : i = j := hij
  exact Prod.ext ((mem_callSteps.1 hs).1.symm.trans (mem_callSteps.1 ht).1) rfl

private theorem hops_callSteps_iff {n : Nat} {a b : Str} :
    Hops (fun u v => ∃ step ∈ callSteps edges u, step.1 = v) n a b ↔ Hops (Calls edges) n b a := by
  have heq : (fun u v => ∃ step ∈ callSteps edges u, step.1 = v) = flip (Calls edges) := by
    funext u v
    refine propext ⟨?_, ?_⟩
    · rintro ⟨step, hstep, rfl⟩
      exact ⟨edges.get step.2, List.get_mem edges step.2, mem_callSteps.1 hstep⟩
    · rintro ⟨edge, hedge, h⟩
      obtain ⟨i, rfl⟩ := List.get_of_mem hedge
      exact ⟨(v, i), mem_callSteps.2 h, rfl⟩
  rw [heq, Hops.flip_iff]

private theorem endOf_mem_sources (a : Str) (p : List (Str × Fin edges.length))
    (hp : Paths.IsWalk (callSteps edges) a p) : Paths.endOf a p ∈ (a :: edges.map Edge.source).toFinset := by
  rw [List.mem_toFinset]
  rcases List.eq_nil_or_concat p with rfl | ⟨q, step, rfl⟩
  · exact List.mem_cons_self
  · rw [List.concat_eq_append] at hp ⊢
    rw [Paths.endOf_append_singleton, ← (mem_callSteps.1 (Paths.isWalk_append_singleton.1 hp).2).1]
    exact List.mem_cons_of_mem _ (List.mem_map_of_mem (List.get_mem edges step.2))

/-- All steps are kept. -/
private def keepAll {ε : Type} (_ : List Str) (_ : Nat) (_ : Str × ε) : Bool := true

private def KeepAll {ε : Type} (_ : Str → Prop) (_ : Nat) (_ : Str × ε) : Prop := True

private theorem keeps_keepAll (bound : Nat) : Paths.Keeps (callSteps edges) bound keepAll where
  new _ _ _ _ _ := rfl
  sorted _ _ _ _ := List.Pairwise.filter _ (List.pairwise_map.2 ((List.pairwise_lt_finRange edges.length).filter _))

/-! ### The loop -/

section

variable (edges : List (Edge Str Str)) (symbol : Str)

/-- The item of the queue for a walk. -/
private def itemOf (p : List (Str × Fin edges.length)) : Str × Int := (Paths.endOf symbol p, p.length + 1)

/-- What is reported for a walk. -/
private def callerOf (p : List (Str × Fin edges.length)) : Caller where
  caller := Paths.endOf symbol p
  relationship := (p.getLast?).elim [] fun step => (edges.get step.2).relationship
  depth := p.length

/-- What is reported when the walks have been visited. -/
private def reported (done : List (List (Str × Fin edges.length))) : List Caller :=
  (Paths.pushes (callSteps edges) symbol keepAll [] done).map (callerOf edges symbol)

private theorem callsTo_endOf (visited : List Str) (p : List (Str × Fin edges.length)) :
    callsTo edges (Paths.endOf symbol p) (p.length + 1) =
      (Paths.onward (callSteps edges) symbol keepAll visited p).map (callerOf edges symbol) := by
  have hall : (callSteps edges (Paths.endOf symbol p)).filter (keepAll visited p.length) =
      callSteps edges (Paths.endOf symbol p) := List.filter_eq_self.2 fun _ _ => rfl
  rw [callsTo_eq, Paths.onward, hall, List.map_map]
  refine List.map_congr_left fun step _ => ?_
  rw [Function.comp_apply, callerOf, Paths.endOf_append_singleton, List.getLast?_concat, List.length_append]
  rfl

private theorem reported_append_singleton (done : List (List (Str × Fin edges.length)))
    (p : List (Str × Fin edges.length)) : reported edges symbol (done ++ [p]) =
      reported edges symbol done ++ callsTo edges (Paths.endOf symbol p) (p.length + 1) := by
  rw [reported, Paths.pushes_append_singleton, List.map_append, ← callsTo_endOf]
  rfl

/-- More rounds do not change what is returned. -/
private theorem walkCallers_add {maxDepth : Int} {rounds : Nat} (more : Nat) {queue : List (Str × Int)}
    {visited : List Str}
    {callers out : List Caller} (h : walkCallers edges maxDepth rounds queue visited callers = some out) :
    walkCallers edges maxDepth (rounds + more) queue visited callers = some out := by
  induction rounds generalizing queue visited callers with
  | zero =>
    cases queue with
    | nil =>
      cases more with
      | zero => exact h
      | succ more => exact h
    | cons item queue =>
      rw [walkCallers] at h
      split at h
      · cases h
      · rename_i hcap
        cases more with
        | zero => rwa [walkCallers, if_neg hcap]
        | succ more => rwa [Nat.zero_add, walkCallers, if_neg hcap]
  | succ rounds ih =>
    rw [Nat.succ_add]
    cases queue with
    | nil => exact h
    | cons item queue =>
      obtain ⟨curr, d⟩ := item
      rw [walkCallers] at h ⊢
      split
      · rename_i hcap
        rw [if_pos hcap] at h
        split
        · rename_i hskip
          rw [if_pos hskip] at h
          exact ih h
        · rename_i hskip
          rw [if_neg hskip] at h
          exact ih h
      · rename_i hcap
        rwa [if_neg hcap] at h

private theorem items_callsTo (visited : List Str) (p : List (Str × Fin edges.length)) :
    (callsTo edges (Paths.endOf symbol p) (p.length + 1)).map (fun c => (c.caller, (p.length : Int) + 1 + 1)) =
      (Paths.onward (callSteps edges) symbol keepAll visited p).map (itemOf edges symbol) := by
  rw [callsTo_endOf edges symbol visited, List.map_map]
  refine List.map_congr_left fun q hq => ?_
  obtain ⟨step, -, rfl⟩ := List.mem_map.1 hq
  rw [itemOf, List.length_append]
  rfl

private theorem onward_ne_nil (visited : List Str) {queue : List (List (Str × Fin edges.length))}
    {p : List (Str × Fin edges.length)} (hqueue : ∀ q ∈ queue, q ≠ []) :
    ∀ q ∈ queue ++ Paths.onward (callSteps edges) symbol keepAll visited p, q ≠ [] := by
  intro q hq
  rcases List.mem_append.1 hq with hq | hq
  · exact hqueue q hq
  · obtain ⟨step, -, rfl⟩ := List.mem_map.1 hq
    exact List.append_ne_nil_of_right_ne_nil p (List.cons_ne_nil step [])

/-- Unless it is cut off, the loop is the search that visits a vertex when it comes to it first. -/
private theorem walkCallers_of_visit {maxDepth : Int} {rounds : Nat}
    {queue done final : List (List (Str × Fin edges.length))} (hqueue : ∀ p ∈ queue, p ≠ [])
    (h : Paths.visit (callSteps edges) symbol (maxDepth - 1).toNat keepAll rounds queue done = some final) :
    ∃ out, walkCallers edges maxDepth rounds (queue.map (itemOf edges symbol)) (done.map (Paths.endOf symbol))
      (reported edges symbol done) = some out ∧ (out.length < 100 → out = reported edges symbol final) := by
  induction rounds generalizing queue done with
  | zero =>
    cases queue with
    | nil =>
      obtain rfl := Option.some.inj h
      exact ⟨_, rfl, fun _ => rfl⟩
    | cons p queue => cases h
  | succ rounds ih =>
    cases queue with
    | nil =>
      obtain rfl := Option.some.inj h
      exact ⟨_, rfl, fun _ => rfl⟩
    | cons p queue =>
      have htail : ∀ q ∈ queue, q ≠ [] := fun q hq => hqueue q (List.mem_cons_of_mem p hq)
      rw [List.map_cons, itemOf, walkCallers]
      by_cases hcap : (reported edges symbol done).length < 100
      · have hskip : ((p.length : Int) + 1 > maxDepth ∨ Paths.endOf symbol p ∈ done.map (Paths.endOf symbol)) ↔
            (maxDepth - 1).toNat < p.length ∨ Paths.endOf symbol p ∈ done.map (Paths.endOf symbol) := by
          have hpos := List.length_pos_of_ne_nil (hqueue p List.mem_cons_self)
          refine or_congr_left ?_
          omega
        rw [if_pos hcap]
        rw [Paths.visit] at h
        by_cases hpassed : (maxDepth - 1).toNat < p.length ∨ Paths.endOf symbol p ∈ done.map (Paths.endOf symbol)
        · rw [if_pos hpassed] at h
          rw [if_pos (hskip.2 hpassed)]
          exact ih htail h
        · rw [if_neg hpassed] at h
          rw [if_neg (mt hskip.1 hpassed)]
          obtain ⟨out, hout, hfull⟩ := ih (onward_ne_nil edges symbol _ htail) h
          rw [List.map_append, List.map_append, ← items_callsTo, reported_append_singleton] at hout
          exact ⟨out, hout, hfull⟩
      · -- cut off, the loop returns a hundred entries or more
        rw [if_neg hcap]
        exact ⟨_, rfl, fun hless => absurd hless hcap⟩

/-- The search ends, and unless it is cut off it reports the chains of calls whose last node is come to first. -/
private theorem walkCallers_spec (maxDepth : Int) : ∃ out,
    (∃ rounds, ∀ more, walkCallers edges maxDepth (rounds + more)
      ((callsTo edges symbol 1).map fun c => (c.caller, 2)) [symbol] (callsTo edges symbol 1) = some out) ∧
    (out.length < 100 → ∃ ps : List (List (Str × Fin edges.length)), out = ps.map (callerOf edges symbol) ∧
      ∀ p, p ∈ ps ↔ ∃ q step, p = q ++ [step] ∧ Paths.IsFirst (callSteps edges) symbol q ∧
        q.length ≤ (maxDepth - 1).toNat ∧ step ∈ callSteps edges (Paths.endOf symbol q)) := by
  obtain ⟨rounds, final, hfinal, hsorted, hmem⟩ := Paths.exists_visit (labelled_callSteps edges)
    (keeps_keepAll (maxDepth - 1).toNat) (endOf_mem_sources symbol)
  -- the symbol is marked before the loop, which therefore begins with the second round of the search
  have hfirst := hfinal 1
  rw [Paths.visit, if_neg (by simp)] at hfirst
  obtain ⟨out, hout, hfull⟩ := walkCallers_of_visit edges symbol
    (onward_ne_nil edges symbol _ fun q hq => absurd hq List.not_mem_nil) hfirst
  refine ⟨out, ⟨rounds, fun more => walkCallers_add edges more ?_⟩, fun hcap => ⟨_, hfull hcap, fun p => ?_⟩⟩
  · rw [List.nil_append, List.nil_append, ← items_callsTo, ← List.nil_append [[]], reported_append_singleton] at hout
    exact hout
  · have hall : ∀ visited d (step : Str × Fin edges.length),
        keepAll visited d step = true ↔ KeepAll (· ∈ visited) d step := fun _ _ _ => iff_of_true rfl trivial
    rw [Paths.mem_pushes_iff hall hsorted hmem]
    refine exists_congr fun q => exists_congr fun step => and_congr_right fun _ => and_congr_right fun _ => ?_
    exact and_congr_right fun _ => and_iff_left trivial

end

end

/-! ### The closure -/

/-- A chain of so many calls leads from the node to the symbol, and is not too long. -/
def CallsWithin (edges : List (Edge Str Str)) (symbol : Str) (maxDepth : Int) (n : Str) (k : Nat) : Prop :=
  1 ≤ k ∧ (k : Int) ≤ max 1 maxDepth ∧ Hops (Calls edges) k n symbol

section

variable {edges : List (Edge Str Str)} {symbol n : Str} {maxDepth d : Int} {k : Nat}

variable (edges symbol maxDepth) in
/-- The last call of a chain is reported for the first of the walks to the node that is called. -/
private def Reports (n : Str) (d : Int) : Prop := ∃ q step, Paths.IsFirst (callSteps edges) symbol q ∧
  q.length ≤ (maxDepth - 1).toNat ∧ step ∈ callSteps edges (Paths.endOf symbol q) ∧ step.1 = n ∧
  (q.length : Int) + 1 = d

private theorem mem_callerOf_iff {ps : List (List (Str × Fin edges.length))}
    (hps : ∀ p, p ∈ ps ↔ ∃ q step, p = q ++ [step] ∧ Paths.IsFirst (callSteps edges) symbol q ∧
      q.length ≤ (maxDepth - 1).toNat ∧ step ∈ callSteps edges (Paths.endOf symbol q)) :
    (∃ c ∈ ps.map (callerOf edges symbol), c.caller = n ∧ c.depth = d) ↔ Reports edges symbol maxDepth n d := by
  constructor
  · rintro ⟨c, hc, rfl, rfl⟩
    obtain ⟨p, hp, rfl⟩ := List.mem_map.1 hc
    obtain ⟨q, step, rfl, hq, hlength, hstep⟩ := (hps p).1 hp
    refine ⟨q, step, hq, hlength, hstep, (Paths.endOf_append_singleton symbol q step).symm, ?_⟩
    rw [callerOf, List.length_append]
    rfl
  · rintro ⟨q, step, hq, hlength, hstep, rfl, rfl⟩
    refine ⟨_, List.mem_map_of_mem ((hps _).2 ⟨q, step, rfl, hq, hlength, hstep⟩), ?_, ?_⟩
    · exact Paths.endOf_append_singleton symbol q step
    · rw [callerOf, List.length_append]
      rfl

/-- What is reported is a chain. -/
private theorem Reports.callsWithin (h : Reports edges symbol maxDepth n d) :
    ∃ j : Nat, (j : Int) = d ∧ CallsWithin edges symbol maxDepth n j := by
  obtain ⟨q, step, hq, hlength, hstep, rfl, rfl⟩ := h
  have hwalk : Paths.IsWalk (callSteps edges) symbol (q ++ [step]) := Paths.isWalk_append_singleton.2 ⟨hq.1, hstep⟩
  refine ⟨q.length + 1, rfl, Nat.succ_pos _, by omega,
    hops_callSteps_iff.1 (Paths.hops_iff.2 ⟨q ++ [step], hwalk, ?_, ?_⟩)⟩
  · exact Paths.endOf_append_singleton symbol q step
  · rw [List.length_append]
    rfl

/-- Where there is a chain, one that is no longer is reported. -/
private theorem CallsWithin.reports (h : CallsWithin edges symbol maxDepth n k) :
    ∃ j ≤ k, Reports edges symbol maxDepth n j := by
  obtain ⟨hpos, hle, hhops⟩ := h
  obtain ⟨w, hw, hend, rfl⟩ := Paths.hops_iff.1 (hops_callSteps_iff.2 hhops)
  rcases List.eq_nil_or_concat w with rfl | ⟨v, step, rfl⟩
  · cases hpos
  · rw [List.concat_eq_append] at hw hend hle ⊢
    obtain ⟨hv, hstep⟩ := Paths.isWalk_append_singleton.1 hw
    rw [Paths.endOf_append_singleton] at hend
    rw [List.length_append] at hle ⊢
    -- the same call is reported for the first walk to the node that is called
    obtain ⟨q, hq, hsame, -⟩ := Paths.exists_isFirst (labelled_callSteps edges) hv
    have hshort : q.length ≤ v.length := hq.length_le hv hsame.symm
    refine ⟨q.length + 1, Nat.succ_le_succ hshort, q, step, hq, ?_, hsame ▸ hstep, hend, rfl⟩
    simp only [List.length_singleton] at hle
    omega

/-- The smallest depth that is reported is the length of the shortest chain. -/
private theorem Reports.nearest (h : Reports edges symbol maxDepth n d) : ∃ k : Nat,
    IsLeast {d | Reports edges symbol maxDepth n d} k ∧ IsLeast {j | CallsWithin edges symbol maxDepth n j} k := by
  obtain ⟨j, -, hj⟩ := h.callsWithin
  obtain ⟨k, hleast⟩ : ∃ k, IsLeast {j | CallsWithin edges symbol maxDepth n j} k := by
    classical
    exact ⟨Nat.find ⟨j, hj⟩, Nat.find_spec ⟨j, hj⟩, fun i hi => Nat.find_min' ⟨j, hj⟩ hi⟩
  obtain ⟨i, hi, hreports⟩ := CallsWithin.reports hleast.1
  refine ⟨k, ⟨?_, fun d hd => ?_⟩, hleast⟩
  · obtain ⟨i', heq, hi'⟩ := hreports.callsWithin
    obtain rfl : i' = i := Int.ofNat.inj heq
    rwa [← le_antisymm hi (hleast.2 hi')]
  · obtain ⟨i', rfl, hi'⟩ := Reports.callsWithin hd
    exact Int.ofNat_le.2 (hleast.2 hi')

end

/-- **The closure of the callers.**  The search ends, and if it reports fewer than 100 entries, they are those of the
nodes from which chains of calls that are not too long lead to the symbol, the smallest depths being the lengths of the
shortest. -/
theorem code_find_callers_closure (graph : CodeGraph) (symbolName : Str) {symbolNode : CodeNode}
    (hsymbol : findSymbol (normalizeCodeGraph graph).nodes symbolName = some symbolNode) (maxDepth : Int) :
    ∃ callers, (∃ rounds, ∀ more,
        codeFindCallers (rounds + more) graph symbolName true maxDepth = some (Except.ok callers)) ∧
      (callers.length < 100 →
        (∀ n, n ∈ callers.map Caller.caller ↔
          ∃ k, CallsWithin (normalizeCodeGraph graph).edgeList symbolNode.id maxDepth n k) ∧
        ∀ n ∈ callers.map Caller.caller, ∃ k : Nat,
          IsLeast {d | ∃ c ∈ callers, c.caller = n ∧ c.depth = d} k ∧
          IsLeast {j | CallsWithin (normalizeCodeGraph graph).edgeList symbolNode.id maxDepth n j} k) := by
  obtain ⟨callers, ⟨rounds, hrun⟩, hfull⟩ := walkCallers_spec (normalizeCodeGraph graph).edgeList symbolNode.id maxDepth
  refine ⟨callers, ⟨rounds, fun more => ?_⟩, fun hcap => ?_⟩
  · rw [codeFindCallers, hsymbol, Option.elim_some, if_pos rfl, hrun more]
    rfl
  · obtain ⟨ps, rfl, hps⟩ := hfull hcap
    have hiff : ∀ n d, (∃ c ∈ ps.map (callerOf _ symbolNode.id), c.caller = n ∧ c.depth = d) ↔
        Reports (normalizeCodeGraph graph).edgeList symbolNode.id maxDepth n d := fun n d => mem_callerOf_iff hps
    have hreports : ∀ n, n ∈ (ps.map (callerOf _ symbolNode.id)).map Caller.caller ↔
        ∃ d, Reports (normalizeCodeGraph graph).edgeList symbolNode.id maxDepth n d := by
      intro n
      simp only [← hiff]
      constructor
      · intro hn
        obtain ⟨c, hc, rfl⟩ := List.mem_map.1 hn
        exact ⟨c.depth, c, hc, rfl, rfl⟩
      · rintro ⟨d, c, hc, rfl, -⟩
        exact List.mem_map_of_mem hc
    refine ⟨fun n => (hreports n).trans ⟨?_, ?_⟩, fun n hn => ?_⟩
    · rintro ⟨d, h⟩
      obtain ⟨j, -, hj⟩ := h.callsWithin
      exact ⟨j, hj⟩
    · rintro ⟨k, h⟩
      obtain ⟨j, -, hj⟩ := h.reports
      exact ⟨j, hj⟩
    · obtain ⟨d, h⟩ := (hreports n).1 hn
      obtain ⟨k, hdepth, hchain⟩ := h.nearest
      refine ⟨k, ?_, hchain⟩
      simp only [hiff]
      exact hdepth

/-! ### Two functions that call each other -/

private def recursion : CodeGraph where
  nodes := [⟨lit "mod.f", none, none⟩, ⟨lit "mod.g", none, none⟩]
  edges := none
  links := some [⟨lit "mod.f", lit "mod.g", none, some (lit "calls")⟩, ⟨lit "mod.g", lit "mod.f", none,
    some (lit "calls")⟩]

private theorem findSymbol_recursion :
    findSymbol (normalizeCodeGraph recursion).nodes (lit "g") = some ⟨lit "mod.g", none, none⟩ := by decide +kernel

private theorem callers_recursion (rounds : Nat) :
    codeFindCallers (rounds + 4) recursion (lit "g") true 5 =
      some (Except.ok [⟨lit "mod.f", lit "calls", 1⟩, ⟨lit "mod.g", lit "calls", 2⟩]) := rfl

theorem code_find_callers_closure_mutual :
    ∃ callers, (∃ rounds, ∀ more,
        codeFindCallers (rounds + more) recursion (lit "g") true 5 = some (Except.ok callers)) ∧
      callers.length < 100 ∧
      (∀ n, n ∈ callers.map Caller.caller ↔
        ∃ k, CallsWithin (normalizeCodeGraph recursion).edgeList (lit "mod.g") 5 n k) ∧
      ∀ n ∈ callers.map Caller.caller, ∃ k : Nat,
        IsLeast {d | ∃ c ∈ callers, c.caller = n ∧ c.depth = d} k ∧
        IsLeast {j | CallsWithin (normalizeCodeGraph recursion).edgeList (lit "mod.g") 5 n j} k := by
  obtain ⟨callers, ⟨rounds, hrun⟩, hclosure⟩ := code_find_callers_closure recursion (lit "g") findSymbol_recursion 5
  obtain rfl := Except.ok.inj (Option.some.inj ((callers_recursion rounds).symm.trans (hrun 4)))
  exact ⟨_, ⟨rounds, hrun⟩, by decide, hclosure (by decide)⟩

end AgentOS.GraphTools
