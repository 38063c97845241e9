import AgentOS.Hooks.Exclusion

/-!
# The dirty flag

A refresh removes the flag at its end, whatever has happened since its child read the working tree.  The flag therefore
says that the graph is older than the last mark only as long as no step is careless (`Root.Careful`), and
`marked_during_refresh` is a run with a careless one.
-/

namespace AgentOS.Hooks

variable {Pid Tree : Type}

/-- No flag is there, and no refresh is running. -/
def Root.Resting (root : Root Pid Tree) : Prop := root.dirty = false ∧ ∀ p, (root.pcs p).via = none

/-- The graph on disk was built from a tree that was read after the last call of `mark_dirty` that has completed. -/
def Root.Current (root : Root Pid Tree) : Prop :=
  ∀ instant, root.marked = some instant → ∃ graph, root.graph = some graph ∧ instant < graph.instant

/-- A refresh whose child has built the graph removes the flag only if no call of `mark_dirty` is under way and none has
completed since the child read the tree; one whose child has built nothing, only if there is no flag; and no child
replaces a graph of a later tree. -/
def Root.Careful (root : Root Pid Tree) : Event Pid Tree → Prop
  | .act p .next => ∀ via built, root.pcs p = .unlinkDirty via built → match built with
    | some snapshot =>
      (∀ q, ¬ (root.pcs q).IsMarking) ∧ ∀ instant, root.marked = some instant → instant < snapshot.instant
    | none => root.dirty = false
  | .act p .childWrites => ∀ snapshot graph, (root.pcs p).snapshot = some snapshot → root.graph = some graph →
    graph.instant ≤ snapshot.instant
  | _ => True

/-- Where there is no flag, the graph is current and nobody is marking; and the graph is not older than what a call has
built. -/
private structure Kept (root : Root Pid Tree) : Prop where
  flag : root.dirty = true ∨ (∀ p, ¬ (root.pcs p).IsMarking) ∧ root.Current
  built : ∀ p snapshot, (root.pcs p).built = some snapshot →
    ∃ graph, root.graph = some graph ∧ snapshot.instant ≤ graph.instant

variable [DecidableEq Pid] {git : Git Tree} {root root' : Root Pid Tree} {p : Pid} {action : HookAction}
  {event : Event Pid Tree}

omit [DecidableEq Pid] in
/-- What the children have written stays on disk, and `p` has written nothing new. -/
private theorem built_of_sameGraph (h : Kept root) (hother : ∀ q, q ≠ p → root'.pcs q = root.pcs q)
    (hgraph : root'.graph = root.graph)
    (hp : ∀ snapshot, (root'.pcs p).built = some snapshot → (root.pcs p).built = some snapshot) (q : Pid)
    (snapshot : Snapshot Tree) (hq : (root'.pcs q).built = some snapshot) :
    ∃ graph, root'.graph = some graph ∧ snapshot.instant ≤ graph.instant := by
  rw [hgraph]
  by_cases hqp : q = p
  · subst hqp
    exact h.built q snapshot (hp snapshot hq)
  · rw [hother q hqp] at hq
    exact h.built q snapshot hq

omit [DecidableEq Pid] in
private theorem unmarked (h : ∀ q, ¬ (root.pcs q).IsMarking) (hother : ∀ q, q ≠ p → root'.pcs q = root.pcs q)
    (hp : ¬ (root'.pcs p).IsMarking) (q : Pid) : ¬ (root'.pcs q).IsMarking := by
  intro hq
  by_cases hqp : q = p
  · exact hp (hqp ▸ hq)
  · rw [hother q hqp] at hq
    exact h q hq

private theorem kept_act (h : Kept root) (hcareful : root.Careful (.act p action))
    (hact : root.act git p action = some root') : Kept root' := by
  have hother := fun q (hq : q ≠ p) => pcs_of_act hact hq
  cases mark_of_act hact with
  | marks hpc hdirty hmarked hgraph =>
    exact ⟨Or.inl hdirty, built_of_sameGraph h hother hgraph fun _ h => by rw [hpc] at h; cases h⟩
  | completes hpc hpc' hdirty hmarked hgraph =>
    refine ⟨Or.inl ?_, built_of_sameGraph h hother hgraph fun _ h => by rw [hpc'] at h; cases h⟩
    -- while the call is marking, the flag is there
    refine hdirty.trans (h.flag.resolve_right fun hflag => hflag.1 p ?_)
    rw [hpc]
    trivial
  | reads via hpc' hdirty hmarked hgraph =>
    refine ⟨?_, built_of_sameGraph h hother hgraph fun _ h => by rw [hpc'] at h; cases h⟩
    unfold Root.Current
    rw [hdirty, hmarked, hgraph]
    exact h.flag.imp_right fun hflag => ⟨unmarked hflag.1 hother (by rw [hpc']; exact id), hflag.2⟩
  | writes via snapshot hpc hpc' hdirty hmarked hgraph =>
    have hlater : ∀ graph, root.graph = some graph → graph.instant ≤ snapshot.instant := by
      intro graph hold
      refine hcareful snapshot graph ?_ hold
      rw [hpc]
      rfl
    refine ⟨?_, fun q other hq => ⟨snapshot, hgraph, ?_⟩⟩
    · unfold Root.Current
      rw [hdirty, hmarked]
      refine h.flag.imp_right fun hflag => ⟨unmarked hflag.1 hother (by rw [hpc']; exact id), ?_⟩
      intro instant hinstant
      obtain ⟨graph, hold, hlt⟩ := hflag.2 instant hinstant
      exact ⟨snapshot, hgraph, lt_of_lt_of_le hlt (hlater graph hold)⟩
    · by_cases hqp : q = p
      · rw [hqp, hpc'] at hq
        obtain rfl := Option.some.inj hq
        exact le_refl _
      · rw [hother q hqp] at hq
        obtain ⟨graph, hold, hle⟩ := h.built q other hq
        exact hle.trans (hlater graph hold)
  | clears via built hpc hpc' hdirty hmarked hgraph =>
    have hclear := hcareful via built hpc
    refine ⟨Or.inr ?_, built_of_sameGraph h hother hgraph fun _ h => by rw [hpc'] at h; cases h⟩
    have hflag : (∀ q, ¬ (root.pcs q).IsMarking) ∧ root.Current := by
      cases built with
      | none => exact h.flag.resolve_left (by rw [show root.dirty = false from hclear]; simp)
      | some snapshot =>
        refine ⟨hclear.1, fun instant hinstant => ?_⟩
        obtain ⟨graph, hold, hle⟩ := h.built p snapshot (by rw [hpc]; rfl)
        exact ⟨graph, hold, lt_of_lt_of_le (hclear.2 instant hinstant) hle⟩
    unfold Root.Current
    rw [hmarked, hgraph]
    exact ⟨unmarked hflag.1 hother (by rw [hpc']; exact id), hflag.2⟩
  | keeps hdirty hmarked hgraph hmarking hsnapshot hbuilt =>
    refine ⟨?_, built_of_sameGraph h hother hgraph hbuilt⟩
    unfold Root.Current
    rw [hdirty, hmarked, hgraph]
    exact h.flag.imp_right fun hflag => ⟨unmarked hflag.1 hother hmarking, hflag.2⟩

private theorem kept_next (h : Kept root) (hcareful : root.Careful event)
    (hnext : root.next git event = some root') : Kept root' := by
  cases event with
  | edit tree =>
    obtain rfl := Option.some.inj hnext
    exact ⟨h.flag, h.built⟩
  | tick clock =>
    obtain rfl := Option.some.inj hnext
    exact ⟨h.flag, h.built⟩
  | act p action =>
    obtain ⟨mid, hact, rfl⟩ := act_of_next hnext
    have hmid := kept_act h hcareful hact
    exact ⟨hmid.flag, hmid.built⟩

omit [DecidableEq Pid] in
private theorem kept_start (h : root.Start) : Kept root where
  flag := by
    refine Or.inr ⟨fun p hp => ?_, fun instant hinstant => ?_⟩
    · rw [h.idle p] at hp
      exact hp
    · cases h.marked.symm.trans hinstant
  built := by
    intro p snapshot hp
    rw [h.idle p] at hp
    cases hp

/-- **No lost refresh.**  In a run whose steps are all careful, the graph is current whenever no flag is there and no
refresh is running. -/
theorem current_of_resting (hstart : root.Start) {events : List (Event Pid Tree)}
    (hcareful : Run.Meets (Root.next git) Root.Careful root events) {reached : Root Pid Tree}
    (hrun : Run.exec (Root.next git) root events = some reached) (hresting : reached.Resting) : reached.Current := by
  have hkept : Kept reached :=
    Run.invariant_of_meets (fun _ _ _ h hok hnext => kept_next h hok hnext) (kept_start hstart) hcareful hrun
  rcases hkept.flag with hdirty | ⟨-, hcurrent⟩
  · rw [hresting.1] at hdirty
    cases hdirty
  · exact hcurrent

/-- A repository at rest whose graph has never been built. -/
def atRest : Root Bool Nat := { deadLock with lock := none, dirty := false }

theorem atRest_start : atRest.Start where
  idle := fun _ => rfl
  lock := fun _ h => by cases h
  marked := rfl

/-- The steps of a refresh from its beginning to where its child has read the tree. -/
def readTree (p : Bool) : List (Event Bool Nat) :=
  [.act p (.refreshGraphify 160), .act p .next, .act p .childReads]

/-- The steps from there to its end. -/
def finishRefresh (p : Bool) : List (Event Bool Nat) :=
  [.act p .childWrites, .act p (.childExits .success), .act p .next, .act p .next, .act p .next, .act p .next,
    .act p .next, .act p .next]

/-- An edit and its mark. -/
def editAndMark (p : Bool) : List (Event Bool Nat) := [.edit 1, .act p .markDirty, .act p .next]

/-- A mark, and then a refresh. -/
theorem current_marked_before : ∃ reached,
    Run.exec (Root.next sampleGit) atRest (editAndMark false ++ readTree true ++ finishRefresh true) = some reached ∧
      reached.Resting ∧ reached.Current := by
  have hcareful : Run.Meets (Root.next sampleGit) Root.Careful atRest
      (editAndMark false ++ readTree true ++ finishRefresh true) := by
    refine Run.meets_cons rfl trivial (Run.meets_cons rfl trivial (Run.meets_cons rfl ?_
      (Run.meets_cons rfl trivial (Run.meets_cons rfl ?_ (Run.meets_cons rfl trivial
      (Run.meets_cons rfl ?written (Run.meets_cons rfl trivial (Run.meets_cons rfl ?removed
      (Run.meets_cons rfl ?_ (Run.meets_cons rfl ?_ (Run.meets_cons rfl ?_
      (Run.meets_cons rfl ?_ (Run.meets_cons rfl ?_ trivial)))))))))))))
    case written =>
      rintro snapshot graph - hgraph
      cases hgraph
    case removed =>
      -- the flag is removed, and the mark was there before the child read the tree
      rintro via built hpc
      obtain ⟨rfl, rfl⟩ := HookPc.unlinkDirty.inj hpc
      refine ⟨fun q => by cases q <;> exact id, fun instant hinstant => ?_⟩
      obtain rfl := Option.some.inj hinstant
      decide
    all_goals
      rintro via built hpc
      cases hpc
  refine ⟨_, rfl, ?_, ?_⟩
  · exact ⟨rfl, fun p => by cases p <;> rfl⟩
  · exact current_of_resting atRest_start hcareful rfl ⟨rfl, fun p => by cases p <;> rfl⟩

/-- A mark while the child of a refresh is at work: the flag is removed, and the graph is that of the tree before. -/
theorem marked_during_refresh : ∃ reached,
    Run.exec (Root.next sampleGit) atRest (readTree true ++ editAndMark false ++ finishRefresh true) = some reached ∧
      reached.Resting ∧ ¬ reached.Current := by
  refine ⟨_, rfl, ⟨rfl, fun p => by cases p <;> rfl⟩, fun hcurrent => ?_⟩
  obtain ⟨graph, hgraph, hlt⟩ := hcurrent 5 rfl
  obtain rfl := Option.some.inj hgraph
  exact absurd hlt (by decide)

end AgentOS.Hooks
