import AgentOS.Hooks.Refresh

/-!
# Mutual exclusion of refreshes

A call that finds no lock creates it, and removes it at its end.  A call that finds a stale lock removes it and goes on
without a lock of its own, and at its end removes whatever lock is there.  So two calls are past the lock just in case
one of them has taken over, or has removed the lock of another one: `refresh_exclusive_iff`.
-/

namespace AgentOS.Hooks

variable {Pid Tree : Type}

/-- At most one call is between having obtained the lock and removing it. -/
def Root.Exclusive (root : Root Pid Tree) : Prop :=
  ∀ p q, (root.pcs p).via.isSome → (root.pcs q).via.isSome → p = q

/-- No call that took over a stale lock is past it. -/
def Root.NoTakeover (root : Root Pid Tree) : Prop := ∀ p, (root.pcs p).via ≠ some .tookOver

/-- Nobody gets past the lock while a call is past it that took over a stale lock, and a call that takes over removes no
lock that a call of the run has created. -/
def Root.Orderly (root : Root Pid Tree) : Event Pid Tree → Prop
  | .act _ (.refreshGraphify _) => root.lock = none → root.NoTakeover
  | .act p .next => root.pcs p = .unlinkStale →
    root.NoTakeover ∧ ∀ lock, root.lock = some lock → lock.creator = none
  | _ => True

/-- A lock that a call of the run has created is there only while this call is past it. -/
private def Owned (root : Root Pid Tree) : Prop :=
  ∀ lock p, root.lock = some lock → lock.creator = some p → (root.pcs p).via = some .created

/-- Who has created the lock and is past it still has it, and nobody else is past it. -/
private structure Locked (root : Root Pid Tree) : Prop where
  exclusive : root.Exclusive
  owned : Owned root
  holds : ∀ p, (root.pcs p).via = some .created → ∃ lock, root.lock = some lock ∧ lock.creator = some p

variable [DecidableEq Pid] {git : Git Tree} {root root' : Root Pid Tree} {p q : Pid} {action : HookAction}

private theorem owned_act (h : Owned root) (hact : root.act git p action = some root') : Owned root' := by
  intro lock q hlock hcreator
  cases lock_of_act hact with
  | creates timeout hpc hfree hnew hvia =>
    rw [hnew] at hlock
    obtain rfl := Option.some.inj hlock
    obtain rfl := Option.some.inj hcreator
    exact hvia
  | takesOver hpc hnone hvia => cases hnone.symm.trans hlock
  | releases hpast hnone hvia => cases hnone.symm.trans hlock
  | keeps hsame hvia =>
    rw [hsame] at hlock
    have hq := h lock q hlock hcreator
    by_cases hqp : q = p
    · subst hqp
      rw [hvia, hq]
    · rw [pcs_of_act hact hqp, hq]

/-- A call gets past the lock while nobody else is past it. -/
private theorem exclusive_of_enters (hact : root.act git p action = some root')
    (hfree : ∀ q, (root.pcs q).via = none) : root'.Exclusive := by
  have honly : ∀ q, (root'.pcs q).via.isSome → q = p := by
    intro q hq
    by_contra hne
    rw [pcs_of_act hact hne, hfree q] at hq
    cases hq
  exact fun q r hq hr => (honly q hq).trans (honly r hr).symm

omit [DecidableEq Pid] in
private theorem via_of_noTakeover (h : root.NoTakeover) (hcreated : ∀ q, (root.pcs q).via ≠ some .created) (q : Pid) :
    (root.pcs q).via = none := by
  cases hq : (root.pcs q).via with
  | none => rfl
  | some via =>
    cases via with
    | created => exact absurd hq (hcreated q)
    | tookOver => exact absurd hq (h q)

private theorem locked_act (h : Locked root) (horderly : root.Orderly (.act p action))
    (hact : root.act git p action = some root') : Locked root' := by
  have howned := owned_act h.owned hact
  cases lock_of_act hact with
  | creates timeout hpc hfree hnew hvia =>
    have hnobody := via_of_noTakeover (horderly hfree) fun q hq => by
      obtain ⟨lock, hlock, -⟩ := h.holds q hq
      cases hfree.symm.trans hlock
    refine ⟨exclusive_of_enters hact hnobody, howned, fun q hq => ?_⟩
    by_cases hqp : q = p
    · exact ⟨_, hnew, hqp ▸ rfl⟩
    · rw [pcs_of_act hact hqp, hnobody q] at hq
      cases hq
  | takesOver hpc hnone hvia =>
    obtain ⟨hquiet, hdead⟩ := horderly hpc
    have hnobody := via_of_noTakeover hquiet fun q hq => by
      obtain ⟨lock, hlock, hcreator⟩ := h.holds q hq
      cases (hdead lock hlock).symm.trans hcreator
    refine ⟨exclusive_of_enters hact hnobody, howned, fun q hq => ?_⟩
    by_cases hqp : q = p
    · subst hqp
      cases hvia.symm.trans hq
    · rw [pcs_of_act hact hqp, hnobody q] at hq
      cases hq
  | releases hpast hnone hvia =>
    -- who leaves was alone, so nobody is past the lock any more
    have hnobody : ∀ q, (root'.pcs q).via = none := by
      intro q
      by_cases hqp : q = p
      · exact hqp ▸ hvia
      · rw [pcs_of_act hact hqp]
        cases hq : (root.pcs q).via with
        | none => rfl
        | some via => exact absurd (h.exclusive q p (by rw [hq]; rfl) hpast) hqp
    refine ⟨fun q r hq => ?_, howned, fun q hq => ?_⟩
    · rw [hnobody q] at hq
      cases hq
    · rw [hnobody q] at hq
      cases hq
  | keeps hsame hvia =>
    have hvias : ∀ q, (root'.pcs q).via = (root.pcs q).via := by
      intro q
      by_cases hqp : q = p
      · rw [hqp, hvia]
      · rw [pcs_of_act hact hqp]
    refine ⟨fun q r hq hr => ?_, howned, fun q hq => ?_⟩
    · rw [hvias] at hq hr
      exact h.exclusive q r hq hr
    · rw [hvias] at hq
      rw [hsame]
      exact h.holds q hq

/-! ### Runs -/

variable {event : Event Pid Tree}

private theorem owned_next (h : Owned root) (hnext : root.next git event = some root') : Owned root' := by
  cases event with
  | edit tree =>
    obtain rfl := Option.some.inj hnext
    exact h
  | tick clock =>
    obtain rfl := Option.some.inj hnext
    exact h
  | act p action =>
    obtain ⟨mid, hact, rfl⟩ := act_of_next hnext
    have hmid := owned_act h hact
    exact hmid

private theorem locked_next (h : Locked root) (horderly : root.Orderly event)
    (hnext : root.next git event = some root') : Locked root' := by
  cases event with
  | edit tree =>
    obtain rfl := Option.some.inj hnext
    exact ⟨h.exclusive, h.owned, h.holds⟩
  | tick clock =>
    obtain rfl := Option.some.inj hnext
    exact ⟨h.exclusive, h.owned, h.holds⟩
  | act p action =>
    obtain ⟨mid, hact, rfl⟩ := act_of_next hnext
    have hmid := locked_act h horderly hact
    exact ⟨hmid.exclusive, hmid.owned, hmid.holds⟩

/-- A step behind which at most one call is past the lock is orderly. -/
private theorem orderly_of_exclusive (h : Owned root) (hnext : root.next git event = some root')
    (hexclusive : root'.Exclusive) : root.Orderly event := by
  cases event with
  | edit tree => trivial
  | tick clock => trivial
  | act p action =>
    obtain ⟨mid, hact, rfl⟩ := act_of_next hnext
    -- a call that was past the lock before is `p`, once `p` is past it
    have hother : (mid.pcs p).via.isSome → (root.pcs p).via = none → ∀ q, (root.pcs q).via = none := by
      intro hp hout q
      by_contra hq
      by_cases hqp : q = p
      · exact hq (hqp ▸ hout)
      · refine hqp (hexclusive q p ?_ hp)
        show (mid.pcs q).via.isSome = true
        rw [pcs_of_act hact hqp]
        exact Option.isSome_iff_ne_none.2 hq
    cases action with
    | refreshGraphify timeout =>
      intro hfree q hq
      obtain ⟨hpc, hvia⟩ := act_refreshGraphify hact hfree
      rw [hother (by rw [hvia]; rfl) (by rw [hpc]; rfl) q] at hq
      cases hq
    | next =>
      intro hpc
      have hnobody := hother (by rw [act_unlinkStale hact hpc]; rfl) (by rw [hpc]; rfl)
      refine ⟨fun q hq => ?_, fun lock hlock => ?_⟩
      · rw [hnobody q] at hq
        cases hq
      · cases hcreator : lock.creator with
        | none => rfl
        | some q =>
          have hq := h lock q hlock hcreator
          rw [hnobody q] at hq
          cases hq
    | markDirty => trivial
    | gitStateChanged => trivial
    | fail => trivial
    | childReads => trivial
    | childWrites => trivial
    | childExits exit => trivial

omit [DecidableEq Pid] in
private theorem locked_start (h : root.Start) : Locked root where
  exclusive := by
    intro p q hp
    rw [h.idle p] at hp
    cases hp
  owned := by
    intro lock p hlock hcreator
    cases (h.lock lock hlock).symm.trans hcreator
  holds := by
    intro p hp
    rw [h.idle p] at hp
    cases hp

/-- **Mutual exclusion.**  At most one call is past the lock in every state of a run, if and only if every step of the
run is orderly. -/
theorem refresh_exclusive_iff (hstart : root.Start) {events : List (Event Pid Tree)} {last : Root Pid Tree}
    (hrun : Run.exec (Root.next git) root events = some last) :
    (∀ before after reached, events = before ++ after → Run.exec (Root.next git) root before = some reached →
        reached.Exclusive) ↔
      Run.Meets (Root.next git) Root.Orderly root events := by
  constructor
  · intro hexclusive
    refine Run.meets_of_prefixes fun before event after reached hevents hreached => ?_
    have howned : Owned reached :=
      Run.invariant (fun _ _ _ h hnext => owned_next h hnext) (locked_start hstart).owned hreached
    rw [hevents, List.append_cons] at hrun
    obtain ⟨reached', hreached', -⟩ := Run.exec_append.1 hrun
    obtain ⟨mid, hmid, hlast⟩ := Run.exec_append.1 hreached'
    obtain rfl := Option.some.inj (hreached.symm.trans hmid)
    obtain ⟨end', hnext, hend⟩ := Run.exec_cons.1 hlast
    obtain rfl := Option.some.inj hend
    exact orderly_of_exclusive howned hnext
      (hexclusive (before ++ [event]) after _ (by rw [hevents, List.append_cons]) hreached')
  · rintro horderly before after reached rfl hreached
    exact (Run.invariant_of_meets (fun _ _ _ h hok hnext => locked_next h hok hnext) (locked_start hstart)
      (Run.meets_append.1 horderly).1 hreached).exclusive

/-! ### Samples -/

/-- A repository at rest, with the lock of a process that died a thousand seconds ago. -/
def deadLock : Root Bool Nat where
  instant := 0
  clock := 1000
  tree := 0
  graph := none
  dirty := true
  fingerprint := none
  lock := some ⟨0, none⟩
  pcs _ := .idle
  marked := none

/-- `git` on such trees. -/
def sampleGit : Git Nat := ⟨fun _ => [], fun _ => [], fun _ => ""⟩

theorem deadLock_start : deadLock.Start where
  idle := fun _ => rfl
  lock := by
    intro lock hlock
    obtain rfl := Option.some.inj hlock
    rfl
  marked := rfl

/-- The steps of a call that takes over a stale lock. -/
def takeOver (p : Bool) : List (Event Bool Nat) :=
  [.act p (.refreshGraphify 160), .act p .next, .act p .next, .act p .next]

/-- A call takes over, and a second one comes when it has ended. -/
theorem refresh_exclusive_inTurn :
    ∃ last, Run.exec (Root.next sampleGit) deadLock
        (takeOver true ++ [.act true .fail, .act true .next, .act false (.refreshGraphify 160)]) = some last ∧
      ∀ before after reached,
        takeOver true ++ [.act true .fail, .act true .next, .act false (.refreshGraphify 160)] = before ++ after →
        Run.exec (Root.next sampleGit) deadLock before = some reached → reached.Exclusive := by
  refine ⟨_, rfl, (refresh_exclusive_iff deadLock_start rfl).2 ?_⟩
  refine Run.meets_cons rfl (fun hfree => by cases hfree) (Run.meets_cons rfl (fun hpc => by cases hpc)
    (Run.meets_cons rfl (fun hpc => by cases hpc) (Run.meets_cons rfl ?_ (Run.meets_cons rfl trivial
      (Run.meets_cons rfl (fun hpc => by cases hpc) (Run.meets_cons rfl ?_ trivial))))))
  · refine fun _ => ⟨by rintro (_ | _) <;> decide, fun lock hlock => ?_⟩
    obtain rfl := Option.some.inj hlock
    rfl
  · exact fun _ => by rintro (_ | _) <;> decide

/-- A second call comes while the first one, which has taken over, runs without a lock: two children run. -/
theorem takeover_not_exclusive :
    ∃ reached, Run.exec (Root.next sampleGit) deadLock
        (takeOver true ++ [.act true .next, .act false (.refreshGraphify 160), .act false .next]) = some reached ∧
      (∀ p, ∃ via, reached.pcs p = .child via none false) ∧ ¬ reached.Exclusive := by
  refine ⟨_, rfl, ?_, fun h => absurd (h true false rfl rfl) (by decide)⟩
  rintro (_ | _)
  · exact ⟨.created, rfl⟩
  · exact ⟨.tookOver, rfl⟩

end AgentOS.Hooks
