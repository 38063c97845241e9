import AgentOS.Lib.Run
import AgentOS.Python.Strings
import Mathlib.Logic.Function.Basic

/-!
# Refreshing the repository graph

`mark_dirty`, `git_state_changed` and `refresh_graphify` of `scripts/hook_common.py`, called by any number of hook
processes on one repository, one access to a file at a time.  `main` of `scripts/sync_repo_graph.py` makes these calls
one after the other, so its runs are among those of the model.  What a call returns, the log and the text of the dirty
flag, which nobody reads, are left out.

`graphify` is a child process.  It reads the working tree at one instant, writes the graph of what it has read, and
exits; it exits with 0 only when it has written.

* `lock_of_act` says what a step does to the lock and to the calls that are past it.
* `mark_of_act` says what a step does to the dirty flag, the marks and the graph.
-/

namespace AgentOS.Hooks

/-- The working tree as it was at an instant. -/
structure Snapshot (Tree : Type) where
  tree : Tree
  instant : Nat
deriving DecidableEq

/-- `graphify.lock`.  The creator, which the file does not record, is known for the calls of the run. -/
structure LockFile (Pid : Type) where
  mtime : Int
  creator : Option Pid

/-- What is used of `git` and of `hashlib.sha256`. -/
structure Git (Tree : Type) where
  revParse : Tree → List UInt8
  status : Tree → List UInt8
  sha256 : List UInt8 → String

/-- How a call has got past the lock. -/
inductive Via where
  | created
  | tookOver
deriving DecidableEq

/-- Who computes a fingerprint. -/
inductive Caller where
  | gitStateChanged
  | refreshGraphify (via : Via)

/-- How `graphify` exits: with 0, with the message that no LLM API key is configured, or otherwise. -/
inductive Exit where
  | success
  | noKey
  | failure

/-- The access that a process makes next.  `child` has what the child has read, and whether it has written the graph;
`unlinkDirty` has it of a child that exited with 0. -/
inductive HookPc (Tree : Type) where
  | idle
  | marking
  | status (head : List UInt8) (caller : Caller)
  | compare (current : String)
  | truncate (text : String) (caller : Caller)
  | writeText (text : String) (caller : Caller)
  | blocked (timeout : Int)
  | examine (timeout now : Int)
  | unlinkStale
  | spawn (via : Via)
  | child (via : Via) (snapshot : Option (Snapshot Tree)) (written : Bool)
  | unlinkDirty (via : Via) (built : Option (Snapshot Tree))
  | fingerprint (via : Via)
  | release (via : Via)

/-- What a process does: begins a call, takes the next step of it, fails at it, or waits while its child does. -/
inductive HookAction where
  | markDirty
  | gitStateChanged
  | refreshGraphify (timeout : Int)
  | next
  | fail
  | childReads
  | childWrites
  | childExits (exit : Exit)

/-- The repository: its working tree, the graph on disk, the files of the hooks and the processes.  `marked` is the
instant at which the last call of `mark_dirty` completed. -/
structure Root (Pid Tree : Type) where
  instant : Nat
  clock : Int
  tree : Tree
  graph : Option (Snapshot Tree)
  dirty : Bool
  fingerprint : Option String
  lock : Option (LockFile Pid)
  pcs : Pid → HookPc Tree
  marked : Option Nat

/-- An instant: somebody edits the tree, the clock goes on, or a process acts. -/
inductive Event (Pid Tree : Type) where
  | edit (tree : Tree)
  | tick (clock : Int)
  | act (p : Pid) (action : HookAction)

variable {Pid Tree : Type}

/-- `git_state_fingerprint`, of what the two commands have written. -/
def Git.stateFingerprint (git : Git Tree) (head status : List UInt8) : String :=
  git.sha256 (head ++ [0] ++ status ++ [0])

/-- Where a call goes on that has its fingerprint. -/
def Caller.afterFingerprint (current : String) : Caller → HookPc Tree
  | .gitStateChanged => .compare current
  | .refreshGraphify via => .truncate current (.refreshGraphify via)

/-- Where a call ends up that has written its fingerprint, or has raised on the way. -/
def Caller.afterwards : Caller → HookPc Tree
  | .gitStateChanged => .idle
  | .refreshGraphify via => .release via

/-- How the call got past the lock, while it is past it. -/
def HookPc.via : HookPc Tree → Option Via
  | .status _ (.refreshGraphify via) | .truncate _ (.refreshGraphify via) | .writeText _ (.refreshGraphify via) => some via
  | .spawn via | .child via _ _ | .unlinkDirty via _ | .fingerprint via | .release via => some via
  | _ => none

/-- What the child of the call has read. -/
def HookPc.snapshot : HookPc Tree → Option (Snapshot Tree)
  | .child _ snapshot _ | .unlinkDirty _ snapshot => snapshot
  | _ => none

/-- What the child of the call has written. -/
def HookPc.built : HookPc Tree → Option (Snapshot Tree)
  | .child _ snapshot true | .unlinkDirty _ snapshot => snapshot
  | _ => none

/-- A call of `mark_dirty` is under way, and has created the flag. -/
def HookPc.IsMarking : HookPc Tree → Prop
  | .marking => True
  | _ => False

section
variable [DecidableEq Pid]

def Root.goto (root : Root Pid Tree) (p : Pid) (pc : HookPc Tree) : Root Pid Tree :=
  { root with pcs := Function.update root.pcs p pc }

/-- What a process does to the repository; `none` where it cannot do this. -/
def Root.act (git : Git Tree) (root : Root Pid Tree) (p : Pid) (action : HookAction) : Option (Root Pid Tree) :=
  match root.pcs p, action with
  -- `mark_dirty`: `write_text` creates the file, and writes; then the log
  | .idle, .markDirty => some ({ root with dirty := true }.goto p .marking)
  | .marking, .next => some ({ root with marked := some root.instant }.goto p .idle)
  -- `git_state_changed`
  | .idle, .gitStateChanged => some (root.goto p (.status (git.revParse root.tree) .gitStateChanged))
  | .status head caller, .next =>
    some (root.goto p (caller.afterFingerprint (git.stateFingerprint head (git.status root.tree))))
  | .status _ caller, .fail => some (root.goto p caller.afterwards)
  | .compare current, .next =>
    if current ≠ (root.fingerprint.map strip).getD "" then some (root.goto p (.truncate current .gitStateChanged))
    else some (root.goto p .idle)
  | .truncate text caller, .next => some ({ root with fingerprint := some "" }.goto p (.writeText text caller))
  | .writeText text caller, .next => some ({ root with fingerprint := some text }.goto p caller.afterwards)
  -- `refresh_graphify`: `os.open` with `O_CREAT | O_EXCL`
  | .idle, .refreshGraphify timeout => match root.lock with
    | none => some ({ root with lock := some ⟨root.clock, some p⟩ }.goto p (.spawn .created))
    | some _ => some (root.goto p (.blocked timeout))
  | .blocked timeout, .next => some (root.goto p (.examine timeout root.clock))
  | .examine timeout now, .next => match root.lock with
    | none => some (root.goto p .idle)
    | some lock =>
      if now - lock.mtime > timeout + 30 then some (root.goto p .unlinkStale) else some (root.goto p .idle)
  | .unlinkStale, .next => some ({ root with lock := none }.goto p (.spawn .tookOver))
  | .unlinkStale, .fail => some (root.goto p .idle)
  | .spawn via, .next => some (root.goto p (.child via none false))
  | .spawn via, .fail => some (root.goto p (.release via))
  | .child via none _, .childReads => some (root.goto p (.child via (some ⟨root.tree, root.instant⟩) false))
  | .child via (some snapshot) false, .childWrites =>
    some ({ root with graph := some snapshot }.goto p (.child via (some snapshot) true))
  | .child via (some snapshot) true, .childExits .success => some (root.goto p (.unlinkDirty via (some snapshot)))
  | .child via _ _, .childExits .noKey => some (root.goto p (.unlinkDirty via none))
  | .child via _ _, .childExits .failure => some (root.goto p (.release via))
  -- the timeout of `subprocess.run`, which kills the child
  | .child via _ _, .fail => some (root.goto p (.release via))
  | .unlinkDirty via _, .next => some ({ root with dirty := false }.goto p (.fingerprint via))
  | .fingerprint via, .next => some (root.goto p (.status (git.revParse root.tree) (.refreshGraphify via)))
  | .fingerprint via, .fail => some (root.goto p (.release via))
  -- the `finally` clause
  | .release _, .next => some ({ root with lock := none }.goto p .idle)
  | _, _ => none

/-- What happens at an instant. -/
def Root.occur (git : Git Tree) (root : Root Pid Tree) : Event Pid Tree → Option (Root Pid Tree)
  | .edit tree => some { root with tree := tree }
  | .tick clock => some { root with clock := clock }
  | .act p action => root.act git p action

/-- One instant. -/
def Root.next (git : Git Tree) (root : Root Pid Tree) (event : Event Pid Tree) : Option (Root Pid Tree) :=
  (root.occur git event).map fun root => { root with instant := root.instant + 1 }

end

/-- No call is under way, and nobody has called `mark_dirty` so far.  A lock that is there is of a process that died. -/
structure Root.Start (root : Root Pid Tree) : Prop where
  idle : ∀ p, root.pcs p = .idle
  lock : ∀ lock, root.lock = some lock → lock.creator = none
  marked : root.marked = none

/-! ### What a step does -/

/-- What a step of a process does to the lock, and to its own place before or behind it. -/
inductive LockEffect (root : Root Pid Tree) (p : Pid) (root' : Root Pid Tree) : HookAction → Prop where
  | creates (timeout : Int) (hpc : root.pcs p = .idle) (hfree : root.lock = none)
      (hlock : root'.lock = some ⟨root.clock, some p⟩) (hvia : (root'.pcs p).via = some .created) :
      LockEffect root p root' (.refreshGraphify timeout)
  | takesOver (hpc : root.pcs p = .unlinkStale) (hlock : root'.lock = none)
      (hvia : (root'.pcs p).via = some .tookOver) : LockEffect root p root' .next
  | releases {action : HookAction} (hpast : (root.pcs p).via.isSome) (hlock : root'.lock = none)
      (hvia : (root'.pcs p).via = none) : LockEffect root p root' action
  | keeps {action : HookAction} (hlock : root'.lock = root.lock) (hvia : (root'.pcs p).via = (root.pcs p).via) :
      LockEffect root p root' action

/-- What a step of a process does to the dirty flag, the marks and the graph. -/
inductive MarkEffect (root : Root Pid Tree) (p : Pid) (root' : Root Pid Tree) : HookAction → Prop where
  | marks (hpc : root'.pcs p = .marking) (hdirty : root'.dirty = true) (hmarked : root'.marked = root.marked)
      (hgraph : root'.graph = root.graph) : MarkEffect root p root' .markDirty
  | completes (hpc : root.pcs p = .marking) (hpc' : root'.pcs p = .idle) (hdirty : root'.dirty = root.dirty)
      (hmarked : root'.marked = some root.instant) (hgraph : root'.graph = root.graph) :
      MarkEffect root p root' .next
  | reads (via : Via) (hpc' : root'.pcs p = .child via (some ⟨root.tree, root.instant⟩) false)
      (hdirty : root'.dirty = root.dirty) (hmarked : root'.marked = root.marked) (hgraph : root'.graph = root.graph) :
      MarkEffect root p root' .childReads
  | writes (via : Via) (snapshot : Snapshot Tree) (hpc : root.pcs p = .child via (some snapshot) false)
      (hpc' : root'.pcs p = .child via (some snapshot) true) (hdirty : root'.dirty = root.dirty)
      (hmarked : root'.marked = root.marked) (hgraph : root'.graph = some snapshot) :
      MarkEffect root p root' .childWrites
  | clears (via : Via) (built : Option (Snapshot Tree)) (hpc : root.pcs p = .unlinkDirty via built)
      (hpc' : root'.pcs p = .fingerprint via) (hdirty : root'.dirty = false) (hmarked : root'.marked = root.marked)
      (hgraph : root'.graph = root.graph) : MarkEffect root p root' .next
  | keeps {action : HookAction} (hdirty : root'.dirty = root.dirty) (hmarked : root'.marked = root.marked)
      (hgraph : root'.graph = root.graph) (hmarking : ¬ (root'.pcs p).IsMarking)
      (hsnapshot : ∀ snapshot, (root'.pcs p).snapshot = some snapshot → (root.pcs p).snapshot = some snapshot)
      (hbuilt : ∀ snapshot, (root'.pcs p).built = some snapshot → (root.pcs p).built = some snapshot) :
      MarkEffect root p root' action

section
variable [DecidableEq Pid] {git : Git Tree} {root root' : Root Pid Tree} {p q : Pid} {pc : HookPc Tree}
  {action : HookAction} {caller : Caller}

@[simp] theorem goto_pcs_self : (root.goto p pc).pcs p = pc := Function.update_self _ _ _

theorem goto_pcs_of_ne (h : q ≠ p) : (root.goto p pc).pcs q = root.pcs q := Function.update_of_ne h _ _

private theorem afterFingerprint_free (text : String) : ¬ (caller.afterFingerprint text : HookPc Tree).IsMarking ∧
    (caller.afterFingerprint text : HookPc Tree).snapshot = none ∧
    (caller.afterFingerprint text : HookPc Tree).built = none := by
  cases caller
  · exact ⟨id, rfl, rfl⟩
  · exact ⟨id, rfl, rfl⟩

private theorem afterwards_free : ¬ (caller.afterwards : HookPc Tree).IsMarking ∧
    (caller.afterwards : HookPc Tree).snapshot = none ∧ (caller.afterwards : HookPc Tree).built = none := by
  cases caller
  · exact ⟨id, rfl, rfl⟩
  · exact ⟨id, rfl, rfl⟩

/-- The other processes stay where they are. -/
theorem pcs_of_act (h : root.act git p action = some root') (hq : q ≠ p) : root'.pcs q = root.pcs q := by
  unfold Root.act at h
  split at h
  case h_6 =>
    split at h
    all_goals
      obtain rfl := Option.some.inj h
      exact goto_pcs_of_ne hq
  case h_9 =>
    split at h
    all_goals
      obtain rfl := Option.some.inj h
      exact goto_pcs_of_ne hq
  case h_11 =>
    split at h
    case h_1 =>
      obtain rfl := Option.some.inj h
      exact goto_pcs_of_ne hq
    case h_2 =>
      split at h
      all_goals
        obtain rfl := Option.some.inj h
        exact goto_pcs_of_ne hq
  case h_26 => cases h
  all_goals
    obtain rfl := Option.some.inj h
    exact goto_pcs_of_ne hq

/-- The lock is created by a call that finds none, unlinked by one that has found it stale, and unlinked by one that is
past it, whoever has created it. -/
theorem lock_of_act (h : root.act git p action = some root') : LockEffect root p root' action := by
  unfold Root.act at h
  split at h
  case h_4 head caller hpc | h_5 head caller hpc | h_7 text caller hpc | h_8 text caller hpc =>
    -- who computes a fingerprint stays before or behind the lock
    obtain rfl := Option.some.inj h
    exact .keeps rfl (by rw [goto_pcs_self, hpc]; cases caller <;> rfl)
  case h_6 hpc =>
    split at h
    all_goals
      obtain rfl := Option.some.inj h
      exact .keeps rfl (by rw [goto_pcs_self, hpc]; rfl)
  case h_9 timeout hpc =>
    split at h
    case h_1 hfree =>
      obtain rfl := Option.some.inj h
      exact .creates timeout hpc hfree rfl (by rw [goto_pcs_self]; rfl)
    case h_2 =>
      obtain rfl := Option.some.inj h
      exact .keeps rfl (by rw [goto_pcs_self, hpc]; rfl)
  case h_11 hpc =>
    split at h
    case h_1 =>
      obtain rfl := Option.some.inj h
      exact .keeps rfl (by rw [goto_pcs_self, hpc]; rfl)
    case h_2 =>
      split at h
      all_goals
        obtain rfl := Option.some.inj h
        exact .keeps rfl (by rw [goto_pcs_self, hpc]; rfl)
  case h_12 hpc =>
    obtain rfl := Option.some.inj h
    exact .takesOver hpc rfl (by rw [goto_pcs_self]; rfl)
  case h_25 via hpc =>
    obtain rfl := Option.some.inj h
    exact .releases (by rw [hpc]; rfl) rfl (by rw [goto_pcs_self]; rfl)
  case h_26 => cases h
  all_goals
    obtain rfl := Option.some.inj h
    exact .keeps rfl (by rw [goto_pcs_self, ‹root.pcs p = _›]; rfl)

/-- A call that finds no lock gets past it. -/
theorem act_refreshGraphify {timeout : Int} (h : root.act git p (.refreshGraphify timeout) = some root')
    (hfree : root.lock = none) : root.pcs p = .idle ∧ (root'.pcs p).via = some .created := by
  unfold Root.act at h
  cases hpc : root.pcs p with
  | idle =>
    simp only [hpc, hfree] at h
    obtain rfl := Option.some.inj h
    exact ⟨rfl, by rw [goto_pcs_self]; rfl⟩
  | _ =>
    rw [hpc] at h
    simp at h

/-- A call that has found a stale lock gets past it. -/
theorem act_unlinkStale (h : root.act git p .next = some root') (hpc : root.pcs p = .unlinkStale) :
    (root'.pcs p).via = some .tookOver := by
  unfold Root.act at h
  rw [hpc] at h
  obtain rfl := Option.some.inj h
  rw [goto_pcs_self]
  rfl

/-- A step of a process is an access, and an instant goes by. -/
theorem act_of_next (h : root.next git (.act p action) = some root') :
    ∃ mid, root.act git p action = some mid ∧ root' = { mid with instant := mid.instant + 1 } := by
  obtain ⟨mid, hmid, rfl⟩ := Option.map_eq_some_iff.1 h
  exact ⟨mid, hmid, rfl⟩

private theorem mark_keeps {base : Root Pid Tree} (hdirty : base.dirty = root.dirty)
    (hmarked : base.marked = root.marked) (hgraph : base.graph = root.graph)
    (hpc : ¬ pc.IsMarking ∧ pc.snapshot = none ∧ pc.built = none) : MarkEffect root p (base.goto p pc) action := by
  obtain ⟨hmarking, hsnapshot, hbuilt⟩ := hpc
  refine .keeps hdirty hmarked hgraph ?_ ?_ ?_
  · rw [goto_pcs_self]
    exact hmarking
  · rw [goto_pcs_self, hsnapshot]
    simp
  · rw [goto_pcs_self, hbuilt]
    simp

/-- The flag is created by `mark_dirty` and removed by a refresh; the graph is written by a child. -/
theorem mark_of_act (h : root.act git p action = some root') : MarkEffect root p root' action := by
  unfold Root.act at h
  split at h
  case h_1 hpc =>
    obtain rfl := Option.some.inj h
    exact .marks goto_pcs_self rfl rfl rfl
  case h_2 hpc =>
    obtain rfl := Option.some.inj h
    exact .completes hpc goto_pcs_self rfl rfl rfl
  case h_4 =>
    obtain rfl := Option.some.inj h
    exact mark_keeps rfl rfl rfl (afterFingerprint_free _)
  case h_5 | h_8 =>
    obtain rfl := Option.some.inj h
    exact mark_keeps rfl rfl rfl afterwards_free
  case h_6 =>
    split at h
    all_goals
      obtain rfl := Option.some.inj h
      exact mark_keeps rfl rfl rfl ⟨id, rfl, rfl⟩
  case h_9 =>
    split at h
    all_goals
      obtain rfl := Option.some.inj h
      exact mark_keeps rfl rfl rfl ⟨id, rfl, rfl⟩
  case h_11 =>
    split at h
    case h_1 =>
      obtain rfl := Option.some.inj h
      exact mark_keeps rfl rfl rfl ⟨id, rfl, rfl⟩
    case h_2 =>
      split at h
      all_goals
        obtain rfl := Option.some.inj h
        exact mark_keeps rfl rfl rfl ⟨id, rfl, rfl⟩
  case h_16 via written hpc =>
    obtain rfl := Option.some.inj h
    exact .reads via goto_pcs_self rfl rfl rfl
  case h_17 via snapshot hpc =>
    obtain rfl := Option.some.inj h
    exact .writes via snapshot hpc goto_pcs_self rfl rfl rfl
  case h_18 via snapshot hpc =>
    -- the child is gone, and what it has read and written is kept
    obtain rfl := Option.some.inj h
    refine .keeps rfl rfl rfl ?_ ?_ ?_
    · rw [goto_pcs_self]
      exact id
    · rw [goto_pcs_self, hpc]
      exact fun _ => id
    · rw [goto_pcs_self, hpc]
      exact fun _ => id
  case h_22 via built hpc =>
    obtain rfl := Option.some.inj h
    exact .clears via built hpc goto_pcs_self rfl rfl rfl
  case h_26 => cases h
  all_goals
    obtain rfl := Option.some.inj h
    exact mark_keeps rfl rfl rfl ⟨id, rfl, rfl⟩

end

end AgentOS.Hooks
