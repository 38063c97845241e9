import AgentOS.Identity.Ensure
import Mathlib.Tactic.Linarith

/-!
# A claimer that dies

A process that runs `_ensure_identity` dies at any point, and later another process calls `_ensure_identity`, alone and
after the stale threshold.  What the dead process can leave behind is a temporary file, a file at the path, and the lock
file of the fallback.  The temporary file concerns nobody, and a corrupt file at the path is reclaimed; the lock file is
never removed, so without hard links it keeps every later call from claiming the path (`later_call_succeeds_iff`).
-/

namespace AgentOS

variable {Pid Ident : Type} [DecidableEq Pid] {model : IdentityModel Ident}

/-! ### The rest of a call -/

/-- The process is on its way to a claim. -/
def EnsurePc.Claiming : EnsurePc Ident → Prop
  | .fastPath => True
  | .read _ => True
  | .mkstemp _ => True
  | .write _ _ => True
  | .link _ => True
  | .openLock _ => True
  | .pathExists _ => True
  | .replace _ => True
  | _ => False

/-- The process is on its way to a reclaim, which it may still make. -/
def EnsurePc.Reclaiming : EnsurePc Ident → Prop
  | .fastPath => True
  | .read loop => 0 < loop.reclaimsLeft
  | .mkstemp loop => 0 < loop.reclaimsLeft
  | .write loop _ => 0 < loop.reclaimsLeft
  | .link loop => 0 < loop.reclaimsLeft
  | .openLock loop => 0 < loop.reclaimsLeft
  | .pathExists loop => 0 < loop.reclaimsLeft
  | .unlinkLock loop claimed => 0 < loop.reclaimsLeft ∧ claimed = some false
  | .unlinkTmp loop claimed => 0 < loop.reclaimsLeft ∧ claimed = some false
  | .reread loop => 0 < loop.reclaimsLeft
  | .stat loop => 0 < loop.reclaimsLeft
  | .reclaim _ => True
  | _ => False

/-- The process has claimed the path. -/
def EnsurePc.claimed : EnsurePc Ident → Bool
  | .unlinkLock _ claimed => claimed = some true
  | .unlinkTmp _ claimed => claimed = some true
  | _ => false

/-- How many steps at most a process needs to return, where it can claim the path; `size` is the length of its
payload. -/
def EnsurePc.toClaim (size : Nat) : EnsurePc Ident → Nat
  | .fastPath => 10 + size
  | .read _ => 9 + size
  | .mkstemp _ => 8 + size
  | .write _ total => 7 + (size - total)
  | .link _ => 6
  | .openLock _ => 5
  | .pathExists _ => 4
  | .replace _ => 3
  | .unlinkLock _ _ => 2
  | .unlinkTmp _ _ => 1
  | _ => 0

/-- How many steps at most it needs to reclaim the path. -/
def EnsurePc.toReclaim (size : Nat) : EnsurePc Ident → Nat
  | .fastPath => 12 + size
  | .read _ => 11 + size
  | .mkstemp _ => 10 + size
  | .write _ total => 9 + (size - total)
  | .link _ => 8
  | .openLock _ => 7
  | .pathExists _ => 6
  | .unlinkLock _ _ => 5
  | .unlinkTmp _ _ => 4
  | .reread _ => 3
  | .stat _ => 2
  | .reclaim _ => 1
  | _ => 0

/-- How many steps at most the process needs to return. -/
def stepsLeft (size : Nat) (dir : Dir Pid) (pc : EnsurePc Ident) : Nat :=
  if dir.final = none ∨ pc.claimed then pc.toClaim size else pc.toReclaim size + (10 + size)

variable {identity : Ident} {p : Pid} {tick : Tick} {left : Option File} {dir : Dir Pid} {pc : EnsurePc Ident}

/-- A process that goes on alone and will return: it finds what it relies on, nobody else is in the lock, and it claims
the path, or reclaims the file `left` there first, or has claimed it. -/
structure Succeeds (model : IdentityModel Ident) (identity : Ident) (p : Pid) (left : Option File) (dir : Dir Pid)
    (pc : EnsurePc Ident) : Prop where
  relies : pc.Relies model identity dir p
  lock : dir.hardLinks = false → dir.lock = true → pc.InLock
  phase : (dir.final = none ∧ pc.Claiming) ∨
    (dir.final = left ∧ left.isSome ∧ tryRead model left = some none ∧ pc.Reclaiming) ∨
    (dir.Holds model identity ∧ pc.claimed = true)

/-- What a step does to a process that will return. -/
def Advances (model : IdentityModel Ident) (identity : Ident) (p : Pid) (left : Option File) (size : Nat)
    (next : Dir Pid × EnsurePc Ident) : Prop :=
  (next.2 = .returned identity ∧ next.1.Holds model identity) ∨
    (Succeeds model identity p left next.1 next.2 ∧ stepsLeft (payload model identity).length next.1 next.2 < size)

private theorem afterRead_none {file : Option File} (hread : tryRead model file = some none) {fault : Bool}
    (hfault : fault = false) (absent : EnsurePc Ident) :
    EnsurePc.afterRead (if fault then none else tryRead model file) absent = absent := by
  rw [hfault, if_neg Bool.false_ne_true, hread]
  rfl

omit [DecidableEq Pid] in
theorem stepsLeft_claimed {size : Nat} (h : pc.claimed = true) : stepsLeft size dir pc = pc.toClaim size :=
  if_pos (Or.inr h)

/-- `os.write` takes at least one byte. -/
private theorem step_write (p : Pid) (dir : Dir Pid) (loop : Loop) {total : Nat}
    (hmore : total < (payload model identity).length)
    (hfault : tick.fault = false) : ∃ total', total < total' ∧
      ensureStep model identity p tick dir (.write loop total) =
      (dir.setTemp p (some ⟨(payload model identity).take total', tick.time⟩), .write loop total') := by
  refine ⟨total + max 1 (min tick.written ((payload model identity).length - total)), by omega, ?_⟩
  rw [ensureStep, hfault, if_neg Bool.false_ne_true, if_pos hmore]

/-- The path is free: the process goes on to its claim. -/
private theorem Succeeds.claim (h : Succeeds model identity p left dir pc) (hfinal : dir.final = none)
    (hpc : pc.Claiming) (hfault : tick.fault = false) :
    Advances model identity p left (stepsLeft (payload model identity).length dir pc)
      (ensureStep model identity p tick dir pc) := by
  have hrelies := h.relies.step tick
  have hread : tryRead model dir.final = some none := by rw [hfinal]; rfl
  have hsteps : stepsLeft (payload model identity).length dir pc = pc.toClaim (payload model identity).length :=
    if_pos (Or.inl hfinal)
  have hnext : ∀ dir' : Dir Pid, ∀ pc' : EnsurePc Ident, ensureStep model identity p tick dir pc = (dir', pc') →
      dir'.final = none → (dir'.hardLinks = false → dir'.lock = true → pc'.InLock) → pc'.Claiming →
      pc'.toClaim (payload model identity).length < pc.toClaim (payload model identity).length →
      Advances model identity p left (stepsLeft (payload model identity).length dir pc)
        (ensureStep model identity p tick dir pc) := by
    intro dir' pc' hstep hfinal' hlock' hpc' hlt
    rw [hstep] at hrelies ⊢
    refine Or.inr ⟨⟨hrelies, hlock', Or.inl ⟨hfinal', hpc'⟩⟩, ?_⟩
    rw [hsteps, stepsLeft, if_pos (Or.inl hfinal')]
    exact hlt
  cases pc with
  | fastPath =>
    refine hnext dir (.read ⟨maxReclaims, tick.monotonic + claimBudget⟩) ?_ hfinal h.lock trivial ?_
    · rw [ensureStep, afterRead_none hread hfault]
    · simp only [EnsurePc.toClaim]
      omega
  | read loop =>
    refine hnext dir (.mkstemp loop) ?_ hfinal h.lock trivial ?_
    · rw [ensureStep, afterRead_none hread hfault]
    · simp only [EnsurePc.toClaim]
      omega
  | mkstemp loop =>
    refine hnext (dir.setTemp p (some ⟨[], tick.time⟩)) (.write loop 0) ?_ hfinal h.lock trivial ?_
    · rw [ensureStep, hfault, if_neg Bool.false_ne_true]
    · simp only [EnsurePc.toClaim]
      omega
  | write loop total =>
    by_cases hmore : total < (payload model identity).length
    · obtain ⟨total', hlt, hstep⟩ := step_write p dir loop hmore hfault
      refine hnext _ (.write loop total') hstep hfinal h.lock trivial ?_
      simp only [EnsurePc.toClaim]
      omega
    · refine hnext dir (.link loop) ?_ hfinal h.lock trivial ?_
      · rw [ensureStep, hfault, if_neg Bool.false_ne_true, if_neg hmore]
      · simp only [EnsurePc.toClaim]
        omega
  | link loop =>
    obtain ⟨mtime, htemp⟩ := h.relies
    cases hlinks : dir.hardLinks with
    | false =>
      refine hnext dir (.openLock loop) ?_ hfinal h.lock trivial ?_
      · simp only [ensureStep, hlinks, Bool.false_eq_true, if_false]
      · simp only [EnsurePc.toClaim]
        omega
    | true =>
      have hstep : ensureStep model identity p tick dir (.link loop) =
          ({ dir with final := some ⟨payload model identity, mtime⟩ }, .unlinkTmp loop (some true)) := by
        simp only [ensureStep, hlinks, if_true, htemp, hfinal, Option.isSome_none, Bool.false_eq_true, if_false]
      rw [hstep] at hrelies ⊢
      refine Or.inr ⟨⟨hrelies, fun hno => ?_, Or.inr (Or.inr ⟨tryRead_payload identity mtime, rfl⟩)⟩, ?_⟩
      · cases hlinks.symm.trans hno
      · rw [hsteps, stepsLeft_claimed rfl]
        simp only [EnsurePc.toClaim]
        omega
  | openLock loop =>
    have hfree : dir.lock = false := by
      cases hheld : dir.lock with
      | false => rfl
      | true => exact (h.lock h.relies.2 hheld).elim
    refine hnext { dir with lock := true } (.pathExists loop) ?_ hfinal (fun _ _ => trivial) trivial ?_
    · rw [ensureStep, hfault, if_neg Bool.false_ne_true, hfree, if_neg Bool.false_ne_true]
    · simp only [EnsurePc.toClaim]
      omega
  | pathExists loop =>
    refine hnext dir (.replace loop) ?_ hfinal (fun _ _ => trivial) trivial ?_
    · rw [ensureStep, hfault, if_neg Bool.false_ne_true, hfinal, Option.isSome_none, if_neg Bool.false_ne_true]
    · simp only [EnsurePc.toClaim]
      omega
  | replace loop =>
    obtain ⟨⟨mtime, htemp⟩, -⟩ := h.relies
    have hstep : ensureStep model identity p tick dir (.replace loop) =
        ({ dir.setTemp p none with final := some ⟨payload model identity, mtime⟩ }, .unlinkLock loop (some true)) := by
      simp only [ensureStep, hfault, Bool.false_eq_true, if_false, htemp]
    rw [hstep] at hrelies ⊢
    refine Or.inr ⟨⟨hrelies, fun _ _ => trivial, Or.inr (Or.inr ⟨tryRead_payload identity mtime, rfl⟩)⟩, ?_⟩
    rw [hsteps, stepsLeft_claimed rfl]
    simp only [EnsurePc.toClaim]
    omega
  | _ => exact hpc.elim

/-- The path is claimed: the process cleans up and returns. -/
private theorem Succeeds.cleanUp (h : Succeeds model identity p left dir pc) (hholds : dir.Holds model identity)
    (hpc : pc.claimed = true) (hfault : tick.fault = false) :
    Advances model identity p left (stepsLeft (payload model identity).length dir pc)
      (ensureStep model identity p tick dir pc) := by
  have hrelies := h.relies.step tick
  have hsteps : stepsLeft (payload model identity).length dir pc = pc.toClaim (payload model identity).length :=
    if_pos (Or.inr hpc)
  cases pc with
  | unlinkLock loop claimed =>
    obtain rfl : claimed = some true := of_decide_eq_true hpc
    have hstep : ensureStep model identity p tick dir (.unlinkLock loop (some true)) =
        ({ dir with lock := false }, .unlinkTmp loop (some true)) := by
      rw [ensureStep, hfault, if_neg Bool.false_ne_true]
    rw [hstep] at hrelies ⊢
    refine Or.inr ⟨⟨hrelies, fun _ => by simp, Or.inr (Or.inr ⟨hholds, rfl⟩)⟩, ?_⟩
    rw [hsteps, stepsLeft_claimed rfl]
    simp only [EnsurePc.toClaim]
    omega
  | unlinkTmp loop claimed =>
    obtain rfl : claimed = some true := of_decide_eq_true hpc
    rw [ensureStep, hfault, if_neg Bool.false_ne_true]
    exact Or.inl ⟨rfl, hholds⟩
  | _ => cases hpc

/-- The file at the path is corrupt and stale: the process goes on to reclaim it. -/
private theorem Succeeds.reclaims (h : Succeeds model identity p left dir pc) {file : File} (hleft : dir.final = left)
    (hfinal : dir.final = some file) (hread : tryRead model dir.final = some none) (hpc : pc.Reclaiming)
    (hfault : tick.fault = false) (hstale : staleSeconds < tick.time - file.mtime) :
    Advances model identity p left (stepsLeft (payload model identity).length dir pc)
      (ensureStep model identity p tick dir pc) := by
  have hrelies := h.relies.step tick
  have hnone : dir.final ≠ none := by rw [hfinal]; simp
  have hunclaimed : ∀ pc' : EnsurePc Ident, pc'.Reclaiming → ¬ pc'.claimed = true := by
    intro pc' hpc' hclaimed
    cases pc' with
    | unlinkLock loop claimed =>
      obtain rfl : claimed = some true := of_decide_eq_true hclaimed
      cases hpc'.2
    | unlinkTmp loop claimed =>
      obtain rfl : claimed = some true := of_decide_eq_true hclaimed
      cases hpc'.2
    | _ => cases hclaimed
  have hsteps : stepsLeft (payload model identity).length dir pc =
      pc.toReclaim (payload model identity).length + (10 + (payload model identity).length) :=
    if_neg (not_or.2 ⟨hnone, hunclaimed pc hpc⟩)
  have hnext : ∀ dir' : Dir Pid, ∀ pc' : EnsurePc Ident, ensureStep model identity p tick dir pc = (dir', pc') →
      dir'.final = dir.final → (dir'.hardLinks = false → dir'.lock = true → pc'.InLock) → pc'.Reclaiming →
      pc'.toReclaim (payload model identity).length < pc.toReclaim (payload model identity).length →
      Advances model identity p left (stepsLeft (payload model identity).length dir pc)
        (ensureStep model identity p tick dir pc) := by
    intro dir' pc' hstep hfinal' hlock' hpc' hlt
    rw [hstep] at hrelies ⊢
    refine Or.inr ⟨⟨hrelies, hlock', Or.inr (Or.inl ⟨hfinal'.trans hleft, ?_, ?_, hpc'⟩)⟩, ?_⟩
    · rw [← hleft, hfinal]
      rfl
    · rw [← hleft]
      exact hread
    · rw [hsteps, stepsLeft, if_neg (not_or.2 ⟨by rwa [hfinal'], hunclaimed pc' hpc'⟩)]
      exact Nat.add_lt_add_right hlt _
  cases pc with
  | fastPath =>
    refine hnext dir (.read ⟨maxReclaims, tick.monotonic + claimBudget⟩) ?_ rfl h.lock
      (show 0 < maxReclaims by decide) ?_
    · rw [ensureStep, afterRead_none hread hfault]
    · simp only [EnsurePc.toReclaim]
      omega
  | read loop =>
    refine hnext dir (.mkstemp loop) ?_ rfl h.lock hpc ?_
    · rw [ensureStep, afterRead_none hread hfault]
    · simp only [EnsurePc.toReclaim]
      omega
  | mkstemp loop =>
    refine hnext (dir.setTemp p (some ⟨[], tick.time⟩)) (.write loop 0) ?_ rfl h.lock hpc ?_
    · rw [ensureStep, hfault, if_neg Bool.false_ne_true]
    · simp only [EnsurePc.toReclaim]
      omega
  | write loop total =>
    by_cases hmore : total < (payload model identity).length
    · obtain ⟨total', hlt, hstep⟩ := step_write p dir loop hmore hfault
      refine hnext _ (.write loop total') hstep rfl h.lock hpc ?_
      simp only [EnsurePc.toReclaim]
      omega
    · refine hnext dir (.link loop) ?_ rfl h.lock hpc ?_
      · rw [ensureStep, hfault, if_neg Bool.false_ne_true, if_neg hmore]
      · simp only [EnsurePc.toReclaim]
        omega
  | link loop =>
    obtain ⟨mtime, htemp⟩ := h.relies
    cases hlinks : dir.hardLinks with
    | false =>
      refine hnext dir (.openLock loop) ?_ rfl h.lock hpc ?_
      · simp only [ensureStep, hlinks, Bool.false_eq_true, if_false]
      · simp only [EnsurePc.toReclaim]
        omega
    | true =>
      refine hnext dir (.unlinkTmp loop (some false)) ?_ rfl (fun hno => ?_) ⟨hpc, rfl⟩ ?_
      · simp only [ensureStep, hlinks, if_true, htemp, hfinal, Option.isSome_some]
      · cases hlinks.symm.trans hno
      · simp only [EnsurePc.toReclaim]
        omega
  | openLock loop =>
    have hfree : dir.lock = false := by
      cases hheld : dir.lock with
      | false => rfl
      | true => exact (h.lock h.relies.2 hheld).elim
    refine hnext { dir with lock := true } (.pathExists loop) ?_ rfl (fun _ _ => trivial) hpc ?_
    · rw [ensureStep, hfault, if_neg Bool.false_ne_true, hfree, if_neg Bool.false_ne_true]
    · simp only [EnsurePc.toReclaim]
      omega
  | pathExists loop =>
    refine hnext dir (.unlinkLock loop (some false)) ?_ rfl (fun _ _ => trivial) ⟨hpc, rfl⟩ ?_
    · rw [ensureStep, hfault, if_neg Bool.false_ne_true, hfinal, Option.isSome_some, if_pos rfl]
    · simp only [EnsurePc.toReclaim]
      omega
  | unlinkLock loop claimed =>
    refine hnext { dir with lock := false } (.unlinkTmp loop claimed) ?_ rfl (fun _ => by simp) hpc ?_
    · rw [ensureStep, hfault, if_neg Bool.false_ne_true]
    · simp only [EnsurePc.toReclaim]
      omega
  | unlinkTmp loop claimed =>
    obtain ⟨hleft, rfl⟩ := hpc
    refine hnext (dir.setTemp p none) (.reread loop) ?_ rfl h.lock hleft ?_
    · rw [ensureStep, hfault, if_neg Bool.false_ne_true]
    · simp only [EnsurePc.toReclaim]
      omega
  | reread loop =>
    refine hnext dir (.stat loop) ?_ rfl h.lock hpc ?_
    · rw [ensureStep, afterRead_none hread hfault]
    · simp only [EnsurePc.toReclaim]
      omega
  | stat loop =>
    refine hnext dir (.reclaim { loop with reclaimsLeft := loop.reclaimsLeft - 1 }) ?_ rfl h.lock trivial ?_
    · have hleft : ¬ loop.reclaimsLeft = 0 := Nat.pos_iff_ne_zero.1 hpc
      simp only [ensureStep, hfault, Bool.false_eq_true, if_false, hfinal, if_pos hstale, if_neg hleft]
    · simp only [EnsurePc.toReclaim]
      omega
  | reclaim loop =>
    have hstep : ensureStep model identity p tick dir (.reclaim loop) = ({ dir with final := none }, .read loop) := by
      rw [ensureStep, hfault, if_neg Bool.false_ne_true]
    rw [hstep] at hrelies ⊢
    refine Or.inr ⟨⟨hrelies, h.lock, Or.inl ⟨rfl, trivial⟩⟩, ?_⟩
    rw [hsteps, stepsLeft, if_pos (Or.inl rfl)]
    simp only [EnsurePc.toClaim, EnsurePc.toReclaim]
    omega
  | _ => exact hpc.elim

/-- One step of a process that will return. -/
theorem Succeeds.step (h : Succeeds model identity p left dir pc) (hfault : tick.fault = false)
    (hstale : ∀ file, left = some file → staleSeconds < tick.time - file.mtime) :
    Advances model identity p left (stepsLeft (payload model identity).length dir pc)
      (ensureStep model identity p tick dir pc) := by
  rcases h.phase with ⟨hfinal, hpc⟩ | ⟨hfinal, hsome, hread, hpc⟩ | ⟨hholds, hpc⟩
  · exact h.claim hfinal hpc hfault
  · obtain ⟨file, hfile⟩ := Option.isSome_iff_exists.1 hsome
    exact h.reclaims hfinal (hfinal.trans hfile) (hfinal ▸ hread) hpc hfault (hstale file hfile)
  · exact h.cleanUp hholds hpc hfault

/-! ### A lock file that is left behind -/

/-- The process has neither taken the lock nor claimed the path nor returned. -/
def EnsurePc.Outside : EnsurePc Ident → Prop
  | .pathExists _ => False
  | .replace _ => False
  | .unlinkLock _ _ => False
  | .unlinkTmp _ claimed => claimed ≠ some true
  | .returned _ => False
  | _ => True

/-- The lock file keeps the process out, and no identity is at the path. -/
structure Bricked (model : IdentityModel Ident) (dir : Dir Pid) (pc : EnsurePc Ident) : Prop where
  hardLinks : dir.hardLinks = false
  lock : dir.lock = true
  none_holds : ∀ i, ¬ dir.Holds model i
  outside : pc.Outside

omit [DecidableEq Pid] in
private theorem outside_afterRead (h : ∀ i, ¬ dir.Holds model i) {fault : Bool} {absent : EnsurePc Ident}
    (habsent : absent.Outside) :
    (EnsurePc.afterRead (if fault then none else tryRead model dir.final) absent).Outside := by
  cases fault with
  | true => trivial
  | false =>
    rw [if_neg Bool.false_ne_true]
    cases hread : tryRead model dir.final with
    | none => trivial
    | some result =>
      cases result with
      | none => exact habsent
      | some i => exact absurd hread (h i)

/-- The process stays out, whatever the clocks say. -/
theorem Bricked.step (h : Bricked model dir pc) :
    Bricked model (ensureStep model identity p tick dir pc).1 (ensureStep model identity p tick dir pc).2 := by
  obtain ⟨hlinks, hlock, hnone, hpc⟩ := h
  cases pc with
  | fastPath => exact ⟨hlinks, hlock, hnone, outside_afterRead hnone trivial⟩
  | read loop => exact ⟨hlinks, hlock, hnone, outside_afterRead hnone trivial⟩
  | reread loop => exact ⟨hlinks, hlock, hnone, outside_afterRead hnone trivial⟩
  | mkstemp loop =>
    rw [ensureStep]
    split
    · exact ⟨hlinks, hlock, hnone, trivial⟩
    · exact ⟨hlinks, hlock, hnone, trivial⟩
  | write loop total =>
    rw [ensureStep]
    split
    · exact ⟨hlinks, hlock, hnone, trivial⟩
    · split
      · exact ⟨hlinks, hlock, hnone, trivial⟩
      · exact ⟨hlinks, hlock, hnone, trivial⟩
  | link loop =>
    rw [ensureStep, hlinks, if_neg Bool.false_ne_true]
    exact ⟨hlinks, hlock, hnone, trivial⟩
  | openLock loop =>
    rw [ensureStep, if_pos hlock]
    split
    · exact ⟨hlinks, hlock, hnone, by simp [EnsurePc.Outside]⟩
    · exact ⟨hlinks, hlock, hnone, by simp [EnsurePc.Outside]⟩
  | unlinkTmp loop claimed =>
    have hdir : ∀ pc' : EnsurePc Ident, pc'.Outside →
        Bricked model (if tick.fault then dir else dir.setTemp p none) pc' := by
      intro pc' hpc'
      split
      · exact ⟨hlinks, hlock, hnone, hpc'⟩
      · exact ⟨hlinks, hlock, hnone, hpc'⟩
    rcases claimed with _ | _ | _
    · exact hdir _ trivial
    · exact hdir _ trivial
    · exact absurd rfl hpc
  | stat loop =>
    rw [ensureStep]
    split
    · exact ⟨hlinks, hlock, hnone, trivial⟩
    · split
      · split
        · exact ⟨hlinks, hlock, hnone, trivial⟩
        · exact ⟨hlinks, hlock, hnone, trivial⟩
      · exact ⟨hlinks, hlock, hnone, trivial⟩
  | reclaim loop =>
    rw [ensureStep]
    dsimp only
    split
    · exact ⟨hlinks, hlock, hnone, trivial⟩
    · exact ⟨hlinks, hlock, by simp [Dir.Holds, tryRead], trivial⟩
  | wait loop =>
    rw [ensureStep]
    dsimp only
    split
    · exact ⟨hlinks, hlock, hnone, trivial⟩
    · exact ⟨hlinks, hlock, hnone, trivial⟩
  | raised => exact ⟨hlinks, hlock, hnone, trivial⟩
  | _ => exact hpc.elim

/-! ### The later call -/

variable {candidate : Pid → Ident} {s s' : Claimers Pid Ident} {q : Pid}

/-- A step of `q`, none of whose accesses fails, when the file left at the path is stale. -/
def LaterStep (dir : Dir Pid) (q : Pid) (action : Pid × Tick) : Prop :=
  action.1 = q ∧ action.2.fault = false ∧
    ∀ file, dir.final = some file → staleSeconds < action.2.time - file.mtime

/-- The call returns an identity and leaves it at the path. -/
def Claimers.Returned (model : IdentityModel Ident) (q : Pid) (s : Claimers Pid Ident) : Prop :=
  ∃ identity, s.pcs q = .returned identity ∧ s.dir.Holds model identity

/-- A call by `q` that is alone returns after finitely many steps. -/
def Claimers.Recovers (model : IdentityModel Ident) (candidate : Pid → Ident) (q : Pid) (s : Claimers Pid Ident) :
    Prop :=
  ∃ n, ∀ later s', (∀ action ∈ later, LaterStep s.dir q action) → n ≤ later.length →
    Run.exec (Claimers.next model candidate) s later = some s' → s'.Returned model q

/-- A step of `q`. -/
private theorem next_self {tick : Tick} (hnext : s.next model candidate (q, tick) = some s') :
    s'.dir = (ensureStep model (candidate q) q tick s.dir (s.pcs q)).1 ∧
      s'.pcs q = (ensureStep model (candidate q) q tick s.dir (s.pcs q)).2 := by
  obtain rfl := Option.some.inj hnext
  exact ⟨rfl, Function.update_self _ _ _⟩

theorem Claimers.Returned.next {action : Pid × Tick} (h : s.Returned model q) (hq : action.1 = q)
    (hnext : s.next model candidate action = some s') : s'.Returned model q := by
  obtain ⟨_, tick⟩ := action
  obtain rfl := hq
  obtain ⟨identity, hpc, hholds⟩ := h
  obtain ⟨hdir, hpc'⟩ := next_self hnext
  rw [hpc] at hdir hpc'
  exact ⟨identity, hpc', hdir ▸ hholds⟩

/-- A valid file at the path is returned at once. -/
private theorem recovers_of_holds (hpc : s.pcs q = .fastPath) {identity : Ident} (hholds : s.dir.Holds model identity) :
    s.Recovers model candidate q := by
  refine ⟨1, fun later s' hlater hlong hrun => ?_⟩
  refine Run.reaches_of_rank (r := fun _ => 0) (J := fun t => t = s) ?_ (fun _ _ _ h ha hnext => h.next ha.1 hnext)
    rfl (Run.meets_of_forall s hlater) hlong hrun
  rintro _ ⟨_, tick⟩ t rfl ⟨rfl, hfault, -⟩ hnext
  obtain ⟨hdir, hpc'⟩ := next_self hnext
  rw [hpc, ensureStep, hfault, if_neg Bool.false_ne_true, hholds] at hdir hpc'
  exact Or.inl ⟨identity, hpc', hdir ▸ hholds⟩

/-- Where no identity is at the path and the lock is free, the call claims the path. -/
private theorem recovers_of_free (hpc : s.pcs q = .fastPath) (hread : tryRead model s.dir.final = some none)
    (hfree : s.dir.hardLinks = false → s.dir.lock = false) : s.Recovers model candidate q := by
  have hstart : Succeeds model (candidate q) q s.dir.final s.dir (s.pcs q) := by
    rw [hpc]
    refine ⟨trivial, fun hlinks hlock => ?_, ?_⟩
    · rw [hfree hlinks] at hlock
      cases hlock
    · cases hfinal : s.dir.final with
      | none => exact Or.inl ⟨rfl, trivial⟩
      | some file => exact Or.inr (Or.inl ⟨rfl, rfl, hfinal ▸ hread, trivial⟩)
  refine ⟨stepsLeft (payload model (candidate q)).length s.dir (s.pcs q) + 1, fun later s' hlater hlong hrun => ?_⟩
  refine Run.reaches_of_rank
    (r := fun t : Claimers Pid Ident => stepsLeft (payload model (candidate q)).length t.dir (t.pcs q))
    (J := fun t : Claimers Pid Ident => Succeeds model (candidate q) q s.dir.final t.dir (t.pcs q)) ?_
    (fun _ _ _ h ha hnext => h.next ha.1 hnext) hstart (Run.meets_of_forall s hlater) hlong hrun
  rintro t ⟨_, tick⟩ t' ht ⟨rfl, hfault, hstale⟩ hnext
  obtain ⟨hdir, hpc'⟩ := next_self hnext
  rcases ht.step hfault hstale with ⟨hreturned, hholds⟩ | ⟨hsucceeds, hlt⟩
  · exact Or.inl ⟨_, hpc'.trans hreturned, hdir ▸ hholds⟩
  · rw [← hdir, ← hpc'] at hsucceeds hlt
    exact Or.inr ⟨hsucceeds, hlt⟩

/-- A run of steps of `q` alone. -/
private theorem exists_later (model : IdentityModel Ident) (candidate : Pid → Ident) (q : Pid)
    (s : Claimers Pid Ident) (n : Nat) : ∃ later s',
    (∀ action ∈ later, LaterStep s.dir q action) ∧ n ≤ later.length ∧
      Run.exec (Claimers.next model candidate) s later = some s' := by
  let time : ℚ := (s.dir.final.map (·.mtime)).getD 0 + staleSeconds + 1
  have hnext : ∀ t action, ∃ t', Claimers.next model candidate t action = some t' := fun _ _ => ⟨_, rfl⟩
  obtain ⟨s', hrun⟩ := Run.exists_exec hnext s (List.replicate n (q, ⟨time, 0, 0, false⟩))
  refine ⟨_, s', fun action haction => ?_, List.length_replicate.ge, hrun⟩
  obtain rfl := List.eq_of_mem_replicate haction
  refine ⟨rfl, rfl, fun file hfile => ?_⟩
  change staleSeconds < (s.dir.final.map (·.mtime)).getD 0 + staleSeconds + 1 - file.mtime
  rw [hfile, Option.map_some, Option.getD_some]
  linarith

/-- A file that is no UTF-8 text makes every call raise. -/
private theorem not_recovers_of_undecodable (hpc : s.pcs q = .fastPath) (hread : tryRead model s.dir.final = none) :
    ¬ s.Recovers model candidate q := by
  rintro ⟨n, h⟩
  obtain ⟨later, s', hlater, hlong, hrun⟩ := exists_later model candidate q s n
  obtain ⟨identity, hreturned, -⟩ := h later s' hlater hlong hrun
  have hraised : tryRead model s'.dir.final = none ∧ (s'.pcs q = .fastPath ∨ s'.pcs q = .raised) := by
    refine Run.invariant_of_meets (I := fun t => tryRead model t.dir.final = none ∧
      (t.pcs q = .fastPath ∨ t.pcs q = .raised)) ?_ ⟨hread, Or.inl hpc⟩ (Run.meets_of_forall s hlater) hrun
    rintro t ⟨_, tick⟩ t' ⟨hnone, ht⟩ ⟨rfl, hfault, -⟩ hnext
    obtain ⟨hdir, hpc'⟩ := next_self hnext
    rcases ht with ht | ht
    · rw [ht, ensureStep, hfault, if_neg Bool.false_ne_true, hnone] at hdir hpc'
      exact ⟨hdir ▸ hnone, Or.inr hpc'⟩
    · rw [ht] at hdir hpc'
      exact ⟨hdir ▸ hnone, Or.inr hpc'⟩
  rcases hraised.2 with hpc' | hpc'
  · cases hpc'.symm.trans hreturned
  · cases hpc'.symm.trans hreturned

/-- A lock file without an identity keeps every call from returning. -/
private theorem not_recovers_of_locked (hpc : s.pcs q = .fastPath) (hlinks : s.dir.hardLinks = false)
    (hlock : s.dir.lock = true) (hnone : ∀ i, ¬ s.dir.Holds model i) : ¬ s.Recovers model candidate q := by
  rintro ⟨n, h⟩
  obtain ⟨later, s', hlater, hlong, hrun⟩ := exists_later model candidate q s n
  obtain ⟨identity, hreturned, -⟩ := h later s' hlater hlong hrun
  have hbricked : Bricked model s'.dir (s'.pcs q) := by
    refine Run.invariant_of_meets (I := fun t => Bricked model t.dir (t.pcs q)) ?_ ⟨hlinks, hlock, hnone, ?_⟩
      (Run.meets_of_forall s hlater) hrun
    · rintro t ⟨_, tick⟩ t' ht ⟨rfl, -⟩ hnext
      obtain ⟨hdir, hpc'⟩ := next_self hnext
      rw [hdir, hpc']
      exact ht.step
    · rw [hpc]
      trivial
  have houtside := hbricked.outside
  rw [hreturned] at houtside
  exact houtside

/-- A process that has not been scheduled is where it was. -/
private theorem pcs_of_others {p : Pid} (hqp : q ≠ p) {actions : List (Pid × Tick)}
    (hp : ∀ action ∈ actions, action.1 = p)
    (hrun : Run.exec (Claimers.next model candidate) s actions = some s') : s'.pcs q = s.pcs q := by
  refine Run.invariant_of_meets (I := fun t => t.pcs q = s.pcs q) ?_ rfl (Run.meets_of_forall s hp) hrun
  rintro t action t' ht rfl hnext
  obtain rfl := Option.some.inj hnext
  exact (Function.update_of_ne hqp _ _).trans ht

/-- **What a dead claimer leaves.**  Process `p` runs `_ensure_identity` alone and dies at any point.  A later call by
`q`, alone and after the stale threshold, returns an identity and leaves it at the path just in case the file at the
path is text, if there is one, and no lock file keeps `q` out where there are no hard links and no identity is at the
path. -/
theorem later_call_succeeds_iff {p : Pid} (hqp : q ≠ p) (hstart : s.Start) {actions : List (Pid × Tick)}
    (hp : ∀ action ∈ actions, action.1 = p) (hdied : Run.exec (Claimers.next model candidate) s actions = some s') :
    s'.Recovers model candidate q ↔ (tryRead model s'.dir.final).isSome ∧
      (s'.dir.hardLinks = false → s'.dir.lock = true → ∃ identity, s'.dir.Holds model identity) := by
  have hpc : s'.pcs q = .fastPath := (pcs_of_others hqp hp hdied).trans (hstart q)
  constructor
  · intro hrecovers
    refine ⟨?_, fun hlinks hlock => ?_⟩
    · by_contra hread
      exact not_recovers_of_undecodable hpc (Option.not_isSome_iff_eq_none.1 hread) hrecovers
    · by_contra hnone
      exact not_recovers_of_locked hpc hlinks hlock (not_exists.1 hnone) hrecovers
  · rintro ⟨hread, hfree⟩
    obtain ⟨result, hread⟩ := Option.isSome_iff_exists.1 hread
    cases result with
    | some identity => exact recovers_of_holds hpc hread
    | none =>
      refine recovers_of_free hpc hread fun hlinks => ?_
      by_contra hlock
      obtain ⟨identity, hholds⟩ := hfree hlinks (by simpa using hlock)
      cases hread.symm.trans hholds

/-! ### The points at which the lock is left behind -/

/-- Without failing accesses, the lock file is there just while the process is in the lock. -/
private theorem lock_step (hfault : tick.fault = false) (h : dir.lock = true ↔ pc.InLock) :
    (ensureStep model identity p tick dir pc).1.lock = true ↔ (ensureStep model identity p tick dir pc).2.InLock := by
  have hread : ∀ absent : EnsurePc Ident, ¬ absent.InLock → ¬ pc.InLock →
      (dir.lock = true ↔
        (EnsurePc.afterRead (if tick.fault then none else tryRead model dir.final) absent).InLock) :=
    fun absent habsent hpc => iff_of_false (fun hlock => hpc (h.1 hlock)) (not_inLock_afterRead habsent)
  cases pc with
  | fastPath => exact hread _ id id
  | read loop => exact hread _ id id
  | reread loop => exact hread _ id id
  | openLock loop =>
    have hfree : dir.lock = false := by simpa [EnsurePc.InLock] using h
    rw [ensureStep, hfault, if_neg Bool.false_ne_true, hfree, if_neg Bool.false_ne_true]
    exact iff_of_true rfl trivial
  | pathExists loop =>
    rw [ensureStep, hfault, if_neg Bool.false_ne_true]
    split
    · exact h
    · exact h
  | replace loop =>
    rw [ensureStep]
    split
    · exact h
    · exact h
  | unlinkLock loop claimed =>
    rw [ensureStep, hfault, if_neg Bool.false_ne_true]
    exact iff_of_false Bool.false_ne_true id
  | unlinkTmp loop claimed =>
    rcases claimed with _ | _ | _
    · rw [ensureStep, hfault, if_neg Bool.false_ne_true]
      exact h
    · rw [ensureStep, hfault, if_neg Bool.false_ne_true]
      exact h
    · rw [ensureStep, hfault, if_neg Bool.false_ne_true]
      exact h
  | reclaim loop =>
    rw [ensureStep, hfault, if_neg Bool.false_ne_true]
    exact h
  | wait loop =>
    rw [ensureStep]
    dsimp only
    split
    · exact h
    · exact h
  | returned i => exact h
  | raised => exact h
  | _ =>
    rw [ensureStep]
    repeat' split
    all_goals exact h

/-- A process that runs alone, without failing accesses, leaves the lock file where it dies between creating and
removing it, and nowhere else. -/
theorem lock_left_iff {p : Pid} (hstart : s.Start) (hlock : s.dir.lock = false) {actions : List (Pid × Tick)}
    (hp : ∀ action ∈ actions, action.1 = p ∧ action.2.fault = false)
    (hdied : Run.exec (Claimers.next model candidate) s actions = some s') :
    s'.dir.lock = true ↔ (s'.pcs p).InLock := by
  refine Run.invariant_of_meets (I := fun t : Claimers Pid Ident => t.dir.lock = true ↔ (t.pcs p).InLock) ?_ ?_
    (Run.meets_of_forall s hp) hdied
  · rintro t ⟨_, tick⟩ t' ht ⟨rfl, hfault⟩ hnext
    obtain ⟨hdir, hpc'⟩ := next_self hnext
    rw [hdir, hpc']
    exact lock_step hfault ht
  · rw [hstart p, hlock]
    exact iff_of_false Bool.false_ne_true id

/-! ### A claimer that dies in the lock -/

/-- A directory on a file system without hard links, where two processes are about to call. -/
private def noHardLinks (final : Option File) : Claimers Bool Bool :=
  ⟨⟨false, final, false, fun _ => none⟩, fun _ => .fastPath⟩

/-- The first of them takes steps. -/
private def firstSteps (steps : Nat) : List (Bool × Tick) := List.replicate steps (false, ⟨10, 10, 1000, false⟩)

private theorem firstSteps_first (steps : Nat) : ∀ action ∈ firstSteps steps, action.1 = false := by
  intro action haction
  rw [List.eq_of_mem_replicate haction]

/-- It dies before it takes the lock, and the empty file that was at the path is still there. -/
theorem death_before_lock : ∃ s,
    Run.exec (Claimers.next sampleIdentities id) (noHardLinks (some ⟨[], 0⟩)) (firstSteps 6) =
    some s ∧ s.Recovers sampleIdentities id true := by
  have hrun : (Run.exec (Claimers.next sampleIdentities id) (noHardLinks (some ⟨[], 0⟩)) (firstSteps 6)).any (fun s =>
      (tryRead sampleIdentities s.dir.final).isSome && !s.dir.lock) = true := by
    decide +kernel
  obtain ⟨s, hs, hleft⟩ := (Option.any_eq_true _ _).1 hrun
  obtain ⟨hread, hlock⟩ := Bool.and_eq_true_iff.1 hleft
  refine ⟨s, hs,
    (later_call_succeeds_iff (by decide) (fun _ => rfl) (firstSteps_first 6) hs).2 ⟨hread, fun _ hheld => ?_⟩⟩
  rw [hheld] at hlock
  cases hlock

/-- It dies right after it has created the lock file, and no later call returns. -/
theorem death_in_lock : (noHardLinks none).Start ∧ ∃ s,
    Run.exec (Claimers.next sampleIdentities id) (noHardLinks none) (firstSteps 7) = some s ∧
      ¬ s.Recovers sampleIdentities id true := by
  have hrun : (Run.exec (Claimers.next sampleIdentities id) (noHardLinks none) (firstSteps 7)).any (fun s =>
      !s.dir.hardLinks && (s.dir.lock && s.dir.final.isNone)) = true := by
    decide +kernel
  obtain ⟨s, hs, hleft⟩ := (Option.any_eq_true _ _).1 hrun
  obtain ⟨hlinks, hleft⟩ := Bool.and_eq_true_iff.1 hleft
  obtain ⟨hlock, hfinal⟩ := Bool.and_eq_true_iff.1 hleft
  refine ⟨fun _ => rfl, s, hs, not_recovers_of_locked ?_ (by simpa using hlinks) hlock fun i hholds => ?_⟩
  · exact pcs_of_others (by decide) (firstSteps_first 7) hs
  · rw [Dir.Holds, Option.isNone_iff_eq_none.1 hfinal] at hholds
    cases hholds

end AgentOS
