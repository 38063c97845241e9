import AgentOS.Identity.Ensure
import Mathlib.Data.Fintype.Basic

/-!
# Agreement on an identity

The claim on the path is exclusive, and what is claimed is complete, so an identity at the path stays there unless a
process reclaims it.  `_reclaim` unlinks whatever is at the path by then: a process that found a stale corrupt file may
unlink the identity that another process has put in its place and returned (`reclaim_breaks_agreement`).

In runs in which no reclaim meets an identity, all calls that return agree with the file (`identity_agreement`).
-/

namespace AgentOS

variable {Pid Ident : Type} [DecidableEq Pid] {model : IdentityModel Ident} {candidate : Pid → Ident}

/-- The next access is the one of `_reclaim`. -/
def EnsurePc.isReclaim : EnsurePc Ident → Bool
  | .reclaim _ => true
  | _ => false

/-- A process that unlinks what is at the path does not unlink an identity. -/
def SparesIdentity (model : IdentityModel Ident) (s : Claimers Pid Ident) (action : Pid × Tick) : Prop :=
  (s.pcs action.1).isReclaim = true → action.2.fault = false → ∀ identity, ¬ s.dir.Holds model identity

instance [Fintype Ident] [DecidableEq Ident] (model : IdentityModel Ident) (s : Claimers Pid Ident)
    (action : Pid × Tick) : Decidable (SparesIdentity model s action) :=
  inferInstanceAs (Decidable (_ → _ → ∀ identity, ¬ tryRead model s.dir.final = some (some identity)))

/-! ### The invariant -/

/-- Every process finds what it relies on, and one process at most is in the lock. -/
structure Claimers.Inv (model : IdentityModel Ident) (candidate : Pid → Ident) (s : Claimers Pid Ident) : Prop where
  relies : ∀ p, (s.pcs p).Relies model (candidate p) s.dir p
  one : ∀ p q, (s.pcs p).InLock → (s.pcs q).InLock → p = q

variable {s s' : Claimers Pid Ident} {p : Pid} {dir : Dir Pid} {pc : EnsurePc Ident} {tick : Tick}

/-- What a step of `p` leaves to the other processes. -/
structure Frame (model : IdentityModel Ident) (p : Pid) (s : Claimers Pid Ident) (dir : Dir Pid) : Prop where
  hardLinks : dir.hardLinks = s.dir.hardLinks
  temps : ∀ q, q ≠ p → dir.temps q = s.dir.temps q
  holds : ∀ identity, s.dir.Holds model identity → dir.Holds model identity
  lock : ∀ q, q ≠ p → (s.pcs q).InLock → dir.lock = s.dir.lock
  final : ∀ q, q ≠ p → (s.pcs q).InLock → s.dir.final = none → dir.final = none

omit [DecidableEq Pid] in
theorem Frame.refl (p : Pid) (s : Claimers Pid Ident) : Frame model p s s.dir :=
  ⟨rfl, fun _ _ => rfl, fun _ h => h, fun _ _ _ => rfl, fun _ _ _ h => h⟩

theorem Frame.setTemp (p : Pid) (s : Claimers Pid Ident) (file : Option File) :
    Frame model p s (s.dir.setTemp p file) :=
  ⟨rfl, fun _ hq => Function.update_of_ne hq _ _, fun _ h => h, fun _ _ _ => rfl, fun _ _ _ h => h⟩

omit [DecidableEq Pid] in
/-- Another process still finds what it relies on. -/
theorem EnsurePc.Relies.frame {q : Pid} {identity : Ident} (h : (s.pcs q).Relies model identity s.dir q)
    (hframe : Frame model p s dir) (hq : q ≠ p) : (s.pcs q).Relies model identity dir q := by
  have htemp := hframe.temps q hq
  have hlock := hframe.lock q hq
  have hfinal := hframe.final q hq
  have hlinks := hframe.hardLinks
  generalize s.pcs q = pc at h hlock hfinal
  cases pc with
  | write loop total => rwa [EnsurePc.Relies, htemp]
  | link loop => rwa [EnsurePc.Relies, Complete, htemp]
  | openLock loop => rwa [EnsurePc.Relies, Complete, htemp, hlinks]
  | pathExists loop => rwa [EnsurePc.Relies, Complete, htemp, hlinks, hlock trivial]
  | replace loop =>
    obtain ⟨hcomplete, hl, hheld, hnone⟩ := h
    rw [EnsurePc.Relies, Complete, htemp, hlinks, hlock trivial]
    exact ⟨hcomplete, hl, hheld, hfinal trivial hnone⟩
  | unlinkLock loop claimed =>
    obtain ⟨hl, hheld, hclaimed⟩ := h
    rw [EnsurePc.Relies, hlinks, hlock trivial]
    exact ⟨hl, hheld, fun hc => hframe.holds _ (hclaimed hc)⟩
  | unlinkTmp loop claimed => exact fun hc => hframe.holds _ (h hc)
  | returned i => exact hframe.holds _ h
  | _ => trivial

/-- A step that keeps to its frame and leaves its own process with what it relies on. -/
theorem Claimers.Inv.step (h : s.Inv model candidate) (hframe : Frame model p s dir)
    (hpc : pc.Relies model (candidate p) dir p) (hone : pc.InLock → ∀ q, q ≠ p → ¬ (s.pcs q).InLock) :
    Claimers.Inv model candidate ⟨dir, Function.update s.pcs p pc⟩ where
  relies q := by
    dsimp only
    by_cases hq : q = p
    · subst hq
      rwa [Function.update_self]
    · rw [Function.update_of_ne hq]
      exact (h.relies q).frame hframe hq
  one q r := by
    dsimp only
    by_cases hq : q = p
    · by_cases hr : r = p
      · exact fun _ _ => hq.trans hr.symm
      · rw [hq, Function.update_self, Function.update_of_ne hr]
        exact fun hp hlock => absurd hlock (hone hp r hr)
    · by_cases hr : r = p
      · rw [hr, Function.update_self, Function.update_of_ne hq]
        exact fun hlock hp => absurd hlock (hone hp q hq)
      · rw [Function.update_of_ne hq, Function.update_of_ne hr]
        exact h.one q r

/-! ### One step -/

omit [DecidableEq Pid] in
/-- The lock is exclusive. -/
theorem Claimers.Inv.alone (h : s.Inv model candidate) (hp : (s.pcs p).InLock) : ∀ q, q ≠ p → ¬ (s.pcs q).InLock :=
  fun _ hq hlock => hq (h.one _ _ hlock hp)

theorem Frame.setTempIf (p : Pid) (s : Claimers Pid Ident) (fault : Bool) :
    Frame model p s (if fault then s.dir else s.dir.setTemp p none) := by
  split
  · exact Frame.refl p s
  · exact Frame.setTemp p s none

/-- A step of one process leaves the others what they rely on, if it does not unlink an identity. -/
theorem Claimers.Inv.frame (h : s.Inv model candidate) (hok : SparesIdentity model s (p, tick)) :
    Frame model p s (ensureStep model (candidate p) p tick s.dir (s.pcs p)).1 := by
  have hrelies := h.relies p
  have halone := h.alone (p := p)
  -- a file at the path is not an identity where there was none before
  have habsent : ∀ i, s.dir.final = none → ¬ s.dir.Holds model i := by
    intro i hfinal hholds
    rw [Dir.Holds, hfinal] at hholds
    cases hholds
  cases hpc : s.pcs p with
  | mkstemp loop =>
    rw [ensureStep]
    split
    · exact Frame.refl p s
    · exact Frame.setTemp p s _
  | write loop total =>
    rw [ensureStep]
    split
    · exact Frame.refl p s
    · split
      · exact Frame.setTemp p s _
      · exact Frame.refl p s
  | link loop =>
    rw [ensureStep]
    split
    · exact Frame.refl p s
    case h_2 tmp htmp =>
    split
    · exact Frame.refl p s
    · have hfinal : s.dir.final = none := by simpa using ‹¬ s.dir.final.isSome = true›
      refine ⟨rfl, fun _ _ => rfl, fun i hi => absurd hi (habsent i hfinal), fun _ _ _ => rfl, fun q _ hlock => ?_⟩
      -- where there are hard links, nobody takes the lock
      rw [((h.relies q).inLock hlock).1] at htmp
      cases htmp
  | openLock loop =>
    rw [ensureStep]
    split
    · exact Frame.refl p s
    · split
      · exact Frame.refl p s
      · refine ⟨rfl, fun _ _ => rfl, fun _ h => h, fun q _ hlock => ?_, fun _ _ _ h => h⟩
        exact ((h.relies q).inLock hlock).2.symm
  | pathExists loop =>
    rw [ensureStep]
    split
    · exact Frame.refl p s
    · split
      · exact Frame.refl p s
      · exact Frame.refl p s
  | replace loop =>
    rw [hpc] at hrelies halone
    rw [ensureStep]
    split
    · exact Frame.refl p s
    · exact ⟨rfl, fun q hq => Function.update_of_ne hq _ _, fun i hi => absurd hi (habsent i hrelies.2.2.2),
        fun _ _ _ => rfl, fun q hq hlock => absurd hlock (halone trivial q hq)⟩
  | unlinkLock loop claimed =>
    rw [hpc] at halone
    rw [ensureStep]
    dsimp only
    split
    · exact Frame.refl p s
    · exact ⟨rfl, fun _ _ => rfl, fun _ h => h, fun q hq hlock => absurd hlock (halone trivial q hq), fun _ _ _ h => h⟩
  | unlinkTmp loop claimed => exact Frame.setTempIf p s tick.fault
  | stat loop =>
    rw [ensureStep]
    split
    · exact Frame.refl p s
    · split
      · split
        · exact Frame.refl p s
        · exact Frame.refl p s
      · exact Frame.refl p s
  | reclaim loop =>
    rw [ensureStep]
    dsimp only
    split
    · exact Frame.refl p s
    · have hspared := hok (by rw [hpc]; rfl) (by simpa using ‹¬ tick.fault = true›)
      exact ⟨rfl, fun _ _ => rfl, fun i hi => absurd hi (hspared i), fun _ _ _ => rfl, fun _ _ _ _ => rfl⟩
  | _ => exact Frame.refl p s

/-- A process enters the lock where no other is in it. -/
theorem Claimers.Inv.enters (h : s.Inv model candidate)
    (hlock : (ensureStep model (candidate p) p tick s.dir (s.pcs p)).2.InLock) : ∀ q, q ≠ p → ¬ (s.pcs q).InLock := by
  rcases inLock_of_step hlock with hpc | hfree
  · exact h.alone hpc
  · intro q _ hq
    have hheld := ((h.relies q).inLock hq).2
    rw [hfree] at hheld
    cases hheld

theorem Claimers.Inv.next {action : Pid × Tick} (h : s.Inv model candidate) (hok : SparesIdentity model s action)
    (hnext : s.next model candidate action = some s') : s'.Inv model candidate := by
  obtain ⟨p, tick⟩ := action
  obtain rfl := Option.some.inj hnext
  exact h.step (h.frame hok) ((h.relies p).step _) h.enters

end AgentOS
