import AgentOS.Lib.Run
import AgentOS.Python.Text
import Mathlib.Algebra.Order.Ring.Unbundled.Rat
import Mathlib.Logic.Function.Basic

/-!
# Creating an identity

`_ensure_identity` of `contracts/identity.py`, run by any number of processes on one path, one access to the file system
at a time.  A process writes its candidate to a temporary file of its own and claims the path with `os.link`, or, where
the file system has no hard links, with a lock file and `os.replace`.  A file at the path that cannot be read as an
identity is unlinked once it is stale.

An action names the process that takes its next step, with what the system gives to the step: the two clocks, how many
bytes `os.write` takes, and whether the access fails with an error of its own (`fault`).
-/

namespace AgentOS

/-- What is used of the class of an identity: `model_validate_json` and `model_dump_json(indent=2)`. -/
structure IdentityModel (Ident : Type) where
  validateJson : String → Option Ident
  dumpJson : Ident → String
  validate_dump : ∀ identity, validateJson (dumpJson identity ++ "\n") = some identity
  dump_notBlank : ∀ identity, isBlank (dumpJson identity ++ "\n") = false

structure File where
  content : List UInt8
  mtime : ℚ

/-- The directory of the path: whether it has hard links, the file at the path, the lock file, and the temporary file of
each process. -/
structure Dir (Pid : Type) where
  hardLinks : Bool
  final : Option File
  lock : Bool
  temps : Pid → Option File

/-- `data.decode("utf-8")`; `none` where it raises. -/
def decodeStrict (data : List UInt8) : Option String :=
  if encode (decode data) = data then some (decode data) else none

variable {Pid Ident : Type}

section
variable (model : IdentityModel Ident)

/-- `_try_read`; `none` where it raises. -/
def tryRead : Option File → Option (Option Ident)
  | none => some none
  | some file => (decodeStrict file.content).map fun text => if isBlank text then none else model.validateJson text

/-- The bytes of a candidate. -/
def payload (identity : Ident) : List UInt8 := encode (model.dumpJson identity ++ "\n")

/-- The file at the path is the identity. -/
def Dir.Holds (dir : Dir Pid) (identity : Ident) : Prop := tryRead model dir.final = some (some identity)

end

/-- `_CLAIM_BUDGET`. -/
def claimBudget : ℚ := 2

/-- `_STALE_SECONDS`. -/
def staleSeconds : ℚ := 5

/-- `_MAX_RECLAIMS`. -/
def maxReclaims : Nat := 3

/-- The variables of the loop.  `delay`, which only says how long the process sleeps, is left out. -/
structure Loop where
  reclaimsLeft : Nat
  deadline : ℚ

/-- The access that a process makes next.  `claimed` is what `_claim_via_lock` and `_atomic_claim` are about to return;
`none` is an exception on its way through the `finally` clauses. -/
inductive EnsurePc (Ident : Type) where
  | fastPath
  | read (loop : Loop)
  | mkstemp (loop : Loop)
  | write (loop : Loop) (total : Nat)
  | link (loop : Loop)
  | openLock (loop : Loop)
  | pathExists (loop : Loop)
  | replace (loop : Loop)
  | unlinkLock (loop : Loop) (claimed : Option Bool)
  | unlinkTmp (loop : Loop) (claimed : Option Bool)
  | reread (loop : Loop)
  | stat (loop : Loop)
  | reclaim (loop : Loop)
  | wait (loop : Loop)
  | returned (identity : Ident)
  | raised

/-- What the system gives to a step. -/
structure Tick where
  time : ℚ
  monotonic : ℚ
  written : Nat
  fault : Bool

/-- Where a process goes on after `_try_read`. -/
def EnsurePc.afterRead (result : Option (Option Ident)) (absent : EnsurePc Ident) : EnsurePc Ident :=
  match result with
  | none => .raised
  | some (some identity) => .returned identity
  | some none => absent

section
variable [DecidableEq Pid] (model : IdentityModel Ident)

def Dir.setTemp (dir : Dir Pid) (p : Pid) (file : Option File) : Dir Pid :=
  { dir with temps := Function.update dir.temps p file }

/-- One access of process `p`, whose candidate is `identity`. -/
def ensureStep (identity : Ident) (p : Pid) (tick : Tick) (dir : Dir Pid) : EnsurePc Ident → Dir Pid × EnsurePc Ident
  | .fastPath => (dir, .afterRead (if tick.fault then none else tryRead model dir.final)
      (.read ⟨maxReclaims, tick.monotonic + claimBudget⟩))
  | .read loop => (dir, .afterRead (if tick.fault then none else tryRead model dir.final) (.mkstemp loop))
  | .mkstemp loop => if tick.fault then (dir, .raised) else (dir.setTemp p (some ⟨[], tick.time⟩), .write loop 0)
  | .write loop total =>
    -- `_write_all` and `os.fsync`; where they fail, the temporary file stays
    if tick.fault then (dir, .raised)
    else if total < (payload model identity).length then
      let total := total + max 1 (min tick.written ((payload model identity).length - total))
      (dir.setTemp p (some ⟨(payload model identity).take total, tick.time⟩), .write loop total)
    else (dir, .link loop)
  | .link loop => match if dir.hardLinks then dir.temps p else none with
    | none => (dir, .openLock loop)
    | some tmp => if dir.final.isSome then (dir, .unlinkTmp loop (some false))
      else ({ dir with final := some tmp }, .unlinkTmp loop (some true))
  | .openLock loop =>
    if tick.fault then (dir, .unlinkTmp loop none)
    else if dir.lock then (dir, .unlinkTmp loop (some false))
    else ({ dir with lock := true }, .pathExists loop)
  | .pathExists loop =>
    if tick.fault then (dir, .unlinkLock loop none)
    else if dir.final.isSome then (dir, .unlinkLock loop (some false))
    else (dir, .replace loop)
  | .replace loop => match if tick.fault then none else dir.temps p with
    | none => (dir, .unlinkLock loop none)
    | some tmp => ({ dir.setTemp p none with final := some tmp }, .unlinkLock loop (some true))
  | .unlinkLock loop claimed => (if tick.fault then dir else { dir with lock := false }, .unlinkTmp loop claimed)
  | .unlinkTmp loop claimed => (if tick.fault then dir else dir.setTemp p none, match claimed with
    | none => .raised
    | some true => .returned identity
    | some false => .reread loop)
  | .reread loop => (dir, .afterRead (if tick.fault then none else tryRead model dir.final) (.stat loop))
  | .stat loop => match if tick.fault then none else dir.final with
    | none => (dir, .wait loop)
    | some file =>
      if staleSeconds < tick.time - file.mtime then
        if loop.reclaimsLeft = 0 then (dir, .raised)
        else (dir, .reclaim { loop with reclaimsLeft := loop.reclaimsLeft - 1 })
      else (dir, .wait loop)
  | .reclaim loop => (if tick.fault then dir else { dir with final := none }, .read loop)
  | .wait loop => (dir, if loop.deadline ≤ tick.monotonic then .raised else .read loop)
  | .returned identity => (dir, .returned identity)
  | .raised => (dir, .raised)

/-- The directory and the processes. -/
structure Claimers (Pid Ident : Type) where
  dir : Dir Pid
  pcs : Pid → EnsurePc Ident

variable (candidate : Pid → Ident)

/-- One process takes a step. -/
def Claimers.next (s : Claimers Pid Ident) (action : Pid × Tick) : Option (Claimers Pid Ident) :=
  let (dir, pc) := ensureStep model (candidate action.1) action.1 action.2 s.dir (s.pcs action.1)
  some ⟨dir, Function.update s.pcs action.1 pc⟩

/-- Every process is about to call `_ensure_identity`. -/
def Claimers.Start (s : Claimers Pid Ident) : Prop := ∀ p, s.pcs p = .fastPath

end

/-! ### What is read back -/

variable {model : IdentityModel Ident}

theorem decodeStrict_encode (text : String) : decodeStrict (encode text) = some text := by
  rw [decodeStrict, decode_encode, if_pos rfl]

theorem tryRead_payload (identity : Ident) (mtime : ℚ) :
    tryRead model (some ⟨payload model identity, mtime⟩) = some (some identity) := by
  rw [tryRead, payload, decodeStrict_encode, Option.map_some, model.dump_notBlank, model.validate_dump]
  rfl

theorem Dir.Holds.unique {dir : Dir Pid} {i j : Ident} (hi : dir.Holds model i) (hj : dir.Holds model j) : i = j :=
  Option.some.inj (Option.some.inj (hi.symm.trans hj))

/-! ### What a process relies on -/

/-- The process has created the lock file and not yet removed it. -/
def EnsurePc.InLock : EnsurePc Ident → Prop
  | .pathExists _ => True
  | .replace _ => True
  | .unlinkLock _ _ => True
  | _ => False

/-- The temporary file of a process holds the whole candidate. -/
def Complete (model : IdentityModel Ident) (identity : Ident) (dir : Dir Pid) (p : Pid) : Prop :=
  ∃ mtime, dir.temps p = some ⟨payload model identity, mtime⟩

/-- What a process relies on before its next access. -/
def EnsurePc.Relies (model : IdentityModel Ident) (identity : Ident) (dir : Dir Pid) (p : Pid) : EnsurePc Ident → Prop
  | .write _ total => ∃ mtime, dir.temps p = some ⟨(payload model identity).take total, mtime⟩
  | .link _ => Complete model identity dir p
  | .openLock _ => Complete model identity dir p ∧ dir.hardLinks = false
  | .pathExists _ => Complete model identity dir p ∧ dir.hardLinks = false ∧ dir.lock = true
  | .replace _ => Complete model identity dir p ∧ dir.hardLinks = false ∧ dir.lock = true ∧ dir.final = none
  | .unlinkLock _ claimed =>
    dir.hardLinks = false ∧ dir.lock = true ∧ (claimed = some true → dir.Holds model identity)
  | .unlinkTmp _ claimed => claimed = some true → dir.Holds model identity
  | .returned i => dir.Holds model i
  | _ => True

variable {p : Pid} {dir : Dir Pid} {pc : EnsurePc Ident} {tick : Tick} {identity : Ident}

theorem EnsurePc.Relies.inLock (h : pc.Relies model identity dir p) (hlock : pc.InLock) :
    dir.hardLinks = false ∧ dir.lock = true := by
  cases pc with
  | pathExists => exact h.2
  | replace => exact ⟨h.2.1, h.2.2.1⟩
  | unlinkLock => exact ⟨h.1, h.2.1⟩
  | _ => exact hlock.elim

/-- A read that returns has found the identity. -/
theorem relies_afterRead {fault : Bool} {absent : EnsurePc Ident}
    (habsent : absent.Relies model identity dir p) :
    (EnsurePc.afterRead (if fault then none else tryRead model dir.final) absent).Relies model identity dir p := by
  cases fault with
  | true => trivial
  | false =>
    rw [if_neg Bool.false_ne_true]
    cases hread : tryRead model dir.final with
    | none => trivial
    | some result =>
      cases result with
      | none => exact habsent
      | some i => exact hread

theorem not_inLock_afterRead {result : Option (Option Ident)} {absent : EnsurePc Ident} (habsent : ¬ absent.InLock) :
    ¬ (EnsurePc.afterRead result absent).InLock := by
  cases result with
  | none => exact id
  | some result =>
    cases result with
    | none => exact habsent
    | some i => exact id

variable [DecidableEq Pid]

/-- A process finds what it relies on, as far as its own steps are concerned: one case for each access. -/
theorem EnsurePc.Relies.step (h : pc.Relies model identity dir p) (tick : Tick) :
    (ensureStep model identity p tick dir pc).2.Relies model identity (ensureStep model identity p tick dir pc).1 p := by
  cases pc with
  | fastPath => exact relies_afterRead trivial
  | read loop => exact relies_afterRead trivial
  | reread loop => exact relies_afterRead trivial
  | mkstemp loop =>
    rw [ensureStep]
    split
    · trivial
    · refine ⟨tick.time, ?_⟩
      rw [List.take_zero]
      exact Function.update_self _ _ _
  | write loop total =>
    obtain ⟨mtime, htemp⟩ := h
    rw [ensureStep]
    split
    · trivial
    · split
      · exact ⟨tick.time, Function.update_self _ _ _⟩
      · refine ⟨mtime, ?_⟩
        rw [htemp, List.take_of_length_le (by omega)]
  | link loop =>
    obtain ⟨mtime, htemp⟩ := h
    cases hlinks : dir.hardLinks with
    | false =>
      simp only [ensureStep, hlinks, Bool.false_eq_true, if_false]
      exact ⟨⟨mtime, htemp⟩, hlinks⟩
    | true =>
      simp only [ensureStep, hlinks, if_true, htemp]
      split
      · simp [EnsurePc.Relies]
      · exact fun _ => tryRead_payload identity mtime
  | openLock loop =>
    rw [ensureStep]
    split
    · simp [EnsurePc.Relies]
    · split
      · simp [EnsurePc.Relies]
      · exact ⟨h.1, h.2, rfl⟩
  | pathExists loop =>
    obtain ⟨hcomplete, hlinks, hlock⟩ := h
    rw [ensureStep]
    split
    · exact ⟨hlinks, hlock, by simp⟩
    · split
      · exact ⟨hlinks, hlock, by simp⟩
      · refine ⟨hcomplete, hlinks, hlock, ?_⟩
        simpa using ‹¬ dir.final.isSome = true›
  | replace loop =>
    obtain ⟨⟨mtime, htemp⟩, hlinks, hlock, hfinal⟩ := h
    cases hfault : tick.fault with
    | true =>
      simp only [ensureStep, hfault, if_true]
      exact ⟨hlinks, hlock, by simp⟩
    | false =>
      simp only [ensureStep, hfault, Bool.false_eq_true, if_false, htemp]
      exact ⟨hlinks, hlock, fun _ => tryRead_payload identity mtime⟩
  | unlinkLock loop claimed =>
    obtain ⟨hlinks, hlock, hclaimed⟩ := h
    rw [ensureStep]
    split
    · exact hclaimed
    · exact hclaimed
  | unlinkTmp loop claimed =>
    have hholds : ∀ i, dir.Holds model i → (if tick.fault then dir else dir.setTemp p none).Holds model i := by
      intro i hi
      split
      · exact hi
      · exact hi
    rcases claimed with _ | _ | _
    · trivial
    · trivial
    · exact hholds _ (h rfl)
  | stat loop =>
    rw [ensureStep]
    split
    · trivial
    · split
      · split
        · trivial
        · trivial
      · trivial
  | reclaim loop => trivial
  | wait loop =>
    rw [ensureStep]
    dsimp only
    split
    · trivial
    · trivial
  | returned i => exact h
  | raised => trivial

/-- A process is in the lock after a step only if it was, or if the lock was free. -/
theorem inLock_of_step (h : (ensureStep model identity p tick dir pc).2.InLock) : pc.InLock ∨ dir.lock = false := by
  cases pc with
  | pathExists loop => exact Or.inl trivial
  | replace loop => exact Or.inl trivial
  | unlinkLock loop claimed => exact Or.inl trivial
  | openLock loop =>
    rw [ensureStep] at h
    split at h
    · exact h.elim
    · split at h
      · exact h.elim
      · exact Or.inr (by simpa using ‹¬ dir.lock = true›)
  | fastPath => exact absurd h (not_inLock_afterRead id)
  | read loop => exact absurd h (not_inLock_afterRead id)
  | reread loop => exact absurd h (not_inLock_afterRead id)
  | unlinkTmp loop claimed =>
    rcases claimed with _ | _ | _
    · exact h.elim
    · exact h.elim
    · exact h.elim
  | wait loop =>
    rw [ensureStep] at h
    dsimp only at h
    split at h
    · exact h.elim
    · exact h.elim
  | reclaim loop => exact h.elim
  | returned i => exact h.elim
  | raised => exact h.elim
  | _ =>
    rw [ensureStep] at h
    repeat' split at h
    all_goals exact h.elim

/-- The JSON text of a machine. -/
private def machineJson (machineId : String) : String :=
  "\x7b\n  \"machine_id\": \"" ++ machineId ++
    "\",\n  \"name\": \"desk\",\n  \"os\": \"Linux\",\n  \"created_at\": \"2026-01-01T00:00:00Z\"\n\x7d"

/-- Two machines, as far as their own texts are concerned. -/
def sampleIdentities : IdentityModel Bool where
  validateJson text :=
    if text = machineJson "mach_0" ++ "\n" then some false
    else if text = machineJson "mach_1" ++ "\n" then some true else none
  dumpJson identity := machineJson (if identity then "mach_1" else "mach_0")
  validate_dump := by decide +kernel
  dump_notBlank := by decide +kernel

end AgentOS
