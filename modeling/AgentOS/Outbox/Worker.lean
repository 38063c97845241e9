import AgentOS.Outbox.RequestSize
import AgentOS.Lib.Run
import AgentOS.Lib.Trace
import Mathlib.Algebra.Order.Ring.Rat
import Mathlib.Tactic.Linarith

/-!
# The drain worker

`Drainer.run_once` and `Drainer.run_forever`: register machine, repository and session, drain, send a heartbeat, and
start again after a pause.  A worker makes one request at a time; what it meets (the answer, the identity files, the
lines of the outbox) is an input of its step, so a run of the worker is a run against any server.

The trace of a run is what the worker does: the requests with their answers, and its pauses.  `worker_lawful` says of
every entry what has gone before it.
-/

namespace AgentOS

/-- The fields of `DrainConfig` that the loops read, and which of the two runs. -/
structure DrainConfig where
  once : Bool
  disabled : Bool
  repoRoot : String
  backoffInitial : ℚ
  backoffMax : ℚ

/-- What `_load_identity` sets: the two identity files and the ids of this run. -/
structure WorkerIdentity where
  machine : MachineIdentity
  repo : RepositoryIdentity
  sessionId : String
  agentId : String
  startedAt : Int

/-- The end of `_load_identity`: `contracts` cannot be imported, the files cannot be read, or they are loaded. -/
inductive IdentityLoad where
  | fatal
  | unavailable
  | loaded (identity : WorkerIdentity)

/-- The fields of `_session_payload` that are not fixed. -/
structure SessionPayload where
  agentId : String
  sessionId : String
  machineId : String
  repositoryId : Json
  startedAt : Int

/-- A request of a worker; `sent` are the lines of the batch, each with the event that is made of it. -/
inductive Post where
  | machine (machine : MachineIdentity)
  | repository (repo : RepositoryIdentity) (repoRoot : String)
  | session (payload : SessionPayload)
  | events (sent : List (String × Json))
  | heartbeat (sessionId : String)

/-- What a worker does: a request with its answer, `_sleep_backoff`, the pause of `register`, `_sleep_idle`. -/
inductive WorkerEntry where
  | post (post : Post) (reply : Reply)
  | backoff (seconds : ℚ)
  | retry (seconds : ℚ)
  | idle

/-- Where a worker is; `attempt` is the iteration of `register`, and `code` the exit code, `none` for an exception that
is not caught. -/
inductive WorkerPc where
  | start
  | identity (attempt : Nat)
  | machine (identity : WorkerIdentity) (attempt : Nat)
  | repository (identity : WorkerIdentity) (attempt : Nat)
  | session (identity : WorkerIdentity) (attempt : Nat)
  | drain
  | heartbeat
  | exited (code : Option Nat)

/-- `Drainer`, with the local `backoff` of `run_forever`. -/
structure Worker where
  identity : Option WorkerIdentity
  registered : Bool
  ids : RepoIds
  backoff : ℚ
  pc : WorkerPc

/-- What a step of a worker meets: the identity files, the answer to its request, what `read_pending` returns (`none`
where the store raises), and whether the dead letters and the cursor are written. -/
structure WorkerInput (Envelope : Type) where
  load : IdentityLoad
  reply : Reply
  pending : Option (List (PendingEvent Envelope))
  written : Bool

def Worker.init : Worker where
  identity := none
  registered := false
  ids := ⟨none, .null⟩
  backoff := 0
  pc := .start

def Worker.goto (w : Worker) (pc : WorkerPc) : Worker := { w with pc := pc }

/-- `status == 200`. -/
def Reply.isOk : Reply → Bool
  | .failure => false
  | .response status _ => status = 200

/-- The body that `post_json` returns. -/
def Reply.fields : Reply → List (String × Json)
  | .failure => []
  | .response _ body => parsedBody body

/-- `body.get("repository_id") or self._local_repo_id`. -/
def canonicalRepoId (reply : Reply) (localId : String) : Json :=
  let id := Json.get reply.fields "repository_id"
  if id.truthy then id else .str localId

/-- The ids of the repository after a registration. -/
def WorkerIdentity.ids (identity : WorkerIdentity) (reply : Reply) : RepoIds where
  localId := some identity.repo.repositoryId
  canonicalId := canonicalRepoId reply identity.repo.repositoryId

/-- `repo_payload`, but for its `repo_root`: the machine is the one that has just been registered. -/
def WorkerIdentity.repoPayload (identity : WorkerIdentity) : RepositoryIdentity :=
  { identity.repo with machineId := some identity.machine.machineId }

/-- `_session_payload`. -/
def WorkerIdentity.sessionPayload (identity : WorkerIdentity) (ids : RepoIds) : SessionPayload where
  agentId := identity.agentId
  sessionId := identity.sessionId
  machineId := identity.machine.machineId
  repositoryId := ids.canonicalId
  startedAt := identity.startedAt

section

variable {Envelope : Type} (config : DrainConfig) (floats : FloatText)

/-- The lines of a batch with their events; `none` where `_outgoing_event` raises. -/
def outgoingEvents (ids : RepoIds) (pending : List (PendingEvent Envelope)) : Option (List (String × Json)) :=
  (toSend pending).mapM fun event => (outgoingEvent floats ids event.raw).map fun obj => (event.raw, obj)

/-- The request that a worker makes at its next step, if it makes one. -/
def Worker.post? (w : Worker) (input : WorkerInput Envelope) : Option Post :=
  match w.pc with
  | .machine identity _ => some (.machine identity.machine)
  | .repository identity _ => some (.repository identity.repoPayload config.repoRoot)
  | .session identity _ => some (.session (identity.sessionPayload w.ids))
  | .drain => input.pending.bind fun pending =>
    if (toSend pending).isEmpty then none else (outgoingEvents floats w.ids pending).map .events
  | .heartbeat => w.identity.map fun identity => .heartbeat identity.sessionId
  | _ => none

/-- `_sleep_backoff(backoff)`, the next `backoff`, and back to the head of the loop. -/
def Worker.backOff (w : Worker) : Worker × List WorkerEntry :=
  ({ w with backoff := min (w.backoff * 2) config.backoffMax, pc := .identity 0 }, [.backoff w.backoff])

/-- An attempt of `register` has failed. -/
def Worker.registerFailed (w : Worker) (attempt : Nat) : Worker × List WorkerEntry :=
  if config.once then
    if attempt < 2 then
      (w.goto (.identity (attempt + 1)), [.retry (min (config.backoffInitial * (attempt + 1)) config.backoffMax)])
    else (w.goto (.exited (some 1)), [])
  else w.backOff config

/-- `drain_all` has raised a `TransportError`. -/
def Worker.drainFailed (w : Worker) : Worker × List WorkerEntry :=
  if config.once then (w.goto (.exited (some 2)), []) else { w with registered := false }.backOff config

/-- What a worker does with what it meets; the pauses it makes. -/
def Worker.react (w : Worker) (input : WorkerInput Envelope) : Worker × List WorkerEntry :=
  match w.pc with
  | .start =>
    if config.disabled then (w.goto (.exited (some 0)), [])
    else ({ w with backoff := config.backoffInitial, pc := .identity 0 }, [])
  | .identity attempt => match w.identity with
    | some identity => (w.goto (.machine identity attempt), [])
    | none => match input.load with
      | .fatal => (w.goto (.exited (some (if config.once then 3 else 0))), [])
      | .unavailable => w.registerFailed config attempt
      | .loaded identity => ({ w with identity := some identity, pc := .machine identity attempt }, [])
  | .machine identity attempt =>
    if input.reply.isOk then (w.goto (.repository identity attempt), []) else w.registerFailed config attempt
  | .repository identity attempt =>
    if input.reply.isOk then ({ w with ids := identity.ids input.reply, pc := .session identity attempt }, [])
    else w.registerFailed config attempt
  | .session _ attempt =>
    if input.reply.isOk then ({ w with registered := true, pc := .drain }, []) else w.registerFailed config attempt
  | .drain => match input.pending with
    | none => (w.goto (.exited none), [])
    | some [] => (w.goto .heartbeat, [])
    | some pending =>
      let written := (if input.written then w else w.goto (.exited none), [])
      if (toSend pending).isEmpty then written
      else match outgoingEvents floats w.ids pending with
        | none => (w.goto (.exited none), [])
        | some _ => match resolve (toSend pending) input.reply with
          | .error _ => w.drainFailed config
          | .ok _ => written
  | .heartbeat =>
    if config.once then (w.goto (.exited (some 0)), [])
    else
      ({ w with backoff := config.backoffInitial, pc := if w.registered then .drain else .identity 0 }, [.idle])
  | .exited code => (w.goto (.exited code), [])

/-- What a worker does at its next step. -/
def Worker.entries (w : Worker) (input : WorkerInput Envelope) : List WorkerEntry :=
  ((w.post? config floats input).map fun post => .post post input.reply).toList ++ (w.react config floats input).2

end

/-- A worker with what it has done. -/
structure WorkerRun where
  worker : Worker
  trace : List WorkerEntry

/-- A worker makes a step, or is stopped: a signal, or an exception that the model does not name. -/
inductive WorkerAct (Envelope : Type) where
  | step (input : WorkerInput Envelope)
  | stop (code : Option Nat)

namespace WorkerRun

variable {Envelope : Type} (config : DrainConfig) (floats : FloatText)

def start : WorkerRun where
  worker := Worker.init
  trace := []

def next (s : WorkerRun) : WorkerAct Envelope → Option WorkerRun
  | .step input => some ⟨(s.worker.react config floats input).1, s.trace ++ s.worker.entries config floats input⟩
  | .stop code => some ⟨s.worker.goto (.exited code), s.trace⟩

end WorkerRun

/-! ### What is promised of a run -/

/-- The number of pauses after failures since the last clean cycle. -/
def failuresSinceIdle : List WorkerEntry → Nat :=
  List.foldl (fun n entry => match entry with
    | .idle => 0
    | .backoff _ => n + 1
    | _ => n) 0

/-- The `backoff` after so many failures in a row. -/
def backoffAfter (config : DrainConfig) : Nat → ℚ
  | 0 => config.backoffInitial
  | failures + 1 => min (backoffAfter config failures * 2) config.backoffMax

/-- A registration still stands after the entry. -/
def WorkerEntry.Quiet : WorkerEntry → Prop
  | .post (.events _) reply => reply.isOk = true
  | .post (.heartbeat _) _ => True
  | .idle => True
  | _ => False

/-- Machine, repository and session have been registered, in this order, and nothing has failed since; `ids` are what
the repository was registered as. -/
def RegisteredAs (config : DrainConfig) (identity : WorkerIdentity) (ids : RepoIds) (trace : List WorkerEntry) : Prop :=
  ∃ earlier machineReply repositoryReply sessionReply later,
    trace = earlier ++ [.post (.machine identity.machine) machineReply,
      .post (.repository identity.repoPayload config.repoRoot) repositoryReply,
      .post (.session (identity.sessionPayload ids)) sessionReply] ++ later ∧
    machineReply.isOk = true ∧ repositoryReply.isOk = true ∧ sessionReply.isOk = true ∧
    ids = identity.ids repositoryReply ∧ ∀ entry ∈ later, entry.Quiet

/-- What has gone before an entry of a worker whose identity is `identity`. -/
def WorkerEntry.Allowed (config : DrainConfig) (floats : FloatText) (identity : Option WorkerIdentity)
    (before : List WorkerEntry) : WorkerEntry → Prop
  | .post (.machine machine) _ => ∃ id, identity = some id ∧ machine = id.machine
  | .post (.repository repo repoRoot) _ => ∃ id, identity = some id ∧ repo = id.repoPayload ∧
    repoRoot = config.repoRoot ∧
    ∃ earlier reply, before = earlier ++ [.post (.machine id.machine) reply] ∧ reply.isOk = true
  | .post (.session payload) _ => ∃ id, identity = some id ∧ ∃ earlier reply reply',
    before = earlier ++ [.post (.machine id.machine) reply, .post (.repository id.repoPayload config.repoRoot) reply'] ∧
    reply.isOk = true ∧ reply'.isOk = true ∧ payload = id.sessionPayload (id.ids reply')
  | .post (.events sent) _ => ∃ id ids, identity = some id ∧ RegisteredAs config id ids before ∧
    sent ≠ [] ∧ ∀ x ∈ sent, outgoingEvent floats ids x.1 = some x.2
  | .post (.heartbeat sessionId) _ => ∃ id ids, identity = some id ∧ RegisteredAs config id ids before ∧
    sessionId = id.sessionId
  | .backoff seconds => config.once = false ∧ seconds = backoffAfter config (failuresSinceIdle before)
  | .retry _ => config.once = true
  | .idle => config.once = false ∧ ∃ id ids, identity = some id ∧ RegisteredAs config id ids before

section

variable {Envelope : Type} {config : DrainConfig} {floats : FloatText} {s s' : WorkerRun}
  {before trace : List WorkerEntry} {entry : WorkerEntry} {identity : WorkerIdentity} {ids : RepoIds}

/-! ### The trace -/

theorem failuresSinceIdle_append_post (post : Post) (reply : Reply) :
    failuresSinceIdle (trace ++ [.post post reply]) = failuresSinceIdle trace := by
  simp [failuresSinceIdle]

theorem failuresSinceIdle_append_backoff (seconds : ℚ) :
    failuresSinceIdle (trace ++ [.backoff seconds]) = failuresSinceIdle trace + 1 := by
  simp [failuresSinceIdle]

theorem failuresSinceIdle_append_idle : failuresSinceIdle (trace ++ [.idle]) = 0 := by
  simp [failuresSinceIdle]

/-- The pauses double up to the bound. -/
private theorem backoffAfter_eq (hmax : 0 ≤ config.backoffMax) (failures : Nat) :
    backoffAfter config (failures + 1) = min (config.backoffInitial * 2 ^ (failures + 1)) config.backoffMax := by
  induction failures with
  | zero => simp [backoffAfter]
  | succ failures ih =>
    have htwice : config.backoffMax ≤ config.backoffMax * 2 := by linarith
    have hpow : config.backoffInitial * 2 ^ (failures + 2) = config.backoffInitial * 2 ^ (failures + 1) * 2 := by
      rw [pow_succ, mul_assoc]
    rw [backoffAfter, ih, min_mul_of_nonneg _ _ (by norm_num), min_assoc, min_eq_right htwice, hpow]

theorem RegisteredAs.quiet (h : RegisteredAs config identity ids trace) (entry : WorkerEntry) (hentry : entry.Quiet) :
    RegisteredAs config identity ids (trace ++ [entry]) := by
  obtain ⟨earlier, r₁, r₂, r₃, later, htrace, h₁, h₂, h₃, hids, hlater⟩ := h
  refine ⟨earlier, r₁, r₂, r₃, later ++ [entry], by rw [htrace]; simp, h₁, h₂, h₃, hids, ?_⟩
  intro e he
  rcases List.mem_append.1 he with he | he
  · exact hlater e he
  · exact List.mem_singleton.1 he ▸ hentry

/-- Before the identity is loaded, a worker only pauses. -/
theorem WorkerEntry.Allowed.of_none (h : entry.Allowed config floats none before) (id : Option WorkerIdentity) :
    entry.Allowed config floats id before := by
  cases entry with
  | post post reply =>
    cases post with
    | machine => obtain ⟨id, hid, -⟩ := h; cases hid
    | repository => obtain ⟨id, hid, -⟩ := h; cases hid
    | session => obtain ⟨id, hid, -⟩ := h; cases hid
    | events => obtain ⟨id, ids, hid, -⟩ := h; cases hid
    | heartbeat => obtain ⟨id, ids, hid, -⟩ := h; cases hid
  | backoff => exact h
  | retry => exact h
  | idle => obtain ⟨-, id, ids, hid, -⟩ := h; cases hid

theorem outgoingEvents_ne_nil {pending : List (PendingEvent Envelope)} {sent : List (String × Json)}
    (hsent : outgoingEvents floats ids pending = some sent) (hpending : (toSend pending).isEmpty = false) :
    sent ≠ [] := by
  rintro rfl
  cases hevents : toSend pending with
  | nil => simp [hevents] at hpending
  | cons event events =>
    rw [outgoingEvents, hevents, List.mapM_cons] at hsent
    simp [Option.bind_eq_some_iff] at hsent

theorem outgoingEvents_spec {pending : List (PendingEvent Envelope)} {sent : List (String × Json)}
    (hsent : outgoingEvents floats ids pending = some sent) {x : String × Json} (hx : x ∈ sent) :
    outgoingEvent floats ids x.1 = some x.2 := by
  unfold outgoingEvents at hsent
  generalize toSend pending = events at hsent
  induction events generalizing sent with
  | nil =>
    simp at hsent
    simp [hsent] at hx
  | cons event events ih =>
    simp only [List.mapM_cons, Option.bind_eq_bind, Option.bind_eq_some_iff, Option.map_eq_some_iff] at hsent
    obtain ⟨_, ⟨obj, hobj, rfl⟩, rest, hrest, hsent⟩ := hsent
    obtain rfl := Option.some.inj hsent
    rcases List.mem_cons.1 hx with rfl | hx
    · exact hobj
    · exact ih hx hrest

/-! ### The invariant -/

/-- What holds of a worker and its trace between two steps. -/
structure WorkerRun.Inv (config : DrainConfig) (floats : FloatText) (s : WorkerRun) : Prop where
  lawful : Trace.Lawful (fun before entry => entry.Allowed config floats s.worker.identity before) s.trace
  pc : match s.worker.pc with
    | .start => s.trace = []
    | .machine identity _ => s.worker.identity = some identity
    | .repository identity _ => s.worker.identity = some identity ∧ ∃ earlier reply,
      s.trace = earlier ++ [.post (.machine identity.machine) reply] ∧ reply.isOk = true
    | .session identity _ => s.worker.identity = some identity ∧ ∃ earlier reply reply',
      s.trace = earlier ++ [.post (.machine identity.machine) reply,
        .post (.repository identity.repoPayload config.repoRoot) reply'] ∧
      reply.isOk = true ∧ reply'.isOk = true ∧ s.worker.ids = identity.ids reply'
    | .drain => ∃ identity, s.worker.identity = some identity ∧ RegisteredAs config identity s.worker.ids s.trace
    | .heartbeat => ∃ identity, s.worker.identity = some identity ∧ RegisteredAs config identity s.worker.ids s.trace
    | _ => True
  registered : match s.worker.pc with
    | .drain => s.worker.registered = true
    | .heartbeat => s.worker.registered = true
    | .exited _ => True
    | _ => s.worker.registered = false
  backoff : match s.worker.pc with
    | .start => True
    | .exited _ => True
    | _ => s.worker.backoff = backoffAfter config (failuresSinceIdle s.trace)

theorem WorkerRun.start_inv : WorkerRun.start.Inv config floats :=
  ⟨Trace.lawful_nil, rfl, rfl, trivial⟩

/-- A worker that stops. -/
theorem WorkerRun.Inv.exited {w : Worker} (code : Option Nat)
    (htrace : Trace.Lawful (fun before entry => entry.Allowed config floats w.identity before) trace) :
    (⟨w.goto (.exited code), trace⟩ : WorkerRun).Inv config floats :=
  ⟨htrace, trivial, trivial, trivial⟩

/-- A worker that pauses after a failure, on a trace that is lawful so far. -/
theorem WorkerRun.Inv.backOff (honce : config.once = false) {w : Worker}
    (hregistered : w.registered = false) (hbackoff : w.backoff = backoffAfter config (failuresSinceIdle trace))
    (htrace : Trace.Lawful (fun before entry => entry.Allowed config floats w.identity before) trace) :
    (⟨(w.backOff config).1, trace ++ (w.backOff config).2⟩ : WorkerRun).Inv config floats := by
  refine ⟨Trace.lawful_append_singleton.2 ⟨htrace, honce, hbackoff⟩, trivial, hregistered, ?_⟩
  simp only [Worker.backOff]
  rw [failuresSinceIdle_append_backoff, backoffAfter, hbackoff]

/-- A worker whose registration has failed. -/
theorem WorkerRun.Inv.registerFailed {w : Worker} (attempt : Nat)
    (hregistered : w.registered = false) (hbackoff : w.backoff = backoffAfter config (failuresSinceIdle trace))
    (htrace : Trace.Lawful (fun before entry => entry.Allowed config floats w.identity before) trace) :
    (⟨(w.registerFailed config attempt).1, trace ++ (w.registerFailed config attempt).2⟩ : WorkerRun).Inv
      config floats := by
  unfold Worker.registerFailed
  cases honce : config.once with
  | false => exact backOff honce hregistered hbackoff htrace
  | true =>
    simp only [if_true]
    split
    · refine ⟨Trace.lawful_append_singleton.2 ⟨htrace, honce⟩, trivial, hregistered, ?_⟩
      simp only [Worker.goto]
      rw [hbackoff]
      simp [failuresSinceIdle]
    · rw [List.append_nil]
      exact exited _ htrace

/-- A worker whose drain has failed. -/
theorem WorkerRun.Inv.drainFailed {w : Worker}
    (hbackoff : w.backoff = backoffAfter config (failuresSinceIdle trace))
    (htrace : Trace.Lawful (fun before entry => entry.Allowed config floats w.identity before) trace) :
    (⟨(w.drainFailed config).1, trace ++ (w.drainFailed config).2⟩ : WorkerRun).Inv config floats := by
  unfold Worker.drainFailed
  cases honce : config.once with
  | false =>
    have hpaused : (⟨({ w with registered := false }.backOff config).1,
        trace ++ ({ w with registered := false }.backOff config).2⟩ : WorkerRun).Inv config floats :=
      backOff honce rfl hbackoff htrace
    exact hpaused
  | true =>
    simp only [if_true]
    rw [List.append_nil]
    exact exited _ htrace

theorem resolve_isOk {events : List (PendingEvent Envelope)} {reply : Reply}
    {rejected : List (PendingEvent Envelope × Json)} (h : resolve events reply = .ok rejected) :
    reply.isOk = true := by
  cases reply with
  | failure => cases h
  | response status body =>
    rw [resolve] at h
    by_cases hstatus : status = 200
    · simp [Reply.isOk, hstatus]
    · rw [if_pos hstatus] at h
      cases h

/-- The drain step. -/
theorem WorkerRun.Inv.drain (h : s.Inv config floats) (hpc : s.worker.pc = .drain)
    (input : WorkerInput Envelope) :
    (⟨(s.worker.react config floats input).1, s.trace ++ s.worker.entries config floats input⟩ : WorkerRun).Inv
      config floats := by
  obtain ⟨hlawful, hat, hregistered, hbackoff⟩ := h
  simp only [hpc] at hat hregistered hbackoff
  obtain ⟨identity, hidentity, hat⟩ := hat
  have hstay : s.Inv config floats := by
    refine ⟨hlawful, ?_, ?_, ?_⟩ <;> simp only [hpc]
    · exact ⟨identity, hidentity, hat⟩
    · exact hregistered
    · exact hbackoff
  unfold Worker.entries Worker.post? Worker.react
  simp only [hpc]
  cases hpending : input.pending with
  | none =>
    simp only [Option.bind_none, Option.map_none, Option.toList_none, List.append_nil]
    exact exited _ hlawful
  | some pending =>
    cases pending with
    | nil =>
      simp only [Option.bind_some, toSend, List.filter_nil, List.isEmpty_nil, if_true, Option.map_none,
        Option.toList_none, List.append_nil]
      exact ⟨hlawful, ⟨identity, hidentity, hat⟩, hregistered, hbackoff⟩
    | cons event events =>
      simp only [Option.bind_some]
      cases hsend : (toSend (event :: events)).isEmpty with
      | true =>
        simp only [if_true, Option.map_none, Option.toList_none, List.append_nil]
        cases input.written with
        | true => exact hstay
        | false => exact exited _ hlawful
      | false =>
        simp only [Bool.false_eq_true, if_false]
        cases hsent : outgoingEvents floats s.worker.ids (event :: events) with
        | none =>
          simp only [Option.map_none, Option.toList_none, List.append_nil]
          exact exited _ hlawful
        | some sent =>
          simp only [Option.map_some, Option.toList_some]
          have hposted : Trace.Lawful (fun before entry => entry.Allowed config floats s.worker.identity before)
              (s.trace ++ [.post (.events sent) input.reply]) := by
            refine Trace.lawful_append_singleton.2 ⟨hlawful, identity, s.worker.ids, hidentity, hat, ?_, ?_⟩
            · exact outgoingEvents_ne_nil hsent hsend
            · exact fun x hx => outgoingEvents_spec hsent hx
          have hpause : s.worker.backoff =
              backoffAfter config (failuresSinceIdle (s.trace ++ [.post (.events sent) input.reply])) := by
            rw [failuresSinceIdle_append_post, hbackoff]
          cases hresolve : resolve (toSend (event :: events)) input.reply with
          | error e =>
            simp only
            rw [← List.append_assoc]
            exact drainFailed hpause hposted
          | ok rejected =>
            simp only [List.append_nil]
            cases input.written with
            | true =>
              refine ⟨hposted, ?_, ?_, ?_⟩ <;> simp only [if_true, hpc]
              · exact ⟨identity, hidentity, hat.quiet _ (resolve_isOk hresolve)⟩
              · exact hregistered
              · exact hpause
            | false => exact exited _ hposted

/-- A request of a registration, with what follows from its answer. -/
theorem WorkerRun.Inv.register {w : Worker} {post : Post} (attempt : Nat)
    {reply : Reply} {after : Worker} (hregistered : w.registered = false)
    (hbackoff : w.backoff = backoffAfter config (failuresSinceIdle trace))
    (htrace : Trace.Lawful (fun before entry => entry.Allowed config floats w.identity before) trace)
    (hpost : (WorkerEntry.post post reply).Allowed config floats w.identity trace)
    (hok : reply.isOk = true → (⟨after, trace ++ [.post post reply]⟩ : WorkerRun).Inv config floats) :
    (⟨(if reply.isOk then (after, []) else w.registerFailed config attempt).1, trace ++ ([.post post reply] ++
      (if reply.isOk then (after, []) else w.registerFailed config attempt).2)⟩ : WorkerRun).Inv config floats := by
  cases hreply : reply.isOk with
  | true =>
    simp only [if_true, List.append_nil]
    exact hok hreply
  | false =>
    simp only [Bool.false_eq_true, if_false]
    rw [← List.append_assoc]
    refine registerFailed attempt hregistered ?_ (Trace.lawful_append_singleton.2 ⟨htrace, hpost⟩)
    rw [failuresSinceIdle_append_post, hbackoff]

/-- The steps of `_register_once`. -/
theorem WorkerRun.Inv.registerOnce (h : s.Inv config floats)
    (hpc : (∃ identity attempt, s.worker.pc = .machine identity attempt) ∨
      (∃ identity attempt, s.worker.pc = .repository identity attempt) ∨
      ∃ identity attempt, s.worker.pc = .session identity attempt)
    (input : WorkerInput Envelope) :
    (⟨(s.worker.react config floats input).1, s.trace ++ s.worker.entries config floats input⟩ : WorkerRun).Inv
      config floats := by
  obtain ⟨hlawful, hat, hregistered, hbackoff⟩ := h
  unfold Worker.entries Worker.post? Worker.react
  rcases hpc with ⟨identity, attempt, hpc⟩ | ⟨identity, attempt, hpc⟩ | ⟨identity, attempt, hpc⟩
  · simp only [hpc] at hat hregistered hbackoff ⊢
    have hpost : (WorkerEntry.post (.machine identity.machine) input.reply).Allowed config floats s.worker.identity
        s.trace := ⟨identity, hat, rfl⟩
    refine register attempt hregistered hbackoff hlawful hpost fun hok => ?_
    refine ⟨Trace.lawful_append_singleton.2 ⟨hlawful, hpost⟩, ⟨hat, s.trace, input.reply, rfl, hok⟩, hregistered, ?_⟩
    exact hbackoff.trans (by rw [failuresSinceIdle_append_post])
  · simp only [hpc] at hat hregistered hbackoff ⊢
    obtain ⟨hidentity, earlier, reply, htrace, hreply⟩ := hat
    have hpost : (WorkerEntry.post (.repository identity.repoPayload config.repoRoot) input.reply).Allowed config floats
        s.worker.identity s.trace := ⟨identity, hidentity, rfl, rfl, earlier, reply, htrace, hreply⟩
    refine register attempt hregistered hbackoff hlawful hpost fun hok => ?_
    refine ⟨Trace.lawful_append_singleton.2 ⟨hlawful, hpost⟩,
      ⟨hidentity, earlier, reply, input.reply, by rw [htrace]; simp, hreply, hok, rfl⟩, hregistered, ?_⟩
    exact hbackoff.trans (by rw [failuresSinceIdle_append_post])
  · simp only [hpc] at hat hregistered hbackoff ⊢
    obtain ⟨hidentity, earlier, reply, reply', htrace, hreply, hreply', hids⟩ := hat
    have hpost : (WorkerEntry.post (.session (identity.sessionPayload s.worker.ids)) input.reply).Allowed config floats
        s.worker.identity s.trace :=
      ⟨identity, hidentity, earlier, reply, reply', htrace, hreply, hreply', by rw [hids]⟩
    refine register attempt hregistered hbackoff hlawful hpost fun hok => ?_
    refine ⟨Trace.lawful_append_singleton.2 ⟨hlawful, hpost⟩, ⟨identity, hidentity, ?_⟩, rfl, ?_⟩
    · refine ⟨earlier, reply, reply', input.reply, [], by rw [htrace]; simp, hreply, hreply', hok, hids, ?_⟩
      simp
    · exact hbackoff.trans (by rw [failuresSinceIdle_append_post])

/-- Every step keeps the invariant. -/
theorem WorkerRun.Inv.next (h : s.Inv config floats) {a : WorkerAct Envelope}
    (hnext : s.next config floats a = some s') : s'.Inv config floats := by
  have hall := h
  obtain ⟨hlawful, hat, hregistered, hbackoff⟩ := hall
  cases a with
  | stop code =>
    obtain rfl := Option.some.inj hnext
    exact exited code hlawful
  | step input =>
    obtain rfl := Option.some.inj hnext
    cases hpc : s.worker.pc with
    | start =>
      simp only [hpc] at hat hregistered
      unfold Worker.entries Worker.post? Worker.react
      simp only [hpc, Option.map_none, Option.toList_none]
      split
      · rw [List.append_nil, List.append_nil]
        exact exited _ hlawful
      · refine ⟨by simpa using hlawful, trivial, hregistered, ?_⟩
        simp [hat, failuresSinceIdle, backoffAfter]
    | identity attempt =>
      simp only [hpc] at hregistered hbackoff
      unfold Worker.entries Worker.post? Worker.react
      simp only [hpc, Option.map_none, Option.toList_none, List.nil_append]
      cases hidentity : s.worker.identity with
      | some identity =>
        simp only [List.append_nil]
        exact ⟨hlawful, hidentity, hregistered, hbackoff⟩
      | none =>
        cases input.load with
        | fatal =>
          simp only [List.append_nil]
          exact exited _ hlawful
        | unavailable => exact registerFailed attempt hregistered hbackoff hlawful
        | loaded identity =>
          simp only [List.append_nil]
          refine ⟨?_, rfl, hregistered, hbackoff⟩
          rw [hidentity] at hlawful
          exact hlawful.imp fun before entry hentry => hentry.of_none _
    | machine identity attempt => exact h.registerOnce (Or.inl ⟨identity, attempt, hpc⟩) input
    | repository identity attempt => exact h.registerOnce (Or.inr (Or.inl ⟨identity, attempt, hpc⟩)) input
    | session identity attempt => exact h.registerOnce (Or.inr (Or.inr ⟨identity, attempt, hpc⟩)) input
    | drain => exact h.drain hpc input
    | heartbeat =>
      simp only [hpc] at hat hregistered hbackoff
      obtain ⟨identity, hidentity, hat⟩ := hat
      unfold Worker.entries Worker.post? Worker.react
      simp only [hpc, hidentity, Option.map_some, Option.toList_some]
      have hposted : Trace.Lawful (fun before entry => entry.Allowed config floats s.worker.identity before)
          (s.trace ++ [.post (.heartbeat identity.sessionId) input.reply]) :=
        Trace.lawful_append_singleton.2 ⟨hlawful, identity, s.worker.ids, hidentity, hat, rfl⟩
      have hstands := hat.quiet (.post (.heartbeat identity.sessionId) input.reply) trivial
      cases honce : config.once with
      | true =>
        simp only [if_true, List.append_nil]
        exact exited _ hposted
      | false =>
        simp only [Bool.false_eq_true, if_false, hregistered, if_true]
        rw [← List.append_assoc]
        rw [hidentity] at hposted
        refine ⟨Trace.lawful_append_singleton.2 ⟨hposted, honce, identity, s.worker.ids, rfl, hstands⟩,
          ⟨identity, rfl, hstands.quiet (WorkerEntry.idle) trivial⟩, rfl, ?_⟩
        simp only
        rw [failuresSinceIdle_append_idle, backoffAfter]
    | exited code =>
      unfold Worker.entries Worker.post? Worker.react
      simp only [hpc, Option.map_none, Option.toList_none, List.append_nil]
      exact exited _ hlawful

end

/-- **What a worker does is in order.**  Whatever the server answers and whenever the worker is stopped: a batch or a
heartbeat is sent only after machine, repository and session have been registered, in this order, and no batch has
failed since; all of it is done under one identity and one session; an event is made of its line with the ids of that
registration; and the backoff of the pauses after failures doubles up to the bound and starts anew after a clean
cycle. -/
theorem worker_lawful {Envelope : Type} {config : DrainConfig} (floats : FloatText)
    {acts : List (WorkerAct Envelope)} {s : WorkerRun}
    (hrun : Run.exec (WorkerRun.next config floats) WorkerRun.start acts = some s) :
    Trace.Lawful (fun before entry => entry.Allowed config floats s.worker.identity before) s.trace ∧
      (0 ≤ config.backoffMax → ∀ failures, backoffAfter config failures =
        if failures = 0 then config.backoffInitial
        else min (config.backoffInitial * 2 ^ failures) config.backoffMax) := by
  have hinv := Run.invariant (I := WorkerRun.Inv config floats) (fun _ _ _ h hnext => h.next hnext)
    WorkerRun.start_inv hrun
  refine ⟨hinv.lawful, fun hmax failures => ?_⟩
  cases failures with
  | zero => rfl
  | succ failures => exact backoffAfter_eq hmax failures

/-! ### A run -/

private def noFloatText : FloatText := ⟨fun _ => .nan, fun _ => "NaN"⟩

private def deskConfig : DrainConfig := ⟨false, false, "/src", 1, 60⟩

private def deskIdentity : WorkerIdentity :=
  ⟨⟨"mach_1", "desk", "linux", 0⟩, ⟨"repo_2", none, none, some "mach_0", 0⟩, "sess_1", "agent_1", 0⟩

private def answered (fields : List (String × Json)) : Reply := .response 200 (some (.obj fields))

private def meets (reply : Reply) (pending : List (PendingEvent Unit)) : WorkerAct Unit :=
  .step ⟨.loaded deskIdentity, reply, some pending, true⟩

/-- The server is down at first, then it knows the checkout as `repo_1`; one event is sent, and its answer is lost. -/
private def deskActs : List (WorkerAct Unit) :=
  [meets .failure [], meets .failure [], meets .failure [], meets .failure [], meets (answered []) [],
    meets (answered [("repository_id", .str "repo_1")]) [], meets (answered []) [],
    meets .failure [⟨some (), "\x7b\"repository_id\": \"repo_2\"\x7d", 28, none⟩]]

theorem desk_lawful : ∃ s, Run.exec (WorkerRun.next deskConfig noFloatText) WorkerRun.start deskActs = some s ∧
    s.trace.length = 7 ∧
    Trace.Lawful (fun before entry => entry.Allowed deskConfig noFloatText s.worker.identity before) s.trace ∧
    backoffAfter deskConfig 7 = 60 := by
  have hend : (Run.exec (WorkerRun.next deskConfig noFloatText) WorkerRun.start deskActs).any
      (fun s => s.trace.length = 7) = true := by
    decide +kernel
  cases hrun : Run.exec (WorkerRun.next deskConfig noFloatText) WorkerRun.start deskActs with
  | none => simp [hrun] at hend
  | some s =>
    rw [hrun] at hend
    obtain ⟨hlawful, hdoubles⟩ := worker_lawful noFloatText hrun
    exact ⟨s, rfl, by simpa using hend, hlawful, (hdoubles (by decide +kernel) 7).trans (by decide +kernel)⟩

end AgentOS
