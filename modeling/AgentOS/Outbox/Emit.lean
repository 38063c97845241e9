import AgentOS.Contracts

/-!
# Emitting lifecycle events

`emit_event` and the emitters of `outbox/emit.py` that the hooks of `scripts/hook_common.py` use.  An emitter that fails
emits nothing, and never raises.
-/

namespace AgentOS

/-- `_resolve_context`: the identities of the checkout. -/
structure EmitContext where
  machineId : String
  repositoryId : String
  projectId : Option String

/-- The items whose value is not `None`. -/
def presentItems (items : List (String × Json)) : List (String × Json) :=
  items.filter fun item => match item.2 with
    | .null => false
    | _ => true

/-- `emit_event` without a task or an agent, the id and the time being new; `none` where the session id is no string,
which fails the validation of the envelope. -/
def emitEvent (context : EmitContext) (eventId : String) (now : Int) (eventType : String)
    (payload : List (String × Json)) (agentId : Option String) (sessionId : Json) : Option EventEnvelope :=
  let envelope (sessionId : Option String) : EventEnvelope := {
    eventId := eventId, eventType := eventType, occurredAt := now, machineId := context.machineId, agentId := agentId
    sessionId := sessionId, projectId := context.projectId, repositoryId := some context.repositoryId, taskId := none
    payload := payload, schemaVersion := 1 }
  match sessionId with
  | .null => some (envelope none)
  | .str s => some (envelope (some s))
  | _ => none

/-- `emit_agent_started`. -/
def emitAgentStarted (context : EmitContext) (eventId : String) (now : Int) (sessionId source reason : Json) :
    Option EventEnvelope :=
  emitEvent context eventId now "agent.started" (presentItems [("source", source), ("reason", reason)]) none sessionId

/-- `emit_agent_finished`. -/
def emitAgentFinished (context : EmitContext) (eventId : String) (now : Int) (sessionId : Json)
    (agentId : Option String) (reason scope : Json) : Option EventEnvelope :=
  emitEvent context eventId now "agent.finished" (presentItems [("reason", reason), ("scope", scope)]) agentId sessionId

/-- A firing of a hook: its `--reason` and the payload it reads, with the event id and the time that an emission would
take. -/
structure HookFiring where
  reason : String
  payload : Json
  eventId : String
  firedAt : Int

/-- `payload.get(key) if isinstance(payload, dict) else None`. -/
def HookFiring.get (firing : HookFiring) (key : String) : Json :=
  match firing.payload with
  | .obj fields => Json.get fields key
  | _ => .null

/-- `emit_lifecycle_event`. -/
def emitLifecycleEvent (context : EmitContext) (firing : HookFiring) : Option EventEnvelope :=
  let sessionId := firing.get "session_id"
  if firing.reason = "session-start" then
    emitAgentStarted context firing.eventId firing.firedAt sessionId (firing.get "source") (.str firing.reason)
  else if firing.reason = "subagent-stop" then
    emitAgentFinished context firing.eventId firing.firedAt sessionId none (.str firing.reason) (.str "subagent")
  else if firing.reason = "session-end" then
    emitAgentFinished context firing.eventId firing.firedAt sessionId none (.str firing.reason) (.str "session")
  else none

/-- `is_lifecycle_reason`. -/
def isLifecycleReason (reason : String) : Bool :=
  reason = "session-start" || reason = "subagent-stop" || reason = "session-end"

/-- The type of the event that a lifecycle hook emits. -/
def lifecycleEventType (reason : String) : String :=
  if reason = "session-start" then "agent.started" else "agent.finished"

/-- A hook firing of the session `sid`. -/
def HookFiring.OfSession (sid : String) (firing : HookFiring) : Prop := firing.get "session_id" = .str sid

theorem get_presentItems {items : List (String × Json)} {key : String} (h : key ∉ items.map Prod.fst) :
    Json.get (presentItems items) key = .null := by
  have hlookup : (presentItems items).lookup key = none := by
    refine List.lookup_eq_none_iff.2 fun item hitem => ?_
    have hne : key ≠ item.1 := fun hk => h (hk ▸ List.mem_map_of_mem (List.mem_filter.1 hitem).1)
    simpa using hne
  rw [Json.get, hlookup]
  rfl

theorem emitLifecycleEvent_other {context : EmitContext} {firing : HookFiring}
    (h : isLifecycleReason firing.reason = false) : emitLifecycleEvent context firing = none := by
  simp only [isLifecycleReason, Bool.or_eq_false_iff, decide_eq_false_iff_not] at h
  obtain ⟨⟨h₁, h₂⟩, h₃⟩ := h
  rw [emitLifecycleEvent, if_neg h₁, if_neg h₂, if_neg h₃]

/-- What a lifecycle hook of a session emits: the session is set and the agent is not. -/
structure LifecycleEvent (sid : String) (firing : HookFiring) (env : EventEnvelope) : Prop where
  eventId : env.eventId = firing.eventId
  eventType : env.eventType = lifecycleEventType firing.reason
  sessionId : env.sessionId = some sid
  agentId : env.agentId = none
  capabilities : Json.get env.payload "capabilities" = .null

theorem exists_lifecycleEvent (context : EmitContext) {firing : HookFiring} {sid : String}
    (hsession : firing.OfSession sid) (h : isLifecycleReason firing.reason = true) :
    ∃ env, emitLifecycleEvent context firing = some env ∧ LifecycleEvent sid firing env := by
  have hcaps : ∀ v w, Json.get (presentItems [("source", v), ("reason", w)]) "capabilities" = .null ∧
      Json.get (presentItems [("reason", v), ("scope", w)]) "capabilities" = .null :=
    fun v w => ⟨get_presentItems (by simp), get_presentItems (by simp)⟩
  have hsid : firing.get "session_id" = .str sid := hsession
  unfold emitLifecycleEvent
  dsimp only
  rw [hsid]
  by_cases hstart : firing.reason = "session-start"
  · rw [if_pos hstart]
    refine ⟨_, rfl, rfl, ?_, rfl, rfl, (hcaps _ _).1⟩
    rw [lifecycleEventType, if_pos hstart]
  · rw [if_neg hstart]
    have hfinished : lifecycleEventType firing.reason = "agent.finished" := if_neg hstart
    by_cases hstop : firing.reason = "subagent-stop"
    · rw [if_pos hstop]
      exact ⟨_, rfl, rfl, hfinished.symm, rfl, rfl, (hcaps (.str firing.reason) (.str "subagent")).2⟩
    · have hend : firing.reason = "session-end" := by
        simpa [isLifecycleReason, hstart, hstop] using h
      rw [if_neg hstop, if_pos hend]
      exact ⟨_, rfl, rfl, hfinished.symm, rfl, rfl, (hcaps (.str firing.reason) (.str "session")).2⟩

end AgentOS
