import AgentOS.Hub.Routes
import AgentOS.Lib.Fold

/-!
# From a request body to a prepared batch

`_prepare_event` parses an item of `/v1/events/batch` as an `EventEnvelope`, and records what it cannot parse with the
reason.  How pydantic reads an integer and an aware datetime is a parameter; what it does with strings, dicts and
missing fields is written out.
-/

namespace AgentOS

/-- Every character lies in the basic multilingual plane. -/
def Bmp (s : String) : Prop := ∀ c ∈ s.toList, c.toNat < 0x10000

/-- pydantic on the types `int` and `AwareDatetime`; an error is a message of its fixed English texts. -/
structure Pydantic where
  int : Json → Except String Int
  awareDatetime : Json → Except String Int
  int_message : ∀ v msg, int v = .error msg → Bmp msg
  awareDatetime_message : ∀ v msg, awareDatetime v = .error msg → Bmp msg

/-! ### `EventEnvelope.model_validate` -/

/-- A segment of `NAMESPACED_NAME`: `[a-z][a-z0-9_]*`. -/
def isSegment : List Char → Bool
  | [] => false
  | c :: cs => ('a' ≤ c && c ≤ 'z') && cs.all fun c => ('a' ≤ c && c ≤ 'z') || ('0' ≤ c && c ≤ '9') || c == '_'

/-- `NAMESPACED_NAME`. -/
def isNamespacedName (s : String) : Bool :=
  let segments := s.toList.splitOn '.'
  2 ≤ segments.length && segments.all isSegment

/-- A field of type `str`. -/
def validStr : Json → Except String String
  | .str s => .ok s
  | _ => .error "Input should be a valid string"

/-- A field of type `Optional[str]`. -/
def validOptStr : Json → Except String (Option String)
  | .null => .ok none
  | .str s => .ok (some s)
  | _ => .error "Input should be a valid string"

/-- A field of type `Dotted`. -/
def validDotted : Json → Except String String
  | .str s =>
    if isNamespacedName s then .ok s
    else .error "String should match pattern '^[a-z][a-z0-9_]*(\\.[a-z][a-z0-9_]*)+$'"
  | _ => .error "Input should be a valid string"

/-- A field of type `Dict[str, Any]`. -/
def validDict : Json → Except String (List (String × Json))
  | .obj fields => .ok fields
  | _ => .error "Input should be a valid dictionary"

/-- A field of a model; an error is the location and the message. -/
def validField {α : Type} (item : List (String × Json)) (name : String) (default : Option α)
    (check : Json → Except String α) : Except (String × String) α :=
  match item.lookup name with
  | some v => (check v).mapError fun msg => (name, msg)
  | none => match default with
    | some d => .ok d
    | none => .error (name, "Field required")

/-- The error of a check, if any. -/
def errorOf {ε α : Type} : Except ε α → Option ε
  | .ok _ => none
  | .error e => some e

/-- `EventEnvelope.model_validate(item)`; an error holds the location and the message of every field that fails, in
their order. -/
def EventEnvelope.modelValidate (pydantic : Pydantic) (item : List (String × Json)) :
    Except (List (String × String)) EventEnvelope :=
  let schemaVersion := validField item "schema_version" (some 1) pydantic.int
  let eventId := validField item "event_id" none validStr
  let eventType := validField item "event_type" none validDotted
  let occurredAt := validField item "occurred_at" none pydantic.awareDatetime
  let machineId := validField item "machine_id" none validStr
  let agentId := validField item "agent_id" (some none) validOptStr
  let sessionId := validField item "session_id" (some none) validOptStr
  let projectId := validField item "project_id" (some none) validOptStr
  let repositoryId := validField item "repository_id" (some none) validOptStr
  let taskId := validField item "task_id" (some none) validOptStr
  let payload := validField item "payload" (some []) validDict
  let parsed : Except (String × String) EventEnvelope := do
    pure {
      schemaVersion := ← schemaVersion, eventId := ← eventId, eventType := ← eventType, occurredAt := ← occurredAt
      machineId := ← machineId, agentId := ← agentId, sessionId := ← sessionId, projectId := ← projectId
      repositoryId := ← repositoryId, taskId := ← taskId, payload := ← payload }
  match parsed with
  | .ok env => .ok env
  | .error _ => .error ([errorOf schemaVersion, errorOf eventId, errorOf eventType, errorOf occurredAt,
      errorOf machineId, errorOf agentId, errorOf sessionId, errorOf projectId, errorOf repositoryId, errorOf taskId,
      errorOf payload].filterMap id)

/-! ### `_prepare_event` -/

/-- `sep.join(parts)`. -/
def joinWith (sep : String) : List String → String
  | [] => ""
  | [part] => part
  | part :: parts => part ++ sep ++ joinWith sep parts

/-- `_validation_detail`. -/
def validationDetail (errors : List (String × String)) : String :=
  let parts := (errors.take 5).map fun (loc, msg) => if loc ≠ "" then loc ++ ": " ++ msg else msg
  String.ofList ((joinWith "; " parts).toList.take 500)

/-- `_MAX_RAW_BYTES`. -/
def maxRawBytes : Nat := 8192

/-- `_compact_json`. -/
def compactJson (reprFloat : PyFloat → String) (item : Json) : String :=
  String.ofList ((dumpsPlain reprFloat item).toList.take maxRawBytes)

/-- `_prepare_event`. -/
def prepareEvent (sql : Sql) (pydantic : Pydantic) (item : Json) : PreparedEvent :=
  let raw := compactJson sql.reprFloat item
  match item with
  | .obj fields => match EventEnvelope.modelValidate pydantic fields with
    | .ok env => .valid env raw
    | .error errors =>
      .rejected raw (some ("invalid envelope: " ++ validationDetail errors)) (Json.get fields "machine_id").asStr
  | _ => .rejected raw (some "event must be a JSON object") none

/-- `ingest_batch` on a body that `request.get_json` has parsed. -/
def ingestBatch {sql : Sql} (pydantic : Pydantic) (fault : Option DbStep) (db : Db sql) (auth : AuthContext)
    (data : Json) : Db sql × BatchResponse :=
  match data with
  | .obj fields => match Json.get fields "events" with
    | .arr events => ingestPrepared fault db auth (events.map (prepareEvent sql pydantic))
    | _ => (db, .error 400 "invalid_payload")
  | _ => (db, .error 400 "invalid_payload")

/-! ### What validation guarantees -/

/-- The envelope of a valid item has the `machine_id` of the item. -/
theorem modelValidate_machineId {pydantic : Pydantic} {item : List (String × Json)} {env : EventEnvelope}
    (h : EventEnvelope.modelValidate pydantic item = .ok env) :
    (Json.get item "machine_id").asStr = some env.machineId := by
  unfold EventEnvelope.modelValidate at h
  dsimp only at h
  split at h
  case h_2 => cases h
  case h_1 env' hparsed =>
    obtain rfl := Except.ok.inj h
    simp only [Except.bind_eq_ok] at hparsed
    obtain ⟨_, -, _, -, _, -, _, -, machineId, hmachine, _, -, _, -, _, -, _, -, _, -, _, -, henv⟩ := hparsed
    obtain rfl := Except.ok.inj henv
    unfold validField at hmachine
    cases hv : item.lookup "machine_id" with
    | none =>
      rw [hv] at hmachine
      cases hmachine
    | some v =>
      rw [hv] at hmachine
      rw [Json.get, hv, Option.getD_some]
      cases v with
      | str s =>
        obtain rfl := Except.ok.inj hmachine
        rfl
      | _ => cases hmachine

theorem bmp_of_all {s : String} (h : s.toList.all (fun c => c.toNat < 0x10000) = true) : Bmp s :=
  fun c hc => of_decide_eq_true (List.all_eq_true.1 h c hc)

theorem Bmp.append {s t : String} (hs : Bmp s) (ht : Bmp t) : Bmp (s ++ t) := by
  intro c hc
  rw [String.toList_append, List.mem_append] at hc
  exact hc.elim (hs c) (ht c)

theorem Bmp.take {s : String} (hs : Bmp s) (n : Nat) : Bmp (String.ofList (s.toList.take n)) := by
  intro c hc
  rw [String.toList_ofList] at hc
  exact hs c (List.mem_of_mem_take hc)

theorem Bmp.joinWith {sep : String} (hsep : Bmp sep) {parts : List String} (h : ∀ part ∈ parts, Bmp part) :
    Bmp (joinWith sep parts) := by
  induction parts with
  | nil => exact fun _ h => by cases h
  | cons part parts ih =>
    have hpart := h part List.mem_cons_self
    cases parts with
    | nil => exact hpart
    | cons part' parts =>
      exact (hpart.append hsep).append (ih fun p hp => h p (List.mem_cons_of_mem _ hp))

/-- A check whose messages are plain text. -/
private theorem errorOf_validField {α : Type} {item : List (String × Json)} {name : String} {default : Option α}
    {check : Json → Except String α} (hname : Bmp name) (hcheck : ∀ v msg, check v = .error msg → Bmp msg)
    {error : String × String} (h : errorOf (validField item name default check) = some error) :
    Bmp error.1 ∧ Bmp error.2 := by
  unfold validField at h
  split at h
  case h_1 v _ =>
    cases hv : check v with
    | ok a =>
      rw [hv] at h
      cases h
    | error msg =>
      rw [hv] at h
      obtain rfl := Option.some.inj h
      exact ⟨hname, hcheck v msg hv⟩
  case h_2 =>
    split at h
    · cases h
    · obtain rfl := Option.some.inj h
      have hmissing : Bmp "Field required" := bmp_of_all (by decide)
      exact ⟨hname, hmissing⟩

private theorem validStr_message (v : Json) (msg : String) (h : validStr v = .error msg) : Bmp msg := by
  have hmsg : msg = "Input should be a valid string" := by
    cases v <;> simp_all [validStr]
  rw [hmsg]
  exact bmp_of_all (by decide)

private theorem validOptStr_message (v : Json) (msg : String) (h : validOptStr v = .error msg) : Bmp msg := by
  have hmsg : msg = "Input should be a valid string" := by
    cases v <;> simp_all [validOptStr]
  rw [hmsg]
  exact bmp_of_all (by decide)

private theorem validDict_message (v : Json) (msg : String) (h : validDict v = .error msg) : Bmp msg := by
  have hmsg : msg = "Input should be a valid dictionary" := by
    cases v <;> simp_all [validDict]
  rw [hmsg]
  exact bmp_of_all (by decide)

private theorem validDotted_message (v : Json) (msg : String) (h : validDotted v = .error msg) : Bmp msg := by
  unfold validDotted at h
  split at h
  · split at h
    · cases h
    · obtain rfl := Except.error.inj h
      exact bmp_of_all (by decide)
  · obtain rfl := Except.error.inj h
    exact bmp_of_all (by decide)

/-- The message of every error is plain text. -/
theorem modelValidate_message {pydantic : Pydantic} {item : List (String × Json)} {errors : List (String × String)}
    (h : EventEnvelope.modelValidate pydantic item = .error errors) {error : String × String}
    (herror : error ∈ errors) : Bmp error.1 ∧ Bmp error.2 := by
  unfold EventEnvelope.modelValidate at h
  dsimp only at h
  split at h
  case h_1 => cases h
  case h_2 =>
    obtain rfl := Except.error.inj h
    obtain ⟨found, hfound, hid⟩ := List.mem_filterMap.1 herror
    obtain rfl : found = some error := hid
    have hname : Bmp "schema_version" ∧ Bmp "event_id" ∧ Bmp "event_type" ∧ Bmp "occurred_at" ∧ Bmp "machine_id" ∧
        Bmp "agent_id" ∧ Bmp "session_id" ∧ Bmp "project_id" ∧ Bmp "repository_id" ∧ Bmp "task_id" ∧
        Bmp "payload" := by
      refine ⟨?_, ?_, ?_, ?_, ?_, ?_, ?_, ?_, ?_, ?_, ?_⟩ <;> exact bmp_of_all (by decide)
    obtain ⟨h₁, h₂, h₃, h₄, h₅, h₆, h₇, h₈, h₉, h₁₀, h₁₁⟩ := hname
    simp only [List.mem_cons, List.not_mem_nil, or_false] at hfound
    rcases hfound with h | h | h | h | h | h | h | h | h | h | h
    · exact errorOf_validField h₁ pydantic.int_message h.symm
    · exact errorOf_validField h₂ validStr_message h.symm
    · exact errorOf_validField h₃ validDotted_message h.symm
    · exact errorOf_validField h₄ pydantic.awareDatetime_message h.symm
    · exact errorOf_validField h₅ validStr_message h.symm
    · exact errorOf_validField h₆ validOptStr_message h.symm
    · exact errorOf_validField h₇ validOptStr_message h.symm
    · exact errorOf_validField h₈ validOptStr_message h.symm
    · exact errorOf_validField h₉ validOptStr_message h.symm
    · exact errorOf_validField h₁₀ validOptStr_message h.symm
    · exact errorOf_validField h₁₁ validDict_message h.symm

theorem validationDetail_bmp {errors : List (String × String)} (h : ∀ error ∈ errors, Bmp error.1 ∧ Bmp error.2) :
    Bmp (validationDetail errors) := by
  refine Bmp.take (Bmp.joinWith (bmp_of_all (by decide)) fun part hpart => ?_) 500
  obtain ⟨⟨loc, msg⟩, herror, rfl⟩ := List.mem_map.1 hpart
  obtain ⟨hloc, hmsg⟩ := h _ (List.mem_of_mem_take herror)
  have hsep : Bmp ": " := bmp_of_all (by decide)
  dsimp only
  split
  · exact (hloc.append hsep).append hmsg
  · exact hmsg

/-- The reason that is recorded for a rejected item is plain text. -/
theorem prepareEvent_error {sql : Sql} {pydantic : Pydantic} {item : Json} {error : String}
    (h : (prepareEvent sql pydantic item).error = some error) : Bmp error := by
  unfold prepareEvent at h
  dsimp only at h
  split at h
  case h_1 fields =>
    split at h
    · cases h
    case h_2 errors herrors =>
      obtain rfl := Option.some.inj h
      have hprefix : Bmp "invalid envelope: " := bmp_of_all (by decide)
      exact hprefix.append (validationDetail_bmp fun e he => modelValidate_message herrors he)
  case h_2 =>
    obtain rfl := Option.some.inj h
    exact bmp_of_all (by decide)

end AgentOS
