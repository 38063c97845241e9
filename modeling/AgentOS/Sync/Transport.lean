import AgentOS.Hub.Prepare
import AgentOS.Outbox.Worker

/-!
# What a batch is on its way

A line of the outbox is parsed, its repository is named as the server names it, and it is written again, as a part of
the body that `post_json` sends; the server parses the body and keeps the text of each event (`_compact_json`).
`batch_arrives` says that on this way an event is changed nowhere but in `_outgoing_event`, and that what the server
keeps is the whole event, unless it was cut.
-/

namespace AgentOS

/-- The keys of a dict. -/
def Json.keys (fields : List (String × Json)) : List String := fields.map Prod.fst

/-- The event says what the line says, but for the repository. -/
def SameButRepository (line event : Json) : Prop :=
  match line with
  | .obj fields => ∃ fields', event = .obj fields' ∧ Json.keys fields' = Json.keys fields ∧
    ∀ key, key ≠ "repository_id" → Json.get fields' key = Json.get fields key
  | _ => event = line

/-- The answers of a run are what `json.loads` returns. -/
def RepliesParsed (floats : FloatText) (trace : List WorkerEntry) : Prop :=
  ∀ post status body, .post post (.response status (some body)) ∈ trace → ∃ text, loads floats.parse text = some body

namespace Json

theorem get_set_ne {fields : List (String × Json)} {key key' : String} {value : Json} (h : key' ≠ key) :
    get (set fields key value) key' = get fields key' := by
  induction fields with
  | nil =>
    have hne : (key' == key) = false := by simpa using h
    simp [set, get, List.lookup_cons, hne]
  | cons field fields ih =>
    obtain ⟨k, v⟩ := field
    unfold get at ih ⊢
    rw [set]
    by_cases hkey : k = key
    · have hne : (key' == k) = false := by simpa [hkey] using h
      rw [if_pos hkey, List.lookup_cons, List.lookup_cons, hne]
    · rw [if_neg hkey, List.lookup_cons, List.lookup_cons]
      cases key' == k with
      | true => rfl
      | false => exact ih

theorem keys_set {fields : List (String × Json)} {key : String} {value : Json} (h : key ∈ keys fields) :
    keys (set fields key value) = keys fields := by
  induction fields with
  | nil => cases h
  | cons field fields ih =>
    unfold set
    by_cases hkey : field.1 = key
    · simp [hkey, keys]
    · rw [if_neg hkey]
      rcases List.mem_cons.1 h with h | h
      · exact absurd h.symm hkey
      · simpa [keys] using ih h

theorem mem_keys_of_get {fields : List (String × Json)} {key : String} (h : get fields key ≠ .null) :
    key ∈ keys fields := by
  by_contra hmem
  refine h ?_
  rw [get, List.lookup_eq_none_iff.2, Option.getD_none]
  intro field hfield
  have hne : key ≠ field.1 := by
    rintro rfl
    exact hmem (List.mem_map_of_mem hfield)
  simpa using hne

end Json

section

variable {floats : FloatText} {ids : RepoIds} {line : String} {event : Json}

theorem SameButRepository.refl (value : Json) : SameButRepository value value := by
  cases value with
  | obj fields => exact ⟨fields, rfl, rfl, fun _ _ => rfl⟩
  | _ => rfl

/-- `_outgoing_event` changes the repository or nothing. -/
theorem outgoingEvent_cases (h : outgoingEvent floats ids line = some event) :
    ∃ value, loads floats.parse line = some value ∧ (event = value ∨ ∃ fields, value = .obj fields ∧
      Json.get fields "repository_id" ≠ .null ∧ event = .obj (Json.set fields "repository_id" ids.canonicalId)) := by
  obtain ⟨value, hloads, hevent⟩ := Option.map_eq_some_iff.1 h
  refine ⟨value, hloads, ?_⟩
  split at hevent
  case h_1 => exact .inl hevent.symm
  case h_2 _ _ fields _ _ _ =>
    split at hevent
    case isTrue hcond =>
      refine .inr ⟨fields, rfl, ?_, hevent.symm⟩
      intro hnull
      rw [hnull] at hcond
      exact absurd hcond.2 (by simp [Json.asStr])
    case isFalse => exact .inl hevent.symm
  case h_3 => exact .inl hevent.symm

theorem outgoingEvent_same (h : outgoingEvent floats ids line = some event) :
    ∃ value, loads floats.parse line = some value ∧ SameButRepository value event := by
  obtain ⟨value, hloads, hevent⟩ := outgoingEvent_cases h
  refine ⟨value, hloads, ?_⟩
  rcases hevent with rfl | ⟨fields, rfl, hget, rfl⟩
  · exact .refl event
  · refine ⟨_, rfl, Json.keys_set (Json.mem_keys_of_get hget), ?_⟩
    intro key hkey
    exact Json.get_set_ne hkey

theorem outgoingEvent_printable (hrepr : FloatRepr floats.parse floats.repr)
    (hid : ids.canonicalId.Printable floats.parse floats.repr) (h : outgoingEvent floats ids line = some event) :
    event.Printable floats.parse floats.repr := by
  obtain ⟨value, hloads, hevent⟩ := outgoingEvent_cases h
  have hvalue := printable_of_loads hrepr hloads
  rcases hevent with rfl | ⟨fields, rfl, -, rfl⟩
  · exact hvalue
  · exact hvalue.set "repository_id" hid

/-- The id that a registration returns can be written. -/
theorem canonicalRepoId_printable (hrepr : FloatRepr floats.parse floats.repr) {reply : Reply} (localId : String)
    (h : ∀ status body, reply = .response status (some body) → ∃ text, loads floats.parse text = some body) :
    (canonicalRepoId reply localId).Printable floats.parse floats.repr := by
  unfold canonicalRepoId
  dsimp only
  split
  case isTrue =>
    have hnull : (Json.get [] "repository_id").Printable floats.parse floats.repr := by
      rw [Json.get]
      trivial
    cases reply with
    | failure => exact hnull
    | response status body =>
      cases body with
      | none => exact hnull
      | some body =>
        obtain ⟨text, htext⟩ := h status body rfl
        have hbody := printable_of_loads hrepr htext
        cases body with
        | obj fields => exact hbody.get "repository_id"
        | _ => exact hnull
  case isFalse => trivial

theorem batchPayload_printable {events : List Json} (h : ∀ event ∈ events, event.Printable floats.parse floats.repr) :
    (batchPayload events).Printable floats.parse floats.repr :=
  ⟨by simp, Json.printableItems_iff.2 h, trivial⟩

/-- What `_compact_json` does not cut is the event. -/
theorem loads_compactJson (h : event.Printable floats.parse floats.repr)
    (hlen : (dumpsPlain floats.repr event).length ≤ maxRawBytes) :
    loads floats.parse (compactJson floats.repr event) = some event := by
  rw [compactJson, List.take_of_length_le (by rwa [String.length_toList]), String.ofList_toList]
  exact loads_dumpsPlain h

end

/-- **A batch arrives as it was made.**  In every run of a worker against every server whose answers are JSON: the
server parses from the body of a batch the events that the worker made, in order; each says what its line of the outbox
says, but for the repository; and what the server keeps of it is read back as the event, unless it was cut. -/
theorem batch_arrives {Envelope : Type} {config : DrainConfig} {floats : FloatText}
    (hrepr : FloatRepr floats.parse floats.repr) {acts : List (WorkerAct Envelope)} {s : WorkerRun}
    (hrun : Run.exec (WorkerRun.next config floats) WorkerRun.start acts = some s)
    (hreplies : RepliesParsed floats s.trace) {sent : List (String × Json)} {reply : Reply}
    (hsent : .post (.events sent) reply ∈ s.trace) :
    loads floats.parse (dumps floats.repr (batchPayload (sent.map Prod.snd))) =
        some (batchPayload (sent.map Prod.snd)) ∧
      ∀ x ∈ sent, (∃ value, loads floats.parse x.1 = some value ∧ SameButRepository value x.2) ∧
        ((dumpsPlain floats.repr x.2).length ≤ maxRawBytes →
          loads floats.parse (compactJson floats.repr x.2) = some x.2) := by
  have hlawful := (Run.invariant (I := WorkerRun.Inv config floats) (fun _ _ _ h hnext => h.next hnext)
    WorkerRun.start_inv hrun).lawful
  obtain ⟨before, after, htrace⟩ := List.append_of_mem hsent
  obtain ⟨id, ids, -, hregistered, -, hevents⟩ := hlawful before _ after htrace
  obtain ⟨earlier, machineReply, repositoryReply, sessionReply, later, hbefore, -, -, -, hids, -⟩ := hregistered
  have hid : ids.canonicalId.Printable floats.parse floats.repr := by
    rw [hids]
    refine canonicalRepoId_printable hrepr _ fun status body hreply => ?_
    refine hreplies (.repository id.repoPayload config.repoRoot) status body ?_
    rw [htrace, hbefore, hreply]
    simp
  have hprintable : ∀ x ∈ sent, x.2.Printable floats.parse floats.repr := by
    intro x hx
    exact outgoingEvent_printable hrepr hid (hevents x hx)
  constructor
  · refine loads_dumps (batchPayload_printable ?_)
    intro event hevent
    obtain ⟨x, hx, rfl⟩ := List.mem_map.1 hevent
    exact hprintable x hx
  · intro x hx
    exact ⟨outgoingEvent_same (hevents x hx), loads_compactJson (hprintable x hx)⟩

/-! ### A run -/

private def half : PyFloat := .finite false 1 (-1)

/-- The only float of the run is `0.5`. -/
private def halfText : FloatText where
  parse _ := half
  repr
    | .nan => "NaN"
    | .inf => "Infinity"
    | .negInf => "-Infinity"
    | .finite .. => "0.5"

private theorem halfText_repr : FloatRepr halfText.parse halfText.repr where
  nan := rfl
  inf := rfl
  negInf := rfl
  literal _ _ := by
    have htail : IsFloatTail ['.', '5'] :=
      ⟨['.', '5'], [], rfl, by simp, .inr ⟨['5'], rfl, by simp, by simp⟩, .inl rfl⟩
    have htext : "0.5".toList = [] ++ (['0'] ++ ['.', '5']) := by decide +kernel
    exact ⟨⟨[], ['0'], ['.', '5'], htext, .inl rfl, .inl rfl, htail⟩, rfl⟩

private def loadConfig : DrainConfig := ⟨true, false, "/src", 1, 60⟩

private def loadIdentity : WorkerIdentity :=
  ⟨⟨"mach_1", "desk", "linux", 0⟩, ⟨"repo_2", none, none, some "mach_1", 0⟩, "sess_1", "agent_1", 0⟩

private def loadLine : String := "\x7b\"repository_id\": \"repo_2\", \"load\": 5e-1, \"note\": \"caf\\u00e9\"\x7d"

private def loadEvent : Json := .obj [("repository_id", .str "repo_1"), ("load", .float half), ("note", .str "café")]

private def loadStep (body : Option (List (String × Json))) (pending : List (PendingEvent Unit)) : WorkerAct Unit :=
  .step ⟨.loaded loadIdentity, body.elim .failure fun fields => .response 200 (some (.obj fields)), some pending, true⟩

/-- The worker registers, is told another id of its repository, and sends one event. -/
private def loadActs : List (WorkerAct Unit) :=
  [loadStep none [], loadStep none [], loadStep (some []) [], loadStep (some [("repository_id", .str "repo_1")]) [],
    loadStep (some []) [], loadStep none [⟨some (), loadLine, 60, none⟩]]

private def batchOf : WorkerEntry → Option (List (String × Json))
  | .post (.events sent) _ => some sent
  | _ => none

private def bodyOf : WorkerEntry → Option Json
  | .post _ (.response _ (some body)) => some body
  | _ => none

theorem report_arrives : ∃ s reply, Run.exec (WorkerRun.next loadConfig halfText) WorkerRun.start loadActs = some s ∧
    .post (.events [(loadLine, loadEvent)]) reply ∈ s.trace ∧
    loads halfText.parse (dumps halfText.repr (batchPayload [loadEvent])) = some (batchPayload [loadEvent]) := by
  have hend : (Run.exec (WorkerRun.next loadConfig halfText) WorkerRun.start loadActs).any (fun s =>
      s.trace.filterMap batchOf = [[(loadLine, loadEvent)]] ∧
      ∀ body ∈ s.trace.filterMap bodyOf, body = .obj [] ∨ body = .obj [("repository_id", .str "repo_1")]) = true := by
    decide +kernel
  cases hrun : Run.exec (WorkerRun.next loadConfig halfText) WorkerRun.start loadActs with
  | none => simp [hrun] at hend
  | some s =>
    rw [hrun, Option.any_some, decide_eq_true_eq] at hend
    obtain ⟨hbatch, hbodies⟩ := hend
    have hmem : [(loadLine, loadEvent)] ∈ s.trace.filterMap batchOf := by simp [hbatch]
    obtain ⟨entry, hentry, hevents⟩ := List.mem_filterMap.1 hmem
    have hreplies : RepliesParsed halfText s.trace := by
      intro post status body hpost
      rcases hbodies body (List.mem_filterMap.2 ⟨_, hpost, rfl⟩) with rfl | rfl
      · exact ⟨"\x7b\x7d", by decide +kernel⟩
      · exact ⟨"\x7b\"repository_id\": \"repo_1\"\x7d", by decide +kernel⟩
    unfold batchOf at hevents
    split at hevents
    case h_1 sent reply =>
      obtain rfl := Option.some.inj hevents
      exact ⟨s, reply, rfl, hentry, (batch_arrives halfText_repr hrun hreplies hentry).1⟩
    case h_2 => cases hevents

end AgentOS
