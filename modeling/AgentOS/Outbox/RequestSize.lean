import AgentOS.Outbox.Drain
import AgentOS.Hub.Routes
import AgentOS.Python.Loads

/-!
# The size of a batch request

The drain bounds a batch by its own batch size and by a number of bytes read from the outbox; the server bounds the
number of events of a request and the bytes of its body.  `drainRequest_eq` says what a batch sends, and
`request_fits_iff` when the server takes it.

Nothing makes the two sides agree: the batch size from the environment has no upper bound, and a character of the
outbox that `json.dumps` escapes costs up to six times its bytes there.
-/

namespace AgentOS

open Lines

/-- `_MAX_CONTENT_LENGTH`. -/
def maxContentLength : Nat := 40 * 1024 * 1024

/-- `_env_int`. -/
def envInt (raw : Option String) (default : Int) : Int :=
  match raw with
  | none => default
  | some raw => if raw = "" then default else (pyInt raw).getD default

/-- `config_from_env().batch_size`, from the value of `AGENT_OS_SYNC_BATCH`. -/
def configBatchSize (raw : Option String) : Int := envInt raw 500

/-- How floats are read and written: `float(..)` and `float.__repr__`. -/
structure FloatText where
  parse : String → PyFloat
  repr : PyFloat → String

/-- `_local_repo_id` and `_canonical_repo_id`. -/
structure RepoIds where
  localId : Option String
  canonicalId : Json

variable {Envelope : Type} (codec : Codec Envelope) (floats : FloatText) (ids : RepoIds)

/-- `_outgoing_event`; `none` where `json.loads` raises. -/
def outgoingEvent (raw : String) : Option Json :=
  (loads floats.parse raw).map fun obj =>
    match obj, ids.localId, ids.canonicalId with
    | .obj _, _, .null => obj
    | .obj fields, some localId, canonicalId =>
      if canonicalId.asStr ≠ some localId ∧ (Json.get fields "repository_id").asStr = some localId then
        .obj (Json.set fields "repository_id" canonicalId)
      else obj
    | _, _, _ => obj

/-- `{"events": events}`. -/
def batchPayload (events : List Json) : Json := .obj [("events", .arr events)]

/-- The events of the request of a `drain_batch` that reads `outbox` from `start`, if it makes one. -/
def drainRequest (batchSize : Int) (outbox : List UInt8) (start : Nat) : Option (List Json) :=
  let sent := toSend (readPending codec outbox start (some batchSize) (some (batchSize * maxLineBytes)))
  if sent.isEmpty then none else sent.mapM fun event => outgoingEvent floats ids event.raw

/-- The server takes a request with these events: neither of its two caps refuses it with 413. -/
def Fits (events : List Json) : Prop :=
  events.length ≤ maxBatchEvents ∧ (encode (dumps floats.repr (batchPayload events))).length ≤ maxContentLength

/-- A line `append_line` puts into the outbox, holding a valid envelope. -/
structure OutboxLine (line : String) : Prop where
  newline : '\n' ∉ line.toList
  size : (outboxLine line).length ≤ maxLineBytes
  valid : ∃ envelope, codec.validate line = .ok envelope
  json : ∃ value, loads floats.parse line = some value
  notBlank : isBlank line = false

/-- The outbox after these lines have been appended. -/
def outboxOf (lines : List String) : List UInt8 := lines.flatMap outboxLine

/-- How many bytes a line takes in the body of a request. -/
def eventSize (line : String) : Nat := ((outgoingEvent floats ids line).map (dumpsSize floats.repr)).getD 0

variable {codec floats ids}

/-! ### What a batch sends -/

/-- The loop takes all of `lines` if none is blank and they are no more than it may take. -/
theorem pendingLoop_all {lines rest : List (List UInt8 × Nat)} {records : List (PendingEvent Envelope)} {n : Nat}
    (hblank : ∀ line ∈ lines, isBlank (decode line.1) = false) (hlen : records.length + lines.length ≤ n)
    (hrest : rest = [] ∨ records.length + lines.length = n) :
    pendingLoop codec (some (n : Int)) records (lines ++ rest) = records ++ lines.map (pendingEvent codec) := by
  induction lines generalizing records with
  | nil =>
    rw [List.nil_append, List.map_nil, List.append_nil]
    cases rest with
    | nil => rfl
    | cons line rest =>
      have hn : records.length = n := by simpa using hrest
      rw [pendingLoop, if_pos (by simp [hn])]
  | cons line lines ih =>
    rw [List.length_cons] at hlen hrest
    rw [List.cons_append, pendingLoop, if_neg (by simp; omega), hblank line List.mem_cons_self]
    rw [if_neg (by simp), ih (fun l hl => hblank l (List.mem_cons_of_mem _ hl))
      (by rw [List.length_append, List.length_singleton]; omega)
      (by rw [List.length_append, List.length_singleton]; exact hrest.imp_right fun h => by omega)]
    rw [List.append_assoc, List.map_cons, List.singleton_append]

theorem pendingEvent_valid {line : List UInt8 × Nat} {envelope : Envelope}
    (h : codec.validate (decode line.1) = .ok envelope) :
    pendingEvent codec line = ⟨some envelope, decode line.1, line.2, none⟩ := by
  unfold pendingEvent
  simp only [h]

theorem outboxOf_append (a b : List String) : outboxOf (a ++ b) = outboxOf a ++ outboxOf b := List.flatMap_append

theorem outboxOf_eq (lines : List String) : outboxOf lines = (lines.map encode).flatMap (· ++ [newline]) := by
  rw [outboxOf, List.flatMap_map]
  rfl

/-- The lines of an outbox are what was appended. -/
theorem lines_outboxOf {ls : List String} (h : ∀ l ∈ ls, OutboxLine codec floats l) :
    Lines.lines newline (outboxOf ls) = ls.map encode := by
  rw [outboxOf_eq]
  refine lines_of_flatMap fun x hx => ?_
  obtain ⟨l, hl, rfl⟩ := List.mem_map.1 hx
  exact newline_notMem_encode (h l hl).newline

theorem ended_outboxOf (ls : List String) : Lines.Ended newline (outboxOf ls) := by
  rw [outboxOf_eq]
  exact ended_flatMap _

theorem length_outboxOf {ls : List String} (h : ∀ l ∈ ls, OutboxLine codec floats l) :
    (outboxOf ls).length ≤ ls.length * maxLineBytes := by
  induction ls with
  | nil => simp [outboxOf]
  | cons l ls ih =>
    have h₁ := (h l List.mem_cons_self).size
    have h₂ := ih fun x hx => h x (List.mem_cons_of_mem _ hx)
    rw [outboxOf] at h₂ ⊢
    rw [List.flatMap_cons, List.length_append, List.length_cons, Nat.succ_mul]
    omega

/-- The bytes a batch reads always hold the lines it may take, and nothing else if these are all there are. -/
theorem readBytes_outboxOf {ls : List String} (h : ∀ l ∈ ls, OutboxLine codec floats l) (n : Nat) :
    ∃ more, readBytes (some ((n : Int) * maxLineBytes)) (outboxOf ls) = outboxOf (ls.take n) ++ more ∧
      (ls.length < n → more = []) := by
  have hread : readBytes (some ((n : Int) * maxLineBytes)) (outboxOf ls) =
      (outboxOf ls).take (n * maxLineBytes) := by
    have hcast : ((n : Int) * maxLineBytes).toNat = n * maxLineBytes := by
      rw [← Int.natCast_mul, Int.toNat_natCast]
    rw [readBytes, hcast, if_neg (by omega)]
  have hfirst : (outboxOf (ls.take n)).length ≤ n * maxLineBytes := by
    have htake : ∀ l ∈ ls.take n, OutboxLine codec floats l := fun l hl => h l (List.mem_of_mem_take hl)
    have hlen := length_outboxOf htake
    exact Nat.le_trans hlen (Nat.mul_le_mul_right _ (List.length_take_le _ _))
  rw [hread]
  conv => enter [1, more, 1, 1]; rw [← List.take_append_drop n ls, outboxOf_append]
  rw [List.take_append, List.take_of_length_le hfirst]
  refine ⟨_, rfl, fun hn => ?_⟩
  rw [List.drop_eq_nil_of_le (by omega)]
  exact List.take_nil

/-- A batch reads the next lines of the outbox, as many as its batch size, and sends them all. -/
theorem readPending_outboxOf (done : List String) {ls : List String} (h : ∀ l ∈ ls, OutboxLine codec floats l)
    (n : Nat) :
    (toSend (readPending codec (outboxOf (done ++ ls)) (outboxOf done).length (some n)
      (some ((n : Int) * maxLineBytes)))).map PendingEvent.raw = ls.take n := by
  have htake : ∀ l ∈ ls.take n, OutboxLine codec floats l := fun l hl => h l (List.mem_of_mem_take hl)
  obtain ⟨more, hmore, hall⟩ := readBytes_outboxOf h n
  rw [readPending, outboxOf_append, List.drop_left, hmore, framed_append (ended_outboxOf _), framed,
    lines_outboxOf htake]
  generalize hP : stamp (outboxOf done).length ((ls.take n).map encode) = P
  have hfst : P.map Prod.fst = (ls.take n).map encode := by rw [← hP, stamp_map_fst]
  -- each line read is one that was appended
  have hline : ∀ line ∈ P, ∃ l, OutboxLine codec floats l ∧ decode line.1 = l := by
    intro line hline
    have hmem : line.1 ∈ (ls.take n).map encode := by
      rw [← hfst]
      exact List.mem_map_of_mem hline
    obtain ⟨l, hl, heq⟩ := List.mem_map.1 hmem
    exact ⟨l, htake l hl, by rw [← heq, decode_encode]⟩
  have hPlen : P.length = (ls.take n).length := by
    have := congrArg List.length hfst
    rwa [List.length_map, List.length_map] at this
  rw [pendingLoop_all, List.nil_append]
  · have hsent : toSend (P.map (pendingEvent codec)) = P.map (pendingEvent codec) := by
      rw [toSend, List.filter_eq_self]
      intro event hevent
      obtain ⟨line, hmem, rfl⟩ := List.mem_map.1 hevent
      obtain ⟨l, hl, heq⟩ := hline line hmem
      obtain ⟨envelope, hvalid⟩ := hl.valid
      rw [pendingEvent_valid (heq ▸ hvalid)]
      rfl
    have hraw : ∀ line : List UInt8 × Nat, (pendingEvent codec line).raw = decode line.1 :=
      fun line => (pendingEvent_of codec line).1
    rw [hsent, List.map_map, show PendingEvent.raw ∘ pendingEvent codec = decode ∘ Prod.fst from funext hraw,
      ← List.map_map, hfst, List.map_map, show decode ∘ encode = id from funext decode_encode, List.map_id]
  · intro line hmem
    obtain ⟨l, hl, heq⟩ := hline line hmem
    rw [heq]
    exact hl.notBlank
  · rw [hPlen, List.length_nil, Nat.zero_add]
    exact List.length_take_le _ _
  · rw [hPlen, List.length_nil, Nat.zero_add, List.length_take]
    by_cases hn : ls.length < n
    · left
      rw [hall hn]
      rfl
    · right
      omega

variable (ids) in
/-- What a batch posts, when `ls` are the lines behind its cursor. -/
theorem drainRequest_eq (done : List String) {ls : List String} (h : ∀ l ∈ ls, OutboxLine codec floats l) (n : Nat) :
    drainRequest codec floats ids n (outboxOf (done ++ ls)) (outboxOf done).length =
      if (ls.take n).isEmpty then none else (ls.take n).mapM (outgoingEvent floats ids) := by
  have hsent := readPending_outboxOf done h n
  rw [drainRequest]
  generalize toSend (readPending codec (outboxOf (done ++ ls)) (outboxOf done).length (some n)
    (some ((n : Int) * maxLineBytes))) = sent at hsent
  rw [← hsent, List.isEmpty_map]
  split
  · rfl
  · rw [List.mapM_map]
    rfl

/-! ### How large it is -/

variable (ids) in
/-- A valid line is serialized. -/
theorem OutboxLine.outgoing {line : String} (h : OutboxLine codec floats line) :
    ∃ event, outgoingEvent floats ids line = some event := by
  obtain ⟨value, hvalue⟩ := h.json
  rw [outgoingEvent, hvalue]
  exact ⟨_, rfl⟩

variable (ids) in
/-- The events of a request, with their number and their size. -/
theorem mapM_outgoing {ls : List String} (h : ∀ l ∈ ls, OutboxLine codec floats l) :
    ∃ events, ls.mapM (outgoingEvent floats ids) = some events ∧ events.length = ls.length ∧
      dumpsItemsSize floats.repr events = (ls.map fun l => eventSize floats ids l + 2).sum := by
  induction ls with
  | nil => exact ⟨[], rfl, rfl, rfl⟩
  | cons l ls ih =>
    obtain ⟨event, hevent⟩ := (h l List.mem_cons_self).outgoing ids
    obtain ⟨events, hevents, hlen, hsize⟩ := ih fun x hx => h x (List.mem_cons_of_mem _ hx)
    refine ⟨event :: events, ?_, congrArg (· + 1) hlen, ?_⟩
    · rw [List.mapM_cons, hevent, hevents]
      rfl
    · rw [dumpsItemsSize, hsize, List.map_cons, List.sum_cons, eventSize, hevent, Option.map_some, Option.getD_some]
      omega

/-- `{"events": [` and `]}` are 14 bytes, and each event but the first comes with a separator. -/
theorem length_encode_batchPayload {events : List Json} (h : events ≠ []) :
    (encode (dumps floats.repr (batchPayload events))).length = 12 + dumpsItemsSize floats.repr events := by
  cases events with
  | nil => exact absurd rfl h
  | cons event events =>
    rw [length_encode_dumps, batchPayload, dumpsSize, dumpsFieldSize, dumpsSize, dumpsFieldsSize, dumpsItemsSize,
      show dumpsStrSize "events" = 8 by decide]
    omega

/-- **When the server takes what a batch sends.**  The outbox holds valid lines, `done` of them before the cursor, and
the batch size comes from the environment.  The request is not refused for its size if and only if the lines it takes
are at most 500 and, escaped and separated, make at most 40 MiB. -/
theorem request_fits_iff (done : List String) {ls : List String} (h : ∀ l ∈ ls, OutboxLine codec floats l)
    (raw : Option String) (hbatch : 1 ≤ configBatchSize raw) :
    (∀ events, drainRequest codec floats ids (configBatchSize raw) (outboxOf (done ++ ls)) (outboxOf done).length =
        some events → Fits floats events) ↔
      min (configBatchSize raw).toNat ls.length ≤ maxBatchEvents ∧
        12 + ((ls.take (configBatchSize raw).toNat).map fun l => eventSize floats ids l + 2).sum ≤
          maxContentLength := by
  obtain ⟨n, hn⟩ := Int.eq_ofNat_of_zero_le (show 0 ≤ configBatchSize raw by omega)
  rw [hn, Int.toNat_natCast, drainRequest_eq ids done h n, ← List.length_take]
  have htake : ∀ l ∈ ls.take n, OutboxLine codec floats l := fun l hl => h l (List.mem_of_mem_take hl)
  generalize ls.take n = taken at htake
  cases taken with
  | nil =>
    refine ⟨fun _ => ⟨by decide, by rw [List.map_nil]; decide⟩, fun _ events hevents => ?_⟩
    cases hevents
  | cons l taken =>
    obtain ⟨events, hevents, hlen, hsize⟩ := mapM_outgoing ids htake
    have hne : events ≠ [] := by
      rintro rfl
      cases hlen
    have hfits : Fits floats events ↔ (l :: taken).length ≤ maxBatchEvents ∧
        12 + ((l :: taken).map fun l => eventSize floats ids l + 2).sum ≤ maxContentLength := by
      rw [Fits, hlen, length_encode_batchPayload hne, hsize]
    rw [← hfits, List.isEmpty_cons, if_neg (by simp), hevents]
    exact ⟨fun hall => hall events rfl, fun hf events' heq => Option.some.inj heq ▸ hf⟩

/-! ### Two outboxes -/

/-- A minimal event. -/
def envelopeLine : String :=
  "\x7b\"event_id\":\"evt_01\",\"event_type\":\"task.created\",\"occurred_at\":\"2026-01-01T00:00:00Z\"," ++
    "\"machine_id\":\"mach_01\"\x7d"

/-- `model_validate_json` where the only line is `envelopeLine`. -/
private def envelopeCodec : Codec Unit where
  validate line := if line = envelopeLine then .ok () else .error "Invalid JSON"
  sha256 _ := ""

/-- There is no float in `envelopeLine`. -/
private def noFloats : FloatText where
  parse _ := .nan
  repr _ := "NaN"

private def noIds : RepoIds where
  localId := none
  canonicalId := .null

private theorem outboxLine_envelopeLine : OutboxLine envelopeCodec noFloats envelopeLine where
  newline := by decide +kernel
  size := by decide +kernel
  valid := ⟨(), by simp [envelopeCodec]⟩
  json := Option.isSome_iff_exists.1 (by decide +kernel)
  notBlank := by decide +kernel

theorem request_of_one_fits :
    ∃ events, drainRequest envelopeCodec noFloats noIds (configBatchSize none) (outboxOf [envelopeLine]) 0 =
      some events ∧ Fits noFloats events := by
  have hline : ∀ l ∈ [envelopeLine], OutboxLine envelopeCodec noFloats l := by
    intro l hl
    rw [List.mem_singleton.1 hl]
    exact outboxLine_envelopeLine
  obtain ⟨events, hevents⟩ := Option.isSome_iff_exists.1 (show (drainRequest envelopeCodec noFloats noIds
    (configBatchSize none) (outboxOf [envelopeLine]) 0).isSome = true by decide +kernel)
  exact ⟨events, hevents, (request_fits_iff [] hline none (by decide)).2 (by decide +kernel)
    events hevents⟩

/-- `AGENT_OS_SYNC_BATCH=501` and 501 lines: the request has more events than the server takes. -/
theorem request_of_501_refused :
    (∀ l ∈ List.replicate 501 envelopeLine, OutboxLine envelopeCodec noFloats l) ∧
      1 ≤ configBatchSize (some "501") ∧
        ∃ events, drainRequest envelopeCodec noFloats noIds (configBatchSize (some "501"))
          (outboxOf (List.replicate 501 envelopeLine)) 0 = some events ∧ ¬ Fits noFloats events := by
  have hlines : ∀ l ∈ List.replicate 501 envelopeLine, OutboxLine envelopeCodec noFloats l := by
    intro l hl
    rw [List.eq_of_mem_replicate hl]
    exact outboxLine_envelopeLine
  have hbatch : configBatchSize (some "501") = (501 : Nat) := by decide
  obtain ⟨events, hevents, hlen, -⟩ := mapM_outgoing noIds hlines
  refine ⟨hlines, by decide, events, ?_, fun hfits => ?_⟩
  · have hreq := drainRequest_eq noIds [] hlines 501
    rw [List.nil_append, List.take_of_length_le (Nat.le_of_eq List.length_replicate)] at hreq
    rw [hbatch]
    refine hreq.trans ?_
    rw [if_neg (by rw [List.replicate_succ, List.isEmpty_cons]; exact Bool.false_ne_true), hevents]
  · rw [List.length_replicate] at hlen
    have := hfits.1
    rw [hlen] at this
    exact absurd this (by decide)

end AgentOS
