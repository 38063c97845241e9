import AgentOS.Outbox.Store
import AgentOS.Lib.Run
import Mathlib.Logic.Function.Basic

/-!
# Producers and drainers

`append_line` of any number of producers and `drain_batch` of any number of drainers on one outbox, one file access at a
time.  A drainer can stop between any two of its accesses (a crash, or an exception that the model does not name), and
`outbox.jsonl` can be deleted at any time; the next append creates it again.

Three parts of the state are not on disk and are never read by the code: the number of the current `incarnation` of the
outbox, the head tokens every incarnation has had, and the requests made so far.
-/

namespace AgentOS

open Lines

/-- The answer to a request: `TransportError` from `post_json`, or a status and the parsed body (`none` where it is
empty or no JSON). -/
inductive Reply where
  | failure
  | response (status : Int) (body : Option Json)

/-- `post_json` returns an empty dict for a body that is not one. -/
def parsedBody : Option Json → List (String × Json)
  | some (.obj fields) => fields
  | _ => []

inductive TransportError where
  | connection
  | status (status : Int)
  | misaligned
  | malformedItem
  | unknownOutcome (outcome : Json)

variable {Envelope : Type}

/-- The loop of `drain_batch` over the results: the rejected events with their reasons. -/
def rejectedEvents : List (PendingEvent Envelope) → List Json →
    Except TransportError (List (PendingEvent Envelope × Json))
  | event :: events, result :: results => match result with
    | .obj fields =>
      let outcome := Json.get fields "outcome"
      if outcome.asStr = some "rejected" then
        let reason := Json.get fields "reason"
        match rejectedEvents events results with
        | .ok rejected => .ok ((event, if reason.truthy then reason else .str "rejected") :: rejected)
        | .error e => .error e
      else if outcome.asStr = some "accepted" ∨ outcome.asStr = some "duplicate" then rejectedEvents events results
      else .error (.unknownOutcome outcome)
    | _ => .error .malformedItem
  | _, _ => .ok []

/-- What `drain_batch` makes of the answer to its request. -/
def resolve (toSend : List (PendingEvent Envelope)) :
    Reply → Except TransportError (List (PendingEvent Envelope × Json))
  | .failure => .error .connection
  | .response status body =>
    if status ≠ 200 then .error (.status status)
    else match Json.get (parsedBody body) "results" with
      | .arr results => if results.length ≠ toSend.length then .error .misaligned else rejectedEvents toSend results
      | _ => .error .misaligned

/-- A record of `dead-letter.jsonl`; `origin` is the line of the outbox it is about (incarnation and end offset), where
it is about one. -/
structure DeadLetter where
  raw : String
  reason : Json
  origin : Option (Nat × Nat)

/-- A request with its answer, and the incarnation its events were read from. -/
structure Exchange (Envelope : Type) where
  incarnation : Nat
  sent : List (PendingEvent Envelope)
  reply : Reply

/-- Where a drainer is in `drain_batch`: the access it makes next. -/
inductive Pc (Envelope : Type) where
  | idle
  | readCursor
  | hashHead (cursor : CursorFile)
  | getSize (offset : Nat)
  | stat (start : Nat)
  | read (start : Nat)
  | request (pending : List (PendingEvent Envelope)) (endOffset : Nat)
  | deadLetter (todo : List (PendingEvent Envelope × Json)) (endOffset : Nat)
  | stamp (endOffset : Nat)
  | replace (endOffset : Nat) (generation : Option String)

inductive BatchResult where
  | empty
  | progress
  | transportError (e : TransportError)
  | osError

/-- A drainer; `basis` is the incarnation it found when it last looked into the outbox: at its `path.exists()`, at its
head hash in `read_cursor` and at its read. -/
structure Drainer (Envelope : Type) where
  pc : Pc Envelope
  result : Option BatchResult
  basis : Nat

structure Sys (Envelope : Type) where
  outbox : Option (List UInt8)
  cursor : Option CursorFile
  deadLetters : List DeadLetter
  drainers : Nat → Drainer Envelope
  incarnation : Nat
  heads : List (Nat × String)
  exchanges : List (Exchange Envelope)

inductive Act where
  | appendLine (line : String)
  | step (i : Nat) (reply : Reply)
  | crash (i : Nat)
  | delete

def Sys.init : Sys Envelope where
  outbox := none
  cursor := none
  deadLetters := []
  drainers _ := ⟨.idle, none, 0⟩
  incarnation := 0
  heads := []
  exchanges := []

/-- The text of the outbox, empty while the file does not exist. -/
def Sys.content (s : Sys Envelope) : List UInt8 := s.outbox.getD []

def Sys.setDrainer (s : Sys Envelope) (i : Nat) (d : Drainer Envelope) : Sys Envelope :=
  { s with drainers := Function.update s.drainers i d }

def Drainer.goto (d : Drainer Envelope) (pc : Pc Envelope) : Drainer Envelope := { d with pc := pc }

def Drainer.finish (d : Drainer Envelope) (result : BatchResult) : Drainer Envelope :=
  { d with pc := .idle, result := some result }

variable (codec : Codec Envelope) (batchSize : Nat → Int)

/-- `append_line`: a line with a newline raises, an oversized one is dead-lettered. -/
def appendLine (s : Sys Envelope) (line : String) : Sys Envelope :=
  if '\n' ∈ line.toList then s
  else if maxLineBytes < (outboxLine line).length then
    let size := (outboxLine line).length
    { s with deadLetters := s.deadLetters ++
        [⟨line, .str s!"line exceeds MAX_LINE_BYTES ({size} > {maxLineBytes})", none⟩] }
  else
    let data := s.content ++ outboxLine line
    { s with
      outbox := some data
      heads := s.heads ++ ((outboxGeneration codec (some data)).map fun token => (s.incarnation, token)).toList }

/-- The events of a batch that are dead-lettered without being sent. -/
def unparsed (pending : List (PendingEvent Envelope)) : List (PendingEvent Envelope × Json) :=
  (pending.filter fun event => event.envelope.isNone).map fun event =>
    (event, .str ((event.error.filter (· ≠ "")).getD "unparseable outbox line"))

/-- The events of a batch that are sent. -/
def toSend (pending : List (PendingEvent Envelope)) : List (PendingEvent Envelope) :=
  pending.filter fun event => event.envelope.isSome

/-- Drainer `i` makes its next access; `reply` answers its request. -/
def drainStep (s : Sys Envelope) (i : Nat) (reply : Reply) : Sys Envelope :=
  let d := s.drainers i
  match d.pc with
  | .idle =>
    if s.outbox.isNone then s.setDrainer i (d.finish .empty)
    else s.setDrainer i { d with pc := .readCursor, basis := s.incarnation }
  | .readCursor => match s.cursor with
    | none => s.setDrainer i (d.goto (.stat 0))
    | some cursor => s.setDrainer i (d.goto (.hashHead cursor))
  | .hashHead cursor =>
    let current := outboxGeneration codec s.outbox
    let d := { d with basis := if s.outbox.isSome then s.incarnation else d.basis }
    if cursor.generation ≠ none ∧ current ≠ none ∧ cursor.generation ≠ current then
      s.setDrainer i (d.goto (.stat 0))
    else s.setDrainer i (d.goto (.getSize cursor.offset))
  | .getSize offset =>
    let size := s.content.length
    s.setDrainer i (d.goto (.stat (if size < offset then 0 else offset)))
  | .stat start =>
    let size := (s.outbox.map List.length).getD start
    s.setDrainer i (d.goto (.read (if size < start then size else start)))
  | .read start => match s.outbox with
    | none => s.setDrainer i (d.finish .osError)
    | some data =>
      let pending := readPending codec data start (some (batchSize i)) (some (batchSize i * maxLineBytes))
      match pending.getLast? with
      | none => s.setDrainer i (d.finish .empty)
      | some last =>
        let pc := if (toSend pending).isEmpty then .deadLetter (unparsed pending) last.endOffset
          else .request pending last.endOffset
        s.setDrainer i { d with pc := pc, basis := s.incarnation }
  | .request pending endOffset =>
    let exchange : Exchange Envelope := ⟨d.basis, toSend pending, reply⟩
    let s := { s with exchanges := s.exchanges ++ [exchange] }
    match resolve (toSend pending) reply with
    | .error e => s.setDrainer i (d.finish (.transportError e))
    | .ok rejected => s.setDrainer i (d.goto (.deadLetter (unparsed pending ++ rejected) endOffset))
  | .deadLetter [] endOffset => s.setDrainer i (d.goto (.stamp endOffset))
  | .deadLetter ((event, reason) :: todo) endOffset =>
    let record : DeadLetter := ⟨event.raw, reason, some (d.basis, event.endOffset)⟩
    ({ s with deadLetters := s.deadLetters ++ [record] } : Sys Envelope).setDrainer i
      (d.goto (.deadLetter todo endOffset))
  | .stamp endOffset => s.setDrainer i (d.goto (.replace endOffset (outboxGeneration codec s.outbox)))
  | .replace endOffset generation =>
    ({ s with cursor := some ⟨endOffset, generation⟩ } : Sys Envelope).setDrainer i (d.finish .progress)

/-- The system takes a step. -/
def Sys.next (s : Sys Envelope) : Act → Option (Sys Envelope)
  | .appendLine line => some (appendLine codec s line)
  | .step i reply => some (drainStep codec batchSize s i reply)
  | .crash i => some (s.setDrainer i ((s.drainers i).goto .idle))
  | .delete => some { s with outbox := none, incarnation := s.incarnation + 1 }

end AgentOS
