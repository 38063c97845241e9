import AgentOS.Lib.Lines
import AgentOS.Python.Json

/-!
# The outbox store

`outbox.jsonl` is a byte string of newline-terminated lines, `none` while the file does not exist.  The drain cursor is
a byte offset with a token of the outbox head.

`readPending` is the part of `read_pending` after the file has been read; the file accesses around it are steps of the
drain (`AgentOS.Outbox.Drain`).  Its specification is `readPending_covers`: from a line boundary it returns every
non-blank line up to the end of the last one it returns.
-/

namespace AgentOS

open Lines

/-- What the store calls outside of the repository: `EventEnvelope.model_validate_json` and `sha256(..).hexdigest()`. -/
structure Codec (Envelope : Type) where
  validate : String → Except String Envelope
  sha256 : List UInt8 → String

/-- `MAX_LINE_BYTES`. -/
def maxLineBytes : Nat := 65536

/-- `_GENERATION_SAMPLE_BYTES`. -/
def generationSampleBytes : Nat := 4096

/-- One line read from the outbox. -/
structure PendingEvent (Envelope : Type) where
  envelope : Option Envelope
  raw : String
  endOffset : Nat
  error : Option String

/-- What `write_cursor` stores in `cursor.json`. -/
structure CursorFile where
  offset : Nat
  generation : Option String
  deriving DecidableEq

variable {Envelope : Type} (codec : Codec Envelope)

/-- `_outbox_generation`. -/
def outboxGeneration (outbox : Option (List UInt8)) : Option String :=
  match outbox with
  | none => none
  | some data => match data.take generationSampleBytes with
    | [] => none
    | head => some (codec.sha256 head)

/-- The line that `append_line` writes. -/
def outboxLine (line : String) : List UInt8 := encode line ++ [newline]

/-- The bytes `handle.read(max_bytes)` returns of those that follow. -/
def readBytes (maxBytes : Option Int) (rest : List UInt8) : List UInt8 :=
  match maxBytes with
  | none => rest
  | some n => if n < 0 then rest else rest.take n.toNat

/-- The record of one line. -/
def pendingEvent (line : List UInt8 × Nat) : PendingEvent Envelope :=
  let raw := decode line.1
  match codec.validate raw with
  | .ok envelope => ⟨some envelope, raw, line.2, none⟩
  | .error error => ⟨none, raw, line.2, some error⟩

/-- The loop of `read_pending` over the complete lines. -/
def pendingLoop (maxEvents : Option Int) (records : List (PendingEvent Envelope)) :
    List (List UInt8 × Nat) → List (PendingEvent Envelope)
  | [] => records
  | line :: rest =>
    if maxEvents.any fun n => n ≤ (records.length : Int) then records
    else if isBlank (decode line.1) then pendingLoop maxEvents records rest
    else pendingLoop maxEvents (records ++ [pendingEvent codec line]) rest

/-- `read_pending` on the content `outbox` from `start`, which is at most its length. -/
def readPending (outbox : List UInt8) (start : Nat) (maxEvents maxBytes : Option Int) :
    List (PendingEvent Envelope) :=
  pendingLoop codec maxEvents [] (framed newline start (readBytes maxBytes (outbox.drop start)))

/-! ### What a read returns -/

/-- `event` was read from `line`. -/
def PendingEvent.Of (event : PendingEvent Envelope) (line : List UInt8 × Nat) : Prop :=
  event.raw = decode line.1 ∧ event.endOffset = line.2

theorem pendingEvent_of (line : List UInt8 × Nat) : (pendingEvent codec line).Of line := by
  unfold pendingEvent
  simp only
  split
  · exact ⟨rfl, rfl⟩
  · exact ⟨rfl, rfl⟩

variable {codec}

theorem readBytes_le (maxBytes : Option Int) (rest : List UInt8) : readBytes maxBytes rest <+: rest := by
  unfold readBytes
  split
  · exact List.prefix_rfl
  · split
    · exact List.prefix_rfl
    · exact List.take_prefix _ _

variable (codec) in
/-- The loop returns the non-blank lines of a prefix of the lines. -/
theorem pendingLoop_eq (maxEvents : Option Int) (records : List (PendingEvent Envelope))
    (lines : List (List UInt8 × Nat)) :
    ∃ read, read <+: lines ∧ pendingLoop codec maxEvents records lines =
      records ++ (read.filter fun line => !isBlank (decode line.1)).map (pendingEvent codec) := by
  induction lines generalizing records with
  | nil => exact ⟨[], List.prefix_rfl, (List.append_nil _).symm⟩
  | cons line rest ih =>
    rw [pendingLoop]
    split
    · exact ⟨[], List.nil_prefix, (List.append_nil _).symm⟩
    · split
      · rename_i hblank
        obtain ⟨read, hread, heq⟩ := ih records
        refine ⟨line :: read, (List.prefix_cons_inj _).2 hread, ?_⟩
        rw [heq, List.filter_cons_of_neg (by simp [hblank])]
      · rename_i hblank
        obtain ⟨read, hread, heq⟩ := ih (records ++ [pendingEvent codec line])
        refine ⟨line :: read, (List.prefix_cons_inj _).2 hread, ?_⟩
        rw [heq, List.filter_cons_of_pos (by simp [hblank]), List.map_cons, List.append_assoc]
        rfl

/-- The lines read are lines of the file. -/
theorem framed_read (outbox : List UInt8) (start : Nat) (maxBytes : Option Int) :
    framed newline start (readBytes maxBytes (outbox.drop start)) <+: framed newline start (outbox.drop start) := by
  obtain ⟨t, ht⟩ := readBytes_le maxBytes (outbox.drop start)
  conv => rhs; rw [← ht]
  exact framed_mono _ _ _

/-- From a boundary, the batch ends at a boundary and holds every non-blank line in between. -/
theorem readPending_covers {outbox : List UInt8} {start : Nat} (hstart : Boundary newline outbox start)
    {maxEvents maxBytes : Option Int} {last : PendingEvent Envelope}
    (hlast : (readPending codec outbox start maxEvents maxBytes).getLast? = some last) :
    Boundary newline outbox last.endOffset ∧ start < last.endOffset ∧
      ∀ line ∈ framed newline 0 outbox, start < line.2 → line.2 ≤ last.endOffset → ¬ isBlank (decode line.1) →
        ∃ event ∈ readPending codec outbox start maxEvents maxBytes, event.Of line := by
  obtain ⟨read, hread, heq⟩ := pendingLoop_eq codec maxEvents []
    (framed newline start (readBytes maxBytes (outbox.drop start)))
  have hpre := hread.trans (framed_read outbox start maxBytes)
  rw [readPending, heq, List.nil_append] at hlast ⊢
  obtain ⟨l, hl, rfl⟩ := List.mem_map.1 (List.mem_of_getLast? hlast)
  have hlread : l ∈ read := (List.mem_filter.1 hl).1
  have hend : (pendingEvent codec l).endOffset = l.2 := (pendingEvent_of codec l).2
  rw [hend]
  obtain ⟨n, hn, hbound⟩ := boundary_of_mem (hpre.subset hlread)
  have hlt := lt_of_mem_framed (hpre.subset hlread)
  refine ⟨hn ▸ hstart.add hbound, by omega, ?_⟩
  intro line hline hs he hblank
  have hmem := mem_framed_drop hstart hline hs
  -- a line that was not read ends after every line that was
  have hlineread : line ∈ read := by
    obtain ⟨t, ht⟩ := hpre
    have hpair := framed_pairwise newline start (outbox.drop start)
    rw [← ht] at hmem hpair
    refine (List.mem_append.1 hmem).resolve_right fun h => ?_
    have := (List.pairwise_append.1 hpair).2.2 l hlread line h
    omega
  exact ⟨_, List.mem_map_of_mem (List.mem_filter.2 ⟨hlineread, by simpa using hblank⟩), pendingEvent_of codec line⟩

end AgentOS
