import AgentOS.Outbox.Accounting

/-!
# The drain loses nothing

While the outbox is only appended to, there is one incarnation, so every step is undisturbed and the invariant of
`AgentOS.Outbox.Accounting` holds in every reachable state: whatever offset the cursor file holds accounts for every
line up to it.
-/

namespace AgentOS

open Lines

variable {Envelope : Type} {codec : Codec Envelope} {batchSize : Nat → Int} {s s' : Sys Envelope}

@[simp] theorem setDrainer_incarnation (s : Sys Envelope) (i : Nat) (d : Drainer Envelope) :
    (s.setDrainer i d).incarnation = s.incarnation := rfl

@[simp] theorem setDrainer_heads (s : Sys Envelope) (i : Nat) (d : Drainer Envelope) :
    (s.setDrainer i d).heads = s.heads := rfl

/-- An access of `drain_batch` never touches the outbox. -/
theorem drainStep_outbox (s : Sys Envelope) (i : Nat) (reply : Reply) :
    (drainStep codec batchSize s i reply).incarnation = s.incarnation ∧
      (drainStep codec batchSize s i reply).heads = s.heads := by
  cases hpc : (s.drainers i).pc with
  | idle =>
    simp only [drainStep, hpc]
    split <;> simp
  | readCursor =>
    simp only [drainStep, hpc]
    split <;> simp
  | hashHead =>
    simp only [drainStep, hpc]
    split <;> simp
  | getSize => simp [drainStep, hpc]
  | stat => simp [drainStep, hpc]
  | read =>
    simp only [drainStep, hpc]
    split
    · simp
    · split <;> simp
  | request =>
    simp only [drainStep, hpc]
    split <;> simp
  | deadLetter todo => cases todo <;> simp [drainStep, hpc]
  | stamp => simp [drainStep, hpc]
  | replace => simp [drainStep, hpc]

theorem appendLine_outbox (s : Sys Envelope) (line : String) :
    (appendLine codec s line).incarnation = s.incarnation ∧ s.heads ⊆ (appendLine codec s line).heads := by
  unfold appendLine
  split
  · exact ⟨rfl, List.Subset.refl _⟩
  · split
    · exact ⟨rfl, List.Subset.refl _⟩
    · exact ⟨rfl, List.subset_append_left _ _⟩

private theorem next_incarnation {a : Act} (ha : a ≠ .delete) (h : s.next codec batchSize a = some s') :
    s'.incarnation = s.incarnation := by
  cases a with
  | appendLine line =>
    obtain rfl := Option.some.inj h
    exact (appendLine_outbox s line).1
  | step i reply =>
    obtain rfl := Option.some.inj h
    exact (drainStep_outbox s i reply).1
  | crash i =>
    obtain rfl := Option.some.inj h
    rfl
  | delete => exact absurd rfl ha

/-- In the first incarnation every step is undisturbed. -/
theorem firstIncarnation (h : DrainInv codec s) (h0 : s.incarnation = 0) (a : Act) :
    DistinctHeads s ∧ Undisturbed s a := by
  refine ⟨fun j k token hj hk => ?_, ?_⟩
  · have := h.heads_le j token hj
    have := h.heads_le k token hk
    omega
  · cases a with
    | step i reply =>
      intro _
      have := h.basis i
      omega
    | _ => trivial

/-- **No event is lost by the drain.**  Whatever the drainers, the producers and the server do, short of deleting the
outbox: a complete non-blank line that ends at or before the cursor was delivered or dead-lettered. -/
theorem drain_loses_nothing {acts : List Act} (hrun : Run.exec (Sys.next codec batchSize) Sys.init acts = some s)
    (hkeep : Act.delete ∉ acts) {cursor : CursorFile} (hcursor : s.cursor = some cursor) {line : List UInt8 × Nat}
    (hline : line ∈ framed newline 0 s.content) (hle : line.2 ≤ cursor.offset) (hblank : ¬ isBlank (decode line.1)) :
    Delivered s line ∨ DeadLettered s line := by
  have hinv : DrainInv codec s ∧ s.incarnation = 0 := by
    have hmeets : Run.Meets (Sys.next codec batchSize) (fun _ a => a ≠ Act.delete) Sys.init acts :=
      Run.meets_of_forall Sys.init fun a ha h => hkeep (h ▸ ha)
    refine Run.invariant_of_meets (I := fun t => DrainInv codec t ∧ t.incarnation = 0) ?_ ⟨init_inv, rfl⟩ hmeets hrun
    rintro t a t' ⟨ht, h0⟩ ha hnext
    obtain ⟨hd, hu⟩ := firstIncarnation ht h0 a
    exact ⟨next_inv ht hd hu hnext, (next_incarnation ha hnext).trans h0⟩
  obtain ⟨h, h0⟩ := hinv
  obtain ⟨j, token, -, -, hj, hacc⟩ := h.cursor cursor hcursor
  refine (hacc (by omega)).handled hline ?_ hblank
  have := lt_of_mem_framed hline
  omega

/-! ### A run -/

/-- `model_validate_json` on lines that are no JSON, and the hashes of the heads they make. -/
def junkCodec : Codec Unit where
  validate _ := .error "Invalid JSON: expected value at line 1 column 1"
  sha256 head :=
    if head = [97, 10] then "87428fc522803d31065e7bce3cf03fe475096631e5e07bbd7a0fde60c4cf25c7"
    else if head = [98, 10] then "0263829989b6fd954f72baaf2fc64bc2e2f01d692d4de72986ea808f6e99813f"
    else ""

/-- Drainer 0 takes `n` steps. -/
def drainSteps (n : Nat) : List Act := List.replicate n (.step 0 .failure)

/-- `{}` is an event, every other line is no JSON. -/
def noteCodec : Codec Unit where
  validate text := if text = "{}" then .ok () else junkCodec.validate text
  sha256 := junkCodec.sha256

/-- One event was sent, and accepted. -/
def oneAccepted : Reply :=
  .response 200 (some (.obj [("results", .arr [.obj [("outcome", .str "accepted")]])]))

/-- A line that is no JSON and an event.  The first answer is lost, and the batch is sent again. -/
private def lostAnswer : List Act :=
  [.appendLine "a", .appendLine "{}"] ++ drainSteps 5 ++ List.replicate 9 (.step 0 oneAccepted)

theorem drain_junk_and_event : ∃ s, Run.exec (Sys.next noteCodec fun _ => 500) Sys.init lostAnswer = some s ∧
    s.exchanges.length = 2 ∧ s.deadLetters.length = 1 ∧
      ∀ line ∈ [([97], 2), ([123, 125], 5)], Delivered s line ∨ DeadLettered s line := by
  obtain ⟨s, hrun, hstate⟩ := (Option.any_eq_true _ _).1
    (by decide +kernel : (Run.exec (Sys.next noteCodec fun _ => 500) Sys.init lostAnswer).any (fun s =>
      decide (s.cursor = some ⟨5, some (noteCodec.sha256 (outboxLine "a" ++ outboxLine "{}"))⟩ ∧
        (∀ line ∈ [([97], 2), ([123, 125], 5)], line ∈ framed newline 0 s.content ∧ line.2 ≤ 5 ∧
          ¬ isBlank (decode line.1)) ∧ s.exchanges.length = 2 ∧ s.deadLetters.length = 1)) = true)
  obtain ⟨hcursor, hlines, hexchanges, hletters⟩ := of_decide_eq_true hstate
  refine ⟨s, hrun, hexchanges, hletters, fun line hline => ?_⟩
  obtain ⟨hframed, hle, hblank⟩ := hlines line hline
  exact drain_loses_nothing hrun (by simp [lostAnswer, drainSteps]) hcursor hframed hle hblank

end AgentOS
