import AgentOS.Outbox.NoLoss
import Mathlib.Data.List.Nodup

/-!
# Deleting and re-creating the outbox

`write_cursor` stamps the head of the outbox it finds onto an offset of the outbox that was read.  If the outbox was
deleted and created again in between, the offset passes for one of the new incarnation
(`rotation_skips_line`).

As long as no rotation falls between the head hash and the read of a drain batch, or between its read and its cursor
write, no read begins behind a line that was not handled (`read_skips_nothing`).
-/

namespace AgentOS

open Lines

variable {Envelope : Type} {codec : Codec Envelope} {batchSize : Nat → Int} {s s' : Sys Envelope}

private theorem next_heads {a : Act} (h : s.next codec batchSize a = some s') : s.heads ⊆ s'.heads := by
  cases a with
  | appendLine line =>
    obtain rfl := Option.some.inj h
    exact (appendLine_outbox s line).2
  | step i reply =>
    obtain rfl := Option.some.inj h
    rw [(drainStep_outbox s i reply).2]
    exact List.Subset.refl _
  | crash i =>
    obtain rfl := Option.some.inj h
    exact List.Subset.refl _
  | delete =>
    obtain rfl := Option.some.inj h
    exact List.Subset.refl _

private theorem DistinctHeads.of_next (hd : DistinctHeads s') {a : Act} (h : s.next codec batchSize a = some s') :
    DistinctHeads s :=
  fun j k token hj hk => hd j k token (next_heads h hj) (next_heads h hk)

/-- **No line is skipped where no rotation falls into a drain batch.**  In a run in which a drainer reads on only in the
outbox whose head it hashed and writes the cursor only while the outbox it read is there, a drainer that is about to
read from `start` has behind it only lines that were delivered or dead-lettered. -/
theorem read_skips_nothing {acts : List Act} (hrun : Run.exec (Sys.next codec batchSize) Sys.init acts = some s)
    (hmeets : Run.Meets (Sys.next codec batchSize) Undisturbed Sys.init acts) (hd : DistinctHeads s)
    {i start : Nat} (hread : (s.drainers i).pc = .read start) (hbasis : (s.drainers i).basis = s.incarnation)
    {line : List UInt8 × Nat} (hline : line ∈ framed newline 0 s.content)
    (hbegin : line.2 - line.1.length - 1 < start) (hblank : ¬ isBlank (decode line.1)) :
    Delivered s line ∨ DeadLettered s line := by
  have hinv : DistinctHeads s → DrainInv codec s := by
    refine Run.invariant_of_meets (I := fun t => DistinctHeads t → DrainInv codec t) ?_ (fun _ => init_inv) hmeets hrun
    intro t a t' ht hua hnext hd'
    have hdt := hd'.of_next hnext
    exact next_inv (ht hdt) hdt hua hnext
  have hpc := (hinv hd).drainers i hbasis
  simp only [PcInv, hread] at hpc
  exact hpc.handled hline hbegin hblank

/-! ### Two runs -/

private theorem distinctHeads_of_nodup (h : (s.heads.map Prod.snd).Nodup) : DistinctHeads s := by
  intro j k token hj hk
  exact congrArg Prod.fst (List.inj_on_of_nodup_map h hj hk rfl)

instance (s : Sys Envelope) : ∀ a, Decidable (Undisturbed s a)
  | .step i _ => inferInstanceAs (Decidable ((s.drainers i).pc.relies = true → _ = s.incarnation))
  | .appendLine _ => isTrue trivial
  | .crash _ => isTrue trivial
  | .delete => isTrue trivial

private def Pc.start? : Pc Envelope → Option Nat
  | .read start => some start
  | _ => none

private theorem eq_read {pc : Pc Envelope} {start : Nat} (h : pc.start? = some start) : pc = .read start := by
  cases pc with
  | read n => exact congrArg Pc.read (Option.some.inj h)
  | _ => cases h

/-- The state after a run of `junkCodec`. -/
private def junkRun (acts : List Act) : Sys Unit :=
  (Run.exec (Sys.next junkCodec fun _ => 500) Sys.init acts).getD Sys.init

private theorem exec_junkRun {acts : List Act}
    (h : (Run.exec (Sys.next junkCodec fun _ => 500) Sys.init acts).isSome = true) :
    Run.exec (Sys.next junkCodec fun _ => 500) Sys.init acts = some (junkRun acts) := by
  obtain ⟨s, hs⟩ := Option.isSome_iff_exists.1 h
  rw [junkRun, hs, Option.getD_some]

/-- The outbox is deleted and created again between two batches: the next batch starts over, and the one after it reads
on behind line `b`, which was dead-lettered. -/
private def rotationBetweenBatches : List Act :=
  .appendLine "a" :: drainSteps 8 ++ .delete :: .appendLine "b" :: drainSteps 14

theorem rotation_between_batches :
    Delivered (junkRun rotationBetweenBatches) ([98], 2) ∨ DeadLettered (junkRun rotationBetweenBatches) ([98], 2) :=
  have hread : ((junkRun rotationBetweenBatches).drainers 0).pc = .read 2 := eq_read (by decide +kernel)
  read_skips_nothing (exec_junkRun (by decide +kernel)) (by decide +kernel)
    (distinctHeads_of_nodup (by decide +kernel)) hread (by decide +kernel) (by decide +kernel) (by decide +kernel)
    (by decide +kernel)

/-- The outbox is deleted and created again between the read of the first batch and its cursor write. -/
private def rotationInsideBatch : List Act :=
  .appendLine "a" :: drainSteps 6 ++ .delete :: .appendLine "b" :: drainSteps 7

/-- The cursor of line `a` passes for a cursor of the new outbox: the second batch reads on behind line `b`, which was
neither delivered nor dead-lettered. -/
theorem rotation_skips_line :
    ∃ s, Run.exec (Sys.next junkCodec fun _ => 500) Sys.init rotationInsideBatch = some s ∧ DistinctHeads s ∧
      (s.drainers 0).pc = .read 2 ∧ ([98], 2) ∈ framed newline 0 s.content ∧ isBlank (decode [98]) = false ∧
        ¬ (Delivered s ([98], 2) ∨ DeadLettered s ([98], 2)) := by
  refine ⟨junkRun rotationInsideBatch, exec_junkRun (by decide +kernel), distinctHeads_of_nodup (by decide +kernel),
    eq_read (by decide +kernel), by decide +kernel, by decide +kernel, ?_⟩
  have hexchanges : (junkRun rotationInsideBatch).exchanges.length = 0 := by decide +kernel
  have hrecords : ∀ record ∈ (junkRun rotationInsideBatch).deadLetters,
      record.origin ≠ some ((junkRun rotationInsideBatch).incarnation, 2) := by decide +kernel
  rintro (⟨x, hx, -⟩ | ⟨record, hrecord, -, horigin⟩)
  · rw [List.length_eq_zero_iff.1 hexchanges] at hx
    cases hx
  · exact hrecords record hrecord horigin

end AgentOS
