import AgentOS.Outbox.NoLoss
import Mathlib.Data.List.Nodup

/-!
# Dead-lettering exactly once

One drainer works on an outbox that is only appended to, and no access of it is cut off.  `Recorded codec s e todo` says
that up to offset `e` every malformed line, and every line that the server has rejected, has one record in
`dead-letter.jsonl` or is still on the list `todo`, and that nothing else has more.

`drain_batch` keeps this from batch to batch as long as it reads on from its cursor.  The token that the cursor file
holds is a hash of the first 4096 bytes of the outbox, though, so while the outbox is shorter than that every append
changes it: the next `read_cursor` takes the outbox for a new one and starts again at 0 (`Steady` excludes this once
there is something to repeat).
-/

namespace AgentOS

open Lines

variable {Envelope : Type}

/-- How many records are about the line of the current outbox that ends at `e`. -/
def recordCount (s : Sys Envelope) (e : Nat) : Nat :=
  s.deadLetters.countP fun record => record.origin = some (s.incarnation, e)

/-- `model_validate_json` refuses the line. -/
def Malformed (codec : Codec Envelope) (line : List UInt8 × Nat) : Prop :=
  ∃ error, codec.validate (decode line.1) = .error error

/-- A result that `drain_batch` knows. -/
def KnownResult (result : Json) : Prop :=
  ∃ fields, result = .obj fields ∧ ((Json.get fields "outcome").asStr = some "rejected" ∨
    (Json.get fields "outcome").asStr = some "accepted" ∨ (Json.get fields "outcome").asStr = some "duplicate")

/-- The answer is aligned with the request, all its results are known, and it rejects `line`. -/
def Exchange.Rejects (x : Exchange Envelope) (line : List UInt8 × Nat) : Prop :=
  ∃ body results, x.reply = .response 200 body ∧ Json.get (parsedBody body) "results" = .arr results ∧
    results.length = x.sent.length ∧ (∀ result ∈ results, KnownResult result) ∧
      ∃ (k : Nat) (event : PendingEvent Envelope) (fields : List (String × Json)), x.sent[k]? = some event ∧
        event.Of line ∧ results[k]? = some (.obj fields) ∧ (Json.get fields "outcome").asStr = some "rejected"

/-- The offset in the cursor file, 0 without one. -/
def Sys.cursorOffset (s : Sys Envelope) : Nat := (s.cursor.map (·.offset)).getD 0

/-- No line has two records.  Between two batches, every malformed line up to the cursor and every line that the server
has rejected has one. -/
structure DeadLetteredOnce (codec : Codec Envelope) (i : Nat) (s : Sys Envelope) : Prop where
  atMostOnce : ∀ e, recordCount s e ≤ 1
  once : (s.drainers i).pc = .idle → ∀ line ∈ framed newline 0 s.content, ¬ isBlank (decode line.1) →
    (Malformed codec line ∧ line.2 ≤ s.cursorOffset) ∨ (∃ x ∈ s.exchanges, x.Rejects line) →
      recordCount s line.2 = 1

/-- Appends, and the accesses of drainer `i`. -/
def Act.byOne (i : Nat) : Act → Prop
  | .appendLine _ => True
  | .step j _ => j = i
  | .crash _ => False
  | .delete => False

instance (i : Nat) : (a : Act) → Decidable (a.byOne i)
  | .appendLine _ => .isTrue trivial
  | .step j _ => inferInstanceAs (Decidable (j = i))
  | .crash _ => .isFalse id
  | .delete => .isFalse id

/-- The token of the outbox head is still that of the cursor file, or no line has been dead-lettered yet. -/
def HeadSteady (codec : Codec Envelope) (s : Sys Envelope) (cursor : CursorFile) : Prop :=
  cursor.generation = none ∨ outboxGeneration codec s.outbox = none ∨
    cursor.generation = outboxGeneration codec s.outbox ∨ ∀ record ∈ s.deadLetters, record.origin = none

instance (codec : Codec Envelope) (s : Sys Envelope) (cursor : CursorFile) : Decidable (HeadSteady codec s cursor) :=
  inferInstanceAs (Decidable (_ ∨ _ ∨ _ ∨ _))

/-- Where `read_cursor` hashes the head of the outbox, it finds the head steady. -/
def Steady (codec : Codec Envelope) (s : Sys Envelope) : Act → Prop
  | .step i _ => match (s.drainers i).pc with
    | .hashHead cursor => HeadSteady codec s cursor
    | _ => True
  | _ => True

instance (codec : Codec Envelope) (s : Sys Envelope) : (a : Act) → Decidable (Steady codec s a)
  | .step i reply => decidable_of_iff
      (match (s.drainers i).pc with
        | .hashHead cursor => decide (HeadSteady codec s cursor)
        | _ => true : Bool)
      (by simp only [Steady]; split <;> simp)
  | .appendLine _ => .isTrue trivial
  | .crash _ => .isTrue trivial
  | .delete => .isTrue trivial

/-- Up to `e`, what is to be dead-lettered has one record or is on the list `todo`. -/
structure Recorded (codec : Codec Envelope) (s : Sys Envelope) (e : Nat) (todo : List Nat) : Prop where
  boundary : Boundary newline s.content e
  le : ∀ x, recordCount s x ≠ 0 → x ≤ e
  todo_le : ∀ x ∈ todo, x ≤ e
  once : ∀ x, recordCount s x + todo.count x ≤ 1
  malformed : ∀ line ∈ framed newline 0 (s.content.take e), ¬ isBlank (decode line.1) → Malformed codec line →
    recordCount s line.2 + todo.count line.2 = 1
  rejected : ∀ x ∈ s.exchanges, ∀ rejected, resolve x.sent x.reply = .ok rejected → ∀ p ∈ rejected,
    recordCount s p.1.endOffset + todo.count p.1.endOffset = 1

/-- A batch that was read from `start` on. -/
structure BatchRead (codec : Codec Envelope) (s : Sys Envelope) (start : Nat) (pending : List (PendingEvent Envelope))
    (endOffset : Nat) : Prop where
  boundary : Boundary newline s.content endOffset
  nodup : (pending.map (·.endOffset)).Nodup
  offsets : ∀ event ∈ pending, start < event.endOffset ∧ event.endOffset ≤ endOffset
  start_le : start ≤ endOffset
  covers : ∀ line ∈ framed newline 0 (s.content.take endOffset), ¬ isBlank (decode line.1) → start < line.2 →
    ∃ event ∈ pending, event.Of line
  unparsed : ∀ event ∈ pending, (∃ error, codec.validate event.raw = .error error) → event.envelope = none

/-- What has been recorded where the drainer is. -/
def PcRecorded (codec : Codec Envelope) (s : Sys Envelope) : Pc Envelope → Prop
  | .idle => Recorded codec s s.cursorOffset []
  | .readCursor => Recorded codec s s.cursorOffset []
  | .hashHead cursor => s.cursorOffset = cursor.offset ∧ Recorded codec s s.cursorOffset []
  | .getSize offset => s.cursorOffset = offset ∧ Recorded codec s s.cursorOffset []
  | .stat start => Recorded codec s s.cursorOffset [] ∧ Recorded codec s start []
  | .read start => Recorded codec s s.cursorOffset [] ∧ Recorded codec s start []
  | .request pending endOffset => Recorded codec s s.cursorOffset [] ∧
    ∃ start, Recorded codec s start [] ∧ BatchRead codec s start pending endOffset
  | .deadLetter todo endOffset => Recorded codec s endOffset (todo.map fun p => p.1.endOffset)
  | .stamp endOffset => Recorded codec s endOffset []
  | .replace endOffset _ => Recorded codec s endOffset []

/-- The invariant of one drainer. -/
structure OnceInv (codec : Codec Envelope) (i : Nat) (s : Sys Envelope) : Prop where
  incarnation : s.incarnation = 0
  basis : (s.drainers i).basis = 0
  pc : PcRecorded codec s (s.drainers i).pc

theorem PcRecorded.exists {codec : Codec Envelope} {s : Sys Envelope} {pc : Pc Envelope} (h : PcRecorded codec s pc) :
    ∃ e todo, Recorded codec s e todo := by
  cases pc with
  | idle => exact ⟨_, _, h⟩
  | readCursor => exact ⟨_, _, h⟩
  | hashHead => exact ⟨_, _, h.2⟩
  | getSize => exact ⟨_, _, h.2⟩
  | stat => exact ⟨_, _, h.1⟩
  | read => exact ⟨_, _, h.1⟩
  | request => exact ⟨_, _, h.1⟩
  | deadLetter => exact ⟨_, _, h⟩
  | stamp => exact ⟨_, _, h⟩
  | replace => exact ⟨_, _, h⟩

variable {codec : Codec Envelope} {s s' : Sys Envelope} {e start endOffset i : Nat} {todo : List Nat}
  {pending : List (PendingEvent Envelope)}

/-! ### What a batch holds -/

theorem pendingEvent_unparsed {line : List UInt8 × Nat} (error : String)
    (h : codec.validate (decode line.1) = .error error) : (pendingEvent codec line).envelope = none := by
  simp only [pendingEvent, h]

/-- The offsets of a batch increase and lie beyond its start. -/
theorem readPending_offsets (codec : Codec Envelope) (outbox : List UInt8) (start : Nat)
    (maxEvents maxBytes : Option Int) :
    ((readPending codec outbox start maxEvents maxBytes).map (·.endOffset)).Pairwise (· < ·) ∧
      ∀ event ∈ readPending codec outbox start maxEvents maxBytes, start < event.endOffset ∧
        ((∃ error, codec.validate event.raw = .error error) → event.envelope = none) := by
  obtain ⟨read, hread, heq⟩ := pendingLoop_eq codec maxEvents []
    (framed newline start (readBytes maxBytes (outbox.drop start)))
  rw [readPending, heq, List.nil_append]
  constructor
  · have hsorted := (framed_pairwise newline start (readBytes maxBytes (outbox.drop start))).sublist
      ((List.filter_sublist (p := fun line => !isBlank (decode line.1))).trans hread.sublist)
    rw [List.map_map, List.pairwise_map]
    refine hsorted.imp fun {a b} hab => ?_
    have ha := (pendingEvent_of codec a).2
    have hb := (pendingEvent_of codec b).2
    simp only [Function.comp_apply, ha, hb]
    omega
  · intro event hevent
    obtain ⟨line, hline, rfl⟩ := List.mem_map.1 hevent
    have hmem := hread.subset (List.mem_filter.1 hline).1
    have hlt := lt_of_mem_framed hmem
    obtain ⟨hraw, hend⟩ := pendingEvent_of codec line
    refine ⟨by omega, ?_⟩
    rintro ⟨error, herror⟩
    refine pendingEvent_unparsed error ?_
    rwa [← hraw]

theorem batchRead {data : List UInt8} (hdata : s.outbox = some data) (hstart : Boundary newline s.content start)
    {maxEvents maxBytes : Option Int} {last : PendingEvent Envelope}
    (hlast : (readPending codec data start maxEvents maxBytes).getLast? = some last) :
    BatchRead codec s start (readPending codec data start maxEvents maxBytes) last.endOffset := by
  have hcontent : s.content = data := by rw [Sys.content, hdata]; rfl
  rw [hcontent] at hstart
  obtain ⟨hsorted, hevents⟩ := readPending_offsets codec data start maxEvents maxBytes
  obtain ⟨hbound, hlt, hcovers⟩ := readPending_covers hstart hlast
  have hle : ∀ event ∈ readPending codec data start maxEvents maxBytes, event.endOffset ≤ last.endOffset := by
    intro event hevent
    obtain ⟨P, hP⟩ := List.getLast?_eq_some_iff.1 hlast
    rw [hP] at hevent hsorted
    rw [List.map_append] at hsorted
    rcases List.mem_append.1 hevent with hevent | hevent
    · exact Nat.le_of_lt ((List.pairwise_append.1 hsorted).2.2 _ (List.mem_map_of_mem hevent) _ (by simp))
    · exact Nat.le_of_eq (congrArg PendingEvent.endOffset (List.mem_singleton.1 hevent))
  refine ⟨hcontent ▸ hbound, hsorted.imp fun h => Nat.ne_of_lt h, fun event hevent => ⟨(hevents event hevent).1,
    hle event hevent⟩, Nat.le_of_lt hlt, fun line hline hblank hs => ?_, fun event hevent => (hevents event hevent).2⟩
  rw [hcontent] at hline
  have hend : line.2 ≤ last.endOffset := by
    obtain ⟨n, hn, hb⟩ := boundary_of_mem hline
    have := hb.le
    rw [List.length_take] at this
    omega
  refine hcovers line ?_ hs hend hblank
  rw [framed_of_boundary hbound]
  exact List.mem_append_left _ hline

/-! ### What later states keep -/

theorem Recorded.extend (h : Recorded codec s e todo) (hcontent : s.content <+: s'.content)
    (hcount : ∀ x, recordCount s' x = recordCount s x)
    (hexchanges : ∀ x ∈ s'.exchanges, x ∈ s.exchanges ∨ ∃ error, resolve x.sent x.reply = .error error) :
    Recorded codec s' e todo := by
  obtain ⟨t, ht⟩ := hcontent
  refine ⟨ht ▸ h.boundary.append t, fun x hx => h.le x (hcount x ▸ hx), h.todo_le, fun x => ?_, ?_, ?_⟩
  · rw [hcount]
    exact h.once x
  · intro line hline hblank hbad
    rw [← ht, List.take_append_of_le_length h.boundary.le] at hline
    rw [hcount]
    exact h.malformed line hline hblank hbad
  · intro x hx rejected hr p hp
    rw [hcount]
    rcases hexchanges x hx with hx | ⟨error, herror⟩
    · exact h.rejected x hx rejected hr p hp
    · rw [herror] at hr
      cases hr

theorem BatchRead.extend (h : BatchRead codec s start pending endOffset) (hcontent : s.content <+: s'.content) :
    BatchRead codec s' start pending endOffset := by
  obtain ⟨t, ht⟩ := hcontent
  refine ⟨ht ▸ h.boundary.append t, h.nodup, h.offsets, h.start_le, fun line hline => ?_, h.unparsed⟩
  rw [← ht, List.take_append_of_le_length h.boundary.le] at hline
  exact h.covers line hline

/-- The drainer's place, in a state where only the outbox has grown. -/
theorem PcRecorded.extend {pc : Pc Envelope} (h : PcRecorded codec s pc) (hcontent : s.content <+: s'.content)
    (hcount : ∀ x, recordCount s' x = recordCount s x) (hexchanges : s'.exchanges = s.exchanges)
    (hcursor : s'.cursor = s.cursor) : PcRecorded codec s' pc := by
  have hoffset : s'.cursorOffset = s.cursorOffset := by rw [Sys.cursorOffset, hcursor]; rfl
  have hrec : ∀ {e : Nat} {todo : List Nat}, Recorded codec s e todo → Recorded codec s' e todo :=
    fun h => h.extend hcontent hcount fun x hx => Or.inl (hexchanges ▸ hx)
  have hcur : Recorded codec s s.cursorOffset [] → Recorded codec s' s'.cursorOffset [] := by
    rw [hoffset]
    exact hrec
  cases pc with
  | idle => exact hcur h
  | readCursor => exact hcur h
  | hashHead cursor => exact ⟨hoffset.trans h.1, hcur h.2⟩
  | getSize offset => exact ⟨hoffset.trans h.1, hcur h.2⟩
  | stat start => exact ⟨hcur h.1, hrec h.2⟩
  | read start => exact ⟨hcur h.1, hrec h.2⟩
  | request pending endOffset =>
    obtain ⟨h₁, start, hstart, hbatch⟩ := h
    exact ⟨hcur h₁, start, hrec hstart, hbatch.extend hcontent⟩
  | deadLetter todo endOffset => exact hrec h
  | stamp endOffset => exact hrec h
  | replace endOffset generation => exact hrec h

/-- Where nothing has been recorded, nothing is to be recorded before 0. -/
theorem Recorded.zero (h : Recorded codec s e []) (hnone : ∀ record ∈ s.deadLetters, record.origin = none) :
    Recorded codec s 0 [] := by
  have hcount : ∀ x, recordCount s x = 0 := by
    intro x
    refine List.countP_eq_zero.2 fun record hrecord => ?_
    rw [hnone record hrecord]
    simp
  refine ⟨Boundary.zero _, fun x hx => absurd (hcount x) hx, fun _ => by simp, fun x => by simp [hcount x], ?_, ?_⟩
  · intro line hline
    rw [List.take_zero] at hline
    cases hline
  · intro x hx rejected hr p hp
    exact h.rejected x hx rejected hr p hp

/-! ### One batch -/

/-- What `drain_batch` rejects is a part of what it sent. -/
theorem rejectedEvents_sublist {sent : List (PendingEvent Envelope)} {results : List Json}
    {rejected : List (PendingEvent Envelope × Json)} (h : rejectedEvents sent results = .ok rejected) :
    (rejected.map Prod.fst).Sublist sent := by
  induction sent generalizing results rejected with
  | nil =>
    obtain rfl := Except.ok.inj h
    exact List.Sublist.refl _
  | cons event sent ih =>
    cases results with
    | nil =>
      obtain rfl := Except.ok.inj h
      exact List.nil_sublist _
    | cons result results =>
      cases result with
      | obj fields =>
        simp only [rejectedEvents] at h
        split at h
        · cases hrest : rejectedEvents sent results with
          | error e => simp only [hrest] at h; cases h
          | ok rest =>
            simp only [hrest, Except.ok.injEq] at h
            subst h
            exact (ih hrest).cons_cons event
        · split at h
          · exact (ih h).cons event
          · cases h
      | _ => simp only [rejectedEvents] at h; cases h

private theorem map_unparsed (pending : List (PendingEvent Envelope)) :
    (unparsed pending).map Prod.fst = pending.filter fun event => event.envelope.isNone := by
  rw [unparsed, List.map_map]
  exact List.map_id _

/-- The dead-letter list of a resolved batch names each of its lines at most once. -/
theorem nodup_toDeadLetter {rejected : List (PendingEvent Envelope × Json)}
    (hb : BatchRead codec s start pending endOffset)
    (hsub : (rejected.map Prod.fst).Sublist (toSend pending)) :
    ((unparsed pending ++ rejected).map fun p => p.1.endOffset).Nodup := by
  have hperm : (unparsed pending ++ rejected).map Prod.fst ⊆ pending := by
    intro event hevent
    rw [List.map_append] at hevent
    rcases List.mem_append.1 hevent with h | h
    · rw [map_unparsed] at h
      exact List.mem_of_mem_filter h
    · exact List.mem_of_mem_filter (hsub.subset h)
  have hinj : ∀ x ∈ pending, ∀ y ∈ pending, x.endOffset = y.endOffset → x = y :=
    fun x hx y hy h => List.inj_on_of_nodup_map hb.nodup hx hy h
  have hpending : pending.Nodup := List.Nodup.of_map _ hb.nodup
  have hevents : ((unparsed pending ++ rejected).map Prod.fst).Nodup := by
    rw [List.map_append, map_unparsed]
    refine (hpending.filter _).append (hsub.nodup (hpending.filter _)) fun event h₁ h₂ => ?_
    have hnone := (List.mem_filter.1 h₁).2
    have hsome := (List.mem_filter.1 (hsub.subset h₂)).2
    rw [Option.isNone_iff_eq_none] at hnone
    rw [hnone] at hsome
    cases hsome
  have hmap : ((unparsed pending ++ rejected).map fun p => p.1.endOffset) =
      ((unparsed pending ++ rejected).map Prod.fst).map (·.endOffset) := by
    rw [List.map_map]
    rfl
  rw [hmap]
  exact List.Nodup.map_on (fun x hx y hy h => hinj x (hperm hx) y (hperm hy) h) hevents

/-- A batch is resolved: what is to be dead-lettered is on the list, once. -/
theorem Recorded.resolved (rejected : List (PendingEvent Envelope × Json)) (h : Recorded codec s start [])
    (hb : BatchRead codec s start pending endOffset) (hsub : (rejected.map Prod.fst).Sublist (toSend pending))
    (hcontent : s'.content = s.content) (hcount : ∀ x, recordCount s' x = recordCount s x)
    (hexchanges : ∀ x ∈ s'.exchanges, x ∈ s.exchanges ∨ resolve x.sent x.reply = .ok rejected) :
    Recorded codec s' endOffset ((unparsed pending ++ rejected).map fun p => p.1.endOffset) := by
  have hnodup := nodup_toDeadLetter hb hsub
  have hmem : ∀ p ∈ unparsed pending ++ rejected, p.1 ∈ pending := by
    intro p hp
    rcases List.mem_append.1 hp with hp | hp
    · have hp' : p.1 ∈ (unparsed pending).map Prod.fst := List.mem_map_of_mem hp
      rw [map_unparsed] at hp'
      exact List.mem_of_mem_filter hp'
    · exact List.mem_of_mem_filter (hsub.subset (List.mem_map_of_mem hp))
  -- the list holds only lines beyond the start, and those have no record yet
  have hlist : ∀ x ∈ (unparsed pending ++ rejected).map (fun p => p.1.endOffset), start < x ∧ x ≤ endOffset := by
    intro x hx
    obtain ⟨p, hp, rfl⟩ := List.mem_map.1 hx
    exact hb.offsets p.1 (hmem p hp)
  have hnew : ∀ x, start < x → recordCount s x = 0 := by
    intro x hx
    by_contra hne
    have := h.le x hne
    omega
  have hold : ∀ x, x ≤ start → ((unparsed pending ++ rejected).map fun p => p.1.endOffset).count x = 0 := by
    intro x hx
    refine List.count_eq_zero.2 fun hxmem => ?_
    have := (hlist x hxmem).1
    omega
  have hlisted : ∀ p ∈ unparsed pending ++ rejected, recordCount s p.1.endOffset +
      ((unparsed pending ++ rejected).map fun p => p.1.endOffset).count p.1.endOffset = 1 := by
    intro p hp
    rw [hnew _ (hb.offsets p.1 (hmem p hp)).1, Nat.zero_add]
    exact List.count_eq_one_of_mem hnodup (List.mem_map.2 ⟨p, hp, rfl⟩)
  refine ⟨hcontent ▸ hb.boundary, fun x hx => ?_, fun x hx => (hlist x hx).2, fun x => ?_, ?_, ?_⟩
  · rw [hcount] at hx
    have := h.le x hx
    have := hb.start_le
    omega
  · rw [hcount]
    by_cases hx : start < x
    · rw [hnew x hx, Nat.zero_add]
      exact List.nodup_iff_count_le_one.1 hnodup x
    · rw [hold x (by omega), Nat.add_zero]
      have := h.once x
      rw [List.count_nil] at this
      omega
  · intro line hline hblank hbad
    rw [hcontent] at hline
    rw [hcount]
    by_cases hs : start < line.2
    · obtain ⟨event, hevent, hof⟩ := hb.covers line hline hblank hs
      have hnone : event.envelope = none := by
        refine hb.unparsed event hevent ?_
        rw [hof.1]
        exact hbad
      obtain ⟨p, hp, hpe⟩ := List.mem_map.1 (mem_unparsed hevent hnone)
      have hone := hlisted p (List.mem_append_left _ hp)
      rwa [hpe, hof.2] at hone
    · rw [hold line.2 (by omega)]
      have hone := h.malformed line ?_ hblank hbad
      · rwa [List.count_nil] at hone
      · -- the line ends at or before the start
        have hmem' : line ∈ framed newline 0 s.content := by
          rw [framed_of_boundary hb.boundary]
          exact List.mem_append_left _ hline
        rw [framed_of_boundary h.boundary] at hmem'
        refine (List.mem_append.1 hmem').resolve_right fun hafter => ?_
        have := lt_of_mem_framed hafter
        omega
  · intro x hx rejected' hr p hp
    rw [hcount]
    rcases hexchanges x hx with hx | hx
    · have hone := h.rejected x hx rejected' hr p hp
      rw [List.count_nil] at hone
      have hle := h.le p.1.endOffset (by omega)
      rw [hold _ hle]
      omega
    · obtain rfl := Except.ok.inj (hx.symm.trans hr)
      exact hlisted p (List.mem_append_right _ hp)

/-- The first line of the list is dead-lettered. -/
theorem Recorded.write {x : Nat} (h : Recorded codec s e (x :: todo)) {record : DeadLetter}
    (horigin : record.origin = some (s.incarnation, x)) :
    Recorded codec { s with deadLetters := s.deadLetters ++ [record] } e todo := by
  have hcount : ∀ y, recordCount { s with deadLetters := s.deadLetters ++ [record] } y + todo.count y =
      recordCount s y + (x :: todo).count y := by
    intro y
    simp only [recordCount, List.countP_append, List.countP_singleton, horigin, List.count_cons, beq_iff_eq]
    by_cases hxy : x = y
    · simp [hxy]
      omega
    · simp [hxy]
  have hle : ∀ y, recordCount { s with deadLetters := s.deadLetters ++ [record] } y ≠ 0 → y ≤ e := by
    intro y hy
    have hy' := hcount y
    by_cases hmem : y ∈ x :: todo
    · exact h.todo_le y hmem
    · rw [List.count_eq_zero.2 hmem] at hy'
      exact h.le y (by omega)
  refine ⟨h.boundary, hle, fun y hy => h.todo_le y (List.mem_cons_of_mem _ hy), fun y => ?_, ?_, ?_⟩
  · rw [hcount]
    exact h.once y
  · intro line hline hblank hbad
    rw [hcount]
    exact h.malformed line hline hblank hbad
  · intro y hy rejected hr p hp
    rw [hcount]
    exact h.rejected y hy rejected hr p hp

/-! ### The step lemma -/

/-- The drainer moves. -/
private theorem onceInv_setDrainer {d : Drainer Envelope} (hinc : s.incarnation = 0) (hbasis : d.basis = 0)
    (hpc : PcRecorded codec s d.pc) : OnceInv codec i (s.setDrainer i d) := by
  have hd := setDrainer_self s i d
  refine ⟨hinc, by rw [hd]; exact hbasis, ?_⟩
  rw [hd]
  exact hpc.extend List.prefix_rfl (fun _ => rfl) rfl rfl

/-- The cursor is read; in a steady run it is read on from. -/
private theorem recorded_hashHead {cursor : CursorFile} (hcur : Recorded codec s s.cursorOffset [])
    (hsteady : HeadSteady codec s cursor)
    (hstale : cursor.generation ≠ none ∧ outboxGeneration codec s.outbox ≠ none ∧
      cursor.generation ≠ outboxGeneration codec s.outbox) : Recorded codec s 0 [] := by
  rcases hsteady with h | h | h | h
  · exact absurd h hstale.1
  · exact absurd h hstale.2.1
  · exact absurd h hstale.2.2
  · exact hcur.zero h

variable {batchSize : Nat → Int}

theorem OnceInv.drainStep (h : OnceInv codec i s) (reply : Reply) (hsteady : Steady codec s (.step i reply)) :
    OnceInv codec i (drainStep codec batchSize s i reply) := by
  have hinv := h.pc
  cases hpc : (s.drainers i).pc with
  | idle =>
    rw [hpc] at hinv
    simp only [AgentOS.drainStep, hpc]
    split
    · exact onceInv_setDrainer h.incarnation h.basis hinv
    · exact onceInv_setDrainer h.incarnation h.incarnation hinv
  | readCursor =>
    rw [hpc] at hinv
    simp only [AgentOS.drainStep, hpc]
    split
    case h_1 hnone =>
      have hzero : s.cursorOffset = 0 := by rw [Sys.cursorOffset, hnone]; rfl
      have hcur : Recorded codec s s.cursorOffset [] := hinv
      exact onceInv_setDrainer h.incarnation h.basis ⟨hcur, hzero ▸ hcur⟩
    case h_2 cursor hcursor =>
      have hoffset : s.cursorOffset = cursor.offset := by rw [Sys.cursorOffset, hcursor]; rfl
      exact onceInv_setDrainer h.incarnation h.basis ⟨hoffset, hinv⟩
  | hashHead cursor =>
    rw [hpc] at hinv
    obtain ⟨hoffset, hcur⟩ := hinv
    have hbasis : (if s.outbox.isSome then s.incarnation else (s.drainers i).basis) = 0 := by
      split
      · exact h.incarnation
      · exact h.basis
    simp only [Steady, hpc] at hsteady
    simp only [AgentOS.drainStep, hpc]
    split
    case isTrue hstale =>
      have hzero := recorded_hashHead hcur hsteady hstale
      exact onceInv_setDrainer h.incarnation hbasis ⟨hcur, hzero⟩
    case isFalse => exact onceInv_setDrainer h.incarnation hbasis ⟨hoffset, hcur⟩
  | getSize offset =>
    rw [hpc] at hinv
    obtain ⟨hoffset, hcur⟩ := hinv
    simp only [AgentOS.drainStep, hpc]
    refine onceInv_setDrainer h.incarnation h.basis ?_
    -- a boundary lies within the file
    have hle := hcur.boundary.le
    rw [hoffset] at hle
    change PcRecorded codec s (.stat (if s.content.length < offset then 0 else offset))
    rw [if_neg (Nat.not_lt.2 hle)]
    exact ⟨hcur, hoffset ▸ hcur⟩
  | stat start =>
    rw [hpc] at hinv
    obtain ⟨hcur, hstart⟩ := hinv
    simp only [AgentOS.drainStep, hpc]
    refine onceInv_setDrainer h.incarnation h.basis ?_
    have hle : ¬ (s.outbox.map List.length).getD start < start := by
      have hle := hstart.boundary.le
      cases hout : s.outbox with
      | none => simp
      | some data =>
        rw [Sys.content, hout, Option.getD_some] at hle
        rw [Option.map_some, Option.getD_some]
        omega
    change PcRecorded codec s (.read (if (s.outbox.map List.length).getD start < start then _ else start))
    rw [if_neg hle]
    exact ⟨hcur, hstart⟩
  | read start =>
    rw [hpc] at hinv
    obtain ⟨hcur, hstart⟩ := hinv
    simp only [AgentOS.drainStep, hpc]
    split
    case h_1 => exact onceInv_setDrainer h.incarnation h.basis hcur
    case h_2 data hdata =>
      split
      case h_1 => exact onceInv_setDrainer h.incarnation h.basis hcur
      case h_2 last hlast =>
        have hbatch := batchRead hdata hstart.boundary hlast
        by_cases hsend : (toSend (readPending codec data start (some (batchSize i))
            (some (batchSize i * maxLineBytes)))).isEmpty
        · simp only [hsend, ↓reduceIte]
          refine onceInv_setDrainer h.incarnation h.incarnation ?_
          have hresolved := hstart.resolved [] hbatch (List.nil_sublist _) rfl (fun _ => rfl)
            fun x hx => Or.inl hx
          rwa [List.append_nil] at hresolved
        · simp only [hsend, Bool.false_eq_true, ↓reduceIte]
          exact onceInv_setDrainer h.incarnation h.incarnation ⟨hcur, start, hstart, hbatch⟩
  | request pending endOffset =>
    rw [hpc] at hinv
    obtain ⟨hcur, start, hstart, hbatch⟩ := hinv
    simp only [AgentOS.drainStep, hpc]
    split
    case h_1 error herror =>
      -- the batch raises: nothing has been recorded, and the cursor stays
      refine onceInv_setDrainer h.incarnation h.basis ?_
      refine hcur.extend List.prefix_rfl (fun _ => rfl) fun x hx => ?_
      rcases List.mem_append.1 hx with hx | hx
      · exact Or.inl hx
      · rw [List.mem_singleton.1 hx]
        exact Or.inr ⟨error, herror⟩
    case h_2 rejected hrejected =>
      refine onceInv_setDrainer h.incarnation h.basis ?_
      obtain ⟨body, results, -, -, -, hrej⟩ := resolve_ok hrejected
      refine hstart.resolved rejected hbatch (rejectedEvents_sublist hrej) rfl (fun _ => rfl) fun x hx => ?_
      rcases List.mem_append.1 hx with hx | hx
      · exact Or.inl hx
      · rw [List.mem_singleton.1 hx]
        exact Or.inr hrejected
  | deadLetter todo endOffset =>
    rw [hpc] at hinv
    cases todo with
    | nil =>
      simp only [AgentOS.drainStep, hpc]
      exact onceInv_setDrainer h.incarnation h.basis hinv
    | cons p todo =>
      obtain ⟨event, reason⟩ := p
      simp only [AgentOS.drainStep, hpc]
      refine onceInv_setDrainer h.incarnation h.basis ?_
      exact Recorded.write hinv (by rw [h.basis, h.incarnation])
  | stamp endOffset =>
    rw [hpc] at hinv
    simp only [AgentOS.drainStep, hpc]
    exact onceInv_setDrainer h.incarnation h.basis hinv
  | replace endOffset generation =>
    rw [hpc] at hinv
    have hdone : Recorded codec s endOffset [] := hinv
    simp only [AgentOS.drainStep, hpc]
    refine onceInv_setDrainer h.incarnation h.basis ?_
    exact hdone.extend List.prefix_rfl (fun _ => rfl) fun x hx => Or.inl hx

theorem OnceInv.appendLine (h : OnceInv codec i s) (line : String) : OnceInv codec i (appendLine codec s line) := by
  unfold AgentOS.appendLine
  split
  · exact h
  · split
    · -- the record of an oversized line is about no line of the outbox
      refine ⟨h.incarnation, h.basis, h.pc.extend List.prefix_rfl (fun x => ?_) rfl rfl⟩
      simp [recordCount, List.countP_append]
    · exact ⟨h.incarnation, h.basis, h.pc.extend (List.prefix_append _ _) (fun _ => rfl) rfl rfl⟩

theorem onceInv_next {a : Act} (h : OnceInv codec i s) (hone : a.byOne i) (hsteady : Steady codec s a)
    (hnext : s.next codec batchSize a = some s') : OnceInv codec i s' := by
  cases a with
  | appendLine line =>
    obtain rfl := Option.some.inj hnext
    exact h.appendLine line
  | step j reply =>
    obtain rfl : j = i := hone
    obtain rfl := Option.some.inj hnext
    exact h.drainStep reply hsteady
  | crash j => exact hone.elim
  | delete => exact hone.elim

theorem onceInv_init : OnceInv codec i (Sys.init : Sys Envelope) := by
  refine ⟨rfl, rfl, Boundary.zero _, fun x hx => absurd rfl hx, fun _ => by simp, fun _ => Nat.zero_le _, ?_,
    fun _ h => by cases h⟩
  intro line hline
  rw [Sys.cursorOffset] at hline
  cases hline

/-! ### The result -/

/-- An answer whose results are all known is resolved, and its rejections are found. -/
theorem exists_rejectedEvents (sent : List (PendingEvent Envelope)) {results : List Json}
    (hknown : ∀ result ∈ results, KnownResult result) :
    ∃ rejected, rejectedEvents sent results = .ok rejected ∧
      ∀ (k : Nat) (event : PendingEvent Envelope) (fields : List (String × Json)), sent[k]? = some event →
        results[k]? = some (.obj fields) → (Json.get fields "outcome").asStr = some "rejected" →
          event ∈ rejected.map Prod.fst := by
  induction sent generalizing results with
  | nil => exact ⟨[], rfl, fun k event fields h => by simp at h⟩
  | cons x sent ih =>
    cases results with
    | nil => exact ⟨[], rfl, fun k event fields _ h => by simp at h⟩
    | cons result results =>
      obtain ⟨fields, rfl, houtcome⟩ := hknown result List.mem_cons_self
      obtain ⟨rest, hrest, hfound⟩ := ih fun r hr => hknown r (List.mem_cons_of_mem _ hr)
      by_cases hrejected : (Json.get fields "outcome").asStr = some "rejected"
      · refine ⟨_, by simp only [rejectedEvents, hrejected, if_true, hrest]; rfl, fun k event f hk hr ho => ?_⟩
        cases k with
        | zero =>
          obtain rfl : x = event := by simpa using hk
          exact List.mem_cons_self
        | succ k => exact List.mem_cons_of_mem _ (hfound k event f (by simpa using hk) (by simpa using hr) ho)
      · have hother := houtcome.resolve_left hrejected
        refine ⟨rest, by simp only [rejectedEvents, if_neg hrejected, if_pos hother, hrest],
          fun k event f hk hr ho => ?_⟩
        cases k with
        | zero =>
          obtain rfl : fields = f := by simpa using hr
          exact absurd ho hrejected
        | succ k => exact hfound k event f (by simpa using hk) (by simpa using hr) ho

private theorem exists_rejected {x : Exchange Envelope} {line : List UInt8 × Nat} (h : x.Rejects line) :
    ∃ rejected, resolve x.sent x.reply = .ok rejected ∧ ∃ p ∈ rejected, p.1.endOffset = line.2 := by
  obtain ⟨body, results, hreply, hresults, hlen, hknown, k, event, fields, hk, hof, hr, ho⟩ := h
  obtain ⟨rejected, hok, hfound⟩ := exists_rejectedEvents x.sent hknown
  obtain ⟨p, hp, hpe⟩ := List.mem_map.1 (hfound k event fields hk hr ho)
  refine ⟨rejected, ?_, p, hp, by rw [hpe]; exact hof.2⟩
  rw [hreply]
  simp only [resolve, ne_eq, not_true_eq_false, if_false, hresults, hlen, hok]

/-- **Dead-letters are written exactly once.**  One drainer runs on an outbox that is only appended to, none of its
accesses is cut off, and whenever `read_cursor` hashes the head of the outbox, the token is still that of the cursor
file or no line has been dead-lettered yet.  Then no line ever has two records, and between two batches every malformed
line up to the cursor and every line that the server has rejected has one. -/
theorem dead_lettered_once {acts : List Act} (hrun : Run.exec (Sys.next codec batchSize) Sys.init acts = some s)
    (hone : ∀ a ∈ acts, a.byOne i) (hsteady : Run.Meets (Sys.next codec batchSize) (Steady codec) Sys.init acts) :
    DeadLetteredOnce codec i s := by
  have hinv : OnceInv codec i s := by
    have hmeets : Run.Meets (Sys.next codec batchSize) (fun s a => a.byOne i ∧ Steady codec s a) Sys.init acts :=
      Run.meets_and (Run.meets_of_forall Sys.init hone) hsteady
    exact Run.invariant_of_meets (I := OnceInv codec i) (fun t a t' ht ha hn => onceInv_next ht ha.1 ha.2 hn)
      onceInv_init hmeets hrun
  obtain ⟨e, todo, hrecorded⟩ := hinv.pc.exists
  refine ⟨fun x => ?_, fun hidle line hline hblank hbad => ?_⟩
  · have := hrecorded.once x
    omega
  · have hpc := hinv.pc
    rw [hidle] at hpc
    have hcur : Recorded codec s s.cursorOffset [] := hpc
    rcases hbad with ⟨hmalformed, hle⟩ | ⟨x, hx, hrejects⟩
    · have hmem : line ∈ framed newline 0 (s.content.take s.cursorOffset) := by
        rw [framed_of_boundary hcur.boundary] at hline
        refine (List.mem_append.1 hline).resolve_right fun hafter => ?_
        have := lt_of_mem_framed hafter
        omega
      exact hcur.malformed line hmem hblank hmalformed
    · obtain ⟨rejected, hr, p, hp, hpe⟩ := exists_rejected hrejects
      have hone := hcur.rejected x hx rejected hr p hp
      rwa [hpe] at hone

/-! ### An outbox shorter than the sample -/

/-- The malformed line `a` is drained, the outbox grows, and the drainer reads its cursor again. -/
private def growingOutbox : List Act :=
  .appendLine "a" :: drainSteps 9 ++ .appendLine "b" :: drainSteps 9

/-- The line is dead-lettered again. -/
theorem growing_outbox_repeats :
    ¬ ∀ (acts : List Act) (s : Sys Unit), Run.exec (Sys.next junkCodec fun _ => 500) Sys.init acts = some s →
      (∀ a ∈ acts, a.byOne 0) → DeadLetteredOnce junkCodec 0 s := by
  intro h
  have hrun : (Run.exec (Sys.next junkCodec fun _ => 500) Sys.init growingOutbox).any
      (fun s => recordCount s 2 = 2) = true := by decide +kernel
  obtain ⟨s, hs, hcount⟩ := (Option.any_eq_true _ _).1 hrun
  have hone : ∀ a ∈ growingOutbox, a.byOne 0 := by decide
  have := (h growingOutbox s hs hone).atMostOnce 2
  rw [of_decide_eq_true hcount] at this
  omega

/-- Two passes over an outbox that has not grown. -/
private def twoPasses : List Act := .appendLine "a" :: drainSteps 8 ++ drainSteps 6

private def Pc.isIdle : Pc Envelope → Bool
  | .idle => true
  | _ => false

private theorem Pc.eq_idle {pc : Pc Envelope} (h : pc.isIdle = true) : pc = .idle := by
  cases pc with
  | idle => rfl
  | _ => cases h

/-- The second pass reads its cursor and records nothing. -/
theorem second_pass_records_nothing : ∃ s, Run.exec (Sys.next junkCodec fun _ => 500) Sys.init twoPasses = some s ∧
    recordCount s 2 = 1 := by
  have hrun : (Run.exec (Sys.next junkCodec fun _ => 500) Sys.init twoPasses).any (fun s => s.cursorOffset = 2 ∧
      framed newline 0 s.content = [([97], 2)] ∧ (s.drainers 0).pc.isIdle = true) = true := by decide +kernel
  obtain ⟨s, hs, hstate⟩ := (Option.any_eq_true _ _).1 hrun
  obtain ⟨hcursor, hlines, hidle⟩ := of_decide_eq_true hstate
  have hsteady : Run.Meets (Sys.next junkCodec fun _ => 500) (Steady junkCodec) Sys.init twoPasses := by decide +kernel
  refine ⟨s, hs, (dead_lettered_once hs (by decide) hsteady).once (Pc.eq_idle hidle) ([97], 2) ?_ (by decide) ?_⟩
  · rw [hlines]
    exact List.mem_singleton_self _
  · exact Or.inl ⟨⟨_, rfl⟩, Nat.le_of_eq hcursor.symm⟩

end AgentOS
