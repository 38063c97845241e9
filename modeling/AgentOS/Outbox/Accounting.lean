import AgentOS.Outbox.Drain

/-!
# What a drain accounts for

A line of the current outbox is handled once a request delivered it or a dead-letter record names it.  `Accounted s e
events` says that offset `e` is a line boundary and every non-blank line up to it is handled or among `events`, which
the drainer still has in hand.  `DrainInv` attaches such a fact to the cursor file and to every point of `drain_batch`,
and `next_inv` is its step lemma.

The invariant survives a deletion of the outbox only where it does not fall between the head hash and the read, or the
read and the cursor write, of a drain batch (`Undisturbed`), and where head tokens tell incarnations apart
(`DistinctHeads`).
-/

namespace AgentOS

open Lines

variable {Envelope : Type}

/-- The answer is aligned with the request and accepts (or knows) `line`. -/
def Exchange.Accepts (x : Exchange Envelope) (line : List UInt8 × Nat) : Prop :=
  ∃ body results, x.reply = .response 200 body ∧ Json.get (parsedBody body) "results" = .arr results ∧
    results.length = x.sent.length ∧ ∃ (k : Nat) (event : PendingEvent Envelope) (fields : List (String × Json)),
      x.sent[k]? = some event ∧ event.Of line ∧ results[k]? = some (.obj fields) ∧
        ((Json.get fields "outcome").asStr = some "accepted" ∨ (Json.get fields "outcome").asStr = some "duplicate")

/-- A request delivered `line` of the current outbox. -/
def Delivered (s : Sys Envelope) (line : List UInt8 × Nat) : Prop :=
  ∃ x ∈ s.exchanges, x.incarnation = s.incarnation ∧ x.Accepts line

/-- `dead-letter.jsonl` has a record of `line` of the current outbox. -/
def DeadLettered (s : Sys Envelope) (line : List UInt8 × Nat) : Prop :=
  ∃ record ∈ s.deadLetters, record.raw = decode line.1 ∧ record.origin = some (s.incarnation, line.2)

def Handled (s : Sys Envelope) (line : List UInt8 × Nat) : Prop := Delivered s line ∨ DeadLettered s line

/-- Every non-blank line up to `e` is handled or one of `events`. -/
structure Accounted (s : Sys Envelope) (e : Nat) (events : List (PendingEvent Envelope)) : Prop where
  boundary : Boundary newline s.content e
  lines : ∀ line ∈ framed newline 0 (s.content.take e), ¬ isBlank (decode line.1) →
    Handled s line ∨ ∃ event ∈ events, event.Of line

/-- The token of a cursor file tells its incarnation; in its own incarnation it accounts for what it passed. -/
def GoodCursor (s : Sys Envelope) (cursor : CursorFile) : Prop :=
  ∃ j token, cursor.generation = some token ∧ (j, token) ∈ s.heads ∧ j ≤ s.incarnation ∧
    (j = s.incarnation → Accounted s cursor.offset [])

/-- What holds where a drainer is, while the outbox is the one it last looked into. -/
def PcInv (s : Sys Envelope) (pc : Pc Envelope) : Prop :=
  match pc with
  | .idle => True
  | .readCursor => True
  | .hashHead _ => True
  | .getSize offset => Accounted s offset []
  | .stat start => Accounted s start []
  | .read start => Accounted s start []
  | .request pending endOffset => Accounted s endOffset pending
  | .deadLetter todo endOffset => Accounted s endOffset (todo.map Prod.fst)
  | .stamp endOffset => Accounted s endOffset []
  | .replace endOffset generation =>
    Accounted s endOffset [] ∧ ∃ token, generation = some token ∧ (s.incarnation, token) ∈ s.heads

structure DrainInv (codec : Codec Envelope) (s : Sys Envelope) : Prop where
  head : ∀ data, s.outbox = some data → ∃ token, outboxGeneration codec (some data) = some token ∧
    (s.incarnation, token) ∈ s.heads
  heads_le : ∀ j token, (j, token) ∈ s.heads → j ≤ s.incarnation
  cursor : ∀ cursor, s.cursor = some cursor → GoodCursor s cursor
  hashing : ∀ i cursor, (s.drainers i).pc = .hashHead cursor → GoodCursor s cursor
  basis : ∀ i, (s.drainers i).basis ≤ s.incarnation
  live : ∀ i, (s.drainers i).basis = s.incarnation → (s.drainers i).pc ≠ .idle → s.outbox.isSome
  drainers : ∀ i, (s.drainers i).basis = s.incarnation → PcInv s (s.drainers i).pc

/-- No two incarnations have ever had the same head token. -/
def DistinctHeads (s : Sys Envelope) : Prop :=
  ∀ j k token, (j, token) ∈ s.heads → (k, token) ∈ s.heads → j = k

/-- The next access relies on what the drainer last saw of the outbox: it reads on from an offset, or writes the
cursor. -/
def Pc.relies : Pc Envelope → Bool
  | .read start => start ≠ 0
  | .replace _ _ => true
  | _ => false

/-- A drainer reads on only in the outbox whose head it hashed, and writes the cursor only while the outbox it read is
there. -/
def Undisturbed (s : Sys Envelope) : Act → Prop
  | .step i _ => (s.drainers i).pc.relies = true → (s.drainers i).basis = s.incarnation
  | _ => True

/-! ### What only grows -/

/-- `s'` is a later state of the same incarnation. -/
structure Extends (s s' : Sys Envelope) : Prop where
  incarnation : s'.incarnation = s.incarnation
  outbox : s.outbox.isSome → s'.outbox.isSome
  content : s.content <+: s'.content
  heads : s.heads ⊆ s'.heads
  exchanges : s.exchanges ⊆ s'.exchanges
  deadLetters : s.deadLetters ⊆ s'.deadLetters

variable {s s' : Sys Envelope} {e : Nat} {events : List (PendingEvent Envelope)}

theorem Extends.handled (h : Extends s s') {line : List UInt8 × Nat} (hl : Handled s line) : Handled s' line := by
  rcases hl with ⟨x, hx, hinc, hacc⟩ | ⟨r, hr, hraw, horigin⟩
  · exact Or.inl ⟨x, h.exchanges hx, hinc.trans h.incarnation.symm, hacc⟩
  · exact Or.inr ⟨r, h.deadLetters hr, hraw, by rw [h.incarnation]; exact horigin⟩

theorem Extends.accounted (h : Extends s s') (ha : Accounted s e events) : Accounted s' e events := by
  obtain ⟨t, ht⟩ := h.content
  constructor
  · rw [← ht]
    exact ha.boundary.append t
  · intro line hline hblank
    rw [← ht, List.take_append_of_le_length ha.boundary.le] at hline
    exact (ha.lines line hline hblank).imp_left h.handled

theorem Extends.goodCursor (h : Extends s s') {cursor : CursorFile} (hc : GoodCursor s cursor) :
    GoodCursor s' cursor := by
  obtain ⟨j, token, hgen, hmem, hle, hacc⟩ := hc
  exact ⟨j, token, hgen, h.heads hmem, h.incarnation ▸ hle, fun hj => h.accounted (hacc (hj.trans h.incarnation))⟩

theorem Extends.pcInv (h : Extends s s') {pc : Pc Envelope} (hpc : PcInv s pc) : PcInv s' pc := by
  cases pc with
  | idle => trivial
  | readCursor => trivial
  | hashHead => trivial
  | getSize => exact h.accounted hpc
  | stat => exact h.accounted hpc
  | read => exact h.accounted hpc
  | request => exact h.accounted hpc
  | deadLetter => exact h.accounted hpc
  | stamp => exact h.accounted hpc
  | replace =>
    obtain ⟨ha, token, hgen, hmem⟩ := hpc
    exact ⟨h.accounted ha, token, hgen, by rw [h.incarnation]; exact h.heads hmem⟩

theorem Accounted.zero (s : Sys Envelope) : Accounted s 0 [] where
  boundary := Boundary.zero _
  lines line hline := by
    rw [List.take_zero] at hline
    cases hline

/-- An offset that accounts for everything up to it skips no line that begins before it. -/
theorem Accounted.handled (h : Accounted s e []) {line : List UInt8 × Nat} (hl : line ∈ framed newline 0 s.content)
    (hbegin : line.2 - line.1.length - 1 < e) (hblank : ¬ isBlank (decode line.1)) : Handled s line := by
  have hmem : line ∈ framed newline 0 (s.content.take e) := by
    rw [framed_of_boundary h.boundary] at hl
    refine (List.mem_append.1 hl).resolve_right fun hl => ?_
    have := lt_of_mem_framed hl
    omega
  refine (h.lines line hmem hblank).resolve_right ?_
  rintro ⟨_, h, -⟩
  cases h

/-! ### The steps -/

variable {codec : Codec Envelope}

/-- A step that leaves the cursor file and the drainers alone. -/
theorem DrainInv.extend (h : DrainInv codec s) (hext : Extends s s') (hcursor : s'.cursor = s.cursor)
    (hdrainers : s'.drainers = s.drainers)
    (hhead : ∀ data, s'.outbox = some data → ∃ token, outboxGeneration codec (some data) = some token ∧
      (s'.incarnation, token) ∈ s'.heads)
    (hheads : ∀ j token, (j, token) ∈ s'.heads → j ≤ s'.incarnation) : DrainInv codec s' where
  head := hhead
  heads_le := hheads
  cursor c hc := hext.goodCursor (h.cursor c (hcursor ▸ hc))
  hashing i c hc := hext.goodCursor (h.hashing i c (hdrainers ▸ hc))
  basis i := by
    rw [hdrainers, hext.incarnation]
    exact h.basis i
  live i := by
    rw [hdrainers, hext.incarnation]
    exact fun hb hpc => hext.outbox (h.live i hb hpc)
  drainers i := by
    rw [hdrainers, hext.incarnation]
    exact fun hb => hext.pcInv (h.drainers i hb)

theorem extends_setDrainer (s : Sys Envelope) (i : Nat) (d : Drainer Envelope) : Extends s (s.setDrainer i d) where
  incarnation := rfl
  outbox := id
  content := List.prefix_rfl
  heads := List.Subset.refl _
  exchanges := List.Subset.refl _
  deadLetters := List.Subset.refl _

theorem setDrainer_self (s : Sys Envelope) (i : Nat) (d : Drainer Envelope) : (s.setDrainer i d).drainers i = d := by
  simp only [Sys.setDrainer, Function.update_self]

theorem setDrainer_ne (s : Sys Envelope) {i j : Nat} (h : j ≠ i) (d : Drainer Envelope) :
    (s.setDrainer i d).drainers j = s.drainers j := by
  simp only [Sys.setDrainer, Function.update_of_ne h]

/-- What the invariant asks of one drainer. -/
structure DrainerInv (s : Sys Envelope) (d : Drainer Envelope) : Prop where
  hashing : ∀ cursor, d.pc = .hashHead cursor → GoodCursor s cursor
  basis : d.basis ≤ s.incarnation
  live : d.basis = s.incarnation → d.pc ≠ .idle → s.outbox.isSome
  pc : d.basis = s.incarnation → PcInv s d.pc

/-- A drainer moves. -/
theorem DrainInv.setDrainer (h : DrainInv codec s) (i : Nat) {d : Drainer Envelope} (hd : DrainerInv s d) :
    DrainInv codec (s.setDrainer i d) := by
  have hext := extends_setDrainer s i d
  have hall : ∀ j, DrainerInv s ((s.setDrainer i d).drainers j) := by
    intro j
    by_cases hj : j = i
    · rw [hj, setDrainer_self]
      exact hd
    · rw [setDrainer_ne s hj]
      exact ⟨h.hashing j, h.basis j, h.live j, h.drainers j⟩
  exact
    { head := h.head
      heads_le := h.heads_le
      cursor := fun c hc => hext.goodCursor (h.cursor c hc)
      hashing := fun j c hc => hext.goodCursor ((hall j).hashing c hc)
      basis := fun j => (hall j).basis
      live := fun j => (hall j).live
      drainers := fun j hb => hext.pcInv ((hall j).pc hb) }

/-- A drainer goes on to `pc`, with what it knows of the outbox unchanged. -/
theorem DrainInv.goto (h : DrainInv codec s) {i : Nat} {pc : Pc Envelope} (hlive : (s.drainers i).pc ≠ .idle)
    (hhash : ∀ cursor, pc = .hashHead cursor → GoodCursor s cursor)
    (hpc : (s.drainers i).basis = s.incarnation → PcInv s pc) :
    DrainInv codec (s.setDrainer i ((s.drainers i).goto pc)) :=
  h.setDrainer i ⟨hhash, h.basis i, fun hb _ => h.live i hb hlive, hpc⟩

/-- A drain_batch ends without touching the disk. -/
theorem DrainInv.finish (h : DrainInv codec s) (i : Nat) (result : BatchResult) :
    DrainInv codec (s.setDrainer i ((s.drainers i).finish result)) :=
  h.setDrainer i ⟨fun _ h => (by cases h), h.basis i, fun _ hne => absurd rfl hne, fun _ => trivial⟩

variable (codec) in
theorem outboxGeneration_of_ne_nil {data : List UInt8} (h : data ≠ []) :
    ∃ token, outboxGeneration codec (some data) = some token := by
  cases data with
  | nil => exact absurd rfl h
  | cons b bs => exact ⟨_, rfl⟩

theorem DrainInv.appendLine (h : DrainInv codec s) (line : String) : DrainInv codec (appendLine codec s line) := by
  unfold AgentOS.appendLine
  split
  · exact h
  · split
    · refine h.extend ⟨rfl, id, List.prefix_rfl, List.Subset.refl _, List.Subset.refl _, ?_⟩ rfl rfl h.head h.heads_le
      exact List.subset_append_left _ _
    · obtain ⟨token, htoken⟩ := outboxGeneration_of_ne_nil codec
        (show s.content ++ outboxLine line ≠ [] by simp [outboxLine])
      simp only [htoken, Option.map_some, Option.toList_some]
      refine h.extend ⟨rfl, fun _ => rfl, List.prefix_append _ _, List.subset_append_left _ _, List.Subset.refl _,
        List.Subset.refl _⟩ rfl rfl ?_ ?_
      · intro data hdata
        obtain rfl : s.content ++ outboxLine line = data := by simpa using hdata
        exact ⟨token, htoken, by simp⟩
      · intro j t hmem
        rcases List.mem_append.1 hmem with hmem | hmem
        · exact h.heads_le j t hmem
        · have := List.mem_singleton.1 hmem
          simp only [Prod.mk.injEq] at this
          exact Nat.le_of_eq this.1

theorem GoodCursor.delete {cursor : CursorFile} (h : GoodCursor s cursor) :
    GoodCursor { s with outbox := none, incarnation := s.incarnation + 1 } cursor := by
  obtain ⟨j, token, hgen, hmem, hle, -⟩ := h
  refine ⟨j, token, hgen, hmem, Nat.le_succ_of_le hle, fun hj => ?_⟩
  change j = s.incarnation + 1 at hj
  omega

theorem DrainInv.delete (h : DrainInv codec s) :
    DrainInv codec { s with outbox := none, incarnation := s.incarnation + 1 } where
  head data hdata := by cases hdata
  heads_le j token hmem := Nat.le_succ_of_le (h.heads_le j token hmem)
  cursor c hc := (h.cursor c hc).delete
  hashing i c hc := (h.hashing i c hc).delete
  basis i := Nat.le_succ_of_le (h.basis i)
  live i hb := by
    have := h.basis i
    change (s.drainers i).basis = s.incarnation + 1 at hb
    omega
  drainers i hb := by
    have := h.basis i
    change (s.drainers i).basis = s.incarnation + 1 at hb
    omega

/-! ### The accesses of `drain_batch` -/

/-- The head hash tells whether the cursor is of this incarnation. -/
theorem GoodCursor.accounted (h : DrainInv codec s) (hd : DistinctHeads s) {cursor : CursorFile}
    (hc : GoodCursor s cursor) (hout : s.outbox.isSome)
    (hmatch : ¬ (cursor.generation ≠ none ∧ outboxGeneration codec s.outbox ≠ none ∧
      cursor.generation ≠ outboxGeneration codec s.outbox)) : Accounted s cursor.offset [] := by
  obtain ⟨j, token, hgen, hmem, -, hacc⟩ := hc
  obtain ⟨data, hdata⟩ := Option.isSome_iff_exists.1 hout
  obtain ⟨token', htoken', hmem'⟩ := h.head data hdata
  rw [hgen, hdata, htoken'] at hmatch
  have heq : token = token' := by simpa using hmatch
  exact hacc (hd j s.incarnation token hmem (heq ▸ hmem'))

/-- The batch read from an offset that accounts for what is before it. -/
theorem Accounted.read {start : Nat} (h : Accounted s start []) {data : List UInt8} (hdata : s.outbox = some data)
    {maxEvents maxBytes : Option Int} {last : PendingEvent Envelope}
    (hlast : (readPending codec data start maxEvents maxBytes).getLast? = some last) :
    Accounted s last.endOffset (readPending codec data start maxEvents maxBytes) := by
  have hcontent : s.content = data := by rw [Sys.content, hdata]; rfl
  have hstart := h.boundary
  rw [hcontent] at hstart
  obtain ⟨hbound, hlt, hcovers⟩ := readPending_covers hstart hlast
  refine ⟨hcontent ▸ hbound, fun line hline hblank => ?_⟩
  rw [hcontent] at hline
  have hle : line.2 ≤ last.endOffset := by
    obtain ⟨n, hn, hb⟩ := boundary_of_mem hline
    have := hb.le
    rw [List.length_take] at this
    omega
  have hmem : line ∈ framed newline 0 data := by
    rw [framed_of_boundary hbound]
    exact List.mem_append_left _ hline
  by_cases hs : start < line.2
  · exact Or.inr (hcovers line hmem hs hle hblank)
  · refine Or.inl (h.handled (hcontent ▸ hmem) ?_ hblank)
    have := lt_of_mem_framed hline
    omega

theorem mem_unparsed {pending : List (PendingEvent Envelope)} {event : PendingEvent Envelope}
    (hmem : event ∈ pending) (hnone : event.envelope = none) : event ∈ (unparsed pending).map Prod.fst := by
  rw [unparsed, List.map_map]
  exact List.mem_map.2 ⟨event, List.mem_filter.2 ⟨hmem, by rw [hnone]; rfl⟩, rfl⟩

/-- Each event of a resolved request is rejected, or its result says accepted or duplicate. -/
theorem rejectedEvents_cases {sent : List (PendingEvent Envelope)} {results : List Json}
    {rejected : List (PendingEvent Envelope × Json)} (hlen : results.length = sent.length)
    (h : rejectedEvents sent results = .ok rejected) {event : PendingEvent Envelope} (hmem : event ∈ sent) :
    event ∈ rejected.map Prod.fst ∨ ∃ (k : Nat) (fields : List (String × Json)), sent[k]? = some event ∧
      results[k]? = some (.obj fields) ∧
        ((Json.get fields "outcome").asStr = some "accepted" ∨
          (Json.get fields "outcome").asStr = some "duplicate") := by
  induction sent generalizing results rejected with
  | nil => cases hmem
  | cons x sent ih =>
    cases results with
    | nil => simp at hlen
    | cons result results =>
      have hlen' : results.length = sent.length := by simpa using hlen
      cases result with
      | obj fields =>
        simp only [rejectedEvents] at h
        split at h
        · -- rejected
          cases hrest : rejectedEvents sent results with
          | error e => simp only [hrest] at h; cases h
          | ok rest =>
            simp only [hrest, Except.ok.injEq] at h
            subst h
            rcases List.mem_cons.1 hmem with rfl | hmem
            · exact Or.inl List.mem_cons_self
            · rcases ih hlen' hrest hmem with hr | ⟨k, f, h₁, h₂, h₃⟩
              · exact Or.inl (List.mem_cons_of_mem _ hr)
              · exact Or.inr ⟨k + 1, f, h₁, h₂, h₃⟩
        · split at h
          · -- accepted or duplicate
            rename_i hout
            rcases List.mem_cons.1 hmem with rfl | hmem
            · exact Or.inr ⟨0, fields, rfl, rfl, hout⟩
            · rcases ih hlen' h hmem with hr | ⟨k, f, h₁, h₂, h₃⟩
              · exact Or.inl hr
              · exact Or.inr ⟨k + 1, f, h₁, h₂, h₃⟩
          · cases h
      | _ => simp only [rejectedEvents] at h; cases h

/-- A request that was resolved had an aligned answer with status 200. -/
theorem resolve_ok {sent : List (PendingEvent Envelope)} {reply : Reply}
    {rejected : List (PendingEvent Envelope × Json)} (h : resolve sent reply = .ok rejected) :
    ∃ body results, reply = .response 200 body ∧ Json.get (parsedBody body) "results" = .arr results ∧
      results.length = sent.length ∧ rejectedEvents sent results = .ok rejected := by
  cases reply with
  | failure => cases h
  | response status body =>
    simp only [resolve] at h
    split at h
    · cases h
    · rename_i hstatus
      obtain rfl : status = 200 := by simpa using hstatus
      split at h
      · rename_i results hres
        split at h
        · cases h
        · rename_i hlen
          exact ⟨body, results, rfl, hres, by simpa using hlen, h⟩
      · cases h

/-- After a resolved request, what was sent is delivered or on the dead-letter list. -/
theorem Accounted.resolved {pending : List (PendingEvent Envelope)} {reply : Reply}
    {rejected : List (PendingEvent Envelope × Json)} (h : Accounted s e pending)
    (hx : ⟨s.incarnation, toSend pending, reply⟩ ∈ s.exchanges) (hr : resolve (toSend pending) reply = .ok rejected) :
    Accounted s e ((unparsed pending ++ rejected).map Prod.fst) := by
  obtain ⟨body, results, hreply, hres, hlen, hrej⟩ := resolve_ok hr
  refine ⟨h.boundary, fun line hline hblank => ?_⟩
  rcases h.lines line hline hblank with hh | ⟨event, hmem, hof⟩
  · exact Or.inl hh
  · rw [List.map_append]
    cases henv : event.envelope with
    | none => exact Or.inr ⟨event, List.mem_append_left _ (mem_unparsed hmem henv), hof⟩
    | some envelope =>
      have hsent : event ∈ toSend pending := List.mem_filter.2 ⟨hmem, by rw [henv]; rfl⟩
      rcases rejectedEvents_cases hlen hrej hsent with hr | ⟨k, fields, h₁, h₂, h₃⟩
      · exact Or.inr ⟨event, List.mem_append_right _ hr, hof⟩
      · exact Or.inl (Or.inl ⟨_, hx, rfl, body, results, hreply, hres, hlen, k, event, fields, h₁, hof, h₂, h₃⟩)

/-- A batch without a valid line is dead-lettered without a request. -/
theorem Accounted.unsent {pending : List (PendingEvent Envelope)} (h : Accounted s e pending)
    (hnone : (toSend pending).isEmpty) : Accounted s e ((unparsed pending).map Prod.fst) := by
  refine ⟨h.boundary, fun line hline hblank => (h.lines line hline hblank).imp_right ?_⟩
  rintro ⟨event, hmem, hof⟩
  refine ⟨event, mem_unparsed hmem ?_, hof⟩
  rw [List.isEmpty_iff, toSend, List.filter_eq_nil_iff] at hnone
  simpa using hnone event hmem

/-- Writing the first dead-letter record of the list. -/
theorem Accounted.deadLetter {event : PendingEvent Envelope} (h : Accounted s e (event :: events)) {record : DeadLetter}
    (hrecord : record ∈ s.deadLetters) (hraw : record.raw = event.raw)
    (horigin : record.origin = some (s.incarnation, event.endOffset)) : Accounted s e events := by
  refine ⟨h.boundary, fun line hline hblank => ?_⟩
  rcases h.lines line hline hblank with hh | ⟨x, hmem, hof⟩
  · exact Or.inl hh
  · rcases List.mem_cons.1 hmem with rfl | hmem
    · exact Or.inl (Or.inr ⟨record, hrecord, hraw.trans hof.1, by rw [horigin, hof.2]⟩)
    · exact Or.inr ⟨x, hmem, hof⟩

/-- A drainer writes something that only adds to the disk, and goes on. -/
theorem DrainInv.extend_goto (h : DrainInv codec s) {i : Nat} {pc : Pc Envelope} (hext : Extends s s')
    (hcursor : s'.cursor = s.cursor) (hdrainers : s'.drainers = s.drainers) (houtbox : s'.outbox = s.outbox)
    (hheads : s'.heads = s.heads) (hlive : (s.drainers i).pc ≠ .idle) (hhash : ∀ cursor, pc ≠ .hashHead cursor)
    (hpc : (s.drainers i).basis = s.incarnation → PcInv s' pc) :
    DrainInv codec (s'.setDrainer i ((s.drainers i).goto pc)) := by
  have h' : DrainInv codec s' := by
    refine h.extend hext hcursor hdrainers ?_ ?_
    · rw [houtbox, hheads, hext.incarnation]
      exact h.head
    · rw [hheads, hext.incarnation]
      exact h.heads_le
  rw [← hdrainers] at hlive hpc ⊢
  rw [← hext.incarnation] at hpc
  exact h'.goto hlive (fun c hc => absurd hc (hhash c)) hpc

variable {batchSize : Nat → Int}

/-- Each access of `drain_batch` keeps the invariant. -/
theorem DrainInv.drainStep (h : DrainInv codec s) (hd : DistinctHeads s) (i : Nat) (reply : Reply)
    (hu : Undisturbed s (.step i reply)) : DrainInv codec (drainStep codec batchSize s i reply) := by
  have hinv := h.drainers i
  have hlive := h.live i
  simp only [Undisturbed] at hu
  cases hpc : (s.drainers i).pc with
  | idle =>
    simp only [AgentOS.drainStep, hpc]
    split
    · exact h.finish i _
    · rename_i hout
      have hsome : s.outbox.isSome := by
        rw [Option.isNone_iff_eq_none] at hout
        exact Option.isSome_iff_ne_none.2 hout
      exact h.setDrainer i ⟨fun _ => by simp, Nat.le_refl _, fun _ _ => hsome, fun _ => trivial⟩
  | readCursor =>
    have hne : (s.drainers i).pc ≠ .idle := by simp [hpc]
    simp only [AgentOS.drainStep, hpc]
    split
    · exact h.goto hne (fun _ => by simp) fun _ => Accounted.zero s
    · rename_i cursor hc
      exact h.goto hne (fun c hcc => by cases hcc; exact h.cursor cursor hc) fun _ => trivial
  | hashHead cursor =>
    have hne : (s.drainers i).pc ≠ .idle := by simp [hpc]
    have hgood := h.hashing i cursor hpc
    -- the outbox is the one last looked into only if it is there
    have hsome : (if s.outbox.isSome then s.incarnation else (s.drainers i).basis) = s.incarnation →
        s.outbox.isSome := by
      split
      · exact fun _ => ‹_›
      · exact fun hb => hlive hb hne
    have hbasis : (if s.outbox.isSome then s.incarnation else (s.drainers i).basis) ≤ s.incarnation := by
      split
      · exact Nat.le_refl _
      · exact h.basis i
    simp only [AgentOS.drainStep, hpc]
    split
    · exact h.setDrainer i ⟨fun _ h => (by cases h), hbasis, fun hb _ => hsome hb, fun _ => Accounted.zero s⟩
    · rename_i hmatch
      exact h.setDrainer i
        ⟨fun _ h => (by cases h), hbasis, fun hb _ => hsome hb, fun hb => hgood.accounted h hd (hsome hb) hmatch⟩
  | getSize offset =>
    have hne : (s.drainers i).pc ≠ .idle := by simp [hpc]
    simp only [AgentOS.drainStep, hpc]
    refine h.goto hne (fun _ => by simp) fun hb => ?_
    have hacc : Accounted s offset [] := by simpa only [PcInv, hpc] using hinv hb
    change Accounted s (if s.content.length < offset then 0 else offset) []
    split
    · exact Accounted.zero s
    · exact hacc
  | stat start =>
    have hne : (s.drainers i).pc ≠ .idle := by simp [hpc]
    simp only [AgentOS.drainStep, hpc]
    refine h.goto hne (fun _ => by simp) fun hb => ?_
    have hacc : Accounted s start [] := by simpa only [PcInv, hpc] using hinv hb
    obtain ⟨data, hdata⟩ := Option.isSome_iff_exists.1 (hlive hb hne)
    have hle := hacc.boundary.le
    rw [Sys.content, hdata, Option.getD_some] at hle
    simp only [hdata, Option.map_some, Option.getD_some]
    rw [if_neg (Nat.not_lt.2 hle)]
    exact hacc
  | read start =>
    rw [hpc] at hu
    have hacc : Accounted s start [] := by
      by_cases h0 : start = 0
      · rw [h0]
        exact Accounted.zero s
      · simpa only [PcInv, hpc] using hinv (hu (by simp [Pc.relies, h0]))
    simp only [AgentOS.drainStep, hpc]
    split
    · exact h.finish i _
    · rename_i data hdata
      split
      · exact h.finish i _
      · rename_i last hlast
        have hread := hacc.read hdata hlast
        have hsome : s.outbox.isSome := by rw [hdata]; rfl
        by_cases hsend : (toSend (readPending codec data start (some (batchSize i))
            (some (batchSize i * maxLineBytes)))).isEmpty
        · simp only [hsend, ↓reduceIte]
          exact h.setDrainer i
            ⟨fun _ => by simp, Nat.le_refl _, fun _ _ => hsome, fun _ => hread.unsent hsend⟩
        · simp only [hsend, Bool.false_eq_true, ↓reduceIte]
          exact h.setDrainer i ⟨fun _ => by simp, Nat.le_refl _, fun _ _ => hsome, fun _ => hread⟩
  | request pending endOffset =>
    have hne : (s.drainers i).pc ≠ .idle := by simp [hpc]
    have hext : Extends s { s with exchanges := s.exchanges ++ [⟨(s.drainers i).basis, toSend pending, reply⟩] } :=
      ⟨rfl, id, List.prefix_rfl, List.Subset.refl _, List.subset_append_left _ _, List.Subset.refl _⟩
    simp only [AgentOS.drainStep, hpc]
    split
    · exact (h.extend hext rfl rfl h.head h.heads_le).finish i _
    · rename_i rejected hr
      refine h.extend_goto hext rfl rfl rfl rfl hne (fun _ => by simp) fun hb => ?_
      have hacc : Accounted s endOffset pending := by simpa only [PcInv, hpc] using hinv hb
      refine (hext.accounted hacc).resolved ?_ hr
      rw [hb]
      simp
  | deadLetter todo endOffset =>
    have hne : (s.drainers i).pc ≠ .idle := by simp [hpc]
    cases todo with
    | nil =>
      simp only [AgentOS.drainStep, hpc]
      refine h.goto hne (fun _ => by simp) fun hb => ?_
      have hacc : Accounted s endOffset [] := by simpa only [PcInv, hpc, List.map_nil] using hinv hb
      exact hacc
    | cons t todo =>
      obtain ⟨event, reason⟩ := t
      have hext : Extends s { s with deadLetters := s.deadLetters ++
          [⟨event.raw, reason, some ((s.drainers i).basis, event.endOffset)⟩] } :=
        ⟨rfl, id, List.prefix_rfl, List.Subset.refl _, List.Subset.refl _, List.subset_append_left _ _⟩
      simp only [AgentOS.drainStep, hpc]
      refine h.extend_goto hext rfl rfl rfl rfl hne (fun _ => by simp) fun hb => ?_
      have hacc : Accounted s endOffset (event :: todo.map Prod.fst) := by
        simpa only [PcInv, hpc, List.map_cons] using hinv hb
      refine (hext.accounted hacc).deadLetter (List.mem_append_right _ (List.mem_singleton_self _)) rfl ?_
      rw [hb]
  | stamp endOffset =>
    have hne : (s.drainers i).pc ≠ .idle := by simp [hpc]
    simp only [AgentOS.drainStep, hpc]
    refine h.goto hne (fun _ => by simp) fun hb => ?_
    have hacc : Accounted s endOffset [] := by simpa only [PcInv, hpc] using hinv hb
    obtain ⟨data, hdata⟩ := Option.isSome_iff_exists.1 (hlive hb hne)
    obtain ⟨token, htoken, hmem⟩ := h.head data hdata
    rw [hdata]
    exact ⟨hacc, token, htoken, hmem⟩
  | replace endOffset generation =>
    rw [hpc] at hu
    have hacc : Accounted s endOffset [] ∧ ∃ token, generation = some token ∧ (s.incarnation, token) ∈ s.heads := by
      simpa only [PcInv, hpc] using hinv (hu rfl)
    obtain ⟨hacc, token, hgen, hmem⟩ := hacc
    simp only [AgentOS.drainStep, hpc]
    have hext : Extends s { s with cursor := some ⟨endOffset, generation⟩ } :=
      ⟨rfl, id, List.prefix_rfl, List.Subset.refl _, List.Subset.refl _, List.Subset.refl _⟩
    have h' : DrainInv codec { s with cursor := some ⟨endOffset, generation⟩ } :=
      { head := h.head
        heads_le := h.heads_le
        cursor := by
          intro cursor hc
          obtain rfl : ⟨endOffset, generation⟩ = cursor := by simpa using hc
          exact ⟨s.incarnation, token, hgen, hmem, Nat.le_refl _, fun _ => hext.accounted hacc⟩
        hashing := fun j c hc => hext.goodCursor (h.hashing j c hc)
        basis := h.basis
        live := h.live
        drainers := fun j hb => hext.pcInv (h.drainers j hb) }
    exact h'.finish i _

/-- **The step lemma.**  Every undisturbed step keeps the invariant. -/
theorem next_inv (h : DrainInv codec s) (hd : DistinctHeads s) {a : Act} (hu : Undisturbed s a)
    (hnext : s.next codec batchSize a = some s') : DrainInv codec s' := by
  cases a with
  | appendLine line =>
    obtain rfl := Option.some.inj hnext
    exact h.appendLine line
  | step i reply =>
    obtain rfl := Option.some.inj hnext
    exact h.drainStep hd i reply hu
  | crash i =>
    obtain rfl := Option.some.inj hnext
    exact h.setDrainer i ⟨fun _ h => (by cases h), h.basis i, fun _ hne => absurd rfl hne, fun _ => trivial⟩
  | delete =>
    obtain rfl := Option.some.inj hnext
    exact h.delete

theorem init_inv : DrainInv codec (Sys.init : Sys Envelope) where
  head _ h := by cases h
  heads_le _ _ h := by cases h
  cursor _ h := by cases h
  hashing _ _ h := by cases h
  basis _ := Nat.le_refl _
  live _ _ h := absurd rfl h
  drainers _ _ := trivial

end AgentOS
