import AgentOS.Outbox.NoLoss
import AgentOS.Sync.Requests

/-!
# From the cards of the first machine to the tasks of the hub

Every line of the outbox is an event that a call emitted, and every event that a request delivered has been materialized
(`Uplink`).  So each task of the hub shows a row that a commit wrote on the first machine (`Uplink.shows`), and once the
outbox is drained and no call is in progress, each card has its task, and the task shows the card as it is
(`Uplink.settled`).
-/

namespace AgentOS

open Lines Newest SqlStore

/-! ### The outbox and the events -/

/-- What a drainer has in hand. -/
def HandOf (site : SyncSite) (emitted : List EventEnvelope) : Pc EventEnvelope → Prop
  | .request pending _ => HeldEvents site emitted pending
  | .deadLetter todo _ => todo = []
  | _ => True

/-- The outbox holds the events that were emitted, nothing has been dead-lettered, and what a request delivered is among
the events `M`. -/
structure OutboxInv (site : SyncSite) (emitted M : List EventEnvelope) (s : Sys EventEnvelope) : Prop where
  drain : DrainInv site.wire.codec s
  incarnation : s.incarnation = 0
  content : s.content = outboxOf (emitted.map site.wire.dumpJson)
  deadLetters : s.deadLetters = []
  hands : ∀ i, HandOf site emitted (s.drainers i).pc
  delivered : ∀ x ∈ s.exchanges, ∀ body, x.reply = .response 200 body → ∀ event ∈ x.sent, ∃ env ∈ emitted,
    event.raw = site.wire.dumpJson env ∧ env.eventId ∈ M.map (·.eventId)

section

variable {site : SyncSite} {sql : Sql} {emitted M : List EventEnvelope} {s : Sys EventEnvelope}

private theorem exists_map_eq {α β γ : Type} {f : α → γ} {g : β → γ} {xs : List α} {zs : List β}
    (h : ∀ x ∈ xs, ∃ y ∈ zs, f x = g y) : ∃ ys ⊆ zs, xs.map f = ys.map g := by
  induction xs with
  | nil => exact ⟨[], List.nil_subset _, rfl⟩
  | cons x xs ih =>
    obtain ⟨y, hy, hxy⟩ := h x List.mem_cons_self
    obtain ⟨ys, hys, hmap⟩ := ih fun x hx => h x (List.mem_cons_of_mem _ hx)
    exact ⟨y :: ys, List.cons_subset.2 ⟨hy, hys⟩, by rw [List.map_cons, List.map_cons, hxy, hmap]⟩

/-- A batch read from the outbox holds events that were emitted. -/
theorem heldEvents_readPending (hcarries : ∀ env ∈ emitted, site.Carries sql env) {start : Nat}
    (hstart : Boundary newline (outboxOf (emitted.map site.wire.dumpJson)) start) (maxEvents maxBytes : Option Int) :
    HeldEvents site emitted
      (readPending site.wire.codec (outboxOf (emitted.map site.wire.dumpJson)) start maxEvents maxBytes) := by
  have hline : ∀ l ∈ emitted.map site.wire.dumpJson, OutboxLine site.wire.codec site.wire.floats l := by
    intro l hl
    obtain ⟨env, henv, rfl⟩ := List.mem_map.1 hl
    exact (hcarries env henv).line
  obtain ⟨read, hread, heq⟩ := pendingLoop_eq site.wire.codec maxEvents []
    (framed newline start (readBytes maxBytes ((outboxOf (emitted.map site.wire.dumpJson)).drop start)))
  have hpre := hread.trans (framed_read _ start maxBytes)
  rw [readPending, heq, List.nil_append]
  -- a line that is read is the line of an event
  have hevent : ∀ line ∈ read, ∃ env ∈ emitted, decode line.1 = site.wire.dumpJson env := by
    intro line hmem
    have hsplit := lines_append hstart.ended ((outboxOf (emitted.map site.wire.dumpJson)).drop start)
    rw [List.take_append_drop, lines_outboxOf hline] at hsplit
    have hfst : line.1 ∈ lines newline ((outboxOf (emitted.map site.wire.dumpJson)).drop start) := by
      rw [← stamp_map_fst start (lines newline _)]
      exact List.mem_map_of_mem (hpre.subset hmem)
    have hmem' : line.1 ∈ (emitted.map site.wire.dumpJson).map encode := by
      rw [hsplit]
      exact List.mem_append_right _ hfst
    obtain ⟨l, hl, hencode⟩ := List.mem_map.1 hmem'
    obtain ⟨env, henv, rfl⟩ := List.mem_map.1 hl
    exact ⟨env, henv, by rw [← hencode, decode_encode]⟩
  refine ⟨fun event hmem => ?_, exists_map_eq fun event hmem => ?_⟩
  · obtain ⟨line, hline', rfl⟩ := List.mem_map.1 hmem
    obtain ⟨env, henv, hdecode⟩ := hevent line (List.mem_filter.1 hline').1
    obtain ⟨envelope, hvalid⟩ := (hcarries env henv).line.valid
    rw [pendingEvent_valid (hdecode ▸ hvalid)]
    rfl
  · obtain ⟨line, hline', rfl⟩ := List.mem_map.1 hmem
    obtain ⟨env, henv, hdecode⟩ := hevent line (List.mem_filter.1 hline').1
    exact ⟨env, henv, (pendingEvent_of _ line).1.trans hdecode⟩

theorem HandOf.mono {pc : Pc EventEnvelope} (h : HandOf site emitted pc) (news : List EventEnvelope) :
    HandOf site (emitted ++ news) pc := by
  cases pc with
  | request pending endOffset => exact HeldEvents.mono h news
  | deadLetter todo endOffset => exact h
  | _ => trivial

/-- An event is appended. -/
theorem OutboxInv.append (h : OutboxInv site emitted M s) {env : EventEnvelope} (hcarries : site.Carries sql env) :
    OutboxInv site (emitted ++ [env]) M (appendLine site.wire.codec s (site.wire.dumpJson env)) := by
  have hdrain := h.drain.appendLine (site.wire.dumpJson env)
  have hincarnation : (appendLine site.wire.codec s (site.wire.dumpJson env)).incarnation = s.incarnation :=
    (appendLine_outbox s _).1
  have hsize := Nat.not_lt.2 hcarries.line.size
  refine ⟨hdrain, hincarnation.trans h.incarnation, ?_, ?_, fun i => ?_, fun x hx body hreply event hevent => ?_⟩
  · rw [List.map_append, outboxOf_append, ← h.content, appendLine, if_neg hcarries.line.newline, if_neg hsize]
    simp [Sys.content, outboxOf]
  · rw [appendLine, if_neg hcarries.line.newline, if_neg hsize]
    exact h.deadLetters
  · rw [appendLine, if_neg hcarries.line.newline, if_neg hsize]
    exact (h.hands i).mono [env]
  · rw [appendLine, if_neg hcarries.line.newline, if_neg hsize] at hx
    obtain ⟨e, he, hraw, hid⟩ := h.delivered x hx body hreply event hevent
    exact ⟨e, List.mem_append_left _ he, hraw, hid⟩

theorem OutboxInv.appendAll (h : OutboxInv site emitted M s) {news : List EventEnvelope}
    (hcarries : ∀ env ∈ news, site.Carries sql env) :
    OutboxInv site (emitted ++ news) M (TaskSync.append site s news) := by
  induction news generalizing emitted s with
  | nil => rwa [List.append_nil]
  | cons env news ih =>
    have hrest := ih (h.append (hcarries env List.mem_cons_self)) fun e he => hcarries e (List.mem_cons_of_mem _ he)
    rwa [List.append_assoc] at hrest

/-- A drainer moves on, and may write the cursor. -/
private theorem OutboxInv.move (h : OutboxInv site emitted M s) {cursor : Option CursorFile} {i : Nat}
    {d : Drainer EventEnvelope}
    (hinv : DrainInv site.wire.codec (({ s with cursor := cursor } : Sys EventEnvelope).setDrainer i d))
    (hd : HandOf site emitted d.pc) :
    OutboxInv site emitted M (({ s with cursor := cursor } : Sys EventEnvelope).setDrainer i d) where
  drain := hinv
  incarnation := h.incarnation
  content := h.content
  deadLetters := h.deadLetters
  hands := by
    intro j
    by_cases hj : j = i
    · rw [hj, setDrainer_self]
      exact hd
    · rw [setDrainer_ne _ hj]
      exact h.hands j
  delivered := h.delivered

/-- **The step lemma of the drain**, where the answers are those of the hub. -/
theorem OutboxInv.drainStep (h : OutboxInv site emitted M s) (hcarries : ∀ env ∈ emitted, site.Carries sql env)
    (i : Nat) {reply : Reply} (hreply : ∀ pending endOffset, (s.drainers i).pc = .request pending endOffset →
      Honoured site emitted M pending reply) :
    OutboxInv site emitted M (drainStep site.wire.codec site.batchSize s i reply) := by
  obtain ⟨hdistinct, hundisturbed⟩ := firstIncarnation h.drain h.incarnation (.step i reply)
  have hinv : DrainInv site.wire.codec (AgentOS.drainStep site.wire.codec site.batchSize s i reply) :=
    h.drain.drainStep hdistinct i reply hundisturbed
  have hincarnation : (AgentOS.drainStep site.wire.codec site.batchSize s i reply).incarnation = s.incarnation :=
    (drainStep_outbox s i reply).1
  have hhand := h.hands i
  have hbasis : (s.drainers i).basis = s.incarnation := by
    have := h.drain.basis i
    have := h.incarnation
    omega
  have hpcinv := h.drain.drainers i hbasis
  cases hpc : (s.drainers i).pc with
  | idle =>
    simp only [AgentOS.drainStep, hpc] at hinv hincarnation ⊢
    split at hinv
    case isTrue hnone =>
      rw [if_pos hnone]
      exact h.move hinv trivial
    case isFalse hsome =>
      rw [if_neg hsome]
      exact h.move hinv trivial
  | readCursor =>
    simp only [AgentOS.drainStep, hpc] at hinv ⊢
    cases hcursor : s.cursor with
    | none =>
      simp only [hcursor] at hinv ⊢
      exact h.move hinv trivial
    | some cursor =>
      simp only [hcursor] at hinv ⊢
      exact h.move hinv trivial
  | hashHead cursor =>
    simp only [AgentOS.drainStep, hpc] at hinv ⊢
    split at hinv
    case isTrue hmatch =>
      rw [if_pos hmatch]
      exact h.move hinv trivial
    case isFalse hmatch =>
      rw [if_neg hmatch]
      exact h.move hinv trivial
  | getSize offset =>
    simp only [AgentOS.drainStep, hpc] at hinv ⊢
    exact h.move hinv trivial
  | stat start =>
    simp only [AgentOS.drainStep, hpc] at hinv ⊢
    exact h.move hinv trivial
  | read start =>
    rw [hpc] at hpcinv
    simp only [AgentOS.drainStep, hpc] at hinv ⊢
    cases hdata : s.outbox with
    | none =>
      simp only [hdata] at hinv ⊢
      exact h.move hinv trivial
    | some data =>
      simp only [hdata] at hinv ⊢
      have hcontent : data = outboxOf (emitted.map site.wire.dumpJson) := by
        rw [← h.content, Sys.content, hdata]
        rfl
      have hboundary : Boundary newline (outboxOf (emitted.map site.wire.dumpJson)) start := by
        rw [← h.content]
        exact hpcinv.boundary
      have hheld := heldEvents_readPending hcarries hboundary (some (site.batchSize i))
        (some (site.batchSize i * maxLineBytes))
      rw [← hcontent] at hheld
      generalize readPending site.wire.codec data start (some (site.batchSize i))
        (some (site.batchSize i * maxLineBytes)) = pending at hheld hinv ⊢
      cases hlast : pending.getLast? with
      | none =>
        simp only [hlast] at hinv ⊢
        exact h.move hinv trivial
      | some last =>
        simp only [hlast] at hinv ⊢
        -- all of the batch is sent, so it is not empty
        have hsend : toSend pending = pending := List.filter_eq_self.2 hheld.1
        have hne : ¬ (toSend pending).isEmpty = true := by
          rw [hsend, List.isEmpty_iff]
          rintro rfl
          cases hlast
        rw [if_neg hne] at hinv ⊢
        exact h.move hinv hheld
  | request pending endOffset =>
    obtain ⟨hrejected, hmaterialized⟩ := hreply pending endOffset hpc
    rw [hpc] at hhand
    have hunparsed : unparsed pending = [] := by
      rw [unparsed, List.map_eq_nil_iff, List.filter_eq_nil_iff]
      intro event hevent
      rw [← Option.not_isSome]
      simp [hhand.1 event hevent]
    have hdelivered : ∀ x ∈ s.exchanges ++ [⟨(s.drainers i).basis, toSend pending, reply⟩], ∀ body,
        x.reply = .response 200 body → ∀ event ∈ x.sent, ∃ env ∈ emitted,
          event.raw = site.wire.dumpJson env ∧ env.eventId ∈ M.map (·.eventId) := by
      intro x hx body hbody
      rcases List.mem_append.1 hx with hx | hx
      · exact h.delivered x hx body hbody
      · rw [List.mem_singleton.1 hx] at hbody ⊢
        exact hmaterialized body hbody
    simp only [AgentOS.drainStep, hpc] at hinv ⊢
    have hsent : OutboxInv site emitted M
        { s with exchanges := s.exchanges ++ [⟨(s.drainers i).basis, toSend pending, reply⟩] } := by
      refine ⟨?_, h.incarnation, h.content, h.deadLetters, h.hands, hdelivered⟩
      refine h.drain.extend ⟨rfl, id, List.prefix_rfl, List.Subset.refl _, List.subset_append_left _ _,
        List.Subset.refl _⟩ rfl rfl h.drain.head h.drain.heads_le
    cases hresolve : resolve (toSend pending) reply with
    | error e =>
      simp only [hresolve] at hinv ⊢
      exact hsent.move hinv trivial
    | ok rejected =>
      simp only [hresolve] at hinv ⊢
      have hnone : unparsed pending ++ rejected = [] := by rw [hunparsed, hrejected rejected hresolve, List.append_nil]
      exact hsent.move hinv hnone
  | deadLetter todo endOffset =>
    rw [hpc] at hhand
    obtain rfl : todo = [] := hhand
    simp only [AgentOS.drainStep, hpc] at hinv ⊢
    exact h.move hinv trivial
  | stamp endOffset =>
    simp only [AgentOS.drainStep, hpc] at hinv ⊢
    exact h.move hinv trivial
  | replace endOffset generation =>
    simp only [AgentOS.drainStep, hpc] at hinv ⊢
    exact h.move hinv trivial

/-- More events are materialized. -/
theorem OutboxInv.grow (h : OutboxInv site emitted M s) (N : List EventEnvelope) :
    OutboxInv site emitted (M ++ N) s where
  drain := h.drain
  incarnation := h.incarnation
  content := h.content
  deadLetters := h.deadLetters
  hands := h.hands
  delivered := by
    intro x hx body hbody event hevent
    obtain ⟨env, henv, hraw, hid⟩ := h.delivered x hx body hbody event hevent
    rw [List.map_append]
    exact ⟨env, henv, hraw, List.mem_append_left _ hid⟩

/-- A drainer dies. -/
theorem OutboxInv.crash (h : OutboxInv site emitted M s) (i : Nat) :
    OutboxInv site emitted M (s.setDrainer i ((s.drainers i).goto .idle)) := by
  refine h.move (h.drain.setDrainer i ⟨fun _ hc => ?_, h.drain.basis i, fun _ hne => absurd rfl hne,
    fun _ => trivial⟩) trivial
  cases hc

/-- Once the cursor is at the end of the outbox, every event has been materialized. -/
theorem OutboxInv.drained (h : OutboxInv site emitted M s) (hcarries : ∀ env ∈ emitted, site.Carries sql env)
    (hcursor : s.cursor.elim 0 (·.offset) = s.content.length) {env : EventEnvelope} (henv : env ∈ emitted) :
    env.eventId ∈ M.map (·.eventId) := by
  have hline : ∀ l ∈ emitted.map site.wire.dumpJson, OutboxLine site.wire.codec site.wire.floats l := by
    intro l hl
    obtain ⟨e, he, rfl⟩ := List.mem_map.1 hl
    exact (hcarries e he).line
  have hmem : encode (site.wire.dumpJson env) ∈ lines newline s.content := by
    rw [h.content, lines_outboxOf hline]
    exact List.mem_map_of_mem (List.mem_map_of_mem henv)
  rw [← stamp_map_fst 0 (lines newline _)] at hmem
  obtain ⟨line, hframed, hfst⟩ := List.mem_map.1 hmem
  have hraw : decode line.1 = site.wire.dumpJson env := by rw [hfst, decode_encode]
  have hblank : ¬ isBlank (decode line.1) := by
    rw [hraw, (hcarries env henv).line.notBlank]
    exact Bool.false_ne_true
  have hhandled : Handled s line := by
    cases hc : s.cursor with
    | none =>
      rw [hc, Option.elim_none] at hcursor
      rw [List.length_eq_zero_iff.1 hcursor.symm] at hframed
      cases hframed
    | some cursor =>
      rw [hc, Option.elim_some] at hcursor
      obtain ⟨j, token, -, -, hj, hacc⟩ := h.drain.cursor cursor hc
      refine (hacc (by have := h.incarnation; omega)).handled hframed ?_ hblank
      have hbound := (boundary_of_mem hframed)
      obtain ⟨n, hn, hb⟩ := hbound
      have := hb.le
      have := lt_of_mem_framed hframed
      omega
  rcases hhandled with ⟨x, hx, -, body, results, hreply, -, -, k, event, -, hk, hof, -, -⟩ | ⟨record, hrecord, -⟩
  · obtain ⟨e, he, heq, hid⟩ := h.delivered x hx body hreply event (List.mem_of_getElem? hk)
    -- two events on one line have one id
    have htext := (hcarries e he).text
    rw [← heq, hof.1, hraw, (hcarries env henv).text] at htext
    have hfields := Json.obj.inj (Option.some.inj htext)
    simp only [EventEnvelope.fields, List.cons.injEq, Prod.mk.injEq, Json.str.injEq, true_and] at hfields
    rw [hfields.2.1]
    exact hid
  · rw [h.deadLetters] at hrecord
    cases hrecord

end

/-! ### The system -/

namespace TaskSync

/-- Every event that the first machine has emitted gets through. -/
def Carried {sql : Sql} (site : SyncSite) (s : TaskSync sql) : Prop := ∀ env ∈ s.writers.emitted, site.Carries sql env

/-- The database tells the global ids of the first machine apart. -/
def Distinguished {sql : Sql} (s : TaskSync sql) : Prop := ∀ h ∈ s.writers.history, ∀ h' ∈ s.writers.history,
  ∀ g ∈ h.globalId, ∀ g' ∈ h'.globalId, sql.key g = sql.key g' → g = g'

/-- The drain cursor is at the end of the outbox. -/
def Drained {sql : Sql} (s : TaskSync sql) : Prop := s.outbox.cursor.elim 0 (·.offset) = s.outbox.content.length

/-- Every event that the first machine has emitted is among the events `M`. -/
def Delivered {sql : Sql} (s : TaskSync sql) (M : List EventEnvelope) : Prop :=
  ∀ env ∈ s.writers.emitted, env.eventId ∈ M.map (·.eventId)

/-- The first machine, its outbox and the hub, which has materialized the events `M`. -/
structure Uplink {sql : Sql} (site : SyncSite) (elsewhere : List String) (M : List EventEnvelope) (s : TaskSync sql) :
    Prop where
  writers : s.writers.Inv site.context elsewhere
  outbox : OutboxInv site s.writers.emitted M s.outbox
  ingested : Ingested site s.writers.emitted M s.hub

section

variable {site : SyncSite} {sql : Sql} {elsewhere : List String} {M : List EventEnvelope} {s s' : TaskSync sql}

theorem Uplink.tells (h : Uplink site elsewhere M s) (hcarried : s.Carried site) :
    ∀ env ∈ s.writers.emitted, ∃ card ∈ s.writers.history, site.Tells sql card env := by
  intro env henv
  obtain ⟨eventType, htype, card, hcard, eventId, now, rfl⟩ := h.writers.emitted env henv
  obtain ⟨hstatus, hversion⟩ := h.writers.chronicle.valid card hcard
  exact ⟨card, hcard, hcarried _ henv, ⟨htype, rfl, rfl, rfl⟩, hstatus, hversion⟩

theorem uplink_start {hub : Db sql} (hlog : hub.events.rows = []) (htasks : hub.tasks.rows = [])
    (cards : Cards) : Uplink site elsewhere [] (start elsewhere hub cards) where
  writers := Writers.inv_start site.context elsewhere
  outbox := by
    refine ⟨init_inv, rfl, rfl, rfl, fun _ => trivial, fun x hx => ?_⟩
    cases hx
  ingested := by
    refine ⟨fun e he => ?_, fun k => ?_, List.nil_subset _, fun x hx => ?_, fun x hx => ?_, fun x hx => ?_⟩
    · change e ∈ hub.events.rows at he
      rw [hlog] at he
      cases he
    · have hnone : hub.tasks.lookup k = none := Table.lookup_eq_none.2 fun r hr => by
        rw [htasks] at hr
        cases hr
      change Reflects sql _ (hub.tasks.lookup k)
      rw [hnone]
      trivial
    all_goals
      change x ∈ hub.tasks.rows at hx
      rw [htasks] at hx
      cases hx

/-- What the second machine does leaves the first machine and the hub alone. -/
theorem next_downlink {a : Act} (hnext : next site s a = some s') (hwrite : ∀ b, a ≠ .write b)
    (hdrain : ∀ i fate, a ≠ .drain i fate) (hcrash : ∀ i, a ≠ .crashDrain i) :
    s'.writers = s.writers ∧ s'.outbox = s.outbox ∧ s'.hub = s.hub := by
  cases a with
  | write b => exact absurd rfl (hwrite b)
  | drain i fate => exact absurd rfl (hdrain i fate)
  | crashDrain i => exact absurd rfl (hcrash i)
  | poll i args =>
    simp only [next] at hnext
    split at hnext
    · split at hnext
      · obtain rfl := Option.some.inj hnext
        exact ⟨rfl, rfl, rfl⟩
      · obtain rfl := Option.some.inj hnext
        exact ⟨rfl, rfl, rfl⟩
    · cases hnext
  | step i newCardId =>
    simp only [next, pollStep] at hnext
    split at hnext
    · cases hnext
    · split at hnext
      · obtain rfl := Option.some.inj hnext
        exact ⟨rfl, rfl, rfl⟩
      · obtain rfl := Option.some.inj hnext
        exact ⟨rfl, rfl, rfl⟩
    · obtain rfl := Option.some.inj hnext
      exact ⟨rfl, rfl, rfl⟩
    · split at hnext
      · obtain ⟨cards, -, rfl⟩ := Option.map_eq_some_iff.1 hnext
        exact ⟨rfl, rfl, rfl⟩
      · obtain rfl := Option.some.inj hnext
        exact ⟨rfl, rfl, rfl⟩
      · obtain rfl := Option.some.inj hnext
        exact ⟨rfl, rfl, rfl⟩
      · obtain ⟨cards, -, rfl⟩ := Option.map_eq_some_iff.1 hnext
        exact ⟨rfl, rfl, rfl⟩
    · obtain rfl := Option.some.inj hnext
      exact ⟨rfl, rfl, rfl⟩
  | fail i =>
    simp only [next] at hnext
    split at hnext
    · obtain rfl := Option.some.inj hnext
      exact ⟨rfl, rfl, rfl⟩
    · obtain rfl := Option.some.inj hnext
      exact ⟨rfl, rfl, rfl⟩
    · obtain ⟨cards, -, rfl⟩ := Option.map_eq_some_iff.1 hnext
      exact ⟨rfl, rfl, rfl⟩
    · cases hnext
  | crash i =>
    simp only [next, Option.map_eq_some_iff] at hnext
    obtain ⟨cards, -, rfl⟩ := hnext
    exact ⟨rfl, rfl, rfl⟩

/-- Only the calls of the first machine write its cards. -/
theorem next_writers {a : Act} (hnext : next site s a = some s') (hwrite : ∀ b, a ≠ .write b) :
    s'.writers = s.writers := by
  by_cases hdrain : ∃ i fate, a = .drain i fate
  · obtain ⟨i, fate, rfl⟩ := hdrain
    simp only [next] at hnext
    split at hnext
    · obtain ⟨⟨hub, reply⟩, -, rfl⟩ := Option.map_eq_some_iff.1 hnext
      rfl
    · obtain rfl := Option.some.inj hnext
      rfl
  · by_cases hcrash : ∃ i, a = .crashDrain i
    · obtain ⟨i, rfl⟩ := hcrash
      obtain rfl := Option.some.inj hnext
      rfl
    · push Not at hdrain hcrash
      exact (next_downlink hnext hwrite hdrain hcrash).1

/-- What the events and the rows of a state are, the later ones are as well. -/
theorem next_grows {a : Act} (hnext : next site s a = some s') :
    s.writers.emitted <+: s'.writers.emitted ∧ s.writers.history ⊆ s'.writers.history := by
  by_cases hwrite : ∃ b, a = .write b
  · obtain ⟨b, rfl⟩ := hwrite
    obtain ⟨writers, hwriters, rfl⟩ := Option.map_eq_some_iff.1 hnext
    exact Writers.next_mono hwriters
  · push Not at hwrite
    rw [next_writers hnext hwrite]
    exact ⟨List.prefix_rfl, List.Subset.refl _⟩

theorem Carried.of_next {a : Act} (hnext : next site s a = some s') (h : s'.Carried site) : s.Carried site :=
  fun env henv => h env ((next_grows hnext).1.subset henv)

/-- **The step lemma of the uplink.** -/
theorem Uplink.next (h : Uplink site elsewhere M s) {a : Act} (hnext : TaskSync.next site s a = some s')
    (hcarried : s'.Carried site) : ∃ N, Uplink site elsewhere (M ++ N) s' ∧ s.hub.Later s'.hub.toRegistry := by
  have hbefore := Carried.of_next hnext hcarried
  have hunchanged : s'.writers = s.writers → s'.outbox = s.outbox → s'.hub = s.hub →
      ∃ N, Uplink site elsewhere (M ++ N) s' ∧ s.hub.Later s'.hub.toRegistry := by
    intro hwriters houtbox hhub
    refine ⟨[], ?_, hhub ▸ Registry.Later.refl _⟩
    rw [List.append_nil]
    exact ⟨hwriters ▸ h.writers, hwriters ▸ houtbox ▸ h.outbox, hwriters ▸ hhub ▸ h.ingested⟩
  cases a with
  | write a =>
    have hprefix := (next_grows hnext).1
    obtain ⟨writers, hwriters, rfl⟩ := Option.map_eq_some_iff.1 hnext
    obtain ⟨news, hnews⟩ := hprefix
    dsimp only at hnews
    refine ⟨[], ?_, Registry.Later.refl _⟩
    rw [List.append_nil]
    have hdrop : writers.emitted.drop s.writers.emitted.length = news := by rw [← hnews, List.drop_left]
    have hall : ∀ env ∈ news, site.Carries sql env :=
      fun env henv => hcarried env (hnews ▸ List.mem_append_right _ henv)
    refine ⟨Writers.inv_next h.writers hwriters, ?_, ?_⟩
    · dsimp only
      rw [hdrop, ← hnews]
      exact h.outbox.appendAll hall
    · dsimp only
      rw [← hnews]
      exact h.ingested.mono news
  | drain i fate =>
    simp only [TaskSync.next] at hnext
    split at hnext
    case h_1 pending endOffset hpc =>
      obtain ⟨⟨hub, reply⟩, hpost, rfl⟩ := Option.map_eq_some_iff.1 hnext
      have hheld := h.outbox.hands i
      rw [hpc] at hheld
      obtain ⟨N, hingested, hlater, hhonoured⟩ := h.ingested.post (h.tells hbefore) hheld hpost
      refine ⟨N, ⟨h.writers, ?_, hingested⟩, hlater⟩
      refine (h.outbox.grow N).drainStep hbefore i fun pending' endOffset' hpc' => ?_
      obtain ⟨rfl, -⟩ := Pc.request.inj (hpc.symm.trans hpc')
      exact hhonoured
    case h_2 hpc =>
      obtain rfl := Option.some.inj hnext
      refine ⟨[], ?_, Registry.Later.refl _⟩
      rw [List.append_nil]
      have hreply : ∀ pending endOffset, (s.outbox.drainers i).pc = .request pending endOffset →
          Honoured site s.writers.emitted M pending .failure :=
        fun pending endOffset hpc' => absurd hpc' (hpc pending endOffset)
      exact ⟨h.writers, h.outbox.drainStep hbefore i hreply, h.ingested⟩
  | crashDrain i =>
    obtain rfl := Option.some.inj hnext
    refine ⟨[], ?_, Registry.Later.refl _⟩
    rw [List.append_nil]
    exact ⟨h.writers, h.outbox.crash i, h.ingested⟩
  | poll i args =>
    obtain ⟨h₁, h₂, h₃⟩ := next_downlink hnext (fun _ => by simp) (fun _ _ => by simp) fun _ => by simp
    exact hunchanged h₁ h₂ h₃
  | step i newCardId =>
    obtain ⟨h₁, h₂, h₃⟩ := next_downlink hnext (fun _ => by simp) (fun _ _ => by simp) fun _ => by simp
    exact hunchanged h₁ h₂ h₃
  | fail i =>
    obtain ⟨h₁, h₂, h₃⟩ := next_downlink hnext (fun _ => by simp) (fun _ _ => by simp) fun _ => by simp
    exact hunchanged h₁ h₂ h₃
  | crash i =>
    obtain ⟨h₁, h₂, h₃⟩ := next_downlink hnext (fun _ => by simp) (fun _ _ => by simp) fun _ => by simp
    exact hunchanged h₁ h₂ h₃

/-- An event that was materialized, with the row that it tells of. -/
private theorem Uplink.materialized (h : Uplink site elsewhere M s) (hcarried : s.Carried site) {e : EventEnvelope}
    (he : e ∈ M.filter isTaskEvent) : ∃ env ∈ s.writers.emitted, e = site.sent env ∧
      ∃ card ∈ s.writers.history, ∃ g, card.globalId = some g ∧ env.globalId = g ∧ site.Tells sql card env := by
  obtain ⟨hmem, htask⟩ := List.mem_filter.1 he
  obtain ⟨env, henv, rfl⟩ := List.mem_map.1 (h.ingested.subset hmem)
  obtain ⟨card, hcard, htells⟩ := h.tells hcarried env henv
  obtain ⟨g, hg, -⟩ := htells.emitted.isTaskEvent_iff.1 htask
  exact ⟨env, henv, rfl, card, hcard, g, hg, htells.emitted.globalId_eq hg, htells⟩

/-- A task shows the row that the event tells of which it holds. -/
theorem Uplink.shows_of_newest (h : Uplink site elsewhere M s) (hcarried : s.Carried site)
    (hdistinct : s.Distinguished) {task : StoredTask} {k : String} (htask : s.hub.tasks.lookup k = some task) :
    ∃ e, newestAt EventEnvelope.version (gidKey sql) k (M.filter isTaskEvent) = some e ∧
      ∃ card ∈ s.writers.history, task.Shows card ∧ e.version = card.version ∧
        task.repositoryId = some site.repositoryId := by
  obtain ⟨hrow, rfl⟩ := Table.lookup_eq_some.1 htask
  have hreflects := h.ingested.tasks (sql.key task.globalId)
  rw [htask] at hreflects
  cases hnewest : newestAt EventEnvelope.version (gidKey sql) (sql.key task.globalId) (M.filter isTaskEvent) with
  | none =>
    rw [hnewest] at hreflects
    exact hreflects.elim
  | some e =>
    rw [hnewest] at hreflects
    obtain ⟨values, hvalues, hevent, htaskrow⟩ := hreflects
    obtain ⟨hmem, hkey⟩ := mem_of_newestAt hnewest
    obtain ⟨env, henv, rfl, card, hcard, g, hg, henvg, htells⟩ := h.materialized hcarried hmem
    -- the task is spelled as one of the events, and the database tells their ids apart
    obtain ⟨e', he', hspelled⟩ := h.ingested.spelled task hrow
    obtain ⟨env', henv', rfl, card', hcard', g', hg', henvg', -⟩ := h.materialized hcarried he'
    have hgid : task.globalId = g := by
      rw [hspelled]
      refine (henvg'.trans (hdistinct card' hcard' card hcard g' hg' g hg ?_))
      have hkey' : sql.key env.globalId = sql.key task.globalId := hkey
      rw [← henvg', ← henvg, hkey', hspelled]
      rfl
    obtain ⟨hshows, hrepository⟩ := htells.emitted.shows hevent hg htells.status htells.version hvalues htaskrow hgid
    exact ⟨_, rfl, card, hcard, hshows, htells.emitted.version_eq htells.version, hrepository⟩

/-- Every task of the hub shows a row of the first machine, and is one of its repository. -/
theorem Uplink.shows (h : Uplink site elsewhere M s) (hcarried : s.Carried site) (hdistinct : s.Distinguished)
    {task : StoredTask} (htask : task ∈ s.hub.tasks.rows) :
    ∃ card ∈ s.writers.history, task.Shows card ∧ task.repositoryId = some site.repositoryId := by
  obtain ⟨e, -, card, hcard, hshows, -, hrepository⟩ :=
    h.shows_of_newest hcarried hdistinct (Table.lookup_eq_some.2 ⟨htask, rfl⟩)
  exact ⟨card, hcard, hshows, hrepository⟩

/-- Once every event is ingested, none of a card as it is was lost and no call is in progress, the hub has a task for
every card, which shows it as it is. -/
theorem Uplink.settled (h : Uplink site elsewhere M s) (hcarried : s.Carried site) (hdistinct : s.Distinguished)
    (hdelivered : s.Delivered M) (hidle : s.writers.Idle) (hlost : s.writers.NoneLost) {card : CardRow}
    (hcard : card ∈ s.writers.cards.rows) {g : String} (hg : card.globalId = some g) :
    ∃ task ∈ s.hub.tasks.rows, task.Shows card ∧ task.repositoryId = some site.repositoryId := by
  have hchronicle := h.writers.chronicle
  -- the event that has told what the card says now
  obtain ⟨env, henv, hpayload⟩ : ∃ env ∈ s.writers.emitted, env.payload = taskPayload card := by
    refine ((h.writers.reported card hcard).resolve_right ?_).resolve_right (hlost card hcard)
    rintro ⟨i, hi⟩
    rw [hidle i] at hi
    rcases hi with ⟨_, hi⟩ | ⟨_, _, hi⟩ <;> cases hi
  have hemitted : EmittedFor site.context card env := by
    obtain ⟨card', -, htells⟩ := h.tells hcarried env henv
    exact ⟨htells.emitted.type, hpayload, htells.emitted.machineId, htells.emitted.repositoryId⟩
  have hversion := (hchronicle.valid card (hchronicle.current card hcard)).2
  have htaskEvent : isTaskEvent env = true :=
    hemitted.isTaskEvent_iff.2 ⟨g, hg, (hchronicle.minted card (hchronicle.current card hcard) g hg).ne_empty⟩
  have hmem : site.sent env ∈ M.filter isTaskEvent := by
    refine List.mem_filter.2 ⟨?_, htaskEvent⟩
    obtain ⟨e, he, hid⟩ := List.mem_map.1 (hdelivered env henv)
    obtain ⟨env', henv', rfl⟩ := List.mem_map.1 (h.ingested.subset he)
    obtain rfl := List.inj_on_of_nodup_map h.writers.eventIds henv' henv hid
    exact he
  have henvg := hemitted.globalId_eq hg
  -- no event of the card tells of a newer version
  have hmax : ∀ y ∈ M.filter isTaskEvent, gidKey sql y = gidKey sql (site.sent env) →
      y.version ≤ (site.sent env).version := by
    intro y hy hkey
    obtain ⟨env', henv', rfl, card', hcard', g', hg', henvg', htells⟩ := h.materialized hcarried hy
    have hsame : g' = g := by
      refine hdistinct card' hcard' card (hchronicle.current card hcard) g' hg' g hg ?_
      rw [← henvg', ← henvg]
      exact hkey
    obtain ⟨row, hrow, hrowg, hle⟩ := hchronicle.newest card' hcard' (by rw [hg']; simp)
    obtain rfl := hchronicle.unique row hrow card hcard (by rw [hrowg, hg']; simp)
      (by rw [hrowg, hg', hg, hsame])
    change env'.version ≤ env.version
    rwa [htells.emitted.version_eq htells.version, hemitted.version_eq hversion]
  obtain ⟨x, -, -, hnewest, hxversion⟩ := version_newestAt EventEnvelope.version (gidKey sql) hmem hmax
  cases hlookup : s.hub.tasks.lookup (gidKey sql (site.sent env)) with
  | none =>
    have hreflects := h.ingested.tasks (gidKey sql (site.sent env))
    rw [hlookup, hnewest] at hreflects
    exact hreflects.elim
  | some task =>
    obtain ⟨e, he, card', hcard', hshows, hever, hrepository⟩ := h.shows_of_newest hcarried hdistinct hlookup
    obtain rfl := Option.some.inj (hnewest.symm.trans he)
    obtain ⟨hrow, hkey⟩ := Table.lookup_eq_some.1 hlookup
    have hgid : task.globalId = g := by
      refine hdistinct card' hcard' card (hchronicle.current card hcard) _ hshows.globalId g hg ?_
      rw [hkey, ← henvg]
      rfl
    -- two rows of one version are one row
    have hsame : card' = card := by
      refine (hchronicle.ordered card' hcard' card (hchronicle.current card hcard) ?_ ?_).agree ?_
      · rw [hshows.globalId]
        simp
      · rw [hshows.globalId, hg, hgid]
      · rw [← hever, hxversion]
        exact hemitted.version_eq hversion
    exact ⟨task, hrow, hsame ▸ hshows, hrepository⟩

end

end TaskSync

end AgentOS
