import AgentOS.Sync.Downlink
import AgentOS.Lib.Run

/-!
# The cards of the second machine become those of the first

Whatever the calls on the first machine wrote, however the requests of the drainers fared and however the processes of
either machine were interleaved, failed or died: once the first machine is quiet and its outbox drained, a poll that
begins and gets to the end of the tasks makes every task that was ever told of a card of the second machine, and one
that says what the first machine's card says.
-/

namespace AgentOS

namespace TaskSync

variable {sql : Sql} {site : SyncSite} {elsewhere : List String} {M : List EventEnvelope} {s s' t : TaskSync sql}
  {i : Nat}

/-- The global id of every event has one card on the first machine and one on the second, and they say the same. -/
def Converged (s : TaskSync sql) : Prop := ∀ env ∈ s.writers.emitted, ∀ g, Json.get env.payload "global_id" = .str g →
  ∃ row card, s.writers.cards.rows.filter (·.globalId = some g) = [row] ∧
    s.cards.cards.rows.filter (·.globalId = some g) = [card] ∧ card.title = row.title ∧
    card.description = row.description ∧ card.priority = row.priority ∧ card.status = row.status ∧
    card.syncVersion = row.syncVersion

/-- The two halves of the way from a card of the first machine to a card of the second. -/
structure Synced (site : SyncSite) (elsewhere : List String) (M : List EventEnvelope) (s : TaskSync sql) : Prop where
  uplink : Uplink site elsewhere M s
  downlink : Downlink elsewhere s

theorem Distinguished.of_next {a : Act} (hnext : next site s a = some s') (h : s'.Distinguished) : s.Distinguished :=
  fun row hrow row' hrow' =>
    h row ((next_grows hnext).2 hrow) row' ((next_grows hnext).2 hrow')

theorem Uplink.serves (h : Uplink site elsewhere M s) (hcarried : s.Carried site) (hdistinct : s.Distinguished) :
    Serves elsewhere s where
  chronicle := h.writers.chronicle
  clocked := h.ingested.clocked
  shows task htask := by
    obtain ⟨row, hrow, hshows, -⟩ := h.shows hcarried hdistinct htask
    exact ⟨row, hrow, hshows⟩

/-- What the first machine or a drainer does leaves the second machine alone. -/
theorem next_uplink {a : Act} (hnext : next site s a = some s')
    (ha : (∃ b, a = .write b) ∨ (∃ j fate, a = .drain j fate) ∨ ∃ j, a = .crashDrain j) :
    s'.cards = s.cards ∧ s'.cursors = s.cursors ∧ s'.pollers = s.pollers := by
  rcases ha with ⟨b, rfl⟩ | ⟨j, fate, rfl⟩ | ⟨j, rfl⟩
  · obtain ⟨writers, -, rfl⟩ := Option.map_eq_some_iff.1 hnext
    exact ⟨rfl, rfl, rfl⟩
  · simp only [next] at hnext
    split at hnext
    · obtain ⟨⟨hub, reply⟩, -, rfl⟩ := Option.map_eq_some_iff.1 hnext
      exact ⟨rfl, rfl, rfl⟩
    · obtain rfl := Option.some.inj hnext
      exact ⟨rfl, rfl, rfl⟩
  · obtain rfl := Option.some.inj hnext
    exact ⟨rfl, rfl, rfl⟩

/-- **The step lemma of the synchronization.** -/
theorem Synced.next (h : Synced site elsewhere M s) {a : Act} (horder : s.InOrder a)
    (hnext : TaskSync.next site s a = some s') (hcarried : s'.Carried site) (hdistinct : s'.Distinguished) :
    ∃ N, Synced site elsewhere (M ++ N) s' ∧ CardsAdvance s.cards.cards s'.cards.cards := by
  obtain ⟨N, huplink, hlater⟩ := h.uplink.next hnext hcarried
  have hserves := h.uplink.serves (Carried.of_next hnext hcarried) (Distinguished.of_next hnext hdistinct)
  by_cases ha : (∃ b, a = .write b) ∨ (∃ j fate, a = .drain j fate) ∨ ∃ j, a = .crashDrain j
  · obtain ⟨hcards, hcursors, hpollers⟩ := next_uplink hnext ha
    have hadvances : CardsAdvance s.cards.cards s'.cards.cards := hcards ▸ CardsAdvance.refl _
    exact ⟨N, ⟨huplink, h.downlink.grow ⟨(next_grows hnext).2, hlater, hadvances⟩ hcards hcursors hpollers⟩, hadvances⟩
  · push Not at ha
    obtain ⟨hdownlink, hadvances⟩ := h.downlink.next hserves horder ha.1 ha.2.1 ha.2.2 hnext
    exact ⟨N, ⟨huplink, hdownlink⟩, hadvances⟩

/-! ### Runs -/

theorem synced_start {hub : Db sql} {cards : Cards} (hlog : hub.events.rows = []) (htasks : hub.tasks.rows = [])
    (hcards : ∀ card ∈ cards.rows, ∀ g ∈ card.globalId, g ∈ elsewhere) :
    Synced site elsewhere [] (start elsewhere hub cards) :=
  ⟨uplink_start hlog htasks cards, start_downlink hub hcards⟩

/-- The events and the rows at the end of a run are told apart and get through, so they are and do before. -/
theorem run_grows {as : List Act} (ht : Run.exec (next site) s as = some t) :
    (t.Carried site → s.Carried site) ∧ (t.Distinguished → s.Distinguished) :=
  Run.invariant (I := fun u : TaskSync sql => (u.Carried site → s.Carried site) ∧ (u.Distinguished → s.Distinguished))
    (fun _ _ _ h hnext => ⟨fun hc => h.1 (Carried.of_next hnext hc), fun hd => h.2 (Distinguished.of_next hnext hd)⟩)
    ⟨id, id⟩ ht

/-- What a run keeps. -/
theorem synced_run {as : List Act} (hM : Synced site elsewhere M s) (horder : Run.Meets (next site) InOrder s as)
    (ht : Run.exec (next site) s as = some t) (hcarried : t.Carried site) (hdistinct : t.Distinguished) :
    ∃ N, Synced site elsewhere (M ++ N) t := by
  have hinv := Run.invariant_of_meets (t := t)
    (I := fun u : TaskSync sql => u.Carried site → u.Distinguished → ∃ N, Synced site elsewhere (M ++ N) u)
    (fun u a u' h ho hnext hc hd => by
      obtain ⟨N, hN⟩ := h (Carried.of_next hnext hc) (Distinguished.of_next hnext hd)
      obtain ⟨N', hN', -⟩ := hN.next ho hnext hc hd
      exact ⟨N ++ N', by rwa [List.append_assoc] at hN'⟩)
    (fun _ _ => ⟨[], by rwa [List.append_nil]⟩) horder ht
  exact hinv hcarried hdistinct

/-- The first machine is quiet, its events are ingested, and poller `i` has not got past a task that it does not
apply. -/
structure Quiet (site : SyncSite) (elsewhere : List String) (i : Nat) (M : List EventEnvelope) (s : TaskSync sql) :
    Prop extends Synced site elsewhere M s where
  idle : s.writers.Idle
  told : s.writers.NoneLost
  delivered : s.Delivered M
  awaits : Awaits site s (s.pollers i)

theorem Quiet.settled (h : Quiet site elsewhere i M s) (hcarried : s.Carried site) (hdistinct : s.Distinguished) :
    Settled site s := fun _ hcard _ hg => h.uplink.settled hcarried hdistinct h.delivered h.idle h.told hcard hg

/-- What a step keeps that is not one of the first machine's. -/
theorem Quiet.next (h : Quiet site elsewhere i M s) {a : Act} (horder : s.InOrder a) (hwrite : ∀ b, a ≠ .write b)
    (hnext : TaskSync.next site s a = some s') (hcarried : s'.Carried site) (hdistinct : s'.Distinguished) :
    ∃ N, Quiet site elsewhere i (M ++ N) s' := by
  have hbefore := Carried.of_next hnext hcarried
  have hapart := Distinguished.of_next hnext hdistinct
  obtain ⟨N, hsynced, hadvances⟩ := h.toSynced.next horder hnext hcarried hdistinct
  have hwriters : s'.writers = s.writers := next_writers hnext hwrite
  refine ⟨N, hsynced, hwriters ▸ h.idle, hwriters ▸ h.told, fun env henv => ?_, ?_⟩
  · rw [List.map_append]
    exact List.mem_append_left _ (h.delivered env (hwriters ▸ henv))
  · exact h.awaits.next h.downlink (h.uplink.serves hbefore hapart) (h.settled hbefore hapart) hnext hwriters hadvances

theorem quiet_run {as : List Act} (hM : Quiet site elsewhere i M s) (horder : Run.Meets (next site) InOrder s as)
    (hwrite : ∀ a ∈ as, ∀ b, a ≠ .write b) (ht : Run.exec (next site) s as = some t) (hcarried : t.Carried site)
    (hdistinct : t.Distinguished) : ∃ N, Quiet site elsewhere i (M ++ N) t := by
  have hinv := Run.invariant_of_meets (t := t)
    (I := fun u : TaskSync sql => u.Carried site → u.Distinguished → ∃ N, Quiet site elsewhere i (M ++ N) u)
    (fun u a u' h ho hnext hc hd => by
      obtain ⟨N, hN⟩ := h (Carried.of_next hnext hc) (Distinguished.of_next hnext hd)
      obtain ⟨N', hN'⟩ := hN.next ho.1 ho.2 hnext hc hd
      exact ⟨N ++ N', by rwa [List.append_assoc] at hN'⟩)
    (fun _ _ => ⟨[], by rwa [List.append_nil]⟩) (Run.meets_and horder (Run.meets_of_forall s hwrite)) ht
  exact hinv hcarried hdistinct

/-- A poll begins. -/
theorem Synced.quiet (h : Synced site elsewhere M s) {args : PollArgs} (hcarried : s.Carried site)
    (hdrained : s.Drained) (hidle : s.writers.Idle) (htold : s.writers.NoneLost)
    (hnext : TaskSync.next site s (.poll i args) = some s') (horder : s.InOrder (.poll i args))
    (hcarried' : s'.Carried site) (hdistinct' : s'.Distinguished) : ∃ N, Quiet site elsewhere i (M ++ N) s' := by
  have hdelivered : s.Delivered M := fun env henv => h.uplink.outbox.drained hcarried hdrained henv
  obtain ⟨N, hsynced, -⟩ := h.next horder hnext hcarried' hdistinct'
  have hwriters : s'.writers = s.writers := next_writers hnext fun _ => by simp
  refine ⟨N, hsynced, hwriters ▸ hidle, hwriters ▸ htold, fun env henv => ?_, awaits_poll hnext⟩
  rw [List.map_append]
  exact List.mem_append_left _ (hdelivered env (hwriters ▸ henv))

/-- Where every card has arrived, the machines agree. -/
theorem Synced.converged (h : Synced site elsewhere M s) (hcarried : s.Carried site) (harrived : s.Arrived) :
    s.Converged := by
  intro env henv g hg
  have hchronicle := h.uplink.writers.chronicle
  have hreproduces := h.downlink.reproduces
  obtain ⟨told, htold, htells⟩ := h.uplink.tells hcarried env henv
  have htoldg : told.globalId = some g := htells.emitted.globalId_of_get hg
  have hnew : g ∉ elsewhere := (hchronicle.minted told htold g htoldg).new
  obtain ⟨row, hrow, hrowg, -⟩ := hchronicle.newest told htold (by rw [htoldg]; simp)
  rw [htoldg] at hrowg
  obtain ⟨card, hcard, hcardg, hle⟩ := harrived row hrow g hrowg
  obtain ⟨copied, hcopied, hcopies⟩ := (hreproduces.copies card hcard g hcardg).resolve_left hnew
  have hcopiedg : copied.globalId = some g := hcopies.globalId.symm.trans hcardg
  -- the card says what a row said that is no older than the newest one
  have hsame : copied = row := by
    obtain ⟨row', hrow', hrowg', hnewest⟩ := hchronicle.newest copied hcopied (by rw [hcopiedg]; simp)
    obtain rfl := hchronicle.unique row' hrow' row hrow (by rw [hrowg', hcopiedg]; simp)
      (by rw [hrowg', hcopiedg, hrowg])
    rw [hcopies.version] at hle
    refine (hchronicle.ordered copied hcopied row' (hchronicle.current row' hrow') ?_ ?_).agree ?_
    · rw [hcopiedg]
      simp
    · rw [hcopiedg, hrowg]
    · omega
  subst hsame
  refine ⟨copied, card, ?_, ?_, hcopies.title, hcopies.description, hcopies.priority, hcopies.status,
    hcopies.syncVersion⟩
  · refine Table.filter_eq_singleton hrow (by simpa using hrowg) fun x hx hxg => ?_
    rw [decide_eq_true_eq] at hxg
    exact (hchronicle.unique copied hrow x hx (by rw [hrowg]; simp) (by rw [hrowg, hxg])).symm
  · refine Table.filter_eq_singleton hcard (by simpa using hcardg) fun x hx hxg => ?_
    rw [decide_eq_true_eq] at hxg
    exact (hreproduces.unique card hcard x hx g hcardg hnew hxg).symm

/-- **Convergence.**  In a run of the synchronization in which no write takes back what a card of the second machine
says, let the first machine fall quiet with its outbox drained, and a poll of the repository's tasks begin.  When it has
returned, the two machines agree on every task that the first ever told of. -/
theorem converged_of_poll {hub : Db sql} {cards : Cards} {as₁ as₂ : List Act} {args₀ args : PollArgs}
    {u t : TaskSync sql} (hlog : hub.events.rows = []) (htasks : hub.tasks.rows = [])
    (hcards : ∀ card ∈ cards.rows, ∀ g ∈ card.globalId, g ∈ elsewhere)
    (horder : Run.Meets (next site) InOrder (start elsewhere hub cards) (as₁ ++ .poll i args₀ :: as₂))
    (hu : Run.exec (next site) (start elsewhere hub cards) as₁ = some u) (hdrained : u.Drained)
    (hidle : u.writers.Idle) (htold : u.writers.NoneLost) (ht : Run.exec (next site) u (.poll i args₀ :: as₂) = some t)
    (hwrite : ∀ a ∈ as₂, ∀ b, a ≠ .write b) (hcarried : t.Carried site) (hdistinct : t.Distinguished)
    (hpoller : t.pollers i = .idle (some (args, .returned))) (hsource : args.source = site.repositoryId)
    (hlimit : args.limit ≤ recentLimitMax) : t.Converged := by
  obtain ⟨horder₁, horder₂⟩ := Run.meets_append.1 horder
  obtain ⟨hpoll, hafter⟩ := horder₂ u hu
  obtain ⟨v, hnext, hv⟩ := Run.exec_cons.1 ht
  have hv' := run_grows hv
  have hu' : u.Carried site ∧ u.Distinguished :=
    ⟨Carried.of_next hnext (hv'.1 hcarried), Distinguished.of_next hnext (hv'.2 hdistinct)⟩
  obtain ⟨M, hM⟩ := synced_run (synced_start hlog htasks hcards) horder₁ hu hu'.1 hu'.2
  obtain ⟨N, hN⟩ := hM.quiet hu'.1 hdrained hidle htold hnext hpoll (hv'.1 hcarried) (hv'.2 hdistinct)
  obtain ⟨N', hN'⟩ := quiet_run hN (hafter v hnext) hwrite hv hcarried hdistinct
  have hawaits := hN'.awaits
  rw [hpoller] at hawaits
  exact hN'.toSynced.converged hcarried (hawaits args rfl hsource hlimit)

end TaskSync

end AgentOS
