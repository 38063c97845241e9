import AgentOS.Sync.Convergence

/-!
# One poller

A write takes something back only where another poll has come in between.  With one poller, what it has fetched is never
older than the cards, since these are never newer than the tasks of the hub (`Solo.known`), whose versions only grow.
So every write is in order (`inOrder_of_solo`), and the machines converge (`converged_of_onePoller`).
-/

namespace AgentOS

open Newest SqlStore Lines

namespace TaskSync

variable {sql : Sql} {site : SyncSite} {elsewhere : List String} {M N : List EventEnvelope} {s s' t : TaskSync sql}
  {i : Nat}

/-- No poller but `i` takes part. -/
def Act.OnlyPoller (i : Nat) (a : Act) : Prop := ∀ j ∈ a.poller?, j = i

instance (i : Nat) (a : Act) : Decidable (a.OnlyPoller i) :=
  inferInstanceAs (Decidable (∀ j ∈ a.poller?, j = i))

/-- The hub has a task of this global id that is no older. -/
def Known (s : TaskSync sql) (g : String) (version : Int) : Prop :=
  ∃ task ∈ s.hub.tasks.rows, sql.key task.globalId = sql.key g ∧ version ≤ task.version

/-- What is still to be applied of a page: each task once, and none is older than its cards. -/
structure Fresh (s : TaskSync sql) (todo : List StoredTask) : Prop where
  distinct : todo.Pairwise fun x y => x.globalId ≠ y.globalId
  known : ∀ x ∈ todo, s.Known x.globalId x.version
  newer : ∀ x ∈ todo, ∀ card ∈ s.cards.cards.rows, card.globalId = some x.globalId → card.version ≤ x.version

/-- What a call has found and what it is about to commit: nothing has come in between. -/
def Lone (cards : Cards) (task : StoredTask) : ApplyPc → Prop
  | .write g _ none => selectByGlobalId cards g = none
  | .commit _ _ pending _ => ∀ card ∈ pending.rows, card ∈ cards.rows ∨
      card.globalId = some task.globalId ∧ card.version = task.version
  | _ => True

/-- Where the one poller is. -/
def SoloPc (s : TaskSync sql) (call : ApplyPc) : PollPc StoredTask → Prop
  | .apply _ _ _ _ (task :: todo) => s.Fresh (task :: todo) ∧ Lone s.cards.cards task call
  | _ => True

/-- No card is newer than the task of the hub, and nothing has come in between the poller's accesses. -/
structure Solo (elsewhere : List String) (i : Nat) (s : TaskSync sql) : Prop where
  known : ∀ card ∈ s.cards.cards.rows, ∀ g ∈ card.globalId, g ∉ elsewhere → s.Known g card.version
  poller : s.SoloPc (s.cards.calls i) (s.pollers i)

/-! ### The versions of the tasks -/

/-- What the hub knows, it does not forget. -/
theorem Known.mono (h : Uplink site elsewhere M s) (h' : Uplink site elsewhere (M ++ N) s') (hcarried : s.Carried site)
    (hcarried' : s'.Carried site) (hdistinct : s.Distinguished) (hdistinct' : s'.Distinguished) {g : String}
    {version : Int} (hknown : s.Known g version) : s'.Known g version := by
  obtain ⟨task, htask, hkey, hle⟩ := hknown
  obtain ⟨e, hnewest, card, -, hshows, hversion, -⟩ :=
    h.shows_of_newest hcarried hdistinct (Table.lookup_eq_some.2 ⟨htask, rfl⟩)
  obtain ⟨hmem, hgid⟩ := mem_of_newestAt hnewest
  have hmem' : e ∈ (M ++ N).filter isTaskEvent := by
    rw [List.filter_append]
    exact List.mem_append_left _ hmem
  obtain ⟨e', hnewest', hgrown⟩ := exists_newestAt EventEnvelope.version (gidKey sql) hmem'
  rw [hgid] at hnewest'
  have hreflects := h'.ingested.tasks (sql.key task.globalId)
  cases hlookup : s'.hub.tasks.lookup (sql.key task.globalId) with
  | none =>
    rw [hlookup, hnewest'] at hreflects
    exact hreflects.elim
  | some task' =>
    obtain ⟨x, hx, card', -, hshows', hversion', -⟩ := h'.shows_of_newest hcarried' hdistinct' hlookup
    obtain rfl := Option.some.inj (hnewest'.symm.trans hx)
    obtain ⟨hrow', hkey'⟩ := Table.lookup_eq_some.1 hlookup
    refine ⟨task', hrow', hkey'.trans hkey, ?_⟩
    rw [hversion, hversion', hshows.version_eq, hshows'.version_eq] at hgrown
    exact Int.le_trans hle hgrown

/-- The tasks of a page are none of them older than the cards, where no card is newer than the task of the hub. -/
theorem fresh_page (hserves : Serves elsewhere s)
    (hknown : ∀ card ∈ s.cards.cards.rows, ∀ g ∈ card.globalId, g ∉ elsewhere → s.Known g card.version)
    (args : PollArgs) (since : Option Int) : s.Fresh ((central hserves.clocked).page args since) where
  distinct := by
    have hnodup : ((central hserves.clocked).page args since).Nodup := by
      rw [Central.page_eq]
      refine List.Nodup.sublist (List.take_sublist _ _) ((List.perm_insertionSort _ _).nodup_iff.2 ?_)
      exact (central hserves.clocked).tasks.nodup_rows.filter _
    refine hnodup.imp_of_mem fun {x y} hx hy hne hg => hne ?_
    exact s.hub.tasks.eq_of_key (Central.mem_page hx).1 (Central.mem_page hy).1 (congrArg sql.key hg)
  known x hx := ⟨x, (Central.mem_page hx).1, rfl, Int.le_refl _⟩
  newer x hx card hcard hg := by
    have hrow := (Central.mem_page hx).1
    obtain ⟨row, hhistory, hshows⟩ := hserves.shows x hrow
    obtain ⟨task, htask, hkey, hle⟩ :=
      hknown card hcard _ hg (hserves.chronicle.minted row hhistory _ hshows.globalId).new
    rwa [← s.hub.tasks.eq_of_key htask hrow hkey]

/-! ### The steps -/

/-- What a statement of a call leaves: the cards that were there, or cards of the task. -/
theorem lone_step {history : List CardRow} {cards cards' : CardDb} {task : StoredTask} {newCardId : String}
    (hcall : CallInv elsewhere history cards.cards task (cards.calls i))
    (hlone : Lone cards.cards task (cards.calls i)) (hnext : cards.next (.step i newCardId) = some cards') :
    (∀ card ∈ cards'.cards.rows, card ∈ cards.cards.rows ∨
      card.globalId = some task.globalId ∧ card.version = task.version) ∧
      Lone cards'.cards task (cards'.calls i) := by
  simp only [CardDb.next] at hnext
  cases hpc : cards.calls i with
  | idle =>
    rw [hpc] at hnext
    cases hnext
  | returned card =>
    rw [hpc] at hnext
    cases hnext
  | select g projection =>
    rw [hpc] at hnext
    obtain rfl := Option.some.inj hnext
    refine ⟨fun card hcard => Or.inl hcard, ?_⟩
    rw [goto_call]
    cases hfound : selectByGlobalId cards.cards g with
    | none => exact hfound
    | some cardId => trivial
  | write g projection existing =>
    rw [hpc] at hnext hcall
    obtain ⟨rfl, rfl, -⟩ := hcall
    dsimp only at hnext
    split at hnext
    · cases hnext
    · cases existing with
      | some cardId =>
        obtain rfl := Option.some.inj hnext
        refine ⟨fun card hcard => Or.inl hcard, ?_⟩
        rw [goto_call]
        intro card hcard
        rcases mem_updateProjected.1 hcard with ⟨hcard, -⟩ | ⟨old, -, holdg, rfl⟩
        · exact Or.inl hcard
        · exact Or.inr ⟨holdg, rfl⟩
      | none =>
        dsimp only at hnext
        split at hnext
        case h_1 pending hinsert =>
          obtain rfl := Option.some.inj hnext
          refine ⟨fun card hcard => Or.inl hcard, ?_⟩
          rw [goto_call]
          intro card hcard
          rw [Table.insert_rows hinsert] at hcard
          rcases List.mem_append.1 hcard with hcard | hcard
          · exact Or.inl hcard
          · rw [List.mem_singleton.1 hcard]
            exact Or.inr ⟨rfl, rfl⟩
        case h_2 =>
          obtain rfl := Option.some.inj hnext
          refine ⟨fun card hcard => Or.inl hcard, ?_⟩
          rw [goto_call]
          trivial
  | commit g existing pending cardId =>
    rw [hpc] at hnext hlone
    obtain rfl := Option.some.inj hnext
    refine ⟨hlone, ?_⟩
    rw [goto_call]
    trivial
  | getCard cardId =>
    rw [hpc] at hnext
    obtain rfl := Option.some.inj hnext
    refine ⟨fun card hcard => Or.inl hcard, ?_⟩
    rw [goto_call]
    trivial

/-- What does not touch the cards and forgets no task. -/
theorem SoloPc.mono {call : ApplyPc} {pc : PollPc StoredTask} (h : s.SoloPc call pc)
    (hknown : ∀ g version, s.Known g version → s'.Known g version) (hcards : s'.cards.cards = s.cards.cards) :
    s'.SoloPc call pc := by
  cases pc with
  | apply args since left page todo =>
    cases todo with
    | nil => trivial
    | cons task todo =>
      obtain ⟨hfresh, hlone⟩ := h
      exact ⟨⟨hfresh.distinct, fun x hx => hknown _ _ (hfresh.known x hx), hcards ▸ hfresh.newer⟩, hcards ▸ hlone⟩
  | _ => trivial

theorem Solo.mono (h : Solo elsewhere i s) (hknown : ∀ g version, s.Known g version → s'.Known g version)
    (hcards : s'.cards.cards = s.cards.cards) (hpoller : s'.SoloPc (s'.cards.calls i) (s'.pollers i)) :
    Solo elsewhere i s' :=
  ⟨fun card hcard g hg hnew => hknown _ _ (h.known card (hcards ▸ hcard) g hg hnew), hpoller⟩

/-- A step of the one poller. -/
private theorem Solo.pollStep (h : Solo elsewhere i s) (hserves : Serves elsewhere s) (hdownlink : Downlink elsewhere s)
    {newCardId : String} (hnext : TaskSync.pollStep s i newCardId = some s') : Solo elsewhere i s' := by
  have hpoller := hdownlink.pollers i
  have hsolo := h.poller
  have hgoto : ∀ {t : TaskSync sql} {pc : PollPc StoredTask}, t.hub = s.hub → t.cards.cards = s.cards.cards →
      t.SoloPc (t.cards.calls i) pc → Solo elsewhere i (t.goto i pc) := by
    intro t pc hhub hcards hpc
    refine h.mono (fun g version hknown => ?_) hcards ?_
    · change Known t g version
      unfold Known
      rwa [hhub]
    · have hself : (t.goto i pc).pollers i = pc := Function.update_self _ _ _
      rw [hself]
      exact hpc.mono (fun _ _ => id) rfl
  simp only [TaskSync.pollStep] at hnext
  cases hpc : s.pollers i with
  | idle last =>
    rw [hpc] at hnext
    cases hnext
  | fetch args since left =>
    rw [hpc] at hnext hpoller
    dsimp only at hnext
    rw [listTasks_eq hserves.clocked] at hnext
    split at hnext
    · obtain rfl := Option.some.inj hnext
      exact hgoto rfl rfl trivial
    · obtain rfl := Option.some.inj hnext
      refine hgoto rfl rfl ?_
      have hfresh := fresh_page hserves h.known args since
      rw [hpoller.1]
      cases hpage : (central hserves.clocked).page args since with
      | nil => trivial
      | cons task todo => exact ⟨hpage ▸ hfresh, trivial⟩
  | apply args since left page todo =>
    cases todo with
    | nil =>
      rw [hpc] at hnext
      obtain rfl := Option.some.inj hnext
      refine hgoto rfl rfl ?_
      rcases afterPage_cases args since left page with ⟨-, heq⟩ | ⟨last, -, heq⟩
      · rw [heq]
        trivial
      · rw [heq]
        trivial
    | cons task todo =>
      rw [hpc] at hnext hpoller hsolo
      obtain ⟨hfresh, hlone⟩ := hsolo
      dsimp only at hnext
      split at hnext
      case h_1 hidle =>
        obtain ⟨cards, hcards, rfl⟩ := Option.map_eq_some_iff.1 hnext
        simp only [CardDb.next, hidle] at hcards
        obtain rfl := Option.some.inj hcards
        obtain ⟨pc, hbegin, hlone'⟩ : ∃ pc, s.cards.beginCall i task.projection = s.cards.goto i pc ∧
            Lone s.cards.cards task pc := by
          unfold CardDb.beginCall
          cases task.projection.globalId? with
          | none => exact ⟨_, rfl, trivial⟩
          | some g => exact ⟨_, rfl, trivial⟩
        rw [hbegin]
        refine h.mono (fun _ _ => id) rfl ?_
        dsimp only
        rw [goto_call, hpc]
        exact ⟨⟨hfresh.distinct, hfresh.known, hfresh.newer⟩, hlone'⟩
      case h_2 =>
        obtain rfl := Option.some.inj hnext
        exact hgoto rfl rfl trivial
      case h_3 =>
        obtain rfl := Option.some.inj hnext
        refine hgoto rfl rfl ?_
        dsimp only
        rw [goto_call]
        cases todo with
        | nil => trivial
        | cons next todo =>
          exact ⟨⟨(List.pairwise_cons.1 hfresh.distinct).2, fun x hx => hfresh.known x (List.mem_cons_of_mem _ hx),
            fun x hx => hfresh.newer x (List.mem_cons_of_mem _ hx)⟩, trivial⟩
      case h_4 =>
        obtain ⟨cards, hcards, rfl⟩ := Option.map_eq_some_iff.1 hnext
        obtain ⟨hrows, hlone'⟩ := lone_step hpoller.1 hlone hcards
        refine ⟨fun card hcard g hg hnew => ?_, ?_⟩
        · rcases hrows card hcard with hold | ⟨hcardg, hversion⟩
          · exact h.known card hold g hg hnew
          · obtain rfl := Option.some.inj (hcardg.symm.trans hg)
            rw [hversion]
            exact hfresh.known task List.mem_cons_self
        · dsimp only
          rw [hpc]
          refine ⟨⟨hfresh.distinct, hfresh.known, fun x hx card hcard hg => ?_⟩, hlone'⟩
          rcases hrows card hcard with hold | ⟨hcardg, hversion⟩
          · exact hfresh.newer x hx card hold hg
          · -- the card is the task's, which is in the page once
            rcases List.mem_cons.1 hx with rfl | hx
            · exact Int.le_of_eq hversion
            · refine absurd ?_ ((List.pairwise_cons.1 hfresh.distinct).1 x hx)
              exact Option.some.inj (hcardg.symm.trans hg)
  | write args since left page nextSince =>
    rw [hpc] at hnext
    obtain rfl := Option.some.inj hnext
    refine hgoto rfl rfl ?_
    unfold Inbox.afterWrite
    split
    · trivial
    · split
      · trivial
      · split
        · trivial
        · trivial

/-- **The step lemma of one poller.** -/
theorem Solo.next (h : Solo elsewhere i s) (hserves : Serves elsewhere s) (hdownlink : Downlink elsewhere s) {a : Act}
    (ha : a.OnlyPoller i) (hknown : ∀ g version, s.Known g version → s'.Known g version)
    (hnext : TaskSync.next site s a = some s') : Solo elsewhere i s' := by
  have huplink : (∃ b, a = .write b) ∨ (∃ j fate, a = .drain j fate) ∨ (∃ j, a = .crashDrain j) →
      Solo elsewhere i s' := by
    intro ha
    obtain ⟨hcards, -, hpollers⟩ := next_uplink hnext ha
    refine h.mono hknown (congrArg CardDb.cards hcards) ?_
    rw [hcards, hpollers]
    exact h.poller.mono hknown (congrArg CardDb.cards hcards)
  have hgoto : ∀ {t : TaskSync sql} {pc : PollPc StoredTask}, t.goto i pc = s' → t.cards.cards = s.cards.cards →
      (∀ u : TaskSync sql, ∀ call, u.SoloPc call pc) → Solo elsewhere i s' := by
    rintro t pc rfl hcards hpc
    refine h.mono hknown hcards ?_
    have hself : (t.goto i pc).pollers i = pc := Function.update_self _ _ _
    rw [hself]
    exact hpc _ _
  cases a with
  | write b => exact huplink (Or.inl ⟨b, rfl⟩)
  | drain j fate => exact huplink (Or.inr (Or.inl ⟨j, fate, rfl⟩))
  | crashDrain j => exact huplink (Or.inr (Or.inr ⟨j, rfl⟩))
  | poll j args =>
    obtain rfl : j = i := ha j rfl
    simp only [TaskSync.next] at hnext
    split at hnext
    · split at hnext
      · exact hgoto (Option.some.inj hnext) rfl fun _ _ => trivial
      · exact hgoto (Option.some.inj hnext) rfl fun _ _ => trivial
    · cases hnext
  | step j newCardId =>
    obtain rfl : j = i := ha j rfl
    exact h.pollStep hserves hdownlink hnext
  | fail j =>
    obtain rfl : j = i := ha j rfl
    have hsolo := h.poller
    simp only [TaskSync.next] at hnext
    cases hpc : s.pollers j with
    | idle last =>
      rw [hpc] at hnext
      cases hnext
    | fetch args since left =>
      rw [hpc] at hnext
      exact hgoto (Option.some.inj hnext) rfl fun _ _ => trivial
    | write args since left page nextSince =>
      rw [hpc] at hnext
      exact hgoto (Option.some.inj hnext) rfl fun _ _ => trivial
    | apply args since left page todo =>
      rw [hpc] at hnext hsolo
      obtain ⟨cards, hcards, rfl⟩ := Option.map_eq_some_iff.1 hnext
      simp only [CardDb.next] at hcards
      split at hcards
      · cases hcards
      · cases hcards
      · obtain rfl := Option.some.inj hcards
        refine h.mono hknown rfl ?_
        dsimp only
        rw [goto_call, hpc]
        cases todo with
        | nil => trivial
        | cons task todo => exact ⟨⟨hsolo.1.distinct, hsolo.1.known, hsolo.1.newer⟩, trivial⟩
  | crash j =>
    obtain rfl : j = i := ha j rfl
    simp only [TaskSync.next, CardDb.next, Option.map_some, Option.some.injEq] at hnext
    refine hgoto hnext rfl fun u call => ?_
    split <;> trivial

/-- The next write of the one poller takes nothing back. -/
theorem Solo.inOrder (h : Solo elsewhere i s) (hdownlink : Downlink elsewhere s) {a : Act} (ha : a.OnlyPoller i) :
    s.InOrder a := by
  cases a with
  | step j newCardId =>
    obtain rfl : j = i := ha j rfl
    have hpoller := hdownlink.pollers j
    have hsolo := h.poller
    change (s.cards.calls j).InOrder s.cards.cards
    cases hcall : s.cards.calls j with
    | write g projection existing =>
      rw [hcall] at hpoller hsolo
      cases hpc : s.pollers j with
      | apply args since left page todo =>
        cases todo with
        | nil =>
          rw [hpc] at hpoller
          cases hpoller.1
        | cons task todo =>
          rw [hpc] at hpoller hsolo
          obtain ⟨⟨rfl, rfl, -⟩, -, -, -⟩ := hpoller
          cases existing with
          | none => exact hsolo.2
          | some cardId => exact hsolo.1.newer task List.mem_cons_self
      | idle last =>
        rw [hpc] at hpoller
        cases hpoller
      | fetch args since left =>
        rw [hpc] at hpoller
        cases hpoller.1
      | write args since left page nextSince =>
        rw [hpc] at hpoller
        cases hpoller.1
    | _ => trivial
  | _ => trivial

/-! ### Runs -/

theorem solo_start {hub : Db sql} {cards : Cards} (hcards : ∀ card ∈ cards.rows, ∀ g ∈ card.globalId, g ∈ elsewhere) :
    Solo elsewhere i (start elsewhere hub cards) :=
  ⟨fun card hcard g hg hnew => absurd (hcards card hcard g hg) hnew, trivial⟩

theorem solo_run {as : List Act} (hM : Synced site elsewhere M s) (hsolo : Solo elsewhere i s)
    (honly : ∀ a ∈ as, a.OnlyPoller i) (ht : Run.exec (next site) s as = some t) (hcarried : t.Carried site)
    (hdistinct : t.Distinguished) :
    ∃ N, Synced site elsewhere (M ++ N) t ∧ Solo elsewhere i t ∧ CardsAdvance s.cards.cards t.cards.cards := by
  have hinv := Run.invariant_of_meets (t := t) (I := fun u : TaskSync sql => u.Carried site → u.Distinguished →
      ∃ N, Synced site elsewhere (M ++ N) u ∧ Solo elsewhere i u ∧ CardsAdvance s.cards.cards u.cards.cards)
    (fun u a u' h ho hnext hc hd => by
      have hc' := Carried.of_next hnext hc
      have hd' := Distinguished.of_next hnext hd
      obtain ⟨N, hN, hsolo, hadvances⟩ := h hc' hd'
      obtain ⟨N', hN', hadvances'⟩ := hN.next (hsolo.inOrder hN.downlink ho) hnext hc hd
      have hknown : ∀ g version, u.Known g version → u'.Known g version :=
        fun g version hknown => hknown.mono hN.uplink hN'.uplink hc' hc hd' hd
      refine ⟨N ++ N', by rwa [List.append_assoc] at hN', ?_, fun g version h => hadvances' _ _ (hadvances _ _ h)⟩
      exact hsolo.next (hN.uplink.serves hc' hd') hN.downlink ho hknown hnext)
    (fun _ _ => ⟨[], by rwa [List.append_nil], hsolo, CardsAdvance.refl _⟩) (Run.meets_of_forall s honly) ht
  exact hinv hcarried hdistinct

/-- Every write of a lone poller is in order. -/
theorem inOrder_run {hub : Db sql} {cards : Cards} {as : List Act} (hlog : hub.events.rows = [])
    (htasks : hub.tasks.rows = []) (hcards : ∀ card ∈ cards.rows, ∀ g ∈ card.globalId, g ∈ elsewhere)
    (honly : ∀ a ∈ as, a.OnlyPoller i) (ht : Run.exec (next site) (start elsewhere hub cards) as = some t)
    (hcarried : t.Carried site) (hdistinct : t.Distinguished) :
    Run.Meets (next site) InOrder (start elsewhere hub cards) as := by
  refine Run.meets_of_prefixes fun as₁ a as₂ u has hu => ?_
  subst has
  obtain ⟨u', hu', hrest⟩ := Run.exec_append.1 ht
  obtain rfl := Option.some.inj (hu.symm.trans hu')
  have hgrows := run_grows hrest
  obtain ⟨N, hN, hsolo, -⟩ := solo_run (synced_start hlog htasks hcards) (solo_start hcards)
    (fun b hb => honly b (List.mem_append_left _ hb)) hu (hgrows.1 hcarried) (hgrows.2 hdistinct)
  exact hsolo.inOrder hN.downlink (honly a (List.mem_append_right _ List.mem_cons_self))

/-- **Safety.**  Whatever the first machine and its drainers do and however the polls of the second machine fail or die:
with one poller, the second machine has at most one card of a global id, which says what a card of the first machine
said, and no card goes back to an older version. -/
theorem reproduced_of_onePoller {hub : Db sql} {cards : Cards} {as₁ as₂ : List Act} {u t : TaskSync sql}
    (hlog : hub.events.rows = []) (htasks : hub.tasks.rows = [])
    (hcards : ∀ card ∈ cards.rows, ∀ g ∈ card.globalId, g ∈ elsewhere)
    (honly : ∀ a ∈ as₁ ++ as₂, a.OnlyPoller i)
    (hu : Run.exec (next site) (start elsewhere hub cards) as₁ = some u) (ht : Run.exec (next site) u as₂ = some t)
    (hcarried : t.Carried site) (hdistinct : t.Distinguished) :
    Reproduces elsewhere t.writers.history t.cards.cards ∧ CardsAdvance u.cards.cards t.cards.cards := by
  have hgrows := run_grows ht
  obtain ⟨M, hM, hsolo, -⟩ := solo_run (synced_start hlog htasks hcards) (solo_start hcards)
    (fun a ha => honly a (List.mem_append_left _ ha)) hu (hgrows.1 hcarried) (hgrows.2 hdistinct)
  obtain ⟨N, hN, -, hadvances⟩ := solo_run hM hsolo (fun a ha => honly a (List.mem_append_right _ ha)) ht hcarried
    hdistinct
  exact ⟨hN.downlink.reproduces, hadvances⟩

/-- **Convergence with one poller.**  Once the first machine is quiet with its outbox drained, the next poll of the
repository's tasks that returns leaves the machines in agreement on every task that the first ever told of. -/
theorem converged_of_onePoller {hub : Db sql} {cards : Cards} {as₁ as₂ : List Act} {args₀ args : PollArgs}
    {u t : TaskSync sql} (hlog : hub.events.rows = []) (htasks : hub.tasks.rows = [])
    (hcards : ∀ card ∈ cards.rows, ∀ g ∈ card.globalId, g ∈ elsewhere)
    (honly : ∀ a ∈ as₁ ++ .poll i args₀ :: as₂, a.OnlyPoller i)
    (hu : Run.exec (next site) (start elsewhere hub cards) as₁ = some u) (hdrained : u.Drained)
    (hidle : u.writers.Idle) (htold : u.writers.NoneLost) (ht : Run.exec (next site) u (.poll i args₀ :: as₂) = some t)
    (hwrite : ∀ a ∈ as₂, ∀ b, a ≠ .write b) (hcarried : t.Carried site) (hdistinct : t.Distinguished)
    (hpoller : t.pollers i = .idle (some (args, .returned))) (hsource : args.source = site.repositoryId)
    (hlimit : args.limit ≤ recentLimitMax) : t.Converged := by
  have horder := inOrder_run hlog htasks hcards honly (Run.exec_append.2 ⟨u, hu, ht⟩) hcarried hdistinct
  exact converged_of_poll hlog htasks hcards horder hu hdrained hidle htold ht hwrite hcarried hdistinct hpoller hsource
    hlimit

/-! ### Steps of calls and of a drainer -/

section

variable {w : Writers}

private def drained (s : TaskSync sql) (hub : Db sql) (outbox : Sys EventEnvelope) : TaskSync sql :=
  { s with hub := hub, outbox := outbox }

/-- The steps of the calls, with the events that they emit. -/
private theorem exec_writes {bs : List Writers.Act} (h : Run.exec (Writers.next site.context) s.writers bs = some w) :
    ∃ envs, w.emitted = s.writers.emitted ++ envs ∧
      Run.exec (next site) s (bs.map .write) = some { s with writers := w, outbox := append site s.outbox envs } := by
  induction bs generalizing s with
  | nil =>
    obtain rfl := Option.some.inj h
    exact ⟨[], (List.append_nil _).symm, rfl⟩
  | cons b bs ih =>
    obtain ⟨mid, hmid, hrest⟩ := Run.exec_cons.1 h
    obtain ⟨envs, henvs⟩ := (Writers.next_mono hmid).1
    have hnext : TaskSync.next site s (.write b) =
        some { s with writers := mid, outbox := append site s.outbox envs } := by
      rw [TaskSync.next, hmid, Option.map_some, ← henvs, List.drop_left]
    obtain ⟨more, hmore, hexec⟩ := @ih { s with writers := mid, outbox := append site s.outbox envs } hrest
    refine ⟨envs ++ more, by rw [hmore, ← henvs, List.append_assoc], Run.exec_cons.2 ⟨_, hnext, hexec.trans ?_⟩⟩
    simp only [append, List.foldl_append]

private theorem next_access {fate : Fate}
    (hpc : ∀ pending endOffset, (s.outbox.drainers i).pc ≠ .request pending endOffset) :
    TaskSync.next site s (.drain i fate) =
      some { s with outbox := drainStep site.wire.codec site.batchSize s.outbox i .failure } := by
  rw [TaskSync.next]
  split
  case h_1 pending endOffset h => exact absurd h (hpc pending endOffset)
  case h_2 => rfl

private theorem next_post {fate : Fate} {pending : List (PendingEvent EventEnvelope)} {endOffset : Nat}
    {hub : Db sql} {reply : Reply} (hpc : (s.outbox.drainers i).pc = .request pending endOffset)
    (hpost : post site s.hub pending fate = some (hub, reply)) :
    TaskSync.next site s (.drain i fate) =
      some { s with hub := hub, outbox := drainStep site.wire.codec site.batchSize s.outbox i reply } := by
  simp only [TaskSync.next, hpc, hpost, Option.map_some]

end

/-- An outbox without a cursor file that was never deleted, and drainer 0 on its way through it. -/
private def underDrain (bytes : List UInt8) (heads : List (Nat × String)) (exchanges : List (Exchange EventEnvelope))
    (d : Drainer EventEnvelope) : Sys EventEnvelope :=
  ⟨some bytes, none, [], Function.update (fun _ => ⟨.idle, none, 0⟩) 0 d, 0, heads, exchanges⟩

section

variable {bytes : List UInt8} {heads : List (Nat × String)} {exchanges : List (Exchange EventEnvelope)}
  {pending : List (PendingEvent EventEnvelope)} {last : PendingEvent EventEnvelope} {result : Option BatchResult}
  {hub hub' : Db sql} {reply : Reply} {d d' : Drainer EventEnvelope}

@[simp] private theorem underDrain_drainer : (underDrain bytes heads exchanges d).drainers 0 = d := by
  simp [underDrain]

@[simp] private theorem underDrain_setDrainer :
    (underDrain bytes heads exchanges d).setDrainer 0 d' = underDrain bytes heads exchanges d' := by
  simp [underDrain, Sys.setDrainer]

/-- A step of the drainer that is not its request. -/
private theorem underDrain_step (d' : Drainer EventEnvelope) {as : List Act}
    (hpc : ∀ pending endOffset, d.pc ≠ .request pending endOffset)
    (hd : drainStep site.wire.codec site.batchSize (underDrain bytes heads exchanges d) 0 .failure =
      underDrain bytes heads exchanges d')
    (hrest : Run.exec (next site) (s.drained hub (underDrain bytes heads exchanges d')) as = some t) :
    Run.exec (next site) (s.drained hub (underDrain bytes heads exchanges d)) (.drain 0 .answered :: as) =
      some t := by
  refine Run.exec_cons.2 ⟨_, next_access (by simpa [drained] using hpc), ?_⟩
  simp only [drained, hd]
  exact hrest

/-- The lines are read. -/
private theorem exec_read {as : List Act}
    (hread : readPending site.wire.codec bytes 0 (some (site.batchSize 0))
      (some (site.batchSize 0 * maxLineBytes)) = pending)
    (hlast : pending.getLast? = some last) (hsend : toSend pending = pending)
    (hrest : Run.exec (next site)
      (s.drained hub (underDrain bytes heads exchanges ⟨.request pending last.endOffset, result, 0⟩)) as = some t) :
    Run.exec (next site) (s.drained hub (underDrain bytes heads exchanges ⟨.idle, result, 0⟩))
      (List.replicate 4 (.drain 0 .answered) ++ as) = some t := by
  have hne : pending ≠ [] := by
    rintro rfl
    cases hlast
  refine underDrain_step ⟨.readCursor, result, 0⟩ (by simp) ?_ ?_
  · simp [drainStep, underDrain, Sys.setDrainer]
  refine underDrain_step ⟨.stat 0, result, 0⟩ (by simp) ?_ ?_
  · simp [drainStep, underDrain, Sys.setDrainer, Drainer.goto]
  refine underDrain_step ⟨.read 0, result, 0⟩ (by simp) ?_ ?_
  · simp [drainStep, underDrain, Sys.setDrainer, Drainer.goto]
  refine underDrain_step ⟨.request pending last.endOffset, result, 0⟩ (by simp) ?_ hrest
  simp [drainStep, underDrain, Sys.setDrainer, hread, hlast, hsend, hne]

/-- The hub ingests the request, and the answer is lost. -/
private theorem exec_unanswered (hread : readPending site.wire.codec bytes 0 (some (site.batchSize 0))
      (some (site.batchSize 0 * maxLineBytes)) = pending)
    (hlast : pending.getLast? = some last) (hsend : toSend pending = pending)
    (hpost : post site hub pending .unanswered = some (hub', .failure)) :
    Run.exec (next site) (s.drained hub (underDrain bytes heads exchanges ⟨.idle, result, 0⟩))
        (List.replicate 4 (.drain 0 .answered) ++ [.drain 0 .unanswered]) =
      some (s.drained hub' (underDrain bytes heads (exchanges ++ [⟨0, pending, .failure⟩])
        ⟨.idle, some (.transportError .connection), 0⟩)) := by
  refine exec_read hread hlast hsend (Run.exec_cons.2 ⟨_, next_post (congrArg Drainer.pc underDrain_drainer) hpost, ?_⟩)
  simp [drained, drainStep, underDrain, Sys.setDrainer, hsend, resolve, Drainer.finish, Run.exec]

/-- The request is answered, and the cursor moves behind the lines. -/
private theorem exec_answered (hread : readPending site.wire.codec bytes 0 (some (site.batchSize 0))
      (some (site.batchSize 0 * maxLineBytes)) = pending)
    (hlast : pending.getLast? = some last) (hsend : toSend pending = pending) (hparsed : unparsed pending = [])
    (hpost : post site hub pending .answered = some (hub', reply)) (hreply : resolve pending reply = .ok []) :
    Run.exec (next site) (s.drained hub (underDrain bytes heads exchanges ⟨.idle, result, 0⟩))
        (List.replicate 4 (.drain 0 .answered) ++ List.replicate 4 (.drain 0 .answered)) =
      some (s.drained hub' { underDrain bytes heads (exchanges ++ [⟨0, pending, reply⟩]) ⟨.idle, some .progress, 0⟩ with
        cursor := some ⟨last.endOffset, outboxGeneration site.wire.codec (some bytes)⟩ }) := by
  have hanswered : drainStep site.wire.codec site.batchSize
      (underDrain bytes heads exchanges ⟨.request pending last.endOffset, result, 0⟩) 0 reply =
        underDrain bytes heads (exchanges ++ [⟨0, pending, reply⟩]) ⟨.deadLetter [] last.endOffset, result, 0⟩ := by
    simp [drainStep, underDrain, Sys.setDrainer, hsend, hparsed, hreply, Drainer.goto]
  have hnext : TaskSync.next site
      (s.drained hub (underDrain bytes heads exchanges ⟨.request pending last.endOffset, result, 0⟩))
        (.drain 0 .answered) =
        some (s.drained hub' (underDrain bytes heads (exchanges ++ [⟨0, pending, reply⟩])
          ⟨.deadLetter [] last.endOffset, result, 0⟩)) := by
    refine (next_post (congrArg Drainer.pc underDrain_drainer) hpost).trans ?_
    simp only [drained, hanswered]
  refine exec_read hread hlast hsend (Run.exec_cons.2 ⟨_, hnext, ?_⟩)
  refine underDrain_step ⟨.stamp last.endOffset, result, 0⟩ (by simp) ?_ ?_
  · simp [drainStep, underDrain, Sys.setDrainer, Drainer.goto]
  refine underDrain_step ⟨.replace last.endOffset (outboxGeneration site.wire.codec (some bytes)), result, 0⟩
    (by simp) ?_ ?_
  · simp [drainStep, underDrain, Sys.setDrainer, Drainer.goto]
  refine Run.exec_cons.2 ⟨_, next_access (by simp [drained]), ?_⟩
  simp [drained, drainStep, underDrain, Sys.setDrainer, Drainer.finish]

end

private def headsOf (codec : Codec EventEnvelope) (ls : List String) : List (Nat × String) :=
  ((outboxGeneration codec (some (outboxOf ls))).map fun token => (0, token)).toList

private theorem appendLine_underDrain {codec : Codec EventEnvelope} {floats : FloatText} {ls : List String}
    {line : String} {heads : List (Nat × String)} {exchanges : List (Exchange EventEnvelope)}
    {d : Drainer EventEnvelope} (h : OutboxLine codec floats line) :
    appendLine codec (underDrain (outboxOf ls) heads exchanges d) line =
      underDrain (outboxOf (ls ++ [line])) (heads ++ headsOf codec (ls ++ [line])) exchanges d := by
  have hbytes : outboxOf (ls ++ [line]) = outboxOf ls ++ outboxLine line := by simp [outboxOf]
  rw [appendLine, if_neg h.newline, if_neg (Nat.not_lt.2 h.size)]
  simp [underDrain, headsOf, Sys.content, hbytes]

/-- The first line creates the outbox. -/
private theorem appendLine_init {codec : Codec EventEnvelope} {floats : FloatText} {line : String}
    (h : OutboxLine codec floats line) : appendLine codec Sys.init line =
      underDrain (outboxOf [line]) (headsOf codec [line]) [] ⟨.idle, none, 0⟩ := by
  rw [appendLine, if_neg h.newline, if_neg (Nat.not_lt.2 h.size)]
  simp [underDrain, headsOf, Sys.init, Sys.content, outboxOf]

/-- What a drainer reads of the whole outbox. -/
private theorem readPending_all {codec : Codec EventEnvelope} {floats : FloatText} {ls : List String}
    (h : ∀ l ∈ ls, OutboxLine codec floats l) (hlength : ls.length ≤ 500) :
    readPending codec (outboxOf ls) 0 (some 500) (some (500 * maxLineBytes)) =
      (stamp 0 (ls.map encode)).map (pendingEvent codec) := by
  have hread : readBytes (some (500 * maxLineBytes)) (outboxOf ls) = outboxOf ls := by
    have hsize := length_outboxOf h
    rw [readBytes, if_neg (by decide)]
    refine List.take_of_length_le (Nat.le_trans hsize ?_)
    exact Nat.mul_le_mul_right maxLineBytes hlength
  have hfst : (stamp 0 (ls.map encode)).map Prod.fst = ls.map encode := stamp_map_fst 0 _
  have hcount : (stamp 0 (ls.map encode)).length = ls.length := by
    have := congrArg List.length hfst
    rwa [List.length_map, List.length_map] at this
  rw [readPending, List.drop_zero, hread, framed, lines_outboxOf h]
  conv => lhs; rw [← List.append_nil (stamp 0 (ls.map encode))]
  refine (pendingLoop_all (fun line hline => ?_) ?_ (Or.inl rfl)).trans (List.nil_append _)
  · have hmem : line.1 ∈ ls.map encode := hfst ▸ List.mem_map_of_mem hline
    obtain ⟨l, hl, heq⟩ := List.mem_map.1 hmem
    rw [← heq, decode_encode]
    exact (h l hl).notBlank
  · rw [hcount, List.length_nil, Nat.zero_add]
    exact hlength

/-! ### A card and its events -/

private def isoformat (_ : Int) : String := "2026-01-01T00:00:00Z"

private def oneContext : EmitContext := ⟨"mach_1", "repo_local", none⟩

private def newCard : CardRow := newCardRow "c1" "Ship" none "Normal" (some "task_1")

private def retitle : CardEdit := ⟨some "Ship it", none, none, none⟩

private def retitled : CardRow := retitle.apply (some "task_2") newCard

private def cardCreated : EventEnvelope := emitTask oneContext "task.created" newCard "evt_1" 63902822400000000

private def cardUpdated : EventEnvelope := emitTask oneContext "task.updated" retitled "evt_2" 63902822400000000

/-- An event of the card as `model_dump_json` writes it. -/
private def eventText (eventId eventType title version : String) : List Char :=
  ["\x7b\"schema_version\":1,", "\"event_id\":\"", eventId, "\",\"event_type\":\"", eventType, "\",",
    "\"occurred_at\":", "\"2026-01-01T00:00:00Z\",", "\"machine_id\":\"mach_1\",", "\"agent_id\":null,",
    "\"session_id\":null,", "\"project_id\":null,", "\"repository_id\":", "\"repo_local\",", "\"task_id\":\"c1\",",
    "\"payload\":\x7b", "\"card_id\":\"c1\",", "\"title\":\"", title, "\",\"status\":\"Created\",",
    "\"priority\":\"Normal\",", "\"global_id\":\"task_1\",", "\"version\":", version, "\x7d\x7d"].flatMap String.toList

@[irreducible] private def lineOf (cs : List Char) : String := String.ofList cs

private theorem toList_lineOf (cs : List Char) : (lineOf cs).toList = cs := by
  unfold lineOf
  exact String.toList_ofList

private def createdText : List Char := eventText "evt_1" "task.created" "Ship" "1"

private def updatedText : List Char := eventText "evt_2" "task.updated" "Ship it" "2"

private theorem updatedLine_ne : lineOf updatedText ≠ lineOf createdText := by
  intro h
  have htexts := congrArg String.toList h
  rw [toList_lineOf, toList_lineOf] at htexts
  exact absurd htexts (by decide +kernel)

private def oneInt : Json → Except String Int
  | .int n => .ok n
  | _ => .error "Input should be a valid integer"

private theorem oneInt_message (v : Json) (msg : String) (h : oneInt v = .error msg) : Bmp msg := by
  unfold oneInt at h
  split at h
  · cases h
  · obtain rfl := Except.error.inj h
    exact bmp_of_all (by decide)

private def oneInstant (v : Json) : Except String Int :=
  if v.asStr = some "2026-01-01T00:00:00Z" then .ok 63902822400000000
  else .error "Input should be a valid datetime"

private theorem oneInstant_message (v : Json) (msg : String) (h : oneInstant v = .error msg) : Bmp msg := by
  unfold oneInstant at h
  split at h
  · cases h
  · obtain rfl := Except.error.inj h
    exact bmp_of_all (by decide)

/-- pydantic on integers and on one instant. -/
private def onePydantic : Pydantic := ⟨oneInt, oneInstant, oneInt_message, oneInstant_message⟩

private def oneSite : SyncSite where
  context := oneContext
  repositoryId := "repo_hub"
  wire :=
    { dumpJson := fun env => if env.eventId = "evt_1" then lineOf createdText else lineOf updatedText
      codec :=
        { validate := fun line =>
            if line = lineOf createdText then .ok cardCreated
            else if line = lineOf updatedText then .ok cardUpdated
            else .error "Invalid JSON"
          sha256 := fun head => toString head.length }
      floats := ⟨fun _ => .nan, fun _ => "NaN"⟩
      isoformat := isoformat
      pydantic := onePydantic }
  batchSize _ := 500
  auth := ⟨false, some "mach_1"⟩
  bound := Or.inr rfl

private theorem dumpJson_created : oneSite.wire.dumpJson cardCreated = lineOf createdText := by
  simp [oneSite, cardCreated, emitTask]

private theorem dumpJson_updated : oneSite.wire.dumpJson cardUpdated = lineOf updatedText := by
  simp [oneSite, cardUpdated, emitTask]

private theorem validate_created : oneSite.wire.codec.validate (lineOf createdText) = .ok cardCreated := if_pos rfl

private theorem validate_updated : oneSite.wire.codec.validate (lineOf updatedText) = .ok cardUpdated :=
  (if_neg updatedLine_ne).trans (if_pos rfl)

/-- An event with this line gets through. -/
private theorem carries_of {env : EventEnvelope} {cs : List Char} (hdump : oneSite.wire.dumpJson env = lineOf cs)
    (hvalid : oneSite.wire.codec.validate (lineOf cs) = .ok env)
    (hloads : loads (fun _ => .nan) (lineOf cs) = some (.obj (env.fields isoformat))) (hnewline : '\n' ∉ cs)
    (hsize : (cs.flatMap encodeChar ++ [newline]).length ≤ maxLineBytes) (hblank : cs.all isspace = false)
    (hnow : env.occurredAt = 63902822400000000)
    (hcolumns : (taskRow Sql.sample (oneSite.sent env)).isSome) :
    oneSite.Carries Sql.sample env where
  line :=
    { newline := by
        rw [hdump, toList_lineOf]
        exact hnewline
      size := by
        rw [hdump, outboxLine, encode, toList_lineOf]
        exact hsize
      valid := ⟨env, by rw [hdump]; exact hvalid⟩
      json := ⟨_, by rw [hdump]; exact hloads⟩
      notBlank := by
        rw [hdump, isBlank, toList_lineOf]
        exact hblank }
  text := by
    rw [hdump]
    exact hloads
  schemaVersion := rfl
  occurredAt := by simp [oneSite, onePydantic, oneInstant, Json.asStr, isoformat, hnow]
  columns _ := hcolumns

private theorem carries_created : oneSite.Carries Sql.sample cardCreated := by
  refine carries_of dumpJson_created validate_created ?_ (by decide +kernel) (by decide +kernel) (by decide +kernel) rfl
    (by decide +kernel)
  rw [loads, ← String.length_toList, toList_lineOf]
  decide +kernel

private theorem carries_updated : oneSite.Carries Sql.sample cardUpdated := by
  refine carries_of dumpJson_updated validate_updated ?_ (by decide +kernel) (by decide +kernel) (by decide +kernel) rfl
    (by decide +kernel)
  rw [loads, ← String.length_toList, toList_lineOf]
  decide +kernel

/-! ### A run

The card is created, the answer to its event is lost, and a poll makes a card of it; then its title is edited, both
events are sent, and another poll takes the edit over. -/

private def cardWritten : Writers where
  cards := ⟨[newCard], List.nodup_singleton _⟩
  calls := Function.update (Function.update (Function.update (fun _ => .idle) 0 (.insert newCard)) 0
    (.emit "task.created" newCard false)) 0 .idle
  globalIds := ["task_1"]
  history := [newCard]
  emitted := [cardCreated]
  lost := []

private def cardRetitled : Writers where
  cards := ⟨[retitled], List.nodup_singleton _⟩
  calls := Function.update (Function.update (Function.update (Function.update cardWritten.calls 0
    (.update "c1" retitle (some "task_2") false)) 0 (.getCard "c1" false)) 0
      (.emit "task.updated" retitled false)) 0 .idle
  globalIds := ["task_2", "task_1"]
  history := [retitled, newCard]
  emitted := [cardCreated, cardUpdated]
  lost := []

private def createActs : List Writers.Act :=
  [.call 0 (.createCard "Ship" none "Normal") "c1" (some "1"), .step 0 "" 0, .step 0 "evt_1" 63902822400000000]

private def retitleActs : List Writers.Act :=
  [.call 0 (.updateCard "c1" retitle) "" (some "2"), .step 0 "" 0, .step 0 "" 0, .step 0 "evt_2" 63902822400000000]

private theorem writers_create : Run.exec (Writers.next oneContext) (Writers.start []) createActs = some cardWritten :=
  Run.exec_cons.2 ⟨_, rfl, Run.exec_cons.2 ⟨_, rfl, Run.exec_cons.2 ⟨_, rfl, rfl⟩⟩⟩

private theorem writers_retitle : Run.exec (Writers.next oneContext) cardWritten retitleActs = some cardRetitled :=
  Run.exec_cons.2 ⟨_, rfl, Run.exec_cons.2 ⟨_, rfl, Run.exec_cons.2 ⟨_, rfl, Run.exec_cons.2 ⟨_, rfl, rfl⟩⟩⟩⟩

private theorem tells_card : ∀ env ∈ [cardCreated, cardUpdated], ∃ card ∈ [retitled, newCard],
    oneSite.Tells Sql.sample card env := by
  intro env henv
  simp only [List.mem_cons, List.not_mem_nil, or_false] at henv
  rcases henv with rfl | rfl
  · exact ⟨newCard, by simp, carries_created, ⟨by decide, rfl, rfl, rfl⟩, by decide, 1, rfl, Int.le_refl _⟩
  · exact ⟨retitled, by simp, carries_updated, ⟨by decide, rfl, rfl, rfl⟩, by decide, 2, rfl, by decide⟩

private theorem outboxLine_of {env : EventEnvelope} {cs : List Char} (hdump : oneSite.wire.dumpJson env = lineOf cs)
    (h : oneSite.Carries Sql.sample env) : OutboxLine oneSite.wire.codec oneSite.wire.floats (lineOf cs) :=
  hdump ▸ h.line

private def createdLines : List String := [lineOf createdText]

private def bothLines : List String := [lineOf createdText, lineOf updatedText]

private theorem outboxLine_both : ∀ l ∈ bothLines, OutboxLine oneSite.wire.codec oneSite.wire.floats l := by
  intro l hl
  simp only [bothLines, List.mem_cons, List.not_mem_nil, or_false] at hl
  rcases hl with rfl | rfl
  · exact outboxLine_of dumpJson_created carries_created
  · exact outboxLine_of dumpJson_updated carries_updated

private theorem outboxLine_created : ∀ l ∈ createdLines, OutboxLine oneSite.wire.codec oneSite.wire.floats l :=
  fun l hl => outboxLine_both l (List.mem_cons.2 (Or.inl (List.mem_singleton.1 hl)))

/-- The events of the outbox, as they are read. -/
private def readOf (ls : List String) : List (PendingEvent EventEnvelope) :=
  (stamp 0 (ls.map encode)).map (pendingEvent oneSite.wire.codec)

private theorem isSome_readOf {ls : List String} (h : ∀ l ∈ ls, OutboxLine oneSite.wire.codec oneSite.wire.floats l) :
    ∀ event ∈ readOf ls, event.envelope.isSome := by
  intro event hevent
  obtain ⟨line, hline, rfl⟩ := List.mem_map.1 hevent
  have hmem : line.1 ∈ ls.map encode := stamp_map_fst 0 (ls.map encode) ▸ List.mem_map_of_mem hline
  obtain ⟨l, hl, heq⟩ := List.mem_map.1 hmem
  obtain ⟨env, hvalid⟩ := (h l hl).valid
  rw [pendingEvent_valid (by rw [← heq, decode_encode]; exact hvalid)]
  rfl

private theorem toSend_readOf {ls : List String} (h : ∀ l ∈ ls, OutboxLine oneSite.wire.codec oneSite.wire.floats l) :
    toSend (readOf ls) = readOf ls ∧ unparsed (readOf ls) = [] := by
  refine ⟨List.filter_eq_self.2 (isSome_readOf h), ?_⟩
  rw [unparsed, List.filter_eq_nil_iff.2, List.map_nil]
  intro event hevent
  rw [Option.isNone_iff_eq_none]
  exact Option.isSome_iff_ne_none.1 (isSome_readOf h event hevent)

private theorem raw_readOf (ls : List String) : (readOf ls).map (·.raw) = ls := by
  have hraw : ∀ line : List UInt8 × Nat, (pendingEvent oneSite.wire.codec line).raw = decode line.1 :=
    fun line => (pendingEvent_of _ line).1
  rw [readOf, List.map_map, show (·.raw) ∘ pendingEvent oneSite.wire.codec = decode ∘ Prod.fst from funext hraw,
    ← List.map_map, stamp_map_fst, List.map_map, show decode ∘ encode = id from funext decode_encode, List.map_id]

private theorem getLast?_readOf {ls : List String} (hne : ls ≠ []) :
    ∃ last, (readOf ls).getLast? = some last ∧ last.endOffset = (outboxOf ls).length := by
  obtain ⟨before, l, rfl⟩ := (List.eq_nil_or_concat ls).resolve_left hne
  rw [List.concat_eq_append, outboxOf_eq, readOf, List.map_append, stamp_append newline, List.map_append]
  refine ⟨_, List.getLast?_concat, (pendingEvent_of _ _).2.trans ?_⟩
  rw [List.flatMap_append, List.length_append]
  simp [Nat.add_assoc]

private theorem append_created : append oneSite Sys.init [cardCreated] =
    underDrain (outboxOf createdLines) (headsOf oneSite.wire.codec createdLines) [] ⟨.idle, none, 0⟩ := by
  rw [append, List.foldl_cons, List.foldl_nil, dumpJson_created]
  exact appendLine_init (outboxLine_created _ List.mem_cons_self)

private theorem append_updated {heads : List (Nat × String)} {exchanges : List (Exchange EventEnvelope)}
    {d : Drainer EventEnvelope} : append oneSite (underDrain (outboxOf createdLines) heads exchanges d) [cardUpdated] =
      underDrain (outboxOf bothLines) (heads ++ headsOf oneSite.wire.codec bothLines) exchanges d := by
  rw [append, List.foldl_cons, List.foldl_nil, dumpJson_updated]
  exact appendLine_underDrain (outboxLine_both _ (List.mem_cons_of_mem _ List.mem_cons_self))

private def toHub (hub : Db Sql.sample) (envs : List EventEnvelope) : Db Sql.sample × BatchResponse :=
  ingestBatch oneSite.wire.pydantic none hub oneSite.auth (batchPayload (oneSite.items envs))

private def hubCreated : Db Sql.sample := (toHub Db.empty [cardCreated]).1

private def hubUpdated : Db Sql.sample := (toHub hubCreated [cardCreated, cardUpdated]).1

private theorem outgoing_created : outgoing oneSite (readOf createdLines) = some (oneSite.items [cardCreated]) :=
  outgoing_held tells_card (isSome_readOf outboxLine_created) (by simp)
    (by rw [raw_readOf, createdLines, List.map_singleton, dumpJson_created])

private theorem outgoing_both : outgoing oneSite (readOf bothLines) = some (oneSite.items [cardCreated, cardUpdated]) :=
  outgoing_held tells_card (isSome_readOf outboxLine_both) (List.Subset.refl _)
    (by rw [raw_readOf, bothLines, List.map_cons, List.map_singleton, dumpJson_created, dumpJson_updated])

private def outboxLost : Sys EventEnvelope :=
  underDrain (outboxOf createdLines) (headsOf oneSite.wire.codec createdLines) [⟨0, readOf createdLines, .failure⟩]
    ⟨.idle, some (.transportError .connection), 0⟩

/-- The card is created, and the answer to its event is lost. -/
private def answerLost : TaskSync Sql.sample :=
  ({ start [] Db.empty Table.empty with writers := cardWritten } : TaskSync Sql.sample).drained hubCreated outboxLost

private def loseAnswer : List Act :=
  createActs.map .write ++ (List.replicate 4 (.drain 0 .answered) ++ [.drain 0 .unanswered])

private theorem exec_loseAnswer : Run.exec (next oneSite) (start [] Db.empty Table.empty) loseAnswer =
    some answerLost := by
  obtain ⟨envs, henvs, hexec⟩ :=
    @exec_writes _ oneSite (start [] (Db.empty : Db Sql.sample) Table.empty) _ _ writers_create
  obtain rfl : [cardCreated] = envs := henvs
  obtain ⟨last, hlast, -⟩ := @getLast?_readOf createdLines (List.cons_ne_nil _ _)
  have hpost : post oneSite (Db.empty : Db Sql.sample) (readOf createdLines) .unanswered =
      some (hubCreated, .failure) := by
    simp only [post, outgoing_created, Option.map_some, hubCreated, toHub]
  refine Run.exec_append.2 ⟨_, hexec, ?_⟩
  have hdrain := @exec_unanswered _ oneSite ({ start [] Db.empty Table.empty with writers := cardWritten })
    (outboxOf createdLines) (headsOf oneSite.wire.codec createdLines) [] _ _ none Db.empty hubCreated
    (readPending_all outboxLine_created (by decide)) hlast (toSend_readOf outboxLine_created).1 hpost
  rw [← append_created] at hdrain
  exact hdrain

private theorem drained_of_length {bytes : List UInt8} {generation : Option String}
    (hbytes : s.outbox.outbox = some bytes) (hcursor : s.outbox.cursor = some ⟨bytes.length, generation⟩) :
    s.Drained := by
  rw [Drained, hcursor, Sys.content, hbytes]
  rfl

private def oneArgs : PollArgs := ⟨"repo_hub", 100, 1⟩

private def pollOnce : List Act := .poll 0 oneArgs :: List.replicate 9 (.step 0 "c2")

/-- The poll returned, of tasks of the repository and with a limit that the hub does not cap. -/
private def polled : PollPc StoredTask → Bool
  | .idle (some (args, .returned)) => args.source = "repo_hub" && args.limit ≤ recentLimitMax
  | _ => false

private theorem polled_eq {pc : PollPc StoredTask} (h : polled pc = true) :
    ∃ args, pc = .idle (some (args, .returned)) ∧ args.source = oneSite.repositoryId ∧ args.limit ≤ recentLimitMax := by
  unfold polled at h
  split at h
  case h_1 args =>
    rw [Bool.and_eq_true, decide_eq_true_eq, decide_eq_true_eq] at h
    exact ⟨args, rfl, h⟩
  case h_2 => cases h

/-- A poll has made a card of it. -/
private def mirrored : TaskSync Sql.sample := (Run.exec (next oneSite) answerLost pollOnce).getD answerLost

private theorem exec_mirrored : Run.exec (next oneSite) answerLost pollOnce = some mirrored := by
  have hsome : (Run.exec (next oneSite) answerLost pollOnce).isSome = true := by decide +kernel
  obtain ⟨t, ht⟩ := Option.isSome_iff_exists.1 hsome
  rw [mirrored, ht, Option.getD_some]

private theorem pollOnce_reads : ∀ a ∈ pollOnce,
    (∀ b, a ≠ .write b) ∧ (∀ i fate, a ≠ .drain i fate) ∧ ∀ i, a ≠ .crashDrain i := by
  intro a ha
  rcases List.mem_cons.1 ha with rfl | ha
  · simp
  · rw [List.eq_of_mem_replicate ha]
    simp

private theorem downlink_mirrored : mirrored.writers = cardWritten ∧ mirrored.outbox = outboxLost ∧
    mirrored.hub = hubCreated := by
  refine Run.invariant_of_meets (I := fun u : TaskSync Sql.sample =>
    u.writers = cardWritten ∧ u.outbox = outboxLost ∧ u.hub = hubCreated) ?_ ⟨rfl, rfl, rfl⟩
    (Run.meets_of_forall _ pollOnce_reads) exec_mirrored
  rintro u a u' ⟨hwriters, houtbox, hhub⟩ ⟨hwrite, hdrain, hcrash⟩ hnext
  obtain ⟨hwriters', houtbox', hhub'⟩ := next_downlink hnext hwrite hdrain hcrash
  exact ⟨hwriters'.trans hwriters, houtbox'.trans houtbox, hhub'.trans hhub⟩

private def outboxEdited : Sys EventEnvelope :=
  underDrain (outboxOf bothLines)
    (headsOf oneSite.wire.codec createdLines ++ headsOf oneSite.wire.codec bothLines)
    [⟨0, readOf createdLines, .failure⟩] ⟨.idle, some (.transportError .connection), 0⟩

private theorem exec_edit : Run.exec (next oneSite) mirrored (retitleActs.map .write) =
    some (({ mirrored with writers := cardRetitled } : TaskSync Sql.sample).drained hubCreated outboxEdited) := by
  obtain ⟨hwriters, houtbox, hhub⟩ := downlink_mirrored
  obtain ⟨envs, henvs, hexec⟩ := @exec_writes _ oneSite mirrored _ _ (hwriters ▸ writers_retitle)
  rw [hwriters] at henvs
  obtain rfl : [cardUpdated] = envs := (List.cons.inj henvs).2
  rw [hexec, houtbox, outboxLost, append_updated, ← hhub]
  rfl

private def answerUpdated : BatchResponse := (toHub hubCreated [cardCreated, cardUpdated]).2

/-- The card is edited, and both events are sent and answered. -/
private def cardDrained : TaskSync Sql.sample :=
  ({ mirrored with writers := cardRetitled } : TaskSync Sql.sample).drained hubUpdated
    { underDrain (outboxOf bothLines)
        (headsOf oneSite.wire.codec createdLines ++ headsOf oneSite.wire.codec bothLines)
        ([⟨0, readOf createdLines, .failure⟩] ++ [⟨0, readOf bothLines, answerUpdated.reply⟩])
        ⟨.idle, some .progress, 0⟩ with
      cursor := some ⟨(outboxOf bothLines).length,
        outboxGeneration oneSite.wire.codec (some (outboxOf bothLines))⟩ }

private theorem exec_drainBoth : Run.exec (next oneSite)
    (({ mirrored with writers := cardRetitled } : TaskSync Sql.sample).drained hubCreated outboxEdited)
      (List.replicate 4 (.drain 0 .answered) ++ List.replicate 4 (.drain 0 .answered)) = some cardDrained := by
  obtain ⟨last, hlast, hend⟩ := @getLast?_readOf bothLines (List.cons_ne_nil _ _)
  obtain ⟨hsend, hparsed⟩ := toSend_readOf outboxLine_both
  have hpost : post oneSite hubCreated (readOf bothLines) .answered = some (hubUpdated, answerUpdated.reply) := by
    simp only [post, outgoing_both, Option.map_some, hubUpdated, answerUpdated, toHub]
  -- the hub knows the first event from the request whose answer was lost
  have hreply : resolve (readOf bothLines) answerUpdated.reply = .ok [] := by
    rw [show answerUpdated = .results [⟨0, some "evt_1", "duplicate", none⟩, ⟨1, some "evt_2", "accepted", none⟩] by
      decide +kernel]
    rfl
  have hdrain := @exec_answered _ oneSite ({ mirrored with writers := cardRetitled } : TaskSync Sql.sample)
    (outboxOf bothLines) (headsOf oneSite.wire.codec createdLines ++ headsOf oneSite.wire.codec bothLines)
    [⟨0, readOf createdLines, .failure⟩] _ last (some (.transportError .connection)) hubCreated hubUpdated _
    (readPending_all outboxLine_both (by decide)) hlast hsend hparsed hpost hreply
  rw [hend] at hdrain
  exact hdrain

private def editAndDrain : List Act :=
  retitleActs.map .write ++ (List.replicate 4 (.drain 0 .answered) ++ List.replicate 4 (.drain 0 .answered))

private theorem exec_editAndDrain : Run.exec (next oneSite) mirrored editAndDrain = some cardDrained :=
  Run.exec_append.2 ⟨_, exec_edit, exec_drainBoth⟩

private theorem exec_beforePoll : Run.exec (next oneSite) (start [] Db.empty Table.empty) (loseAnswer ++ pollOnce) =
    some mirrored :=
  Run.exec_append.2 ⟨_, exec_loseAnswer, exec_mirrored⟩

private def versions (s : TaskSync Sql.sample) : List (String × Option Int) :=
  s.cards.cards.rows.map fun row => (row.title, row.syncVersion)

/-- Another poll takes the edit over. -/
private theorem exec_pollAgain : ∃ t args, Run.exec (next oneSite) cardDrained pollOnce = some t ∧
    versions t = [("Ship it", some 2)] ∧ t.pollers 0 = .idle (some (args, .returned)) ∧
      args.source = oneSite.repositoryId ∧ args.limit ≤ recentLimitMax ∧ t.Carried oneSite ∧ t.Distinguished := by
  obtain ⟨t, ht, hpolled⟩ := (Option.any_eq_true _ _).1
    (by decide +kernel : (Run.exec (next oneSite) cardDrained pollOnce).any (fun t =>
      polled (t.pollers 0) && decide (versions t = [("Ship it", some 2)])) = true)
  rw [Bool.and_eq_true, decide_eq_true_eq] at hpolled
  obtain ⟨args, hpoller, hsource, hlimit⟩ := polled_eq hpolled.1
  have hwriters : t.writers = cardRetitled :=
    Run.invariant_of_meets (I := fun u : TaskSync Sql.sample => u.writers = cardRetitled)
      (fun u a u' h ha hnext => (next_writers hnext ha.1).trans h) rfl (Run.meets_of_forall _ pollOnce_reads) ht
  refine ⟨t, args, ht, hpolled.2, hpoller, hsource, hlimit, fun env henv => ?_,
    fun row hrow row' hrow' g hg g' hg' _ => ?_⟩
  · rw [hwriters] at henv
    obtain ⟨card, -, htells⟩ := tells_card env henv
    exact htells.carries
  · -- there is one global id
    have hids : ∀ card ∈ cardRetitled.history, card.globalId = some "task_1" := by decide
    rw [hwriters] at hrow hrow'
    exact Option.some.inj ((hg.symm.trans (hids row hrow)).trans ((hids row' hrow').symm.trans hg'))

private theorem no_cards : ∀ card ∈ (Table.empty : Cards).rows, ∀ g ∈ card.globalId, g ∈ ([] : List String) := by
  intro card hcard
  cases hcard

/-- The card of the second machine goes on from one version to the next. -/
theorem one_card_reproduced : ∃ t, Run.exec (next oneSite) mirrored (editAndDrain ++ pollOnce) = some t ∧
    versions mirrored = [("Ship", some 1)] ∧ versions t = [("Ship it", some 2)] ∧
      Reproduces [] t.writers.history t.cards.cards ∧ CardsAdvance mirrored.cards.cards t.cards.cards := by
  obtain ⟨t, args, ht, hversions, -, -, -, hcarried, hdistinct⟩ := exec_pollAgain
  have hrun : Run.exec (next oneSite) mirrored (editAndDrain ++ pollOnce) = some t :=
    Run.exec_append.2 ⟨_, exec_editAndDrain, ht⟩
  have honly : ∀ a ∈ (loseAnswer ++ pollOnce) ++ (editAndDrain ++ pollOnce), a.OnlyPoller 0 := by decide
  exact ⟨t, hrun, by decide +kernel, hversions,
    reproduced_of_onePoller rfl rfl no_cards honly exec_beforePoll hrun hcarried hdistinct⟩

/-- The machines agree on it. -/
theorem one_card_converges : ∃ t, Run.exec (next oneSite) cardDrained pollOnce = some t ∧ t.Converged := by
  obtain ⟨t, args, ht, -, hpoller, hsource, hlimit, hcarried, hdistinct⟩ := exec_pollAgain
  have hrun : Run.exec (next oneSite) (start [] Db.empty Table.empty) ((loseAnswer ++ pollOnce) ++ editAndDrain) =
      some cardDrained := Run.exec_append.2 ⟨_, exec_beforePoll, exec_editAndDrain⟩
  have honly : ∀ a ∈ ((loseAnswer ++ pollOnce) ++ editAndDrain) ++ pollOnce, a.OnlyPoller 0 := by decide
  have hidle : cardDrained.writers.Idle := by
    intro j
    change cardRetitled.calls j = .idle
    by_cases hj : j = 0 <;> simp [cardRetitled, cardWritten, hj]
  have hlost : cardDrained.writers.NoneLost := fun _ _ => List.not_mem_nil
  exact ⟨t, ht, converged_of_onePoller rfl rfl no_cards honly hrun (drained_of_length rfl rfl) hidle hlost ht
    (fun a ha => (pollOnce_reads a (List.mem_cons_of_mem _ ha)).1) hcarried hdistinct hpoller hsource hlimit⟩

end TaskSync

end AgentOS
