import AgentOS.Sync.Uplink

/-!
# From the tasks of the hub to the cards of the second machine

Any number of pollers pull pages of tasks and apply them, statement by statement.  While no write takes back what a card
says (`ApplyPc.InOrder`), every card of the second machine copies a row of the first (`Reproduces`) and only gets newer,
and no cursor runs ahead of what has been applied (`Downlink`).  A poll that begins once the tasks are settled, and ends
on a page that is empty or not full, leaves a card for each of them (`Awaits`).
-/

namespace AgentOS

open SqlStore

/-- The write that a process makes next takes nothing back: it inserts a card where its global id has none, or updates
cards that are no newer. -/
def ApplyPc.InOrder (cards : Cards) : ApplyPc → Prop
  | .write globalId _ none => selectByGlobalId cards globalId = none
  | .write globalId task (some _) =>
    ∀ card ∈ cards.rows, card.globalId = some globalId → card.version ≤ task.version.getD 0
  | _ => True

instance (cards : Cards) : (pc : ApplyPc) → Decidable (pc.InOrder cards)
  | .write globalId _ none => inferInstanceAs (Decidable (selectByGlobalId cards globalId = none))
  | .write globalId task (some _) => inferInstanceAs (Decidable (∀ card ∈ cards.rows,
      card.globalId = some globalId → card.version ≤ task.version.getD 0))
  | .idle => .isTrue trivial
  | .select _ _ => .isTrue trivial
  | .commit _ _ _ _ => .isTrue trivial
  | .getCard _ => .isTrue trivial
  | .returned _ => .isTrue trivial

/-- A card is a row of the first machine, but for its id. -/
structure CardRow.Copies (card row : CardRow) : Prop where
  title : card.title = row.title
  description : card.description = row.description
  status : card.status = row.status
  priority : card.priority = row.priority
  globalId : card.globalId = row.globalId
  syncVersion : card.syncVersion = row.syncVersion

/-- There is a card of this global id, and it is at least this new. -/
def HasVersion (cards : Cards) (globalId : String) (version : Int) : Prop :=
  ∃ card ∈ cards.rows, card.globalId = some globalId ∧ version ≤ card.version

/-- The cards of the second machine against the rows of the first; `elsewhere` are the global ids that were there
before. -/
structure Reproduces (elsewhere : List String) (history : List CardRow) (cards : Cards) : Prop where
  copies : ∀ card ∈ cards.rows, ∀ g ∈ card.globalId, g ∈ elsewhere ∨ ∃ row ∈ history, card.Copies row
  unique : ∀ card ∈ cards.rows, ∀ card' ∈ cards.rows, ∀ g ∈ card.globalId, g ∉ elsewhere → card'.globalId = some g →
    card = card'

/-- No card is taken back. -/
def CardsAdvance (cards cards' : Cards) : Prop := ∀ g version, HasVersion cards g version → HasVersion cards' g version

/-! ### The writes -/

section

variable {elsewhere : List String} {history history' : List CardRow} {cards cards' : Cards} {task : StoredTask}
  {row : CardRow} {g : String}

theorem CardRow.Copies.version {card : CardRow} (h : card.Copies row) : card.version = row.version :=
  congrArg (Option.getD · 0) h.syncVersion

theorem StoredTask.Shows.version_eq (h : task.Shows row) : row.version = task.version := by
  rw [CardRow.version, h.version]
  rfl

theorem CardsAdvance.refl (cards : Cards) : CardsAdvance cards cards := fun _ _ h => h

theorem HasVersion.mono {version version' : Int} (h : HasVersion cards g version) (hle : version' ≤ version) :
    HasVersion cards g version' := by
  obtain ⟨card, hcard, hg, hver⟩ := h
  exact ⟨card, hcard, hg, Int.le_trans hle hver⟩

theorem Reproduces.mono (h : Reproduces elsewhere history cards) (hsub : history ⊆ history') :
    Reproduces elsewhere history' cards where
  copies card hcard g hg := by
    rcases h.copies card hcard g hg with hold | ⟨row, hrow, hcopies⟩
    · exact Or.inl hold
    · exact Or.inr ⟨row, hsub hrow, hcopies⟩
  unique := h.unique

/-- The UPDATE with a task that shows a row which is no older than the card's: the card then copies that row. -/
theorem copies_update (hshows : task.Shows row) {card old : CardRow} (hcopies : card.Copies old)
    (hold : old.LeadsTo row) (hg : card.globalId = some task.globalId) (hle : old.version ≤ row.version) :
    (task.projection.update card).Copies row where
  title := by
    change task.title.getD card.title = row.title
    rw [hshows.title]
    rfl
  description := by
    change task.description.or card.description = row.description
    rw [hshows.description, hcopies.description]
    cases hrow : row.description with
    | none => rw [(hold.keeps hle).1 hrow, Option.none_or]
    | some description => rfl
  status := hshows.status
  priority := by
    change task.priority.or card.priority = row.priority
    rw [hshows.priority, hcopies.priority]
    cases hrow : row.priority with
    | none => rw [(hold.keeps hle).2 hrow, Option.none_or]
    | some priority => rfl
  globalId := hg.trans hshows.globalId.symm
  syncVersion := hshows.version.symm

/-- The row of a new card copies what the task shows. -/
theorem copies_newCard (hshows : task.Shows row) (cardId : String) :
    (task.projection.newCard task.globalId cardId).Copies row where
  title := by
    change task.title.getD "" = row.title
    rw [hshows.title]
    rfl
  description := hshows.description
  status := hshows.status
  priority := hshows.priority
  globalId := hshows.globalId.symm
  syncVersion := hshows.version.symm

theorem mem_updateProjected {x : CardRow} {projection : TaskProjection} :
    x ∈ (updateProjected projection g cards).rows ↔
      (x ∈ cards.rows ∧ x.globalId ≠ some g) ∨ ∃ card ∈ cards.rows, card.globalId = some g ∧
        x = projection.update card := by
  unfold updateProjected Table.update
  dsimp only
  rw [List.mem_map]
  constructor
  · rintro ⟨card, hcard, rfl⟩
    by_cases hg : card.globalId = some g
    · exact Or.inr ⟨card, hcard, hg, if_pos (decide_eq_true hg)⟩
    · rw [if_neg (by simpa using hg)]
      exact Or.inl ⟨hcard, hg⟩
  · rintro (⟨hx, hg⟩ | ⟨card, hcard, hg, rfl⟩)
    · exact ⟨x, hx, if_neg (by simpa using hg)⟩
    · exact ⟨card, hcard, if_pos (decide_eq_true hg)⟩

/-- What a write makes of the cards: it keeps the reproduction, takes no card back and leaves a card of the task. -/
structure Transacted (elsewhere : List String) (history : List CardRow) (cards pending : Cards) (task : StoredTask) :
    Prop where
  reproduces : Reproduces elsewhere history pending
  advances : CardsAdvance cards pending
  applied : HasVersion pending task.globalId task.version

variable {m1 : Cards} {globalIds : List String}

/-- The UPDATE, where no card of the task is newer. -/
theorem transacted_update (h : Reproduces elsewhere history cards)
    (hchronicle : Chronicle elsewhere m1 history globalIds) (hrow : row ∈ history) (hshows : task.Shows row)
    (hsome : ∃ card ∈ cards.rows, card.globalId = some task.globalId)
    (horder : ∀ card ∈ cards.rows, card.globalId = some task.globalId → card.version ≤ task.version) :
    Transacted elsewhere history cards (updateProjected task.projection task.globalId cards) task where
  reproduces := by
    have hnew : task.globalId ∉ elsewhere := (hchronicle.minted row hrow _ hshows.globalId).new
    refine ⟨fun x hx g hg => ?_, fun x hx y hy g hg hout hyg => ?_⟩
    · rcases mem_updateProjected.1 hx with ⟨hx, -⟩ | ⟨card, hcard, hcardg, rfl⟩
      · exact h.copies x hx g hg
      · obtain ⟨old, hold, hcopies⟩ := (h.copies card hcard _ hcardg).resolve_left hnew
        have hle : old.version ≤ row.version := by
          rw [← hcopies.version, hshows.version_eq]
          exact horder card hcard hcardg
        have hleads : old.LeadsTo row := by
          refine hchronicle.ordered old hold row hrow ?_ ?_
          · rw [← hcopies.globalId, hcardg]
            simp
          · rw [← hcopies.globalId, hcardg, hshows.globalId]
        exact Or.inr ⟨row, hrow, copies_update hshows hcopies hleads hcardg hle⟩
    · -- the UPDATE leaves the global ids of the cards as they are
      have hback : ∀ z ∈ (updateProjected task.projection task.globalId cards).rows,
          ∃ card ∈ cards.rows, card.globalId = z.globalId ∧
            z = if card.globalId = some task.globalId then task.projection.update card else card := by
        intro z hz
        rcases mem_updateProjected.1 hz with ⟨hz, hzg⟩ | ⟨card, hcard, hcardg, rfl⟩
        · exact ⟨z, hz, rfl, by rw [if_neg hzg]⟩
        · exact ⟨card, hcard, rfl, by rw [if_pos hcardg]⟩
      obtain ⟨card, hcard, hcardg, rfl⟩ := hback x hx
      obtain ⟨card', hcard', hcardg', rfl⟩ := hback y hy
      obtain rfl := h.unique card hcard card' hcard' g (hcardg.trans hg) hout (hcardg'.trans hyg)
      rfl
  advances := by
    rintro g version ⟨card, hcard, hg, hver⟩
    by_cases hcardg : card.globalId = some task.globalId
    · refine ⟨task.projection.update card, mem_updateProjected.2 (Or.inr ⟨card, hcard, hcardg, rfl⟩), hg, ?_⟩
      exact Int.le_trans hver (horder card hcard hcardg)
    · exact ⟨card, mem_updateProjected.2 (Or.inl ⟨hcard, hcardg⟩), hg, hver⟩
  applied := by
    obtain ⟨card, hcard, hcardg⟩ := hsome
    exact ⟨task.projection.update card, mem_updateProjected.2 (Or.inr ⟨card, hcard, hcardg, rfl⟩), hcardg,
      Int.le_refl _⟩

/-- The INSERT, where the task has no card. -/
theorem transacted_insert (h : Reproduces elsewhere history cards) (hrow : row ∈ history) (hshows : task.Shows row)
    (hnone : selectByGlobalId cards task.globalId = none) {cardId : String} {pending : Cards}
    (hinsert : cards.insert (task.projection.newCard task.globalId cardId) = some pending) :
    Transacted elsewhere history cards pending task := by
  have hrows := Table.insert_rows hinsert
  have hfree : ∀ card ∈ cards.rows, card.globalId ≠ some task.globalId := by
    intro card hcard hg
    exact selectByGlobalId_eq_none.1 hnone (List.mem_filterMap.2 ⟨card, hcard, hg⟩)
  refine ⟨⟨fun x hx g hg => ?_, fun x hx y hy g hg hout hyg => ?_⟩, fun g version hold => ?_, ?_⟩
  · rw [hrows] at hx
    rcases List.mem_append.1 hx with hx | hx
    · exact h.copies x hx g hg
    · rw [List.mem_singleton.1 hx]
      exact Or.inr ⟨row, hrow, copies_newCard hshows cardId⟩
  · rw [hrows] at hx hy
    rcases List.mem_append.1 hx with hx | hx
    · rcases List.mem_append.1 hy with hy | hy
      · exact h.unique x hx y hy g hg hout hyg
      · rw [List.mem_singleton.1 hy] at hyg
        exact absurd (Option.mem_def.1 hg ▸ hyg.symm) (hfree x hx)
    · rcases List.mem_append.1 hy with hy | hy
      · rw [List.mem_singleton.1 hx] at hg
        exact absurd (hyg.trans (Option.mem_def.1 hg).symm) (hfree y hy)
      · exact (List.mem_singleton.1 hx).trans (List.mem_singleton.1 hy).symm
  · obtain ⟨card, hcard, hg, hver⟩ := hold
    exact ⟨card, hrows ▸ List.mem_append_left _ hcard, hg, hver⟩
  · exact ⟨task.projection.newCard task.globalId cardId, hrows ▸ List.mem_append_right _ List.mem_cons_self, rfl,
      Int.le_refl _⟩

end

/-! ### A call of `apply_task_projection` -/

/-- Where a call with the task of a page is. -/
def CallInv (elsewhere : List String) (history : List CardRow) (cards : Cards) (task : StoredTask) : ApplyPc → Prop
  | .idle => True
  | .select g projection => g = task.globalId ∧ projection = task.projection
  | .write g projection existing => g = task.globalId ∧ projection = task.projection ∧
      (existing.isSome → ∃ card ∈ cards.rows, card.globalId = some g)
  | .commit _ _ pending _ => Transacted elsewhere history cards pending task
  | .getCard _ => HasVersion cards task.globalId task.version
  | .returned (some _) => HasVersion cards task.globalId task.version
  | .returned none => True

/-- What a step of process `i` does to the cards. -/
structure CardStep (elsewhere : List String) (history : List CardRow) (s s' : CardDb) (i : Nat) : Prop where
  reproduces : Reproduces elsewhere history s'.cards
  advances : CardsAdvance s.cards s'.cards
  others : ∀ j, j ≠ i → s'.calls j = s.calls j
  quiet : s'.cards = s.cards ∨ s.lock = some i

section

variable {elsewhere : List String} {history history' : List CardRow} {s s' : CardDb} {i : Nat} {task : StoredTask}
  {row : CardRow}

theorem CallInv.mono {cards cards' : Cards} {pc : ApplyPc} (h : CallInv elsewhere history cards task pc)
    (hsub : history ⊆ history') (hadvances : CardsAdvance cards cards')
    (hcommit : ∀ g existing pending cardId, pc = .commit g existing pending cardId → cards' = cards)
    (hsome : ∀ g, (∃ card ∈ cards.rows, card.globalId = some g) → ∃ card ∈ cards'.rows, card.globalId = some g) :
    CallInv elsewhere history' cards' task pc := by
  cases pc with
  | idle => trivial
  | select g projection => exact h
  | write g projection existing => exact ⟨h.1, h.2.1, fun hexisting => hsome g (h.2.2 hexisting)⟩
  | commit g existing pending cardId =>
    rw [hcommit g existing pending cardId rfl]
    exact ⟨h.reproduces.mono hsub, h.advances, h.applied⟩
  | getCard cardId => exact hadvances _ _ h
  | returned card =>
    cases card with
    | none => trivial
    | some card => exact hadvances _ _ h

/-- A card of a global id stays. -/
theorem CardsAdvance.exists_card {cards cards' : Cards} (h : CardsAdvance cards cards') (g : String)
    (hsome : ∃ card ∈ cards.rows, card.globalId = some g) : ∃ card ∈ cards'.rows, card.globalId = some g := by
  obtain ⟨card, hcard, hg⟩ := hsome
  obtain ⟨card', hcard', hg', -⟩ := h g card.version ⟨card, hcard, hg, Int.le_refl _⟩
  exact ⟨card', hcard', hg'⟩

/-- The process goes on without touching the cards. -/
private theorem cardStep_goto (hreproduces : Reproduces elsewhere history s.cards) (pc : ApplyPc) (lock : Option Nat) :
    CardStep elsewhere history s ({ s with lock := lock }.goto i pc) i where
  reproduces := hreproduces
  advances := CardsAdvance.refl _
  others _ hj := Function.update_of_ne hj _ _
  quiet := Or.inl rfl

theorem goto_call (s : CardDb) (i : Nat) (pc : ApplyPc) : (s.goto i pc).calls i = pc := Function.update_self _ _ _

theorem CardDb.Transacting.goto_idle (h : s.Transacting) (i : Nat) : (s.goto i .idle).Transacting := by
  intro j g existing pending cardId hj
  by_cases hji : j = i
  · rw [hji, goto_call] at hj
    cases hj
  · have hcalls : (s.goto i .idle).calls j = s.calls j := Function.update_of_ne hji _ _
    rw [hcalls] at hj
    exact h j g existing pending cardId hj

/-- A call begins with the task of a page. -/
theorem cardStep_call (hreproduces : Reproduces elsewhere history s.cards) (hidle : s.calls i = .idle)
    (hnext : s.next (.call i task.projection) = some s') :
    CardStep elsewhere history s s' i ∧ CallInv elsewhere history s'.cards task (s'.calls i) := by
  simp only [CardDb.next, hidle] at hnext
  obtain rfl := Option.some.inj hnext
  unfold CardDb.beginCall
  cases hg : task.projection.globalId? with
  | none =>
    refine ⟨cardStep_goto hreproduces _ s.lock, ?_⟩
    dsimp only
    rw [goto_call]
    trivial
  | some g =>
    refine ⟨cardStep_goto hreproduces _ s.lock, ?_⟩
    dsimp only
    rw [goto_call]
    have hfilter : (some task.globalId).filter (· ≠ "") = some g := hg
    exact ⟨(Option.some.inj (Option.filter_eq_some_iff.1 hfilter).1).symm, rfl⟩

/-- A process runs its next statement. -/
theorem cardStep_step {m1 : Cards} {globalIds : List String} (hreproduces : Reproduces elsewhere history s.cards)
    (hchronicle : Chronicle elsewhere m1 history globalIds) (hlocks : s.Transacting)
    (hrow : row ∈ history) (hshows : task.Shows row) (hcall : CallInv elsewhere history s.cards task (s.calls i))
    (horder : (s.calls i).InOrder s.cards) {newCardId : String} (hnext : s.next (.step i newCardId) = some s') :
    CardStep elsewhere history s s' i ∧ CallInv elsewhere history s'.cards task (s'.calls i) := by
  simp only [CardDb.next] at hnext
  cases hpc : s.calls i with
  | idle =>
    rw [hpc] at hnext
    cases hnext
  | returned card =>
    rw [hpc] at hnext
    cases hnext
  | select g projection =>
    rw [hpc] at hnext hcall
    obtain ⟨rfl, rfl⟩ := hcall
    obtain rfl := Option.some.inj hnext
    refine ⟨cardStep_goto hreproduces _ s.lock, ?_⟩
    rw [goto_call]
    refine ⟨rfl, rfl, fun hexisting => ?_⟩
    obtain ⟨cardId, hfound⟩ := Option.isSome_iff_exists.1 hexisting
    by_contra hnone
    have hnot : selectByGlobalId s.cards task.globalId = none := by
      rw [selectByGlobalId_eq_none]
      intro hmem
      obtain ⟨card, hcard, hg⟩ := List.mem_filterMap.1 hmem
      exact hnone ⟨card, hcard, hg⟩
    rw [hnot] at hfound
    cases hfound
  | write g projection existing =>
    rw [hpc] at hnext hcall horder
    obtain ⟨rfl, rfl, hexisting⟩ := hcall
    dsimp only at hnext
    split at hnext
    · cases hnext
    · cases existing with
      | some cardId =>
        obtain rfl := Option.some.inj hnext
        refine ⟨cardStep_goto hreproduces _ (some i), ?_⟩
        rw [goto_call]
        exact transacted_update hreproduces hchronicle hrow hshows (hexisting rfl) horder
      | none =>
        dsimp only at hnext
        split at hnext
        case h_1 pending hinsert =>
          obtain rfl := Option.some.inj hnext
          refine ⟨cardStep_goto hreproduces _ (some i), ?_⟩
          rw [goto_call]
          exact transacted_insert hreproduces hrow hshows horder hinsert
        case h_2 =>
          obtain rfl := Option.some.inj hnext
          refine ⟨cardStep_goto hreproduces _ s.lock, ?_⟩
          rw [goto_call]
          trivial
  | commit g existing pending cardId =>
    have hheld := (hlocks i g existing pending cardId hpc).1
    rw [hpc] at hnext hcall
    obtain rfl := Option.some.inj hnext
    refine ⟨⟨hcall.reproduces, hcall.advances, fun j hj => Function.update_of_ne hj _ _, Or.inr hheld⟩, ?_⟩
    rw [goto_call]
    exact hcall.applied
  | getCard cardId =>
    rw [hpc] at hnext hcall
    obtain rfl := Option.some.inj hnext
    refine ⟨cardStep_goto hreproduces _ s.lock, ?_⟩
    rw [goto_call]
    cases s.cards.lookup cardId with
    | none => trivial
    | some card => exact hcall

/-- A call fails. -/
theorem cardStep_fail (hreproduces : Reproduces elsewhere history s.cards) (hnext : s.next (.fail i) = some s') :
    CardStep elsewhere history s s' i ∧ CallInv elsewhere history s'.cards task (s'.calls i) ∧ s.calls i ≠ .idle := by
  simp only [CardDb.next] at hnext
  split at hnext
  · cases hnext
  · cases hnext
  case h_3 hpc _ =>
    obtain rfl := Option.some.inj hnext
    refine ⟨cardStep_goto hreproduces _ _, ?_, hpc⟩
    rw [goto_call]
    trivial

end

/-! ### The pollers -/

namespace TaskSync

variable {sql : Sql}

/-- No write takes back what a card says. -/
def InOrder (s : TaskSync sql) : Act → Prop
  | .step i _ => (s.cards.calls i).InOrder s.cards.cards
  | _ => True

instance (s : TaskSync sql) : (a : Act) → Decidable (s.InOrder a)
  | .step i _ => inferInstanceAs (Decidable ((s.cards.calls i).InOrder s.cards.cards))
  | .write _ => .isTrue trivial
  | .drain _ _ => .isTrue trivial
  | .crashDrain _ => .isTrue trivial
  | .poll _ _ => .isTrue trivial
  | .fail _ => .isTrue trivial
  | .crash _ => .isTrue trivial

/-- The task belongs to the source that a poll is about. -/
def OfSource (sql : Sql) (source : String) (task : StoredTask) : Prop :=
  Inbox.ofSource (SqlStore.hub sql) source task = true

/-- Every task of the source up to this place has a card that is no older. -/
structure Reached (s : TaskSync sql) (source : String) (place : Int) : Prop where
  le : place ≤ s.hub.dbts
  applied : ∀ task ∈ s.hub.tasks.rows, OfSource sql source task → task.changeSeq ≤ place →
    HasVersion s.cards.cards task.globalId task.version

/-- A page that was fetched from this place on: what lies between the place and its last row is in it, but for tasks
that were written since. -/
structure Fetched (s : TaskSync sql) (source : String) (since : Option Int) (page : List StoredTask) : Prop where
  start : ∀ c, since = some c → s.Reached source c
  shows : ∀ task ∈ page, ∃ row ∈ s.writers.history, task.Shows row
  beyond : ∀ task ∈ page, ∀ c, since = some c → c < task.changeSeq
  le : ∀ task ∈ page, task.changeSeq ≤ s.hub.dbts
  covers : ∀ last, page.getLast? = some last → ∀ task ∈ s.hub.tasks.rows, OfSource sql source task →
    (∀ c, since = some c → c < task.changeSeq) → task.changeSeq ≤ last.changeSeq → task ∈ page

/-- Where a poller is. -/
def PollerInv (elsewhere : List String) (s : TaskSync sql) (call : ApplyPc) : PollPc StoredTask → Prop
  | .idle _ => call = .idle
  | .fetch args since _ => call = .idle ∧ ∀ c, since = some c → s.Reached args.source c
  | .apply args since _ page [] => call = .idle ∧ s.Fetched args.source since page ∧
      ∀ task ∈ page, HasVersion s.cards.cards task.globalId task.version
  | .apply args since _ page (task :: todo) => CallInv elsewhere s.writers.history s.cards.cards task call ∧
      s.Fetched args.source since page ∧ task :: todo ⊆ page ∧
        ∀ x ∈ page, x ∈ task :: todo ∨ HasVersion s.cards.cards x.globalId x.version
  | .write args since _ page nextSince => call = .idle ∧ s.Reached args.source nextSince ∧
      (∀ c, since = some c → c < nextSince) ∧ ∀ task ∈ page, HasVersion s.cards.cards task.globalId task.version

/-- The cards and the cursors of the second machine, and its pollers. -/
structure Downlink (elsewhere : List String) (s : TaskSync sql) : Prop where
  reproduces : Reproduces elsewhere s.writers.history s.cards.cards
  locks : s.cards.Transacting
  cursors : ∀ source c, s.cursors source = some c → s.Reached source c
  pollers : ∀ i, PollerInv elsewhere s (s.cards.calls i) (s.pollers i)

/-- `s'` is a later state. -/
structure Grows (s s' : TaskSync sql) : Prop where
  history : s.writers.history ⊆ s'.writers.history
  hub : s.hub.Later s'.hub.toRegistry
  cards : CardsAdvance s.cards.cards s'.cards.cards

section

variable {elsewhere : List String} {s s' : TaskSync sql} {source : String}

theorem Reached.mono {place : Int} (h : s.Reached source place) (hgrows : Grows s s') : s'.Reached source place where
  le := by
    have := h.le
    have := hgrows.hub.dbts
    omega
  applied task htask hsource hle := by
    rcases hgrows.hub.tasks task htask with hold | hnew
    · exact hgrows.cards _ _ (h.applied task hold hsource hle)
    · have := h.le
      omega

theorem Fetched.mono {since : Option Int} {page : List StoredTask} (h : s.Fetched source since page)
    (hgrows : Grows s s') : s'.Fetched source since page where
  start c hc := (h.start c hc).mono hgrows
  shows task htask := by
    obtain ⟨row, hrow, hshows⟩ := h.shows task htask
    exact ⟨row, hgrows.history hrow, hshows⟩
  beyond := h.beyond
  le task htask := Nat.le_trans (h.le task htask) hgrows.hub.dbts
  covers last hlast task htask hsource hbeyond hle := by
    rcases hgrows.hub.tasks task htask with hold | hnew
    · exact h.covers last hlast task hold hsource hbeyond hle
    · have := h.le last (List.mem_of_getLast? hlast)
      omega

/-- A page that has been applied leads up to its last row. -/
theorem Fetched.reached {since : Option Int} {page : List StoredTask} (h : s.Fetched source since page)
    (happlied : ∀ task ∈ page, HasVersion s.cards.cards task.globalId task.version) {last : StoredTask}
    (hlast : page.getLast? = some last) : s.Reached source last.changeSeq where
  le := by
    have := h.le last (List.mem_of_getLast? hlast)
    omega
  applied task htask hsource hle := by
    by_cases hbeyond : ∀ c, since = some c → c < task.changeSeq
    · exact happlied task (h.covers last hlast task htask hsource hbeyond (by omega))
    · push Not at hbeyond
      obtain ⟨c, hc, hbefore⟩ := hbeyond
      exact (h.start c hc).applied task htask hsource hbefore

/-- What a step does not touch, it keeps. -/
theorem PollerInv.mono {call : ApplyPc} {pc : PollPc StoredTask} (h : PollerInv elsewhere s call pc)
    (hgrows : Grows s s') (hcommit : ∀ g existing pending cardId, call = .commit g existing pending cardId →
      s'.cards.cards = s.cards.cards) : PollerInv elsewhere s' call pc := by
  cases pc with
  | idle last => exact h
  | fetch args since left => exact ⟨h.1, fun c hc => (h.2 c hc).mono hgrows⟩
  | apply args since left page todo =>
    cases todo with
    | nil => exact ⟨h.1, h.2.1.mono hgrows, fun task htask => hgrows.cards _ _ (h.2.2 task htask)⟩
    | cons task todo =>
      obtain ⟨hcall, hfetched, htodo, happlied⟩ := h
      refine ⟨hcall.mono hgrows.history hgrows.cards hcommit hgrows.cards.exists_card, hfetched.mono hgrows, htodo,
        fun x hx => ?_⟩
      exact (happlied x hx).imp_right (hgrows.cards _ _)
  | write args since left page nextSince =>
    exact ⟨h.1, h.2.1.mono hgrows, h.2.2.1, fun task htask => hgrows.cards _ _ (h.2.2.2 task htask)⟩

/-- A step of poller `i`. -/
theorem Downlink.of_step (h : Downlink elsewhere s) (i : Nat) (hgrows : Grows s s')
    (hreproduces : Reproduces elsewhere s'.writers.history s'.cards.cards) (hlocks : s'.cards.Transacting)
    (hcursors : ∀ source c, s'.cursors source = some c → s.cursors source = some c ∨ s'.Reached source c)
    (hothers : ∀ j, j ≠ i → s'.cards.calls j = s.cards.calls j ∧ s'.pollers j = s.pollers j)
    (hquiet : s'.cards.cards = s.cards.cards ∨ s.cards.lock = some i)
    (hpoller : PollerInv elsewhere s' (s'.cards.calls i) (s'.pollers i)) : Downlink elsewhere s' where
  reproduces := hreproduces
  locks := hlocks
  cursors source c hc := by
    rcases hcursors source c hc with hold | hnew
    · exact (h.cursors source c hold).mono hgrows
    · exact hnew
  pollers j := by
    by_cases hj : j = i
    · rw [hj]
      exact hpoller
    · obtain ⟨hcalls, hpollers⟩ := hothers j hj
      rw [hcalls, hpollers]
      refine (h.pollers j).mono hgrows fun g existing pending cardId hpc => hquiet.resolve_right fun hlock => hj ?_
      -- a process that is about to commit holds the lock
      have hheld := (h.locks j g existing pending cardId hpc).1
      exact Option.some.inj (hheld.symm.trans hlock)

theorem Grows.refl (s : TaskSync sql) : Grows s s := ⟨List.Subset.refl _, Registry.Later.refl _, CardsAdvance.refl _⟩

/-- A poller goes on. -/
theorem Downlink.goto (h : Downlink elsewhere s) {i : Nat} {pc : PollPc StoredTask}
    (hpc : PollerInv elsewhere s (s.cards.calls i) pc) : Downlink elsewhere (s.goto i pc) := by
  have hgrows : Grows s (s.goto i pc) := ⟨List.Subset.refl _, Registry.Later.refl _, CardsAdvance.refl _⟩
  refine h.of_step i hgrows h.reproduces h.locks (fun source c hc => Or.inl hc)
    (fun j hj => ⟨rfl, Function.update_of_ne hj _ _⟩) (Or.inl rfl) ?_
  have hself : (s.goto i pc).pollers i = pc := Function.update_self _ _ _
  rw [hself]
  exact hpc.mono hgrows fun _ _ _ _ _ => rfl

/-- A poller writes its cursor and goes on. -/
theorem Downlink.cursor (h : Downlink elsewhere s) {i : Nat} {c : Int} (hreached : s.Reached source c)
    {pc : PollPc StoredTask} (hpc : PollerInv elsewhere s (s.cards.calls i) pc) :
    Downlink elsewhere ({ s with cursors := Function.update s.cursors source (some c) }.goto i pc) := by
  have hgrows : Grows s ({ s with cursors := Function.update s.cursors source (some c) }.goto i pc) :=
    ⟨List.Subset.refl _, Registry.Later.refl _, CardsAdvance.refl _⟩
  refine h.of_step i hgrows h.reproduces h.locks (fun source' c' hc' => ?_)
    (fun j hj => ⟨rfl, Function.update_of_ne hj _ _⟩) (Or.inl rfl) ?_
  · change Function.update s.cursors source (some c) source' = some c' at hc'
    by_cases hsource : source' = source
    · subst hsource
      rw [Function.update_self] at hc'
      obtain rfl := Option.some.inj hc'
      exact Or.inr (hreached.mono hgrows)
    · rw [Function.update_of_ne hsource] at hc'
      exact Or.inl hc'
  · have hself : ({ s with cursors := Function.update s.cursors source (some c) }.goto i pc).pollers i = pc :=
      Function.update_self _ _ _
    rw [hself]
    exact hpc.mono hgrows fun _ _ _ _ _ => rfl

/-- The process of a poller makes a step on the cards, and the poller may go on. -/
theorem Downlink.cards (h : Downlink elsewhere s) {i : Nat} {cards : CardDb}
    (hstep : CardStep elsewhere s.writers.history s.cards cards i) (hlocks : cards.Transacting)
    {pc : PollPc StoredTask} (hpc : PollerInv elsewhere { s with cards := cards } (cards.calls i) pc) :
    Downlink elsewhere ({ s with cards := cards }.goto i pc) := by
  have hgrows : Grows s ({ s with cards := cards }.goto i pc) :=
    ⟨List.Subset.refl _, Registry.Later.refl _, hstep.advances⟩
  refine h.of_step i hgrows hstep.reproduces hlocks (fun source c hc => Or.inl hc)
    (fun j hj => ⟨hstep.others j hj, Function.update_of_ne hj _ _⟩) hstep.quiet ?_
  have hself : ({ s with cards := cards }.goto i pc).pollers i = pc := Function.update_self _ _ _
  rw [hself]
  exact hpc.mono ⟨List.Subset.refl _, Registry.Later.refl _, CardsAdvance.refl _⟩ fun _ _ _ _ _ => rfl

theorem goto_self (s : TaskSync sql) (i : Nat) : s.goto i (s.pollers i) = s := by
  unfold goto
  rw [Function.update_eq_self]

/-! ### A page -/

/-- The tasks of the hub as a poll sees them. -/
def central {hub : Db sql} (h : Clocked hub.toRegistry) : Central (SqlStore.hub sql) where
  tasks := hub.tasks
  lastSeq := hub.dbts
  distinct := h.distinct
  le_lastSeq := h.le_dbts

/-- The page that a poller gets. -/
theorem listTasks_eq {hub : Db sql} (h : Clocked hub.toRegistry) (args : PollArgs) (since : Option Int) :
    SqlStore.listTasks hub.toRegistry (argOrNone (some args.source)) since (parseLimit args.limit) =
      (central h).page args since := rfl

theorem fetched_page (hclocked : Clocked s.hub.toRegistry)
    (hshows : ∀ task ∈ s.hub.tasks.rows, ∃ row ∈ s.writers.history, task.Shows row) (args : PollArgs)
    {since : Option Int} (hsince : ∀ c, since = some c → s.Reached args.source c) :
    s.Fetched args.source since ((central hclocked).page args since) where
  start := hsince
  shows task htask := hshows task (Central.mem_page htask).1
  beyond _ htask := (Central.mem_page htask).2.1
  le task htask := hclocked.le_dbts task (Central.mem_page htask).1
  covers _ hlast _ htask hsource hbeyond hle := Central.mem_page_of_le hlast htask hsource hbeyond hle

/-! ### The steps -/

/-- What a step of the second machine relies on. -/
structure Serves (elsewhere : List String) (s : TaskSync sql) : Prop where
  chronicle : Chronicle elsewhere s.writers.cards s.writers.history s.writers.globalIds
  clocked : Clocked s.hub.toRegistry
  shows : ∀ task ∈ s.hub.tasks.rows, ∃ row ∈ s.writers.history, task.Shows row

theorem start_downlink (hub : Db sql) {cards : Cards}
    (hcards : ∀ card ∈ cards.rows, ∀ g ∈ card.globalId, g ∈ elsewhere) :
    Downlink elsewhere (start elsewhere hub cards) where
  reproduces := by
    refine ⟨fun card hcard g hg => Or.inl (hcards card hcard g hg), fun card hcard card' _ g hg hout _ => ?_⟩
    exact absurd (hcards card hcard g hg) hout
  locks := CardDb.transacting_start cards
  cursors _ _ hc := by cases hc
  pollers _ := rfl

/-- The first machine or a drainer makes a step. -/
theorem Downlink.grow (h : Downlink elsewhere s) (hgrows : Grows s s') (hcards : s'.cards = s.cards)
    (hcursors : s'.cursors = s.cursors) (hpollers : s'.pollers = s.pollers) : Downlink elsewhere s' where
  reproduces := hcards ▸ h.reproduces.mono hgrows.history
  locks := hcards ▸ h.locks
  cursors source c hc := (h.cursors source c (hcursors ▸ hc)).mono hgrows
  pollers i := by
    rw [hcards, hpollers]
    exact (h.pollers i).mono hgrows fun _ _ _ _ _ => by rw [hcards]

/-- A page is fetched. -/
private theorem Downlink.fetch (h : Downlink elsewhere s) (hserves : Serves elsewhere s) {i : Nat} {args : PollArgs}
    {since : Option Int} {left : Nat} (hpc : s.pollers i = .fetch args since left) {page : List StoredTask}
    (hpage : page = (central hserves.clocked).page args since) (hne : page ≠ []) :
    Downlink elsewhere (s.goto i (.apply args since left page page)) := by
  have hpoller := h.pollers i
  rw [hpc] at hpoller
  obtain ⟨hidle, hsince⟩ := hpoller
  have hfetched := fetched_page hserves.clocked hserves.shows args hsince
  rw [← hpage] at hfetched
  refine h.goto ?_
  rw [hidle]
  cases page with
  | nil => exact absurd rfl hne
  | cons task todo => exact ⟨trivial, hfetched, List.Subset.refl _, fun x hx => Or.inl hx⟩

/-- A task of a page has been applied. -/
private theorem Downlink.applied (h : Downlink elsewhere s) {i : Nat} {args : PollArgs} {since : Option Int}
    {left : Nat} {page todo : List StoredTask} {task : StoredTask} {card : CardRow}
    (hpc : s.pollers i = .apply args since left page (task :: todo)) (hcall : s.cards.calls i = .returned (some card)) :
    Downlink elsewhere ({ s with cards := s.cards.goto i .idle }.goto i (.apply args since left page todo)) := by
  have hpoller := h.pollers i
  rw [hpc, hcall] at hpoller
  obtain ⟨hdone, hfetched, htodo, happlied⟩ := hpoller
  have hstep : CardStep elsewhere s.writers.history s.cards (s.cards.goto i .idle) i :=
    ⟨h.reproduces, CardsAdvance.refl _, fun j hj => Function.update_of_ne hj _ _, Or.inl rfl⟩
  have hgrows : Grows s { s with cards := s.cards.goto i .idle } :=
    ⟨List.Subset.refl _, Registry.Later.refl _, CardsAdvance.refl _⟩
  refine h.cards hstep (h.locks.goto_idle i) ?_
  rw [goto_call]
  have hrest : ∀ x ∈ page, x ∈ todo ∨ HasVersion s.cards.cards x.globalId x.version := by
    intro x hx
    rcases happlied x hx with hx | hx
    · rcases List.mem_cons.1 hx with rfl | hx
      · exact Or.inr hdone
      · exact Or.inl hx
    · exact Or.inr hx
  cases todo with
  | nil => exact ⟨rfl, hfetched.mono hgrows, fun x hx => (hrest x hx).resolve_left List.not_mem_nil⟩
  | cons next todo =>
    exact ⟨trivial, hfetched.mono hgrows, fun x hx => htodo (List.mem_cons_of_mem _ hx), hrest⟩

/-- A call goes on with the task of a page. -/
private theorem Downlink.call (h : Downlink elsewhere s) {i : Nat} {args : PollArgs} {since : Option Int} {left : Nat}
    {page todo : List StoredTask} {task : StoredTask} (hpc : s.pollers i = .apply args since left page (task :: todo))
    {cards : CardDb} (hstep : CardStep elsewhere s.writers.history s.cards cards i) (hlocks : cards.Transacting)
    (hcall : CallInv elsewhere s.writers.history cards.cards task (cards.calls i)) :
    Downlink elsewhere { s with cards := cards } := by
  have hpoller := h.pollers i
  rw [hpc] at hpoller
  obtain ⟨-, hfetched, htodo, happlied⟩ := hpoller
  have hgrows : Grows s { s with cards := cards } := ⟨List.Subset.refl _, Registry.Later.refl _, hstep.advances⟩
  have hpoller' : PollerInv elsewhere { s with cards := cards } (cards.calls i) (s.pollers i) := by
    rw [hpc]
    exact ⟨hcall, hfetched.mono hgrows, htodo, fun x hx => (happlied x hx).imp_right (hstep.advances _ _)⟩
  have hnext := h.cards hstep hlocks hpoller'
  rwa [show s.pollers i = ({ s with cards := cards } : TaskSync sql).pollers i from rfl, goto_self] at hnext

/-- The end of a page. -/
theorem afterPage_cases (args : PollArgs) (since : Option Int) (left : Nat) (page : List StoredTask) :
    (page = [] ∧ @Inbox.afterPage (SqlStore.hub sql) args since left page = .idle (some (args, .returned))) ∨
      ∃ last, page.getLast? = some last ∧
        @Inbox.afterPage (SqlStore.hub sql) args since left page = .write args since left page last.changeSeq := by
  unfold Inbox.afterPage
  split
  case h_1 hnone => exact Or.inl ⟨List.getLast?_eq_none_iff.1 hnone, rfl⟩
  case h_2 last hlast => exact Or.inr ⟨last, hlast, rfl⟩

/-- A step of a poller. -/
private theorem Downlink.pollStep (h : Downlink elsewhere s) (hserves : Serves elsewhere s) {i : Nat}
    {newCardId : String} (horder : (s.cards.calls i).InOrder s.cards.cards)
    (hnext : TaskSync.pollStep s i newCardId = some s') :
    Downlink elsewhere s' ∧ CardsAdvance s.cards.cards s'.cards.cards := by
  have hpoller := h.pollers i
  simp only [TaskSync.pollStep] at hnext
  cases hpc : s.pollers i with
  | idle last =>
    rw [hpc] at hnext
    cases hnext
  | fetch args since left =>
    rw [hpc] at hnext hpoller
    dsimp only at hnext
    rw [listTasks_eq hserves.clocked] at hnext
    split at hnext
    · obtain rfl := Option.some.inj hnext
      exact ⟨h.goto hpoller.1, CardsAdvance.refl _⟩
    case isFalse hne =>
      obtain rfl := Option.some.inj hnext
      exact ⟨h.fetch hserves hpc rfl hne, CardsAdvance.refl _⟩
  | apply args since left page todo =>
    cases todo with
    | nil =>
      rw [hpc] at hnext hpoller
      obtain ⟨hidle, hfetched, happlied⟩ := hpoller
      obtain rfl := Option.some.inj hnext
      refine ⟨h.goto ?_, CardsAdvance.refl _⟩
      rcases afterPage_cases args since left page with ⟨-, heq⟩ | ⟨last, hlast, heq⟩
      · rw [heq]
        exact hidle
      · rw [heq]
        exact ⟨hidle, hfetched.reached happlied hlast, hfetched.beyond last (List.mem_of_getLast? hlast), happlied⟩
    | cons task todo =>
      have happly := hpoller
      rw [hpc] at hnext happly
      obtain ⟨hcall, hfetched, htodo, -⟩ := happly
      obtain ⟨row, hrow, hshows⟩ := hfetched.shows task (htodo List.mem_cons_self)
      dsimp only at hnext
      split at hnext
      case h_1 hidle =>
        obtain ⟨cards, hcards, rfl⟩ := Option.map_eq_some_iff.1 hnext
        obtain ⟨hstep, hcall'⟩ := cardStep_call h.reproduces hidle hcards
        exact ⟨h.call hpc hstep (h.locks.next hcards) hcall', hstep.advances⟩
      case h_2 hreturned =>
        obtain rfl := Option.some.inj hnext
        have hstep : CardStep elsewhere s.writers.history s.cards (s.cards.goto i .idle) i :=
          ⟨h.reproduces, CardsAdvance.refl _, fun j hj => Function.update_of_ne hj _ _, Or.inl rfl⟩
        exact ⟨h.cards hstep (h.locks.goto_idle i) (goto_call _ _ _), CardsAdvance.refl _⟩
      case h_3 card hreturned =>
        obtain rfl := Option.some.inj hnext
        exact ⟨h.applied hpc hreturned, CardsAdvance.refl _⟩
      case h_4 =>
        obtain ⟨cards, hcards, rfl⟩ := Option.map_eq_some_iff.1 hnext
        obtain ⟨hstep, hcall'⟩ := cardStep_step h.reproduces hserves.chronicle h.locks hrow hshows hcall horder hcards
        exact ⟨h.call hpc hstep (h.locks.next hcards) hcall', hstep.advances⟩
  | write args since left page nextSince =>
    rw [hpc] at hnext hpoller
    obtain ⟨hidle, hreached, -, -⟩ := hpoller
    obtain rfl := Option.some.inj hnext
    refine ⟨h.cursor hreached ?_, CardsAdvance.refl _⟩
    unfold Inbox.afterWrite
    split
    · exact hidle
    · split
      · exact hidle
      · split
        · exact hidle
        · refine ⟨hidle, fun c hc => ?_⟩
          obtain rfl := Option.some.inj hc
          exact hreached

/-- **The step lemma of the downlink.**  A step of the second machine in which no write takes back what a card says. -/
theorem Downlink.next {site : SyncSite} (h : Downlink elsewhere s) (hserves : Serves elsewhere s) {a : Act}
    (horder : s.InOrder a) (hwrite : ∀ b, a ≠ .write b) (hdrain : ∀ i fate, a ≠ .drain i fate)
    (hcrash : ∀ i, a ≠ .crashDrain i) (hnext : TaskSync.next site s a = some s') :
    Downlink elsewhere s' ∧ CardsAdvance s.cards.cards s'.cards.cards := by
  cases a with
  | write b => exact absurd rfl (hwrite b)
  | drain i fate => exact absurd rfl (hdrain i fate)
  | crashDrain i => exact absurd rfl (hcrash i)
  | poll i args =>
    have hpoller := h.pollers i
    simp only [TaskSync.next] at hnext
    split at hnext
    case h_1 last hpc =>
      rw [hpc] at hpoller
      split at hnext
      · obtain rfl := Option.some.inj hnext
        exact ⟨h.goto hpoller, CardsAdvance.refl _⟩
      · obtain rfl := Option.some.inj hnext
        exact ⟨h.goto ⟨hpoller, fun c hc => h.cursors args.source c hc⟩, CardsAdvance.refl _⟩
    case h_2 => cases hnext
  | step i newCardId => exact h.pollStep hserves horder hnext
  | fail i =>
    have hpoller := h.pollers i
    simp only [TaskSync.next] at hnext
    cases hpc : s.pollers i with
    | idle last =>
      rw [hpc] at hnext
      cases hnext
    | fetch args since left =>
      rw [hpc] at hnext hpoller
      obtain rfl := Option.some.inj hnext
      exact ⟨h.goto hpoller.1, CardsAdvance.refl _⟩
    | write args since left page nextSince =>
      rw [hpc] at hnext hpoller
      obtain rfl := Option.some.inj hnext
      exact ⟨h.goto hpoller.1, CardsAdvance.refl _⟩
    | apply args since left page todo =>
      rw [hpc] at hnext
      obtain ⟨cards, hcards, rfl⟩ := Option.map_eq_some_iff.1 hnext
      cases todo with
      | nil =>
        rw [hpc] at hpoller
        simp only [CardDb.next, hpoller.1] at hcards
        cases hcards
      | cons task todo =>
        obtain ⟨hstep, hcall, -⟩ := @cardStep_fail _ _ _ _ i task h.reproduces hcards
        exact ⟨h.call hpc hstep (h.locks.next hcards) hcall, hstep.advances⟩
  | crash i =>
    simp only [TaskSync.next, Option.map_eq_some_iff] at hnext
    obtain ⟨cards, hcards, rfl⟩ := hnext
    have hlocks := h.locks.next hcards
    obtain rfl := Option.some.inj hcards
    have hstep : CardStep elsewhere s.writers.history s.cards ((s.cards.rollback i).goto i .idle) i :=
      ⟨h.reproduces, CardsAdvance.refl _, fun j hj => Function.update_of_ne hj _ _, Or.inl rfl⟩
    refine ⟨h.cards hstep hlocks ?_, CardsAdvance.refl _⟩
    rw [goto_call]
    split <;> rfl

/-! ### A poll of settled tasks -/

/-- Every card of the first machine that has a global id has a task that shows it as it is. -/
def Settled (site : SyncSite) (s : TaskSync sql) : Prop := ∀ card ∈ s.writers.cards.rows, ∀ g ∈ card.globalId,
  ∃ task ∈ s.hub.tasks.rows, task.Shows card ∧ task.repositoryId = some site.repositoryId

/-- Every card of the first machine that has a global id has a card on the second that is no older. -/
def Arrived (s : TaskSync sql) : Prop := ∀ card ∈ s.writers.cards.rows, ∀ g ∈ card.globalId,
  HasVersion s.cards.cards g card.version

/-- What a poll that began with settled tasks still has to apply. -/
def Awaits (site : SyncSite) (s : TaskSync sql) : PollPc StoredTask → Prop
  | .idle last => ∀ args, last = some (args, .returned) → args.source = site.repositoryId →
      args.limit ≤ recentLimitMax → s.Arrived
  | .fetch _ _ _ => True
  | .apply args _ _ page todo => args.source = site.repositoryId → page.length < parseLimit args.limit →
      ∀ card ∈ s.writers.cards.rows, ∀ g ∈ card.globalId, HasVersion s.cards.cards g card.version ∨
        ∃ task ∈ todo, task.globalId = g ∧ task.version = card.version
  | .write args _ _ page _ => args.source = site.repositoryId → page.length < parseLimit args.limit → s.Arrived

/-- The poller that an action is about. -/
def Act.poller? : Act → Option Nat
  | .poll i _ => some i
  | .step i _ => some i
  | .fail i => some i
  | .crash i => some i
  | _ => none

variable {site : SyncSite} {i : Nat}

theorem Awaits.mono {pc : PollPc StoredTask} (h : Awaits site s pc) (hwriters : s'.writers = s.writers)
    (hadvances : CardsAdvance s.cards.cards s'.cards.cards) : Awaits site s' pc := by
  have harrived : s.Arrived → s'.Arrived := fun h card hcard g hg =>
    hadvances _ _ (h card (hwriters ▸ hcard) g hg)
  cases pc with
  | idle last => exact fun args hlast hsource hcap => harrived (h args hlast hsource hcap)
  | fetch => trivial
  | apply args since left page todo =>
    exact fun hsource hlt card hcard g hg => (h hsource hlt card (hwriters ▸ hcard) g hg).imp_left (hadvances _ _)
  | write args since left page nextSince => exact fun hsource hlt => harrived (h hsource hlt)

theorem awaits_raised (s : TaskSync sql) (args : PollArgs) : Awaits site s (.idle (some (args, .raised))) :=
  fun _ h => absurd (Prod.mk.inj (Option.some.inj h)).2 (by simp)

theorem awaits_hitMaxPages (s : TaskSync sql) (args : PollArgs) : Awaits site s (.idle (some (args, .hitMaxPages))) :=
  fun _ h => absurd (Prod.mk.inj (Option.some.inj h)).2 (by simp)

/-- A step that is not about a poller leaves it where it is. -/
theorem next_pollers {a : Act} (hnext : TaskSync.next site s a = some s') (ha : a.poller? ≠ some i) :
    s'.pollers i = s.pollers i := by
  have hgoto : ∀ (t : TaskSync sql) (j : Nat) (pc : PollPc StoredTask), some j ≠ some i →
      (t.goto j pc).pollers i = t.pollers i :=
    fun t j pc hj => Function.update_of_ne (fun h => hj (congrArg some h.symm)) _ _
  cases a with
  | write b =>
    obtain ⟨writers, -, rfl⟩ := Option.map_eq_some_iff.1 hnext
    rfl
  | drain j fate =>
    simp only [TaskSync.next] at hnext
    split at hnext
    · obtain ⟨⟨hub, reply⟩, -, rfl⟩ := Option.map_eq_some_iff.1 hnext
      rfl
    · obtain rfl := Option.some.inj hnext
      rfl
  | crashDrain j =>
    obtain rfl := Option.some.inj hnext
    rfl
  | poll j args =>
    simp only [TaskSync.next] at hnext
    split at hnext
    · split at hnext
      · obtain rfl := Option.some.inj hnext
        exact hgoto s j _ ha
      · obtain rfl := Option.some.inj hnext
        exact hgoto s j _ ha
    · cases hnext
  | step j newCardId =>
    simp only [TaskSync.next, TaskSync.pollStep] at hnext
    split at hnext
    · cases hnext
    · split at hnext
      · obtain rfl := Option.some.inj hnext
        exact hgoto s j _ ha
      · obtain rfl := Option.some.inj hnext
        exact hgoto s j _ ha
    · obtain rfl := Option.some.inj hnext
      exact hgoto s j _ ha
    · split at hnext
      · obtain ⟨cards, -, rfl⟩ := Option.map_eq_some_iff.1 hnext
        rfl
      · obtain rfl := Option.some.inj hnext
        exact hgoto _ j _ ha
      · obtain rfl := Option.some.inj hnext
        exact hgoto _ j _ ha
      · obtain ⟨cards, -, rfl⟩ := Option.map_eq_some_iff.1 hnext
        rfl
    · obtain rfl := Option.some.inj hnext
      exact hgoto _ j _ ha
  | fail j =>
    simp only [TaskSync.next] at hnext
    split at hnext
    · obtain rfl := Option.some.inj hnext
      exact hgoto s j _ ha
    · obtain rfl := Option.some.inj hnext
      exact hgoto s j _ ha
    · obtain ⟨cards, -, rfl⟩ := Option.map_eq_some_iff.1 hnext
      rfl
    · cases hnext
  | crash j =>
    simp only [TaskSync.next, Option.map_eq_some_iff] at hnext
    obtain ⟨cards, -, rfl⟩ := hnext
    exact hgoto _ j _ ha

/-- A page of settled tasks that is not full holds a task for every card that has not arrived. -/
private theorem settled_page (hsettled : Settled site s) (hclocked : Clocked s.hub.toRegistry) {args : PollArgs}
    {since : Option Int} (hsince : ∀ c, since = some c → s.Reached args.source c)
    (hsource : args.source = site.repositoryId)
    (hlt : ((central hclocked).page args since).length < parseLimit args.limit) :
    ∀ card ∈ s.writers.cards.rows, ∀ g ∈ card.globalId, HasVersion s.cards.cards g card.version ∨
      ∃ task ∈ (central hclocked).page args since, task.globalId = g ∧ task.version = card.version := by
  intro card hcard g hg
  obtain ⟨task, htask, hshows, hrepository⟩ := hsettled card hcard g hg
  have hgid : task.globalId = g := Option.some.inj (hshows.globalId.symm.trans hg)
  have hof : OfSource sql args.source task := by
    unfold OfSource Inbox.ofSource
    cases hid : argOrNone (some args.source) with
    | none => rfl
    | some id =>
      have hargs : args.source = id := Option.some.inj (Option.filter_eq_some_iff.1 hid).1
      change (task.repositoryId.any fun r => sql.key r = sql.key id) = true
      rw [hrepository, ← hargs, hsource]
      simp
  by_cases hbeyond : ∀ c, since = some c → c < task.changeSeq
  · exact Or.inr ⟨task, Central.mem_page_of_length_lt hlt htask hof hbeyond, hgid, hshows.version_eq.symm⟩
  · push Not at hbeyond
    obtain ⟨c, hc, hbefore⟩ := hbeyond
    have happlied := (hsince c hc).applied task htask hof hbefore
    rw [hgid, ← hshows.version_eq] at happlied
    exact Or.inl happlied

/-- A poll begins. -/
theorem awaits_poll {args : PollArgs} (hnext : TaskSync.next site s (.poll i args) = some s') :
    Awaits site s' (s'.pollers i) := by
  have hself : ∀ (t : TaskSync sql) (pc : PollPc StoredTask), (t.goto i pc).pollers i = pc :=
    fun t pc => Function.update_self _ _ _
  simp only [TaskSync.next] at hnext
  split at hnext
  · split at hnext
    · obtain rfl := Option.some.inj hnext
      rw [hself]
      exact awaits_hitMaxPages _ args
    · obtain rfl := Option.some.inj hnext
      rw [hself]
      trivial
  · cases hnext

/-- A step of the poller. -/
private theorem Awaits.pollStep (h : Downlink elsewhere s) (hserves : Serves elsewhere s) (hsettled : Settled site s)
    (hawaits : Awaits site s (s.pollers i)) {newCardId : String}
    (hnext : TaskSync.pollStep s i newCardId = some s') (hwriters : s'.writers = s.writers)
    (hadvances : CardsAdvance s.cards.cards s'.cards.cards) : Awaits site s' (s'.pollers i) := by
  have hpoller := h.pollers i
  have hself : ∀ (t : TaskSync sql) (pc : PollPc StoredTask), (t.goto i pc).pollers i = pc :=
    fun t pc => Function.update_self _ _ _
  have hgoto : ∀ {pc : PollPc StoredTask}, Awaits site (s.goto i pc) pc →
      Awaits site (s.goto i pc) ((s.goto i pc).pollers i) :=
    fun {pc} h => (hself s pc).symm ▸ h
  simp only [TaskSync.pollStep] at hnext
  cases hpc : s.pollers i with
  | idle last =>
    rw [hpc] at hnext
    cases hnext
  | fetch args since left =>
    rw [hpc] at hnext hpoller
    dsimp only at hnext
    rw [listTasks_eq hserves.clocked] at hnext
    split at hnext
    case isTrue hempty =>
      obtain rfl := Option.some.inj hnext
      rw [hself]
      intro args' hlast hsource _ card hcard g hg
      obtain ⟨rfl, -⟩ := Prod.mk.inj (Option.some.inj hlast)
      have hlt : ((central hserves.clocked).page args since).length < parseLimit args.limit := by
        rw [hempty]
        exact parseLimit_pos args.limit
      refine (settled_page hsettled hserves.clocked hpoller.2 hsource hlt card hcard g hg).resolve_right ?_
      rintro ⟨task, htask, -⟩
      rw [hempty] at htask
      cases htask
    case isFalse =>
      obtain rfl := Option.some.inj hnext
      rw [hself]
      exact fun hsource hlt => settled_page hsettled hserves.clocked hpoller.2 hsource hlt
  | apply args since left page todo =>
    rw [hpc] at hawaits
    cases todo with
    | nil =>
      rw [hpc] at hnext
      obtain rfl := Option.some.inj hnext
      have hdone : args.source = site.repositoryId → page.length < parseLimit args.limit → s.Arrived := by
        intro hsource hlt card hcard g hg
        refine (hawaits hsource hlt card hcard g hg).resolve_right ?_
        rintro ⟨task, htask, -⟩
        cases htask
      refine hgoto ?_
      rcases afterPage_cases args since left page with ⟨hnil, heq⟩ | ⟨last, -, heq⟩
      · rw [heq]
        intro args' hlast hsource _
        obtain ⟨rfl, -⟩ := Prod.mk.inj (Option.some.inj hlast)
        refine hdone hsource ?_
        rw [hnil]
        exact parseLimit_pos args.limit
      · rw [heq]
        exact hdone
    | cons task todo =>
      rw [hpc] at hnext hpoller
      dsimp only at hnext
      have hstay : s'.pollers i = s.pollers i → Awaits site s' (s'.pollers i) := by
        intro hsame
        rw [hsame, hpc]
        exact hawaits.mono hwriters hadvances
      split at hnext
      case h_1 =>
        obtain ⟨cards, -, rfl⟩ := Option.map_eq_some_iff.1 hnext
        exact hstay rfl
      case h_2 =>
        obtain rfl := Option.some.inj hnext
        rw [hself]
        exact awaits_raised _ args
      case h_3 card hreturned =>
        obtain rfl := Option.some.inj hnext
        rw [hself]
        intro hsource hlt card hcard g hg
        rcases hawaits hsource hlt card hcard g hg with hhas | ⟨task', htask', hgid, hversion⟩
        · exact Or.inl hhas
        · rcases List.mem_cons.1 htask' with rfl | htask'
          · -- the task that has just been applied
            have hdone := hpoller.1
            rw [hreturned] at hdone
            rw [← hgid, ← hversion]
            exact Or.inl hdone
          · exact Or.inr ⟨task', htask', hgid, hversion⟩
      case h_4 =>
        obtain ⟨cards, -, rfl⟩ := Option.map_eq_some_iff.1 hnext
        exact hstay rfl
  | write args since left page nextSince =>
    rw [hpc] at hnext hpoller hawaits
    obtain ⟨-, -, hbeyond, -⟩ := hpoller
    obtain rfl := Option.some.inj hnext
    refine hgoto ?_
    have hadvanced : ¬ (since.any fun seq => nextSince ≤ seq) = true := by
      intro hany
      obtain ⟨c, hc, hle⟩ := (Option.any_eq_true _ _).1 hany
      have := hbeyond c hc
      have := of_decide_eq_true hle
      omega
    unfold Inbox.afterWrite
    rw [if_neg hadvanced]
    split
    case isTrue hshort =>
      intro args' hlast hsource hcap
      obtain ⟨rfl, -⟩ := Prod.mk.inj (Option.some.inj hlast)
      have hlt : (page.length : Int) < args.limit := hshort
      have hlimit := @parseLimit_eq args.limit (by omega) hcap
      exact hawaits hsource (by omega)
    case isFalse =>
      split
      · exact awaits_hitMaxPages _ args
      · trivial

/-- **The step lemma of a poll of settled tasks.** -/
theorem Awaits.next (h : Downlink elsewhere s) (hserves : Serves elsewhere s) (hsettled : Settled site s)
    (hawaits : Awaits site s (s.pollers i)) {a : Act} (hnext : TaskSync.next site s a = some s')
    (hwriters : s'.writers = s.writers) (hadvances : CardsAdvance s.cards.cards s'.cards.cards) :
    Awaits site s' (s'.pollers i) := by
  by_cases ha : a.poller? = some i
  · have hstay : s'.pollers i = s.pollers i → Awaits site s' (s'.pollers i) := by
      intro hsame
      rw [hsame]
      exact hawaits.mono hwriters hadvances
    have hself : ∀ (t : TaskSync sql) (pc : PollPc StoredTask), (t.goto i pc).pollers i = pc :=
      fun t pc => Function.update_self _ _ _
    cases a with
    | poll j args =>
      obtain rfl := Option.some.inj ha
      exact awaits_poll hnext
    | step j newCardId =>
      obtain rfl := Option.some.inj ha
      exact Awaits.pollStep h hserves hsettled hawaits hnext hwriters hadvances
    | fail j =>
      obtain rfl := Option.some.inj ha
      simp only [TaskSync.next] at hnext
      split at hnext
      case h_1 args _ _ _ =>
        obtain rfl := Option.some.inj hnext
        rw [hself]
        exact awaits_raised _ args
      case h_2 args _ _ _ _ _ =>
        obtain rfl := Option.some.inj hnext
        rw [hself]
        exact awaits_raised _ args
      case h_3 =>
        obtain ⟨cards, -, rfl⟩ := Option.map_eq_some_iff.1 hnext
        exact hstay rfl
      case h_4 => cases hnext
    | crash j =>
      obtain rfl := Option.some.inj ha
      simp only [TaskSync.next, Option.map_eq_some_iff] at hnext
      obtain ⟨cards, -, rfl⟩ := hnext
      rw [hself]
      cases hpc : s.pollers j with
      | idle last =>
        rw [hpc] at hawaits
        exact hawaits.mono hwriters hadvances
      | fetch args since left => exact awaits_raised _ args
      | apply args since left page todo => exact awaits_raised _ args
      | write args since left page nextSince => exact awaits_raised _ args
    | write b => cases ha
    | drain j fate => cases ha
    | crashDrain j => cases ha
  · rw [next_pollers hnext ha]
    exact hawaits.mono hwriters hadvances

end

end TaskSync

end AgentOS
