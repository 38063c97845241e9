import AgentOS.Contracts
import AgentOS.Lib.Run
import AgentOS.Lib.Table
import Mathlib.Logic.Function.Basic

/-!
# Applying a task projection

`apply_task_projection` looks a global id up and then updates the card that carries it or inserts a new one.  Any number
of processes call it on one `cards.sqlite`, one statement at a time.  Under the default transaction control of `sqlite3`
the SELECT runs outside a transaction; the first INSERT or UPDATE opens one and takes the write lock, which the commit
releases.  A call that fails or a process that dies rolls its transaction back.

* The pairs of a global id and the card that carries it are only ever added to (`identities_next`).
* A second card for a global id appears where a call commits its INSERT although another call has inserted the global id
  since the SELECT, and nowhere else (`one_card_iff`).
-/

namespace AgentOS

/-- A row of `cards`. -/
structure CardRow where
  cardId : String
  title : String
  description : Option String
  status : String
  priority : Option String
  globalId : Option String
  syncVersion : Option Int

/-- The table `cards`; nothing but the primary key is unique. -/
abbrev Cards := Table fun row : CardRow => row.cardId

/-- The fields of a task that `apply_task_projection` reads. -/
structure TaskProjection where
  globalId : Option String
  title : Option String
  description : Option String
  priority : Option String
  status : Option String
  version : Option Int

/-! ### The statements -/

/-- `SELECT card_id FROM cards WHERE global_id = ?`. -/
def selectByGlobalId (cards : Cards) (globalId : String) : Option String :=
  (cards.rows.find? fun row => row.globalId = some globalId).map (·.cardId)

/-- What the UPDATE makes of a row. -/
def TaskProjection.update (task : TaskProjection) (row : CardRow) : CardRow :=
  { row with
    title := task.title.getD row.title, description := task.description.or row.description
    priority := task.priority.or row.priority, status := syncStatusToLocal task.status, syncVersion := task.version }

/-- `UPDATE cards SET … WHERE global_id = ?`. -/
def updateProjected (task : TaskProjection) (globalId : String) (cards : Cards) : Cards :=
  cards.update (fun row => row.globalId = some globalId) task.update fun _ => rfl

/-- The row of a newly projected card. -/
def TaskProjection.newCard (task : TaskProjection) (globalId cardId : String) : CardRow where
  cardId := cardId
  title := task.title.getD ""
  description := task.description
  status := syncStatusToLocal task.status
  priority := task.priority
  globalId := some globalId
  syncVersion := task.version

/-- `if not global_id`. -/
def TaskProjection.globalId? (task : TaskProjection) : Option String := task.globalId.filter (· ≠ "")

/-! ### Calls in progress -/

/-- Where a process is in `apply_task_projection`: the statement it runs next.  `existing` is what the SELECT found,
`pending` what the open transaction sees, and `returned none` an error. -/
inductive ApplyPc where
  | idle
  | select (globalId : String) (task : TaskProjection)
  | write (globalId : String) (task : TaskProjection) (existing : Option String)
  | commit (globalId : String) (existing : Option String) (pending : Cards) (cardId : String)
  | getCard (cardId : String)
  | returned (card : Option CardRow)

/-- The database file, and the calls of every process; `lock` is the process in a write transaction. -/
structure CardDb where
  cards : Cards
  lock : Option Nat
  calls : Nat → ApplyPc

namespace CardDb

/-- No call is in progress. -/
def start (cards : Cards) : CardDb where
  cards := cards
  lock := none
  calls _ := .idle

def goto (s : CardDb) (i : Nat) (pc : ApplyPc) : CardDb := { s with calls := Function.update s.calls i pc }

/-- A call up to its first statement. -/
def beginCall (s : CardDb) (i : Nat) (task : TaskProjection) : CardDb :=
  match task.globalId? with
  | none => s.goto i (.returned none)
  | some globalId => s.goto i (.select globalId task)

/-- `conn.rollback()`. -/
def rollback (s : CardDb) (i : Nat) : CardDb := { s with lock := s.lock.filter (· ≠ i) }

inductive Act where
  | call (i : Nat) (task : TaskProjection)
  | step (i : Nat) (newCardId : String)
  | fail (i : Nat)
  | crash (i : Nat)

/-- One step: a call begins, a process runs its next statement (with `newCardId` for `uuid.uuid4()[:8]`), an exception
ends a call, or a process dies.  Where another process holds the write lock, a write waits. -/
def next (s : CardDb) : Act → Option CardDb
  | .call i task => match s.calls i with
    | .idle => some (s.beginCall i task)
    | .returned _ => some (s.beginCall i task)
    | _ => none
  | .step i newCardId => match s.calls i with
    | .select globalId task => some (s.goto i (.write globalId task (selectByGlobalId s.cards globalId)))
    | .write globalId task existing =>
      if s.lock.isSome then none
      else match existing with
        | some cardId =>
          some ({ s with lock := some i }.goto i
            (.commit globalId existing (updateProjected task globalId s.cards) cardId))
        | none => match s.cards.insert (task.newCard globalId newCardId) with
          | some pending => some ({ s with lock := some i }.goto i (.commit globalId none pending newCardId))
          | none => some (s.goto i (.returned none))
    | .commit _ _ pending cardId => some ({ s with cards := pending, lock := none }.goto i (.getCard cardId))
    | .getCard cardId => some (s.goto i (.returned (s.cards.lookup cardId)))
    | _ => none
  | .fail i => match s.calls i with
    | .idle => none
    | .returned _ => none
    | _ => some ((s.rollback i).goto i (.returned none))
  | .crash i => some ((s.rollback i).goto i .idle)

end CardDb

/-! ### Which card carries a global id -/

/-- The global ids with the cards that carry them, in the order they were given. -/
def identities (cards : Cards) : List (String × String) :=
  cards.rows.filterMap fun row => row.globalId.map fun globalId => (globalId, row.cardId)

/-- No two rows share a global id. -/
def GlobalIdsUnique (cards : Cards) : Prop := (cards.rows.filterMap (·.globalId)).Nodup

/-- At every point of the run no two rows share a global id, and what was the card of a global id at an earlier point
is its one card. -/
def OneCardPerTask (s₀ : CardDb) (as : List CardDb.Act) : Prop :=
  ∀ as₁ as₂ as₃ u v, as = as₁ ++ as₂ ++ as₃ → Run.exec CardDb.next s₀ as₁ = some u →
    Run.exec CardDb.next u as₂ = some v →
      GlobalIdsUnique v.cards ∧
        ∀ globalId cardId, (globalId, cardId) ∈ identities u.cards →
          ∀ cardId', (globalId, cardId') ∈ identities v.cards ↔ cardId' = cardId

/-- The global id of a call that commits an INSERT. -/
def ApplyPc.inserted? : ApplyPc → Option String
  | .commit globalId none _ _ => some globalId
  | _ => none

/-- A call that commits an INSERT would still find no card of its global id. -/
def CardDb.Timely (s : CardDb) : CardDb.Act → Prop
  | .step i _ => ∀ globalId ∈ (s.calls i).inserted?, selectByGlobalId s.cards globalId = none
  | _ => True

instance (s : CardDb) : (a : CardDb.Act) → Decidable (s.Timely a)
  | .step i _ =>
    inferInstanceAs (Decidable (∀ globalId ∈ (s.calls i).inserted?, selectByGlobalId s.cards globalId = none))
  | .call _ _ => .isTrue trivial
  | .fail _ => .isTrue trivial
  | .crash _ => .isTrue trivial

theorem ApplyPc.inserted?_eq_some {pc : ApplyPc} {globalId : String} :
    pc.inserted? = some globalId ↔ ∃ pending cardId, pc = .commit globalId none pending cardId := by
  unfold ApplyPc.inserted?
  split
  · simp
  case h_2 hpc =>
    constructor
    · simp
    · rintro ⟨pending, cardId, rfl⟩
      exact absurd rfl (hpc _ _ _)

theorem selectByGlobalId_eq_none {cards : Cards} {globalId : String} :
    selectByGlobalId cards globalId = none ↔ globalId ∉ cards.rows.filterMap (·.globalId) := by
  simp [selectByGlobalId, List.find?_eq_none]

theorem identities_map_fst (cards : Cards) : (identities cards).map (·.1) = cards.rows.filterMap (·.globalId) := by
  rw [identities, List.map_filterMap]
  congr 1
  funext row
  cases row.globalId <;> rfl

/-- The UPDATE leaves every global id where it is. -/
theorem identities_updateProjected (task : TaskProjection) (globalId : String) (cards : Cards) :
    identities (updateProjected task globalId cards) = identities cards := by
  unfold identities updateProjected Table.update
  rw [List.filterMap_map]
  congr 1
  funext row
  by_cases h : row.globalId = some globalId
  · simp [h, TaskProjection.update]
  · simp [h]

/-- The INSERT adds one card. -/
theorem identities_insert {task : TaskProjection} {globalId cardId : String} {cards pending : Cards}
    (h : cards.insert (task.newCard globalId cardId) = some pending) :
    identities pending = identities cards ++ [(globalId, cardId)] := by
  rw [identities, Table.insert_rows h, List.filterMap_append]
  rfl

/-- No transaction is open here. -/
def ApplyPc.Closed (pc : ApplyPc) : Prop :=
  ∀ globalId existing pending cardId, pc ≠ .commit globalId existing pending cardId

/-- What the write of a call adds to the identities. -/
def newIdentity (globalId cardId : String) : Option String → List (String × String)
  | some _ => []
  | none => [(globalId, cardId)]

namespace CardDb

variable {s s' : CardDb} {a : Act}

/-- An open transaction holds the lock and sees the committed table with its one statement. -/
def Transacting (s : CardDb) : Prop :=
  ∀ i globalId existing pending cardId, s.calls i = .commit globalId existing pending cardId →
    s.lock = some i ∧ identities pending = identities s.cards ++ newIdentity globalId cardId existing

theorem beginCall_eq (s : CardDb) (i : Nat) (task : TaskProjection) :
    ∃ pc : ApplyPc, s.beginCall i task = s.goto i pc ∧ pc.Closed := by
  unfold beginCall
  cases task.globalId? with
  | none => exact ⟨_, rfl, fun _ _ _ _ => by simp⟩
  | some globalId => exact ⟨_, rfl, fun _ _ _ _ => by simp⟩

/-- What a step can do: nothing to the table, open a transaction by its statement, or commit one. -/
theorem next_cases (h : next s a = some s') :
    (∃ i, ∃ pc : ApplyPc, ∃ lock, s' = { s with lock := lock, calls := Function.update s.calls i pc } ∧
      (lock = s.lock ∨ lock = s.lock.filter (· ≠ i)) ∧ pc.Closed) ∨
    (∃ i globalId existing pending cardId, s.lock = none ∧
      identities pending = identities s.cards ++ newIdentity globalId cardId existing ∧
        s' = { s with
          lock := some i
          calls := Function.update s.calls i (.commit globalId existing pending cardId) }) ∨
    ∃ i newCardId globalId existing pending cardId, a = .step i newCardId ∧
      s.calls i = .commit globalId existing pending cardId ∧
        s' = { s with cards := pending, lock := none, calls := Function.update s.calls i (.getCard cardId) } := by
  cases a with
  | call i task =>
    obtain ⟨pc, hbegin, hpc⟩ := beginCall_eq s i task
    have hquiet : s' = s.beginCall i task → ∃ i, ∃ pc : ApplyPc, ∃ lock,
        s' = { s with lock := lock, calls := Function.update s.calls i pc } ∧
          (lock = s.lock ∨ lock = s.lock.filter (· ≠ i)) ∧ pc.Closed :=
      fun hs' => ⟨i, pc, s.lock, hs'.trans hbegin, Or.inl rfl, hpc⟩
    simp only [next] at h
    split at h
    · exact Or.inl (hquiet (Option.some.inj h).symm)
    · exact Or.inl (hquiet (Option.some.inj h).symm)
    · cases h
  | step i newCardId =>
    simp only [next] at h
    split at h
    case h_1 =>
      obtain rfl := Option.some.inj h
      exact Or.inl ⟨i, _, s.lock, rfl, Or.inl rfl, fun _ _ _ _ => by simp⟩
    case h_2 globalId task existing _ =>
      by_cases hlock : s.lock.isSome = true
      · rw [if_pos hlock] at h
        cases h
      · rw [if_neg hlock] at h
        have hfree := Option.not_isSome_iff_eq_none.1 hlock
        cases existing with
        | some cardId =>
          obtain rfl := Option.some.inj h
          refine Or.inr (Or.inl ⟨i, globalId, _, _, cardId, hfree, ?_, rfl⟩)
          rw [identities_updateProjected, newIdentity, List.append_nil]
        | none =>
          dsimp only at h
          cases hinsert : s.cards.insert (task.newCard globalId newCardId) with
          | none =>
            rw [hinsert] at h
            obtain rfl := Option.some.inj h
            exact Or.inl ⟨i, _, s.lock, rfl, Or.inl rfl, fun _ _ _ _ => by simp⟩
          | some pending =>
            rw [hinsert] at h
            obtain rfl := Option.some.inj h
            exact Or.inr (Or.inl ⟨i, globalId, none, pending, newCardId, hfree, identities_insert hinsert, rfl⟩)
    case h_3 globalId existing pending cardId hpc =>
      obtain rfl := Option.some.inj h
      exact Or.inr (Or.inr ⟨i, newCardId, globalId, existing, pending, cardId, rfl, hpc, rfl⟩)
    case h_4 =>
      obtain rfl := Option.some.inj h
      exact Or.inl ⟨i, _, s.lock, rfl, Or.inl rfl, fun _ _ _ _ => by simp⟩
    case h_5 => cases h
  | fail i =>
    simp only [next] at h
    split at h
    · cases h
    · cases h
    · obtain rfl := Option.some.inj h
      exact Or.inl ⟨i, _, _, rfl, Or.inr rfl, fun _ _ _ _ => by simp⟩
  | crash i =>
    obtain rfl := Option.some.inj h
    exact Or.inl ⟨i, _, _, rfl, Or.inr rfl, fun _ _ _ _ => by simp⟩

theorem Transacting.next (hs : s.Transacting) (h : next s a = some s') : s'.Transacting := by
  intro j globalId existing pending cardId hj
  rcases next_cases h with ⟨i, pc, lock, rfl, hlock, hpc⟩ | ⟨i, g, ex, pend, c, hfree, hpend, rfl⟩ |
    ⟨i, newCardId, g, ex, pend, c, -, hi, rfl⟩
  · dsimp only at hj
    by_cases hji : j = i
    · subst hji
      rw [Function.update_self] at hj
      exact absurd hj (hpc _ _ _ _)
    · rw [Function.update_of_ne hji] at hj
      obtain ⟨hheld, hpending⟩ := hs j _ _ _ _ hj
      refine ⟨?_, hpending⟩
      rcases hlock with rfl | rfl
      · exact hheld
      · simp [hheld, hji]
  · dsimp only at hj
    by_cases hji : j = i
    · subst hji
      rw [Function.update_self] at hj
      cases hj
      exact ⟨rfl, hpend⟩
    · rw [Function.update_of_ne hji] at hj
      have hheld := (hs j _ _ _ _ hj).1
      rw [hfree] at hheld
      cases hheld
  · dsimp only at hj
    by_cases hji : j = i
    · subst hji
      rw [Function.update_self] at hj
      cases hj
    · rw [Function.update_of_ne hji] at hj
      have hheld := (hs j _ _ _ _ hj).1
      rw [(hs i _ _ _ _ hi).1] at hheld
      exact absurd (Option.some.inj hheld).symm hji

/-- A step adds an identity where it commits an INSERT, and only there. -/
theorem identities_next (hs : s.Transacting) (h : next s a = some s') :
    (s.Timely a ∧ identities s'.cards = identities s.cards) ∨
      ∃ globalId cardId, (s.Timely a ↔ globalId ∉ (identities s.cards).map (·.1)) ∧
        identities s'.cards = identities s.cards ++ [(globalId, cardId)] := by
  by_cases hinsert : ∃ i newCardId globalId pending cardId, a = .step i newCardId ∧
      s.calls i = .commit globalId none pending cardId
  · obtain ⟨i, newCardId, globalId, pending, cardId, rfl, hi⟩ := hinsert
    refine Or.inr ⟨globalId, cardId, ?_, ?_⟩
    · rw [identities_map_fst, ← selectByGlobalId_eq_none]
      simp [Timely, hi, ApplyPc.inserted?]
    · simp only [CardDb.next, hi] at h
      obtain rfl := Option.some.inj h
      exact (hs i _ _ _ _ hi).2
  · have htimely : s.Timely a := by
      cases a with
      | step i newCardId =>
        intro globalId hmem
        obtain ⟨pending, cardId, hi⟩ := ApplyPc.inserted?_eq_some.1 hmem
        exact absurd ⟨i, newCardId, globalId, pending, cardId, rfl, hi⟩ hinsert
      | call => trivial
      | fail => trivial
      | crash => trivial
    refine Or.inl ⟨htimely, ?_⟩
    rcases next_cases h with ⟨i, pc, lock, rfl, -, -⟩ | ⟨i, g, ex, pend, c, -, -, rfl⟩ |
      ⟨i, newCardId, globalId, existing, pending, cardId, rfl, hi, rfl⟩
    · rfl
    · rfl
    · cases existing with
      | none => exact absurd ⟨i, newCardId, _, _, _, rfl, hi⟩ hinsert
      | some existing =>
        have hpending := (hs i _ _ _ _ hi).2
        rwa [newIdentity, List.append_nil] at hpending

/-- Global ids stay unique in a timely step, and clash in any other. -/
theorem globalIdsUnique_next (hs : s.Transacting) (hunique : GlobalIdsUnique s.cards) (h : next s a = some s') :
    GlobalIdsUnique s'.cards ↔ s.Timely a := by
  unfold GlobalIdsUnique at hunique ⊢
  rw [← identities_map_fst] at hunique ⊢
  rcases identities_next hs h with ⟨htimely, hsame⟩ | ⟨globalId, cardId, htimely, hadded⟩
  · rw [hsame]
    exact ⟨fun _ => htimely, fun _ => hunique⟩
  · rw [hadded, htimely, List.map_append, List.nodup_append]
    simp only [hunique, List.map_cons, List.map_nil, List.nodup_singleton, true_and, List.mem_singleton, forall_eq]
    constructor
    · exact fun hne hmem => hne _ hmem rfl
    · exact fun hnot x hx heq => hnot (heq ▸ hx)

theorem transacting_start (cards : Cards) : (start cards).Transacting := fun _ _ _ _ _ h => by cases h

/-- The identities of a state are found in every later one. -/
theorem identities_exec (hs : s.Transacting) {as : List Act} (h : Run.exec next s as = some s') :
    s'.Transacting ∧ identities s.cards <+: identities s'.cards := by
  have hinv := Run.invariant (I := fun t : CardDb => t.Transacting ∧ identities s.cards <+: identities t.cards)
    (fun t a t' ht hn => by
      refine ⟨ht.1.next hn, ht.2.trans ?_⟩
      rcases identities_next ht.1 hn with ⟨-, hsame⟩ | ⟨globalId, cardId, -, hadded⟩
      · exact hsame ▸ List.prefix_rfl
      · exact hadded ▸ List.prefix_append _ _) ⟨hs, List.prefix_rfl⟩ h
  exact hinv

end CardDb

/-- **When every global id has one card.**  Calls run on a table whose global ids are unique.  At every point of the run
the global ids are unique and each keeps the card it was first given, exactly if every call that commits an INSERT does
so while no card has its global id. -/
theorem one_card_iff {cards : Cards} (hcards : GlobalIdsUnique cards) {as : List CardDb.Act} {t : CardDb}
    (hrun : Run.exec CardDb.next (CardDb.start cards) as = some t) :
    OneCardPerTask (CardDb.start cards) as ↔ Run.Meets CardDb.next CardDb.Timely (CardDb.start cards) as := by
  have hstart := CardDb.transacting_start cards
  constructor
  · intro hone
    refine Run.meets_of_prefixes fun as₁ a as₂ u has hu => ?_
    -- the step after `as₁` leaves the global ids unique, so it is timely
    rw [has] at hrun
    obtain ⟨u', hu', hrest⟩ := Run.exec_append.1 hrun
    obtain rfl := Option.some.inj (hu.symm.trans hu')
    obtain ⟨v, hv, -⟩ := Run.exec_cons.1 hrest
    have hunique : GlobalIdsUnique u.cards := (hone as₁ [] (a :: as₂) u u (by rw [has, List.append_nil]) hu rfl).1
    have hunique' : GlobalIdsUnique v.cards := by
      refine (hone as₁ [a] as₂ u v ?_ hu (Run.exec_cons.2 ⟨v, hv, rfl⟩)).1
      rw [has, List.append_assoc]
      rfl
    exact (CardDb.globalIdsUnique_next (CardDb.identities_exec hstart hu).1 hunique hv).1 hunique'
  · intro hmeets as₁ as₂ as₃ u v has hu hv
    rw [has] at hmeets
    have hprefix := (Run.meets_append.1 hmeets).1
    have hinv : v.Transacting ∧ GlobalIdsUnique v.cards := by
      refine Run.invariant_of_meets (I := fun t : CardDb => t.Transacting ∧ GlobalIdsUnique t.cards)
        (fun s a s' hs hok hn => ⟨hs.1.next hn, ?_⟩) ⟨hstart, hcards⟩ hprefix (Run.exec_append.2 ⟨u, hu, hv⟩)
      exact (CardDb.globalIdsUnique_next hs.1 hs.2 hn).2 hok
    refine ⟨hinv.2, fun globalId cardId hmem cardId' => ?_⟩
    have hmem' : (globalId, cardId) ∈ identities v.cards :=
      (CardDb.identities_exec (CardDb.identities_exec hstart hu).1 hv).2.subset hmem
    have hnodup : ((identities v.cards).map (·.1)).Nodup := by
      rw [identities_map_fst]
      exact hinv.2
    constructor
    · intro hother
      have heq := List.inj_on_of_nodup_map hnodup hother hmem' rfl
      exact congrArg Prod.snd heq
    · rintro rfl
      exact hmem'

/-! ### Two pollers -/

private def sampleTask (title : String) (version : Int) : TaskProjection where
  globalId := some "task_1"
  title := some title
  description := none
  priority := some "high"
  status := some "created"
  version := some version

/-- A loop and a manual run both look the global id up before either of them inserts. -/
private def overlapping : List CardDb.Act :=
  [.call 0 (sampleTask "Model the hub" 1), .call 1 (sampleTask "Model the hub" 1), .step 0 "", .step 1 "",
    .step 0 "0dadf614", .step 0 "", .step 1 "ffcaf548", .step 1 ""]

/-- The second process waits for the first before it looks the global id up. -/
private def oneAfterTheOther : List CardDb.Act :=
  [.call 0 (sampleTask "Model the hub" 1), .step 0 "", .step 0 "0dadf614", .step 0 "",
    .call 1 (sampleTask "Model the central hub" 2), .step 1 "", .step 1 "ffcaf548", .step 1 ""]

/-- Two overlapping calls give a task two cards. -/
theorem overlapping_duplicates :
    ¬ ∀ (as : List CardDb.Act) (t : CardDb), Run.exec CardDb.next (CardDb.start Table.empty) as = some t →
      OneCardPerTask (CardDb.start Table.empty) as := by
  intro h
  have hrun : (Run.exec CardDb.next (CardDb.start Table.empty) overlapping).any
      (fun t => (t.cards.rows.filterMap (·.globalId)) = ["task_1", "task_1"]) = true := by decide +kernel
  obtain ⟨t, ht, hids⟩ := (Option.any_eq_true _ _).1 hrun
  have hunique := (h overlapping t ht [] overlapping [] _ t (by simp) rfl ht).1
  unfold GlobalIdsUnique at hunique
  rw [of_decide_eq_true hids] at hunique
  exact absurd hunique (by decide)

/-- Where the calls do not overlap, the task keeps its card. -/
theorem one_after_the_other :
    ∃ t, Run.exec CardDb.next (CardDb.start Table.empty) oneAfterTheOther = some t ∧
      t.cards.rows.map (·.title) = ["Model the central hub"] ∧
        OneCardPerTask (CardDb.start Table.empty) oneAfterTheOther := by
  have hrun : (Run.exec CardDb.next (CardDb.start Table.empty) oneAfterTheOther).any
      (fun t => t.cards.rows.map (·.title) = ["Model the central hub"]) = true := by decide +kernel
  obtain ⟨t, ht, htitles⟩ := (Option.any_eq_true _ _).1 hrun
  have hempty : GlobalIdsUnique Table.empty := List.nodup_nil
  have hmeets : Run.Meets CardDb.next CardDb.Timely (CardDb.start Table.empty) oneAfterTheOther := by decide +kernel
  exact ⟨t, ht, of_decide_eq_true htitles, (one_card_iff hempty ht).2 hmeets⟩

end AgentOS
