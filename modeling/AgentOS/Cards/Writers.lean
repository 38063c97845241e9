import AgentOS.Cards.Projection
import AgentOS.Hub.Sql
import AgentOS.Outbox.Emit

/-!
# The calls that write cards

`create_card`, `update_card` and `complete_card`, called by any number of threads on one `cards.sqlite`.  A transaction
here is one statement, so a step takes it from its beginning to its commit; after the commit a call reads the card back
and emits its event, each in a step of its own, while other calls go on.

Four parts of the state are never read by the code: the global ids that exist, every row that a commit has written, the
events emitted, and the rows whose event was lost, since an emission is best-effort and a process may die before it.  A
later row of a global id has a larger version and loses neither the description nor the priority (`Chronicle.ordered`),
and a card is reported as it is now unless that event was lost or a call is still on its way to emit it (`Reported`).
-/

namespace AgentOS

/-- The fields that `update_card` is given. -/
structure CardEdit where
  title : Option String
  description : Option String
  priority : Option String
  status : Option String

inductive CardCall where
  | createCard (title : String) (description : Option String) (priority : String)
  | updateCard (cardId : String) (edit : CardEdit)
  | completeCard (cardId : String)

/-- What `update_card` returns an error for at once: an unknown status, or nothing to update. -/
def CardEdit.refused (edit : CardEdit) : Bool :=
  edit.status.any (· ∉ validStatuses) ||
    (edit.title.isNone && edit.description.isNone && edit.priority.isNone && edit.status.isNone)

/-- `status="Complete"`. -/
def CardEdit.complete : CardEdit where
  title := none
  description := none
  priority := none
  status := some "Complete"

/-- What the UPDATE of `update_card` makes of a row; `mint` is the id it mints for a row without one. -/
def CardEdit.apply (edit : CardEdit) (mint : Option String) (row : CardRow) : CardRow :=
  { row with
    title := edit.title.getD row.title, description := edit.description.or row.description
    priority := edit.priority.or row.priority, status := edit.status.getD row.status
    syncVersion := some (row.syncVersion.getD 0 + 1), globalId := row.globalId.or mint }

theorem CardEdit.apply_cardId (edit : CardEdit) (mint : Option String) (row : CardRow) :
    (edit.apply mint row).cardId = row.cardId := rfl

/-- `UPDATE cards SET … WHERE card_id = ?`. -/
def CardEdit.update (edit : CardEdit) (mint : Option String) (cardId : String) (cards : Cards) : Cards :=
  cards.update (fun row => row.cardId = cardId) (edit.apply mint) (edit.apply_cardId mint)

/-- `new_id(TASK)`. -/
def newTaskId (ulid : String) : String := "task_" ++ ulid

theorem newTaskId_ne_empty (ulid : String) : newTaskId ulid ≠ "" := by
  intro h
  have hlist := congrArg String.toList h
  rw [newTaskId, String.toList_append] at hlist
  exact absurd hlist (by simp)

/-- The row of a new card. -/
def newCardRow (cardId title : String) (description : Option String) (priority : String) (mint : Option String) :
    CardRow where
  cardId := cardId
  title := title
  description := description
  status := "Created"
  priority := some priority
  globalId := mint
  syncVersion := some 1

/-! ### The events -/

/-- `TASK_CREATED`, `TASK_UPDATED` and `TASK_COMPLETED`. -/
def taskEventTypes : List String := ["task.created", "task.updated", "task.completed"]

/-- `_task_payload`. -/
def taskPayload (card : CardRow) : List (String × Json) :=
  [("card_id", .str card.cardId), ("title", .str card.title), ("status", .str card.status),
      ("priority", optStr card.priority)] ++
    (card.globalId.map fun globalId => ("global_id", Json.str globalId)).toList ++
    (card.syncVersion.map fun version => ("version", Json.int version)).toList ++
    (card.description.map fun description => ("description", Json.str description)).toList

section

variable (card : CardRow)

theorem get_taskPayload_title : Json.get (taskPayload card) "title" = .str card.title := by
  simp [taskPayload, Json.get, List.lookup_cons]

theorem get_taskPayload_status : Json.get (taskPayload card) "status" = .str card.status := by
  simp [taskPayload, Json.get, List.lookup_cons]

theorem get_taskPayload_priority : Json.get (taskPayload card) "priority" = optStr card.priority := by
  simp [taskPayload, Json.get, List.lookup_cons]

theorem get_taskPayload_globalId : Json.get (taskPayload card) "global_id" = optStr card.globalId := by
  unfold taskPayload
  cases card.globalId <;> cases card.syncVersion <;> cases card.description <;>
    simp [Json.get, List.lookup_cons, optStr]

theorem get_taskPayload_version {n : Int} (h : card.syncVersion = some n) :
    Json.get (taskPayload card) "version" = .int n := by
  unfold taskPayload
  cases card.globalId <;> simp [Json.get, List.lookup_cons, h]

theorem get_taskPayload_description : Json.get (taskPayload card) "description" = optStr card.description := by
  unfold taskPayload
  cases card.globalId <;> cases card.syncVersion <;> cases card.description <;>
    simp [Json.get, List.lookup_cons, optStr]

end

/-- `_emit_task`: the envelope that is appended to the outbox. -/
def emitTask (context : EmitContext) (eventType : String) (card : CardRow) (eventId : String) (now : Int) :
    EventEnvelope where
  eventId := eventId
  eventType := eventType
  occurredAt := now
  machineId := context.machineId
  agentId := none
  sessionId := none
  projectId := context.projectId
  repositoryId := some context.repositoryId
  taskId := some card.cardId
  payload := taskPayload card
  schemaVersion := 1

/-! ### Calls in progress -/

/-- Where a call is: the statement it runs next, or the event it emits next. -/
inductive WriterPc where
  | idle
  | insert (row : CardRow)
  | update (cardId : String) (edit : CardEdit) (mint : Option String) (completing : Bool)
  | getCard (cardId : String) (completing : Bool)
  | emit (eventType : String) (card : CardRow) (completing : Bool)

/-- The row that a call has written and not yet reported. -/
def WriterPc.unreported (cards : Cards) : WriterPc → Option CardRow
  | .getCard cardId _ => cards.lookup cardId
  | .emit _ card _ => some card
  | _ => none

/-- The database file and the calls, with the global ids that exist, the rows written, the events emitted and the rows
whose event was lost. -/
structure Writers where
  cards : Cards
  calls : Nat → WriterPc
  globalIds : List String
  history : List CardRow
  emitted : List EventEnvelope
  lost : List CardRow

namespace Writers

/-- No card has been created; `globalIds` exist elsewhere. -/
def start (globalIds : List String) : Writers where
  cards := Table.empty
  calls _ := .idle
  globalIds := globalIds
  history := []
  emitted := []
  lost := []

def goto (w : Writers) (i : Nat) (pc : WriterPc) : Writers := { w with calls := Function.update w.calls i pc }

/-- `_mint_global_id`, whose id exists from then on. -/
def mint (w : Writers) (globalId : Option String) : Writers := { w with globalIds := globalId.toList ++ w.globalIds }

/-- A call up to its first statement; `newCardId` is what `uuid.uuid4()` gives, and `globalId` what is minted. -/
def beginCall (w : Writers) (i : Nat) (newCardId : String) (globalId : Option String) : CardCall → Writers
  | .createCard title description priority =>
    (w.mint globalId).goto i (.insert (newCardRow newCardId title description priority globalId))
  | .updateCard cardId edit =>
    if edit.refused then w else (w.mint globalId).goto i (.update cardId edit globalId false)
  | .completeCard cardId => (w.mint globalId).goto i (.update cardId CardEdit.complete globalId true)

/-- What call `i` was to report is lost. -/
def lose (w : Writers) (i : Nat) : Writers := { w with lost := ((w.calls i).unreported w.cards).toList ++ w.lost }

inductive Act where
  | call (i : Nat) (call : CardCall) (newCardId : String) (ulid : Option String)
  | step (i : Nat) (eventId : String) (now : Int)
  | fail (i : Nat)
  | crash (i : Nat)

variable (context : EmitContext)

/-- One step: a call begins with a new ULID (or none where minting is unavailable), runs its next statement or emits its
event under an id that did not exist; its statement fails, which ends it, or its emission, which is swallowed; or its
process dies. -/
def next (w : Writers) : Act → Option Writers
  | .call i call newCardId ulid => match w.calls i with
    | .idle =>
      let globalId := ulid.map newTaskId
      if globalId.all (· ∉ w.globalIds) then some (w.beginCall i newCardId globalId call) else none
    | _ => none
  | .step i eventId now => match w.calls i with
    | .idle => none
    | .insert row => match w.cards.insert row with
      | some cards =>
        some ({ w with cards := cards, history := row :: w.history }.goto i (.emit "task.created" row false))
      | none => some (w.goto i .idle)
    | .update cardId edit mint completing =>
      let updated := (w.cards.lookup cardId).map (edit.apply mint)
      some ({ w with
        cards := edit.update mint cardId w.cards
        history := updated.toList ++ w.history }.goto i (.getCard cardId completing))
    | .getCard cardId completing => match w.cards.lookup cardId with
      | none => some (w.goto i .idle)
      | some card => some (w.goto i (.emit "task.updated" card completing))
    | .emit eventType card completing =>
      if eventId ∈ w.emitted.map (·.eventId) then none
      else some ({ w with emitted := w.emitted ++ [emitTask context eventType card eventId now] }.goto i
        (if completing then .emit "task.completed" card false else .idle))
  | .fail i => match w.calls i with
    | .idle => none
    | .emit _ card true => some ((w.lose i).goto i (.emit "task.completed" card false))
    | _ => some ((w.lose i).goto i .idle)
  | .crash i => some ((w.lose i).goto i .idle)

/-- No call is in progress. -/
def Idle (w : Writers) : Prop := ∀ i, w.calls i = .idle

/-- No card is left as an event told that was lost. -/
def NoneLost (w : Writers) : Prop := ∀ row ∈ w.cards.rows, row ∉ w.lost

end Writers

/-! ### The UPDATE of `update_card` -/

theorem CardEdit.update_of_lookup_none {cards : Cards} {cardId : String} (edit : CardEdit) (mint : Option String)
    (h : cards.lookup cardId = none) : edit.update mint cardId cards = cards := by
  refine Table.ext ?_
  have hrows : ∀ row ∈ cards.rows,
      (if decide (row.cardId = cardId) = true then edit.apply mint row else row) = row := by
    intro row hrow
    rw [if_neg (by simpa using Table.lookup_eq_none.1 h row hrow)]
  exact (List.map_congr_left hrows).trans (List.map_id' _)

theorem CardEdit.update_of_mem {cards : Cards} {row : CardRow} (edit : CardEdit) (mint : Option String)
    (h : row ∈ cards.rows) : edit.update mint row.cardId cards = cards.put (edit.apply mint row) :=
  Table.update_eq_put (edit.apply_cardId mint) h (decide_eq_true rfl) fun _ hx hcard =>
    Table.eq_of_key hx h (of_decide_eq_true hcard)

/-! ### What the rows written say of each other -/

/-- The version of a row, 0 where it has none. -/
def CardRow.version (row : CardRow) : Int := row.syncVersion.getD 0

/-- `h'` does not take back what the older row `h` of its card says. -/
structure CardRow.LeadsTo (h h' : CardRow) : Prop where
  agree : h.version = h'.version → h = h'
  keeps : h.version ≤ h'.version →
    (h'.description = none → h.description = none) ∧ (h'.priority = none → h.priority = none)

/-- A global id that a call has minted; the ids of `elsewhere` were there before. -/
structure MintedTask (elsewhere globalIds : List String) (globalId : String) : Prop where
  known : globalId ∈ globalIds
  new : globalId ∉ elsewhere
  ne_empty : globalId ≠ ""

/-- The cards against all the rows written. -/
structure Chronicle (elsewhere : List String) (cards : Cards) (history : List CardRow) (globalIds : List String) :
    Prop where
  current : ∀ row ∈ cards.rows, row ∈ history
  newest : ∀ h ∈ history, h.globalId ≠ none →
    ∃ row ∈ cards.rows, row.globalId = h.globalId ∧ h.version ≤ row.version
  ordered : ∀ h ∈ history, ∀ h' ∈ history, h.globalId ≠ none → h.globalId = h'.globalId → h.LeadsTo h'
  valid : ∀ h ∈ history, h.status ∈ validStatuses ∧ ∃ n, h.syncVersion = some n ∧ 1 ≤ n
  unique : ∀ row ∈ cards.rows, ∀ row' ∈ cards.rows, row.globalId ≠ none → row.globalId = row'.globalId →
    row = row'
  minted : ∀ h ∈ history, ∀ globalId ∈ h.globalId, MintedTask elsewhere globalIds globalId

/-- A row that may be written: it is newer than every row of its global id and keeps what the newest of them says. -/
structure Writes (elsewhere : List String) (cards : Cards) (history : List CardRow) (globalIds : List String)
    (row : CardRow) : Prop where
  valid : row.status ∈ validStatuses ∧ ∃ n, row.syncVersion = some n ∧ 1 ≤ n
  newer : ∀ h ∈ history, h.globalId ≠ none → h.globalId = row.globalId → h.version < row.version ∧
    (row.description = none → h.description = none) ∧ (row.priority = none → h.priority = none)
  others : ∀ x ∈ cards.rows, x.cardId ≠ row.cardId → x.globalId ≠ none → x.globalId ≠ row.globalId
  replaces : ∀ x ∈ cards.rows, x.cardId = row.cardId → x.globalId ≠ none → x.globalId = row.globalId
  minted : ∀ globalId ∈ row.globalId, MintedTask elsewhere globalIds globalId

section

variable {cards cards' : Cards} {history : List CardRow} {elsewhere globalIds : List String} {row : CardRow}

theorem Chronicle.put (h : Chronicle elsewhere cards history globalIds)
    (hrow : Writes elsewhere cards history globalIds row) :
    Chronicle elsewhere (cards.put row) (row :: history) globalIds where
  current := by
    intro x hx
    rcases Table.mem_put.1 hx with rfl | ⟨hx, -⟩
    · exact List.mem_cons_self
    · exact List.mem_cons_of_mem _ (h.current x hx)
  newest := by
    intro x hx hgid
    rcases List.mem_cons.1 hx with rfl | hx
    · exact ⟨x, Table.mem_put.2 (Or.inl rfl), rfl, Int.le_refl _⟩
    · obtain ⟨y, hy, hygid, hle⟩ := h.newest x hx hgid
      by_cases hcard : y.cardId = row.cardId
      · have hrowgid : x.globalId = row.globalId := hygid ▸ hrow.replaces y hy hcard (hygid ▸ hgid)
        exact ⟨row, Table.mem_put.2 (Or.inl rfl), hrowgid.symm,
          Int.le_of_lt (hrow.newer x hx hgid hrowgid).1⟩
      · exact ⟨y, Table.mem_put.2 (Or.inr ⟨hy, hcard⟩), hygid, hle⟩
  ordered := by
    intro x hx y hy hgid heq
    rcases List.mem_cons.1 hx with rfl | hx
    · rcases List.mem_cons.1 hy with hy | hy
      · exact hy ▸ ⟨fun _ => rfl, fun _ => ⟨id, id⟩⟩
      · -- an older row follows in the list
        have hlt := (hrow.newer y hy (heq ▸ hgid) heq.symm).1
        exact ⟨fun h => by omega, fun h => by omega⟩
    · rcases List.mem_cons.1 hy with hy | hy
      · obtain ⟨hlt, hkeeps⟩ := hrow.newer x hx hgid (hy ▸ heq)
        rw [hy]
        exact ⟨fun h => by omega, fun _ => hkeeps⟩
      · exact h.ordered x hx y hy hgid heq
  valid := by
    intro x hx
    rcases List.mem_cons.1 hx with rfl | hx
    · exact hrow.valid
    · exact h.valid x hx
  unique := by
    intro x hx y hy hgid heq
    rcases Table.mem_put.1 hx with rfl | ⟨hx, hxcard⟩
    · rcases Table.mem_put.1 hy with rfl | ⟨hy, hycard⟩
      · rfl
      · exact absurd heq.symm (hrow.others y hy hycard (heq ▸ hgid))
    · rcases Table.mem_put.1 hy with hy | ⟨hy, hycard⟩
      · exact absurd (hy ▸ heq) (hrow.others x hx hxcard hgid)
      · exact h.unique x hx y hy hgid heq
  minted := by
    intro x hx
    rcases List.mem_cons.1 hx with rfl | hx
    · exact hrow.minted
    · exact h.minted x hx

theorem Chronicle.mint (h : Chronicle elsewhere cards history globalIds) (globalId : Option String) :
    Chronicle elsewhere cards history (globalId.toList ++ globalIds) :=
  ⟨h.current, h.newest, h.ordered, h.valid, h.unique,
    fun x hx g hg =>
      ⟨List.mem_append_right _ (h.minted x hx g hg).known, (h.minted x hx g hg).new, (h.minted x hx g hg).ne_empty⟩⟩

/-- The row of a new card, its global id new as well. -/
theorem writes_insert (h : Chronicle elsewhere cards history globalIds)
    (hvalid : row.status ∈ validStatuses ∧ ∃ n, row.syncVersion = some n ∧ 1 ≤ n)
    (hnew : ∀ globalId ∈ row.globalId, MintedTask elsewhere globalIds globalId ∧
      ∀ h ∈ history, h.globalId ≠ some globalId)
    (hinsert : cards.insert row = some cards') : Writes elsewhere cards history globalIds row := by
  have hgid : ∀ x ∈ history, x.globalId ≠ none → x.globalId ≠ row.globalId := by
    intro x hx hsome heq
    obtain ⟨g, hg⟩ := Option.ne_none_iff_exists'.1 hsome
    exact (hnew g (heq ▸ hg)).2 x hx hg
  refine ⟨hvalid, fun x hx hsome heq => absurd heq (hgid x hx hsome),
    fun x hx _ hsome => hgid x (h.current x hx) hsome, fun x hx hcard => ?_, fun g hg => (hnew g hg).1⟩
  have hfree : cards.lookup row.cardId = none := by
    rw [← Option.not_isSome_iff_eq_none, ← Table.insert_eq_none, hinsert]
    simp
  exact absurd hcard (Table.lookup_eq_none.1 hfree x hx)

/-- What the UPDATE makes of a card. -/
theorem writes_update (h : Chronicle elsewhere cards history globalIds) {edit : CardEdit} {mint : Option String}
    (hstatus : ∀ s ∈ edit.status, s ∈ validStatuses)
    (hnew : ∀ globalId ∈ mint, MintedTask elsewhere globalIds globalId ∧
      ∀ h ∈ history, h.globalId ≠ some globalId)
    (hrow : row ∈ cards.rows) : Writes elsewhere cards history globalIds (edit.apply mint row) := by
  obtain ⟨hvalid, n, hn, hpos⟩ := h.valid row (h.current row hrow)
  have hversion : (edit.apply mint row).version = row.version + 1 := rfl
  -- a row of the new global id is a row of the card before, for a minted one is new
  have hsame : ∀ x ∈ history, x.globalId ≠ none → x.globalId = (edit.apply mint row).globalId →
      x.globalId = row.globalId := by
    intro x hx hsome heq
    cases hgid : row.globalId with
    | some g => simpa [CardEdit.apply, hgid] using heq
    | none =>
      have hmint : x.globalId = mint := by simpa [CardEdit.apply, hgid] using heq
      obtain ⟨g, hg⟩ := Option.ne_none_iff_exists'.1 hsome
      exact absurd hg ((hnew g (hmint ▸ hg)).2 x hx)
  refine ⟨⟨?_, n + 1, ?_, by omega⟩, fun x hx hsome heq => ?_, fun x hx hcard hsome heq => ?_,
    fun x hx hcard hsome => ?_, fun g hg => ?_⟩
  · cases hs : edit.status with
    | none => simpa [CardEdit.apply, hs] using hvalid
    | some s => simpa [CardEdit.apply, hs] using hstatus s hs
  · simp [CardEdit.apply, hn]
  · have hxrow := hsame x hx hsome heq
    obtain ⟨y, hy, hygid, hle⟩ := h.newest x hx hsome
    obtain rfl := h.unique y hy row hrow (hygid ▸ hsome) (hygid.trans hxrow)
    have hkeeps := (h.ordered x hx y (h.current y hy) hsome hygid.symm).keeps hle
    refine ⟨by omega, fun hdesc => hkeeps.1 ?_, fun hprio => hkeeps.2 ?_⟩
    · exact (Option.or_eq_none_iff.1 hdesc).2
    · exact (Option.or_eq_none_iff.1 hprio).2
  · have hxrow := hsame x (h.current x hx) hsome heq
    obtain rfl := h.unique x hx row hrow hsome hxrow
    exact hcard rfl
  · obtain rfl := Table.eq_of_key hx hrow hcard
    obtain ⟨g, hg⟩ := Option.ne_none_iff_exists'.1 hsome
    simp [CardEdit.apply, hg]
  · cases hgid : row.globalId with
    | some g' =>
      have : (edit.apply mint row).globalId = some g' := by simp [CardEdit.apply, hgid]
      obtain rfl := Option.some.inj (this.symm.trans hg)
      exact h.minted row (h.current row hrow) _ hgid
    | none =>
      have : (edit.apply mint row).globalId = mint := by simp [CardEdit.apply, hgid]
      exact (hnew g (this ▸ hg)).1

end

/-! ### The calls against the rows written -/

/-- The global id that a call writes into a card that has none. -/
def WriterPc.mint? : WriterPc → Option String
  | .insert row => row.globalId
  | .update _ _ mint _ => mint
  | _ => none

/-- The call goes on to emit an event that reports this row, if it is still there. -/
def WriterPc.Reports (pc : WriterPc) (row : CardRow) : Prop :=
  (∃ completing, pc = .getCard row.cardId completing) ∨
    ∃ eventType completing, pc = .emit eventType row completing

/-- What holds where a call is. -/
def WriterPc.Sound (history : List CardRow) : WriterPc → Prop
  | .insert row => row.status ∈ validStatuses ∧ ∃ n, row.syncVersion = some n ∧ 1 ≤ n
  | .update _ edit _ _ => ∀ s ∈ edit.status, s ∈ validStatuses
  | .emit eventType card _ => eventType ∈ taskEventTypes ∧ card ∈ history
  | _ => True

namespace Writers

/-- An event has told what a row says, or was lost. -/
def Told (w : Writers) (row : CardRow) : Prop := (∃ env ∈ w.emitted, env.payload = taskPayload row) ∨ row ∈ w.lost

/-- An event has told what a card says now or was lost, or a call is on its way to emit it. -/
def Reported (w : Writers) (row : CardRow) : Prop := w.Told row ∨ ∃ i, (w.calls i).Reports row

structure Inv (context : EmitContext) (elsewhere : List String) (w : Writers) : Prop where
  known : elsewhere ⊆ w.globalIds
  chronicle : Chronicle elsewhere w.cards w.history w.globalIds
  calls : ∀ i, (w.calls i).Sound w.history
  mints : ∀ i, ∀ globalId ∈ (w.calls i).mint?, MintedTask elsewhere w.globalIds globalId ∧
    (∀ h ∈ w.history, h.globalId ≠ some globalId) ∧ ∀ j, (w.calls j).mint? = some globalId → j = i
  reported : ∀ row ∈ w.cards.rows, w.Reported row
  emitted : ∀ env ∈ w.emitted, ∃ eventType ∈ taskEventTypes, ∃ card ∈ w.history, ∃ eventId now,
    env = emitTask context eventType card eventId now
  eventIds : (w.emitted.map (·.eventId)).Nodup

theorem inv_start (context : EmitContext) (globalIds : List String) : (start globalIds).Inv context globalIds where
  known := List.Subset.refl _
  chronicle := by
    refine ⟨fun _ h => ?_, fun _ h => ?_, fun _ h => ?_, fun _ h => ?_, fun _ h => ?_, fun _ h => ?_⟩ <;> cases h
  calls _ := trivial
  mints _ _ h := by cases h
  reported _ h := by cases h
  emitted _ h := by cases h
  eventIds := List.nodup_nil

variable {context : EmitContext} {elsewhere : List String} {w w' : Writers} {i : Nat} {pc : WriterPc} {row : CardRow}

@[simp] theorem goto_calls_self (w : Writers) (i : Nat) (pc : WriterPc) : (w.goto i pc).calls i = pc :=
  Function.update_self _ _ _

theorem goto_calls_ne (w : Writers) {i j : Nat} (h : j ≠ i) (pc : WriterPc) : (w.goto i pc).calls j = w.calls j :=
  Function.update_of_ne h _ _

theorem sound_mono {history history' : List CardRow} (hsub : history ⊆ history') (h : pc.Sound history) :
    pc.Sound history' := by
  cases pc with
  | emit eventType card completing => exact ⟨h.1, hsub h.2⟩
  | _ => exact h

/-- A call goes on without writing: what it was to report it still reports, or has reported. -/
private theorem Inv.goto (h : w.Inv context elsewhere) (hsound : pc.Sound w.history) (hmint : pc.mint? = none)
    (hreports : ∀ row ∈ w.cards.rows, (w.calls i).Reports row →
      pc.Reports row ∨ w.Told row) : (w.goto i pc).Inv context elsewhere where
  known := h.known
  chronicle := h.chronicle
  calls := by
    intro j
    by_cases hj : j = i
    · subst hj
      rwa [goto_calls_self]
    · rw [goto_calls_ne w hj]
      exact h.calls j
  mints := by
    intro j g hg
    by_cases hj : j = i
    · subst hj
      rw [goto_calls_self, hmint] at hg
      cases hg
    · rw [goto_calls_ne w hj] at hg
      obtain ⟨hmem, hhistory, hone⟩ := h.mints j g hg
      refine ⟨hmem, hhistory, fun k hk => ?_⟩
      by_cases hki : k = i
      · subst hki
        rw [goto_calls_self, hmint] at hk
        cases hk
      · rw [goto_calls_ne w hki] at hk
        exact hone k hk
  reported := by
    intro row hrow
    rcases h.reported row hrow with htold | ⟨j, hj⟩
    · exact Or.inl htold
    · by_cases hji : j = i
      · subst hji
        rcases hreports row hrow hj with hpc | htold
        · exact Or.inr ⟨j, by rwa [goto_calls_self]⟩
        · exact Or.inl htold
      · exact Or.inr ⟨j, by rwa [goto_calls_ne w hji]⟩
  emitted := h.emitted
  eventIds := h.eventIds

/-- A call begins. -/
private theorem Inv.begin (h : w.Inv context elsewhere) {globalId : Option String}
    (hfresh : ∀ g ∈ globalId, g ∉ w.globalIds ∧ g ≠ "") (hidle : w.calls i = .idle) (hsound : pc.Sound w.history)
    (hmint : pc.mint? = globalId) :
    ((w.mint globalId).goto i pc).Inv context elsewhere where
  known := fun g hg => List.mem_append_right _ (h.known hg)
  chronicle := h.chronicle.mint globalId
  calls := by
    intro j
    by_cases hj : j = i
    · subst hj
      rwa [goto_calls_self]
    · rw [goto_calls_ne _ hj]
      exact h.calls j
  mints := by
    intro j g hg
    by_cases hj : j = i
    · subst hj
      rw [goto_calls_self, hmint] at hg
      obtain ⟨hnew, hne⟩ := hfresh g hg
      refine ⟨⟨List.mem_append_left _ (Option.mem_toList.2 hg), fun hold => hnew (h.known hold), hne⟩,
        fun x hx hxg => ?_, fun k hk => ?_⟩
      · exact hnew (h.chronicle.minted x hx g hxg).known
      · by_contra hkj
        rw [goto_calls_ne _ hkj] at hk
        exact hnew (h.mints k g hk).1.known
    · rw [goto_calls_ne _ hj] at hg
      obtain ⟨⟨hmem, hnew, hne⟩, hhistory, hone⟩ := h.mints j g hg
      refine ⟨⟨List.mem_append_right _ hmem, hnew, hne⟩, hhistory, fun k hk => ?_⟩
      by_cases hki : k = i
      · subst hki
        rw [goto_calls_self, hmint] at hk
        exact absurd hmem (hfresh g hk).1
      · rw [goto_calls_ne _ hki] at hk
        exact hone k hk
  reported := by
    intro row hrow
    rcases h.reported row hrow with htold | ⟨j, hj⟩
    · exact Or.inl htold
    · have hji : j ≠ i := by
        rintro rfl
        rw [hidle] at hj
        rcases hj with ⟨_, hj⟩ | ⟨_, _, hj⟩ <;> cases hj
      exact Or.inr ⟨j, by rwa [goto_calls_ne _ hji]⟩
  emitted := h.emitted
  eventIds := h.eventIds

/-- A call writes a row and goes on to report it. -/
private theorem Inv.write (h : w.Inv context elsewhere) (hrow : Writes elsewhere w.cards w.history w.globalIds row)
    (hsound : pc.Sound (row :: w.history)) (hmint : pc.mint? = none) (hreports : pc.Reports row)
    (hsilent : ∀ x, ¬ (w.calls i).Reports x)
    (howner : ∀ g ∈ row.globalId, (w.calls i).mint? = some g ∨ ∃ x ∈ w.history, x.globalId = some g) :
    ({ w with cards := w.cards.put row, history := row :: w.history }.goto i pc).Inv context elsewhere where
  known := h.known
  chronicle := h.chronicle.put hrow
  calls := by
    intro j
    by_cases hj : j = i
    · subst hj
      rwa [goto_calls_self]
    · rw [goto_calls_ne _ hj]
      exact sound_mono (List.subset_cons_self _ _) (h.calls j)
  mints := by
    intro j g hg
    by_cases hj : j = i
    · subst hj
      rw [goto_calls_self, hmint] at hg
      cases hg
    · rw [goto_calls_ne _ hj] at hg
      obtain ⟨hmem, hhistory, hone⟩ := h.mints j g hg
      refine ⟨hmem, fun x hx hxg => ?_, fun k hk => ?_⟩
      · rcases List.mem_cons.1 hx with rfl | hx
        · rcases howner g hxg with hi | ⟨y, hy, hyg⟩
          · exact hj (hone i hi).symm
          · exact hhistory y hy hyg
        · exact hhistory x hx hxg
      · by_cases hki : k = i
        · subst hki
          rw [goto_calls_self, hmint] at hk
          cases hk
        · rw [goto_calls_ne _ hki] at hk
          exact hone k hk
  reported := by
    intro x hx
    rcases Table.mem_put.1 hx with rfl | ⟨hx, -⟩
    · exact Or.inr ⟨i, by rwa [goto_calls_self]⟩
    · rcases h.reported x hx with htold | ⟨j, hj⟩
      · exact Or.inl htold
      · have hji : j ≠ i := fun hji => hsilent x (hji ▸ hj)
        exact Or.inr ⟨j, by rwa [goto_calls_ne _ hji]⟩
  emitted := by
    intro env henv
    obtain ⟨eventType, htype, card, hcard, rest⟩ := h.emitted env henv
    exact ⟨eventType, htype, card, List.mem_cons_of_mem _ hcard, rest⟩
  eventIds := h.eventIds

/-- A call emits its event. -/
private theorem Inv.emit (h : w.Inv context elsewhere) {eventType eventId : String} (now : Int) {completing : Bool}
    (hpc : w.calls i = .emit eventType row completing) (hnew : eventId ∉ w.emitted.map (·.eventId)) :
    ({ w with emitted := w.emitted ++ [emitTask context eventType row eventId now] } : Writers).Inv context
      elsewhere where
  known := h.known
  chronicle := h.chronicle
  calls := h.calls
  mints := h.mints
  reported := by
    intro x hx
    rcases h.reported x hx with (⟨env, henv, hpayload⟩ | hlost) | hcall
    · exact Or.inl (Or.inl ⟨env, List.mem_append_left _ henv, hpayload⟩)
    · exact Or.inl (Or.inr hlost)
    · exact Or.inr hcall
  emitted := by
    intro env henv
    rcases List.mem_append.1 henv with henv | henv
    · exact h.emitted env henv
    · have hsound := h.calls i
      rw [hpc] at hsound
      exact ⟨eventType, hsound.1, row, hsound.2, eventId, now, List.mem_singleton.1 henv⟩
  eventIds := by
    rw [List.map_append, List.nodup_append]
    refine ⟨h.eventIds, List.nodup_singleton _, fun x hx y hy hxy => ?_⟩
    obtain rfl : y = eventId := List.mem_singleton.1 hy
    exact hnew (hxy ▸ hx)

/-- What a call was to report is lost. -/
private theorem Inv.lose (h : w.Inv context elsewhere) (i : Nat) : (w.lose i).Inv context elsewhere where
  known := h.known
  chronicle := h.chronicle
  calls := h.calls
  mints := h.mints
  reported := by
    intro x hx
    rcases h.reported x hx with (henv | hlost) | hcall
    · exact Or.inl (Or.inl henv)
    · exact Or.inl (Or.inr (List.mem_append_right _ hlost))
    · exact Or.inr hcall
  emitted := h.emitted
  eventIds := h.eventIds

/-- A row that a call was to report is among those that are lost with it. -/
theorem told_lose (h : (w.calls i).Reports row) (hrow : row ∈ w.cards.rows) : (w.lose i).Told row := by
  refine Or.inr (List.mem_append_left _ (Option.mem_toList.2 ?_))
  rcases h with ⟨_, hpc⟩ | ⟨_, _, hpc⟩
  · rw [hpc]
    exact Table.lookup_eq_some.2 ⟨hrow, rfl⟩
  · rw [hpc]
    rfl

/-- **The step lemma of the writers.** -/
theorem inv_next (h : w.Inv context elsewhere) {a : Act} (hnext : next context w a = some w') :
    w'.Inv context elsewhere := by
  cases a with
  | call i call newCardId ulid =>
    simp only [next] at hnext
    split at hnext
    case h_2 => cases hnext
    case h_1 hidle =>
      split at hnext
      case isFalse => cases hnext
      case isTrue hall =>
        obtain rfl := Option.some.inj hnext
        have hfresh : ∀ g ∈ ulid.map newTaskId, g ∉ w.globalIds ∧ g ≠ "" := by
          intro g hg
          obtain ⟨u, hu, rfl⟩ := Option.map_eq_some_iff.1 hg
          rw [hu] at hall
          exact ⟨by simpa using hall, newTaskId_ne_empty u⟩
        cases call with
        | createCard title description priority =>
          have hvalid : "Created" ∈ validStatuses := by decide
          exact h.begin hfresh hidle ⟨hvalid, 1, rfl, Int.le_refl 1⟩ rfl
        | updateCard cardId edit =>
          rw [beginCall]
          by_cases hrefused : edit.refused = true
          · rw [if_pos hrefused]
            exact h
          · rw [if_neg hrefused]
            refine h.begin hfresh hidle (fun s hs => ?_) rfl
            by_contra hbad
            refine hrefused ?_
            rw [CardEdit.refused, Option.mem_def.1 hs, Option.any_some, Bool.or_eq_true]
            exact Or.inl (decide_eq_true hbad)
        | completeCard cardId =>
          refine h.begin hfresh hidle (fun s hs => ?_) rfl
          obtain rfl := Option.some.inj hs
          decide
  | step i eventId now =>
    have hsound := h.calls i
    have hmints := h.mints i
    simp only [next] at hnext
    split at hnext
    case h_1 => cases hnext
    case h_2 row hpc =>
      rw [hpc] at hsound hmints
      cases hinsert : w.cards.insert row with
      | none =>
        rw [hinsert] at hnext
        obtain rfl := Option.some.inj hnext
        refine h.goto trivial rfl fun x _ hx => ?_
        rw [hpc] at hx
        rcases hx with ⟨_, hx⟩ | ⟨_, _, hx⟩ <;> cases hx
      | some cards =>
        rw [hinsert] at hnext
        obtain rfl := Option.some.inj hnext
        have hwrites := writes_insert h.chronicle hsound
          (fun g hg => ⟨(hmints g hg).1, (hmints g hg).2.1⟩) hinsert
        rw [Table.insert_eq_put hinsert]
        refine h.write hwrites ⟨by decide, List.mem_cons_self⟩ rfl (Or.inr ⟨_, _, rfl⟩) (fun x hx => ?_)
          fun g hg => Or.inl (by rw [hpc]; exact hg)
        rw [hpc] at hx
        rcases hx with ⟨_, hx⟩ | ⟨_, _, hx⟩ <;> cases hx
    case h_3 cardId edit mint completing hpc =>
      rw [hpc] at hsound hmints
      have hsilent : ∀ x, ¬ (w.calls i).Reports x := by
        intro x hx
        rw [hpc] at hx
        rcases hx with ⟨_, hx⟩ | ⟨_, _, hx⟩ <;> cases hx
      obtain rfl := Option.some.inj hnext
      cases hlookup : w.cards.lookup cardId with
      | none =>
        rw [CardEdit.update_of_lookup_none edit mint hlookup]
        exact h.goto trivial rfl fun x _ hx => absurd hx (hsilent x)
      | some row =>
        obtain ⟨hrow, rfl⟩ := Table.lookup_eq_some.1 hlookup
        have hwrites := writes_update h.chronicle hsound (fun g hg => ⟨(hmints g hg).1, (hmints g hg).2.1⟩) hrow
        rw [CardEdit.update_of_mem edit mint hrow]
        refine h.write hwrites trivial rfl (Or.inl ⟨_, rfl⟩) hsilent fun g hg => ?_
        cases hgid : row.globalId with
        | some g' =>
          have : (edit.apply mint row).globalId = some g' := by simp [CardEdit.apply, hgid]
          exact Or.inr ⟨row, h.chronicle.current row hrow, hgid.trans (this.symm.trans hg)⟩
        | none =>
          have : (edit.apply mint row).globalId = mint := by simp [CardEdit.apply, hgid]
          exact Or.inl (by rw [hpc]; exact this.symm.trans hg)
    case h_4 cardId completing hpc =>
      cases hlookup : w.cards.lookup cardId with
      | none =>
        rw [hlookup] at hnext
        obtain rfl := Option.some.inj hnext
        refine h.goto trivial rfl fun x hx hreports => ?_
        rw [hpc] at hreports
        rcases hreports with ⟨_, heq⟩ | ⟨_, _, heq⟩
        · obtain ⟨rfl, -⟩ := WriterPc.getCard.inj heq
          exact absurd rfl (Table.lookup_eq_none.1 hlookup x hx)
        · cases heq
      | some card =>
        rw [hlookup] at hnext
        obtain rfl := Option.some.inj hnext
        obtain ⟨hcard, hkey⟩ := Table.lookup_eq_some.1 hlookup
        refine h.goto ⟨by decide, h.chronicle.current card hcard⟩ rfl fun x hx hreports => ?_
        rw [hpc] at hreports
        rcases hreports with ⟨_, heq⟩ | ⟨_, _, heq⟩
        · obtain ⟨rfl, -⟩ := WriterPc.getCard.inj heq
          obtain rfl := Table.eq_of_key hx hcard hkey.symm
          exact Or.inl (Or.inr ⟨_, _, rfl⟩)
        · cases heq
    case h_5 eventType card completing hpc =>
      split at hnext
      case isTrue => cases hnext
      case isFalse hnew =>
        obtain rfl := Option.some.inj hnext
        rw [hpc] at hsound
        refine (h.emit now hpc hnew).goto ?_ ?_ fun x _ hreports => ?_
        · cases completing with
          | true => exact ⟨by decide, hsound.2⟩
          | false => trivial
        · cases completing <;> rfl
        · refine Or.inr (Or.inl ⟨_, List.mem_append_right _ (List.mem_singleton_self _), ?_⟩)
          change (w.calls i).Reports x at hreports
          rw [hpc] at hreports
          rcases hreports with ⟨_, heq⟩ | ⟨_, _, heq⟩
          · cases heq
          · obtain ⟨-, rfl, -⟩ := WriterPc.emit.inj heq
            rfl
  | fail i =>
    have hsound := h.calls i
    simp only [next] at hnext
    split at hnext
    case h_1 => cases hnext
    case h_2 eventType card hpc =>
      obtain rfl := Option.some.inj hnext
      rw [hpc] at hsound
      exact (h.lose i).goto ⟨by decide, hsound.2⟩ rfl fun x hx hreports => Or.inr (told_lose hreports hx)
    case h_3 =>
      obtain rfl := Option.some.inj hnext
      exact (h.lose i).goto trivial rfl fun x hx hreports => Or.inr (told_lose hreports hx)
  | crash i =>
    obtain rfl := Option.some.inj hnext
    exact (h.lose i).goto trivial rfl fun x hx hreports => Or.inr (told_lose hreports hx)

/-- A step only adds to the events and to the rows written. -/
theorem next_mono {a : Act} (hnext : next context w a = some w') :
    w.emitted <+: w'.emitted ∧ w.history ⊆ w'.history := by
  cases a with
  | call i call newCardId ulid =>
    simp only [next] at hnext
    split at hnext
    · split at hnext
      · obtain rfl := Option.some.inj hnext
        cases call with
        | updateCard cardId edit =>
          rw [beginCall]
          split
          · exact ⟨List.prefix_rfl, List.Subset.refl _⟩
          · exact ⟨List.prefix_rfl, List.Subset.refl _⟩
        | _ => exact ⟨List.prefix_rfl, List.Subset.refl _⟩
      · cases hnext
    · cases hnext
  | step i eventId now =>
    simp only [next] at hnext
    split at hnext
    case h_1 => cases hnext
    case h_2 row hpc =>
      split at hnext
      · obtain rfl := Option.some.inj hnext
        exact ⟨List.prefix_rfl, List.subset_cons_self _ _⟩
      · obtain rfl := Option.some.inj hnext
        exact ⟨List.prefix_rfl, List.Subset.refl _⟩
    case h_3 =>
      obtain rfl := Option.some.inj hnext
      exact ⟨List.prefix_rfl, List.subset_append_right _ _⟩
    case h_4 =>
      split at hnext
      · obtain rfl := Option.some.inj hnext
        exact ⟨List.prefix_rfl, List.Subset.refl _⟩
      · obtain rfl := Option.some.inj hnext
        exact ⟨List.prefix_rfl, List.Subset.refl _⟩
    case h_5 =>
      split at hnext
      · cases hnext
      · obtain rfl := Option.some.inj hnext
        exact ⟨List.prefix_append _ _, List.Subset.refl _⟩
  | fail i =>
    simp only [next] at hnext
    split at hnext
    · cases hnext
    · obtain rfl := Option.some.inj hnext
      exact ⟨List.prefix_rfl, List.Subset.refl _⟩
    · obtain rfl := Option.some.inj hnext
      exact ⟨List.prefix_rfl, List.Subset.refl _⟩
  | crash i =>
    obtain rfl := Option.some.inj hnext
    exact ⟨List.prefix_rfl, List.Subset.refl _⟩

/-! ### What the events say -/

/-- What the calls have told of the cards. -/
structure Published (w : Writers) : Prop where
  unique : ∀ row ∈ w.cards.rows, ∀ row' ∈ w.cards.rows, row.globalId ≠ none → row.globalId = row'.globalId → row = row'
  agree : ∀ env ∈ w.emitted, ∀ env' ∈ w.emitted, ∀ g, Json.get env.payload "global_id" = .str g →
    Json.get env'.payload "global_id" = .str g → Json.get env.payload "version" = Json.get env'.payload "version" →
      env.payload = env'.payload
  newest : ∀ env ∈ w.emitted, ∀ g, Json.get env.payload "global_id" = .str g → ∃ row ∈ w.cards.rows,
    row.globalId = some g ∧ ∃ version : Int, Json.get env.payload "version" = .int version ∧ version ≤ row.version
  current : w.Idle → ∀ row ∈ w.cards.rows, row ∉ w.lost → ∃ env ∈ w.emitted, env.payload = taskPayload row

theorem globalId_of_get {card : CardRow} {g : String} (h : Json.get (taskPayload card) "global_id" = .str g) :
    card.globalId = some g := by
  rw [get_taskPayload_globalId] at h
  cases hcard : card.globalId with
  | none =>
    rw [hcard] at h
    cases h
  | some g' =>
    rw [hcard] at h
    exact congrArg some (Json.str.inj h)

theorem Inv.published (h : w.Inv context elsewhere) : w.Published where
  unique := h.chronicle.unique
  agree := by
    intro env henv env' henv' g hg hg' hversion
    obtain ⟨_, _, card, hcard, _, _, rfl⟩ := h.emitted env henv
    obtain ⟨_, _, card', hcard', _, _, rfl⟩ := h.emitted env' henv'
    have hgid := globalId_of_get hg
    have hgid' := globalId_of_get hg'
    obtain ⟨-, n, hn, -⟩ := h.chronicle.valid card hcard
    obtain ⟨-, n', hn', -⟩ := h.chronicle.valid card' hcard'
    change Json.get (taskPayload card) "version" = Json.get (taskPayload card') "version" at hversion
    rw [get_taskPayload_version card hn, get_taskPayload_version card' hn'] at hversion
    obtain rfl := Json.int.inj hversion
    have hsame : card = card' := by
      refine (h.chronicle.ordered card hcard card' hcard' ?_ (hgid.trans hgid'.symm)).agree ?_
      · rw [hgid]
        simp
      · rw [CardRow.version, CardRow.version, hn, hn']
    rw [hsame]
    rfl
  newest := by
    intro env henv g hg
    obtain ⟨_, _, card, hcard, _, _, rfl⟩ := h.emitted env henv
    have hgid := globalId_of_get hg
    obtain ⟨-, n, hn, -⟩ := h.chronicle.valid card hcard
    obtain ⟨row, hrow, hrowg, hle⟩ := h.chronicle.newest card hcard (by rw [hgid]; simp)
    refine ⟨row, hrow, hrowg.trans hgid, n, get_taskPayload_version card hn, ?_⟩
    rwa [CardRow.version, hn] at hle
  current hidle row hrow hlost := by
    refine ((h.reported row hrow).resolve_right ?_).resolve_right hlost
    rintro ⟨i, hi⟩
    rw [hidle i] at hi
    rcases hi with ⟨_, hi⟩ | ⟨_, _, hi⟩ <;> cases hi

/-- **What the calls publish.**  However the calls of any number of threads are interleaved and wherever they fail or
die: a global id is that of one card, two events of it with one version are the same event, none tells of a version that
the card has not reached, and once no call is in progress every card has an event that tells what it says, unless that
event was lost. -/
theorem published_run {as : List Act} (ht : Run.exec (next context) (start elsewhere) as = some w) : w.Published :=
  (Run.invariant (fun _ _ _ h hnext => inv_next h hnext) (inv_start context elsewhere) ht).published

private def overlapping : List Act :=
  [.call 0 (.createCard "Ship" none "Normal") "c1" (some "1"), .step 0 "" 0, .step 0 "evt_1" 0,
    .call 0 (.updateCard "c1" ⟨some "Ship it", none, none, none⟩) "" (some "2"), .step 0 "" 0,
    .call 1 (.completeCard "c1") "" (some "3"), .step 1 "" 0, .step 1 "" 0, .step 0 "" 0, .fail 0,
    .step 1 "evt_2" 0, .step 1 "evt_3" 0]

/-- A card is created; an update and a completion overlap, and the update's event is lost. -/
theorem published_overlapping :
    ∃ w, Run.exec (next ⟨"mach_1", "repo_1", none⟩) (start []) overlapping = some w ∧ w.Published := by
  have hrun : (Run.exec (next ⟨"mach_1", "repo_1", none⟩) (start []) overlapping).isSome = true := by decide +kernel
  obtain ⟨w, hw⟩ := Option.isSome_iff_exists.1 hrun
  exact ⟨w, hw, published_run hw⟩

end Writers

end AgentOS
