import AgentOS.Hub.FakeStore
import AgentOS.Lib.Keyset
import AgentOS.Lib.Run
import AgentOS.M3Client.Follow

/-!
# The inbox poller

`poll_once` pulls the tasks of a source repository page by page, in the order of their `change_seq`, applies every task
of a page and then writes the cursor.  One poller runs it again and again, for any repositories, while the central table
changes under it: an upsert moves its task to the end of the order.

`Inbox` is the poller together with the table, one access at a time.  Two parts of it are never read by the code: what
has been applied last for each task, and the table as the latest fetch found it.  The cursor never runs ahead of what
has been applied, and a poll that returns before its last page has applied all that its final fetch could see
(`cursor_never_ahead`).
-/

namespace AgentOS

/-- A store as `GET /v1/tasks` reads it. -/
structure TaskHub where
  Row : Type
  Key : Type
  [decidableKey : DecidableEq Key]
  key : Row → Key
  changeSeq : Row → Nat
  ofRepository : String → Row → Bool
  listTasks : Table key → Option String → Option Int → Nat → List Row
  listTasks_eq : ∀ tasks repositoryId since limit, listTasks tasks repositoryId since limit =
    Keyset.serve changeSeq limit (fun row =>
      (since.all fun seq => seq < (changeSeq row : Int)) && repositoryId.all fun id => ofRepository id row) tasks.rows

attribute [instance] TaskHub.decidableKey

/-- `registry.tasks`. -/
def SqlStore.hub (sql : Sql) : TaskHub where
  Row := StoredTask
  Key := String
  key row := sql.key row.globalId
  changeSeq := StoredTask.changeSeq
  ofRepository id row := row.repositoryId.any fun r => sql.key r = sql.key id
  listTasks tasks := SqlStore.listTasks ({ Registry.empty with tasks := tasks } : Registry sql)
  listTasks_eq _ _ _ _ := rfl

/-- `FakeStore.tasks`, a dict keyed by global id. -/
def FakeStore.hub : TaskHub where
  Row := FakeTask
  Key := Option DictKey
  key entry := entry.globalId.dictKey?
  changeSeq := FakeTask.changeSeq
  ofRepository id entry := entry.repositoryId = some id
  listTasks tasks := FakeStore.listTasks tasks.rows
  listTasks_eq _ _ _ _ := rfl

/-- The central tasks; `lastSeq` is the largest `change_seq` given so far. -/
structure Central (hub : TaskHub) where
  tasks : Table hub.key
  lastSeq : Nat
  distinct : ∀ x ∈ tasks.rows, ∀ y ∈ tasks.rows, hub.changeSeq x = hub.changeSeq y → x = y
  le_lastSeq : ∀ x ∈ tasks.rows, hub.changeSeq x ≤ lastSeq

/-- The arguments of `poll_once`. -/
structure PollArgs where
  source : String
  limit : Int
  maxPages : Nat

/-- How a `poll_once` ends: it returns from inside the loop, runs out of pages, or raises (or its process dies). -/
inductive PollEnd where
  | returned
  | hitMaxPages
  | raised
  deriving DecidableEq

/-- Where the poller is in `poll_once`; `left` is how many pages may follow. -/
inductive PollPc (Row : Type) where
  | idle (last : Option (PollArgs × PollEnd))
  | fetch (args : PollArgs) (since : Option Int) (left : Nat)
  | apply (args : PollArgs) (since : Option Int) (left : Nat) (page todo : List Row)
  | write (args : PollArgs) (since : Option Int) (left : Nat) (page : List Row) (nextSince : Int)

/-- What `apply_fn` does with a task; a call that reports an error may have written it all the same. -/
inductive Applied where
  | ok
  | error (wrote : Bool)

/-- The poller, its cursor file and the central tasks, with what was applied last for each task and what the latest
fetch saw. -/
structure Inbox (hub : TaskHub) where
  central : Central hub
  cursors : String → Option Int
  pc : PollPc hub.Row
  applied : hub.Key → Option hub.Row
  seen : Central hub

namespace Inbox

variable {hub : TaskHub}

inductive Act (hub : TaskHub) where
  | upsert (row : hub.Row)
  | poll (args : PollArgs)
  | step (result : Applied)
  | fail

end Inbox

variable {hub : TaskHub}

/-- A task is written with a `change_seq` larger than every earlier one. -/
def Central.upsert (c : Central hub) (row : hub.Row) : Option (Central hub) :=
  if h : c.lastSeq < hub.changeSeq row then
    some {
      tasks := c.tasks.put row
      lastSeq := hub.changeSeq row
      distinct := by
        intro x hx y hy heq
        rcases Table.mem_put.1 hx with hx | ⟨hx, -⟩
        · rcases Table.mem_put.1 hy with hy | ⟨hy, -⟩
          · rw [hx, hy]
          · have := c.le_lastSeq y hy
            rw [hx] at heq
            omega
        · rcases Table.mem_put.1 hy with hy | ⟨hy, -⟩
          · have := c.le_lastSeq x hx
            rw [hy] at heq
            omega
          · exact c.distinct x hx y hy heq
      le_lastSeq := by
        intro x hx
        rcases Table.mem_put.1 hx with rfl | ⟨hx, -⟩
        · exact le_rfl
        · exact le_trans (c.le_lastSeq x hx) (le_of_lt h) }
  else none

/-- The page that a fetch gets. -/
def Central.page (c : Central hub) (args : PollArgs) (since : Option Int) : List hub.Row :=
  hub.listTasks c.tasks (argOrNone (some args.source)) since (parseLimit args.limit)

namespace Inbox

def start (central : Central hub) : Inbox hub where
  central := central
  cursors _ := none
  pc := .idle none
  applied _ := none
  seen := central

def goto (s : Inbox hub) (pc : PollPc hub.Row) : Inbox hub := { s with pc := pc }

/-- The end of a page: its `next_since` is the `change_seq` of its last row, if it has one. -/
def afterPage (args : PollArgs) (since : Option Int) (left : Nat) (page : List hub.Row) : PollPc hub.Row :=
  match page.getLast? with
  | none => .idle (some (args, .returned))
  | some row => .write args since left page (hub.changeSeq row)

/-- After the cursor is written: the page did not advance it, or was the last, or the loop goes on. -/
def afterWrite (args : PollArgs) (since : Option Int) (left : Nat) (page : List hub.Row) (nextSince : Int) :
    PollPc hub.Row :=
  if since.any fun seq => nextSince ≤ seq then .idle (some (args, .returned))
  else if page.length < args.limit then .idle (some (args, .returned))
  else match left with
    | 0 => .idle (some (args, .hitMaxPages))
    | left + 1 => .fetch args (some nextSince) left

/-- One step: a task is upserted, a poll begins, the poller makes its next access (`result` is what `apply_fn` does), or
it raises or dies. -/
def next (s : Inbox hub) : Act hub → Option (Inbox hub)
  | .upsert row => (s.central.upsert row).map fun central => { s with central := central }
  | .poll args => match s.pc with
    | .idle _ => match args.maxPages with
      | 0 => some (s.goto (.idle (some (args, .hitMaxPages))))
      | left + 1 => some (s.goto (.fetch args (s.cursors args.source) left))
    | _ => none
  | .step result => match s.pc with
    | .idle _ => none
    | .fetch args since left =>
      let page := s.central.page args since
      let s := { s with seen := s.central }
      if page = [] then some (s.goto (.idle (some (args, .returned))))
      else some (s.goto (.apply args since left page page))
    | .apply args since left page [] => some (s.goto (afterPage args since left page))
    | .apply args since left page (task :: todo) =>
      let wrote := { s with applied := Function.update s.applied (hub.key task) (some task) }
      match result with
      | .ok => some (wrote.goto (.apply args since left page todo))
      | .error true => some (wrote.goto (.idle (some (args, .raised))))
      | .error false => some (s.goto (.idle (some (args, .raised))))
    | .write args since left page nextSince =>
      some ({ s with cursors := Function.update s.cursors args.source (some nextSince) }.goto
        (afterWrite args since left page nextSince))
  | .fail => match s.pc with
    | .idle _ => none
    | .fetch args _ _ => some (s.goto (.idle (some (args, .raised))))
    | .apply args _ _ _ _ => some (s.goto (.idle (some (args, .raised))))
    | .write args _ _ _ _ => some (s.goto (.idle (some (args, .raised))))

/-! ### The page and the table -/

/-- The rows that a poll of this source is about. -/
def ofSource (hub : TaskHub) (source : String) (row : hub.Row) : Bool :=
  (argOrNone (some source)).all fun id => hub.ofRepository id row

end Inbox

namespace Central

variable {c : Central hub} {args : PollArgs} {since : Option Int} {row x : hub.Row}

theorem page_eq (c : Central hub) (args : PollArgs) (since : Option Int) : c.page args since =
    Keyset.serve hub.changeSeq (parseLimit args.limit) (fun row =>
      (since.all fun seq => seq < (hub.changeSeq row : Int)) && Inbox.ofSource hub args.source row) c.tasks.rows :=
  hub.listTasks_eq _ _ _ _

theorem mem_page (h : row ∈ c.page args since) : row ∈ c.tasks.rows ∧
    (∀ seq, since = some seq → seq < hub.changeSeq row) ∧ Inbox.ofSource hub args.source row = true := by
  rw [page_eq] at h
  obtain ⟨hmem, hp⟩ := Keyset.mem_serve h
  rw [Bool.and_eq_true] at hp
  refine ⟨hmem, fun seq hseq => ?_, hp.2⟩
  rw [hseq] at hp
  exact of_decide_eq_true hp.1

/-- A task of the source beyond the cursor. -/
private theorem beyond (hrow : Inbox.ofSource hub args.source row = true)
    (hsince : ∀ seq, since = some seq → seq < hub.changeSeq row) :
    ((since.all fun seq => seq < (hub.changeSeq row : Int)) && Inbox.ofSource hub args.source row) = true := by
  rw [hrow, Bool.and_true]
  cases since with
  | none => rfl
  | some seq => exact decide_eq_true (hsince seq rfl)

/-- The page leaves no task of the source out before its last row. -/
theorem mem_page_of_le (hx : (c.page args since).getLast? = some x) (hrow : row ∈ c.tasks.rows)
    (hsource : Inbox.ofSource hub args.source row = true) (hsince : ∀ seq, since = some seq → seq < hub.changeSeq row)
    (hle : hub.changeSeq row ≤ hub.changeSeq x) : row ∈ c.page args since := by
  have hmem := List.mem_of_getLast? hx
  rw [page_eq] at hmem ⊢
  exact Keyset.mem_serve_of_le c.tasks.nodup_rows c.distinct hmem hrow (beyond hsource hsince) hle

/-- A page that is not full holds every task of the source beyond the cursor. -/
theorem mem_page_of_length_lt (hlt : (c.page args since).length < parseLimit args.limit) (hrow : row ∈ c.tasks.rows)
    (hsource : Inbox.ofSource hub args.source row = true)
    (hsince : ∀ seq, since = some seq → seq < hub.changeSeq row) : row ∈ c.page args since := by
  rw [page_eq] at hlt ⊢
  exact Keyset.mem_serve_of_length_lt hlt hrow (beyond hsource hsince)

end Central

theorem parseLimit_pos (limit : Int) : 0 < parseLimit limit := by
  unfold parseLimit recentLimitMax
  split
  · omega
  · omega

theorem parseLimit_eq {limit : Int} (hpos : 1 ≤ limit) (hcap : limit ≤ recentLimitMax) :
    (parseLimit limit : Int) = limit := by
  unfold parseLimit
  rw [if_neg (by omega), min_eq_left hcap]
  omega

namespace Inbox

variable {s s' : Inbox hub} {a : Act hub}

/-! ### The invariant -/

/-- Every task that the latest fetch saw, of this source and up to this place, has been applied as it was then. -/
def AppliedUpTo (s : Inbox hub) (source : String) (bound : Option Int) : Prop :=
  ∀ row ∈ s.seen.tasks.rows, ofSource hub source row = true → (∀ c, bound = some c → hub.changeSeq row ≤ c) →
    s.applied (hub.key row) = some row

/-- Where the poller is in a poll. -/
def Progress (s : Inbox hub) : PollPc hub.Row → Prop
  | .idle last => ∀ args, last = some (args, .returned) → args.limit ≤ recentLimitMax → s.AppliedUpTo args.source none
  | .fetch args since _ => since = s.cursors args.source
  | .apply args since _ page todo => since = s.cursors args.source ∧ page = s.seen.page args since ∧ todo ⊆ page ∧
      ∀ row ∈ page, row ∈ todo ∨ s.applied (hub.key row) = some row
  | .write args since _ page nextSince => since = s.cursors args.source ∧ page = s.seen.page args since ∧
      (∀ row ∈ page, s.applied (hub.key row) = some row) ∧
        ∃ row, page.getLast? = some row ∧ nextSince = hub.changeSeq row

/-- The cursors against what has been applied, and the latest fetch against the table as it is now. -/
structure Tracks (s : Inbox hub) : Prop where
  seen_or_newer : ∀ row ∈ s.central.tasks.rows, row ∈ s.seen.tasks.rows ∨ s.seen.lastSeq < hub.changeSeq row
  lastSeq_le : s.seen.lastSeq ≤ s.central.lastSeq
  cursor_le : ∀ source c, s.cursors source = some c → c ≤ s.seen.lastSeq
  applied : ∀ source c, s.cursors source = some c → s.AppliedUpTo source (some c)

theorem Tracks.upsert (hs : s.Tracks) {central : Central hub} {row : hub.Row}
    (h : s.central.upsert row = some central) : ({ s with central := central } : Inbox hub).Tracks := by
  unfold Central.upsert at h
  split at h
  case isFalse => cases h
  case isTrue hnew =>
    obtain rfl := Option.some.inj h
    refine ⟨fun x hx => ?_, le_of_lt (lt_of_le_of_lt hs.lastSeq_le hnew), hs.cursor_le, hs.applied⟩
    rcases Table.mem_put.1 hx with rfl | ⟨hx, -⟩
    · exact Or.inr (lt_of_le_of_lt hs.lastSeq_le hnew)
    · exact hs.seen_or_newer x hx

/-- A fetch sees the table; a cursor is not beyond what the fetch before it saw. -/
theorem Tracks.fetch (hs : s.Tracks) : ({ s with seen := s.central } : Inbox hub).Tracks where
  seen_or_newer := fun _ hrow => Or.inl hrow
  lastSeq_le := le_rfl
  cursor_le := by
    intro source c hc
    have h₁ := hs.cursor_le source c hc
    have h₂ := hs.lastSeq_le
    change c ≤ (s.central.lastSeq : Int)
    omega
  applied := by
    intro source c hc row hrow hsource hle
    rcases hs.seen_or_newer row hrow with hseen | hnewer
    · exact hs.applied source c hc row hseen hsource hle
    · have h₁ := hs.cursor_le source c hc
      have h₂ := hle c rfl
      omega

/-- Applying a task of the page changes nothing for the other tasks that the fetch saw. -/
private theorem applied_update {task row : hub.Row} (htask : task ∈ s.seen.tasks.rows)
    (hrow : row ∈ s.seen.tasks.rows) (h : row = task ∨ s.applied (hub.key row) = some row) :
    Function.update s.applied (hub.key task) (some task) (hub.key row) = some row := by
  by_cases hkey : hub.key row = hub.key task
  · obtain rfl := Table.eq_of_key hrow htask hkey
    exact Function.update_self _ _ _
  · rw [Function.update_of_ne hkey]
    rcases h with rfl | h
    · exact absurd rfl hkey
    · exact h

theorem Tracks.apply (hs : s.Tracks) {task : hub.Row} (htask : task ∈ s.seen.tasks.rows) :
    ({ s with applied := Function.update s.applied (hub.key task) (some task) } : Inbox hub).Tracks where
  seen_or_newer := hs.seen_or_newer
  lastSeq_le := hs.lastSeq_le
  cursor_le := hs.cursor_le
  applied := fun source c hc row hrow hsource hle =>
    applied_update htask hrow (Or.inr (hs.applied source c hc row hrow hsource hle))

/-- Up to the last row of a page that has been applied, everything has. -/
private theorem appliedUpTo_page (hs : s.Tracks) {args : PollArgs} {x : hub.Row}
    (hpage : ∀ row ∈ s.seen.page args (s.cursors args.source), s.applied (hub.key row) = some row)
    (hx : (s.seen.page args (s.cursors args.source)).getLast? = some x) :
    s.AppliedUpTo args.source (some (hub.changeSeq x)) := by
  intro row hrow hsource hle
  have hlast : hub.changeSeq row ≤ hub.changeSeq x := by
    have := hle _ rfl
    omega
  by_cases hbeyond : ∀ seq, s.cursors args.source = some seq → seq < hub.changeSeq row
  · exact hpage row (Central.mem_page_of_le hx hrow hsource hbeyond hlast)
  · -- the row is at or before the cursor
    push Not at hbeyond
    obtain ⟨seq, hseq, hbefore⟩ := hbeyond
    refine hs.applied args.source seq hseq row hrow hsource fun c hc => ?_
    obtain rfl := Option.some.inj hc
    exact hbefore

theorem Tracks.write (hs : s.Tracks) {args : PollArgs} {x : hub.Row}
    (hpage : ∀ row ∈ s.seen.page args (s.cursors args.source), s.applied (hub.key row) = some row)
    (hx : (s.seen.page args (s.cursors args.source)).getLast? = some x) :
    ({ s with cursors := Function.update s.cursors args.source (some (hub.changeSeq x : Int)) } : Inbox hub).Tracks where
  seen_or_newer := hs.seen_or_newer
  lastSeq_le := hs.lastSeq_le
  cursor_le := by
    intro source c hc
    dsimp only at hc
    by_cases hsource : source = args.source
    · subst hsource
      rw [Function.update_self] at hc
      obtain rfl := Option.some.inj hc
      have := s.seen.le_lastSeq x (Central.mem_page (List.mem_of_getLast? hx)).1
      change (hub.changeSeq x : Int) ≤ s.seen.lastSeq
      omega
    · rw [Function.update_of_ne hsource] at hc
      exact hs.cursor_le source c hc
  applied := by
    intro source c hc
    dsimp only at hc
    by_cases hsource : source = args.source
    · subst hsource
      rw [Function.update_self] at hc
      obtain rfl := Option.some.inj hc
      exact appliedUpTo_page hs hpage hx
    · rw [Function.update_of_ne hsource] at hc
      exact hs.applied source c hc

/-- After a page that is not full, everything has been applied. -/
private theorem appliedUpTo_none (hs : s.Tracks) {args : PollArgs}
    (hpage : ∀ row ∈ s.seen.page args (s.cursors args.source), s.applied (hub.key row) = some row)
    (hlt : (s.seen.page args (s.cursors args.source)).length < parseLimit args.limit) :
    s.AppliedUpTo args.source none := by
  intro row hrow hsource _
  by_cases hbeyond : ∀ seq, s.cursors args.source = some seq → seq < hub.changeSeq row
  · exact hpage row (Central.mem_page_of_length_lt hlt hrow hsource hbeyond)
  · push Not at hbeyond
    obtain ⟨seq, hseq, hbefore⟩ := hbeyond
    refine hs.applied args.source seq hseq row hrow hsource fun c hc => ?_
    obtain rfl := Option.some.inj hc
    exact hbefore

/-- The next access of the poller is no part of what the invariant speaks of. -/
private theorem inv_goto (hs : s.Tracks) {pc : PollPc hub.Row} (hp : s.Progress pc) :
    (s.goto pc).Tracks ∧ (s.goto pc).Progress (s.goto pc).pc :=
  ⟨⟨hs.seen_or_newer, hs.lastSeq_le, hs.cursor_le, hs.applied⟩, by cases pc <;> exact hp⟩

private theorem progress_raised (s : Inbox hub) (args : PollArgs) : s.Progress (.idle (some (args, .raised))) :=
  fun _ h _ => absurd (Prod.mk.inj (Option.some.inj h)).2 (by simp)

private theorem progress_hitMaxPages (s : Inbox hub) (args : PollArgs) :
    s.Progress (.idle (some (args, .hitMaxPages))) :=
  fun _ h _ => absurd (Prod.mk.inj (Option.some.inj h)).2 (by simp)

/-- A poll that returns has applied everything that its final fetch saw. -/
private theorem progress_returned {args : PollArgs}
    (h : args.limit ≤ recentLimitMax → s.AppliedUpTo args.source none) :
    s.Progress (.idle (some (args, .returned))) := by
  intro args' heq hcap
  obtain ⟨rfl, -⟩ := Prod.mk.inj (Option.some.inj heq)
  exact h hcap

/-- The cursor is written: the page advances it, and the poll ends where the page was not full. -/
private theorem progress_afterWrite {args : PollArgs} {since : Option Int} (left : Nat) {page : List hub.Row}
    {x : hub.Row} (hs : s.Tracks) (hsince : since = s.cursors args.source) (hpage : page = s.seen.page args since)
    (happlied : ∀ row ∈ page, s.applied (hub.key row) = some row) (hx : page.getLast? = some x) :
    ({ s with cursors := Function.update s.cursors args.source (some (hub.changeSeq x : Int)) } : Inbox hub).Progress
      (afterWrite args since left page (hub.changeSeq x)) := by
  subst hsince hpage
  have hbeyond := (Central.mem_page (List.mem_of_getLast? hx)).2.1
  have hadvances : ¬ ((s.cursors args.source).any fun seq => (hub.changeSeq x : Int) ≤ seq) = true := by
    intro hany
    obtain ⟨seq, hseq, hle⟩ := (Option.any_eq_true _ _).1 hany
    have := hbeyond seq hseq
    have := of_decide_eq_true hle
    omega
  unfold afterWrite
  rw [if_neg hadvances]
  split
  case isTrue hshort =>
    refine progress_returned fun hcap => ?_
    by_cases hpos : 1 ≤ args.limit
    · have hlimit := parseLimit_eq hpos hcap
      exact appliedUpTo_none hs happlied (by omega)
    · omega
  case isFalse =>
    cases left with
    | zero => exact progress_hitMaxPages _ _
    | succ left => exact (Function.update_self args.source _ s.cursors).symm

/-- One access of the poller. -/
private theorem inv_step {result : Applied} (hs : s.Tracks) (hp : s.Progress s.pc)
    (h : next s (.step result) = some s') : s'.Tracks ∧ s'.Progress s'.pc := by
  simp only [next] at h
  split at h
  case h_1 => cases h
  case h_2 args since left hpc =>
    rw [hpc] at hp
    obtain rfl : since = s.cursors args.source := hp
    split at h
    case isTrue hempty =>
      obtain rfl := Option.some.inj h
      refine inv_goto hs.fetch (progress_returned fun _ => ?_)
      -- an empty page: nothing lies beyond the cursor
      have hpage : ({ s with seen := s.central } : Inbox hub).seen.page args (s.cursors args.source) = [] := hempty
      refine appliedUpTo_none hs.fetch (fun row hrow => ?_) (?_ : List.length _ < parseLimit args.limit)
      · rw [hpage] at hrow
        cases hrow
      · rw [hpage]
        exact parseLimit_pos args.limit
    case isFalse =>
      obtain rfl := Option.some.inj h
      exact inv_goto hs.fetch ⟨rfl, rfl, List.Subset.refl _, fun row hrow => Or.inl hrow⟩
  case h_3 args since left page hpc =>
    rw [hpc] at hp
    obtain ⟨hsince, hpage, -, happlied⟩ := hp
    obtain rfl := Option.some.inj h
    refine inv_goto hs ?_
    have hall : ∀ row ∈ page, s.applied (hub.key row) = some row := by
      intro row hrow
      rcases happlied row hrow with hrow | hrow
      · cases hrow
      · exact hrow
    unfold afterPage
    cases hx : page.getLast? with
    | none =>
      -- the code's way out without a continuation: the page is empty
      obtain rfl := List.getLast?_eq_none_iff.1 hx
      subst hsince
      refine progress_returned fun _ => appliedUpTo_none hs (fun row hrow => ?_) ?_
      · rw [← hpage] at hrow
        cases hrow
      · rw [← hpage]
        exact parseLimit_pos args.limit
    | some x => exact ⟨hsince, hpage, hall, x, hx, rfl⟩
  case h_4 args since left page task todo hpc =>
    rw [hpc] at hp
    obtain ⟨hsince, hpage, htodo, happlied⟩ := hp
    have hseen : ∀ row ∈ page, row ∈ s.seen.tasks.rows := by
      intro row hrow
      rw [hpage] at hrow
      exact (Central.mem_page hrow).1
    have htask : task ∈ s.seen.tasks.rows := hseen task (htodo List.mem_cons_self)
    cases result with
    | ok =>
      obtain rfl := Option.some.inj h
      refine inv_goto (hs.apply htask)
        ⟨hsince, hpage, fun x hx => htodo (List.mem_cons_of_mem _ hx), fun row hrow => ?_⟩
      rcases happlied row hrow with hmem | hmem
      · rcases List.mem_cons.1 hmem with rfl | hmem
        · exact Or.inr (applied_update htask htask (Or.inl rfl))
        · exact Or.inl hmem
      · exact Or.inr (applied_update htask (hseen row hrow) (Or.inr hmem))
    | error wrote =>
      cases wrote with
      | true =>
        obtain rfl := Option.some.inj h
        exact inv_goto (hs.apply htask) (progress_raised _ _)
      | false =>
        obtain rfl := Option.some.inj h
        exact inv_goto hs (progress_raised _ _)
  case h_5 args since left page nextSince hpc =>
    rw [hpc] at hp
    obtain ⟨hsince, hpage, happlied, x, hx, rfl⟩ := hp
    obtain rfl := Option.some.inj h
    have hprogress := progress_afterWrite left hs hsince hpage happlied hx
    subst hsince hpage
    exact inv_goto (hs.write happlied hx) hprogress

theorem inv_next (hs : s.Tracks) (hp : s.Progress s.pc) (h : next s a = some s') : s'.Tracks ∧ s'.Progress s'.pc := by
  cases a with
  | upsert row =>
    obtain ⟨central, hcentral, rfl⟩ := Option.map_eq_some_iff.1 h
    exact ⟨hs.upsert hcentral, hp⟩
  | poll args =>
    simp only [next] at h
    split at h
    · split at h
      · obtain rfl := Option.some.inj h
        exact inv_goto hs (progress_hitMaxPages s args)
      · obtain rfl := Option.some.inj h
        exact inv_goto hs rfl
    · cases h
  | step result => exact inv_step hs hp h
  | fail =>
    simp only [next] at h
    split at h
    · cases h
    all_goals
      obtain rfl := Option.some.inj h
      exact inv_goto hs (progress_raised s _)

end Inbox

/-- **The inbox cursor never runs ahead.**  In every run, whenever the cursor of a source is `c`, every task of that
source whose current `change_seq` is at most `c` has been applied last as it is now.  When `poll_once` has returned
before its last page, and its limit is within the server's, every task of the source that its final fetch could see has
been applied as it was then. -/
theorem cursor_never_ahead (hub : TaskHub) (central : Central hub) {as : List (Inbox.Act hub)} {t : Inbox hub}
    (hrun : Run.exec Inbox.next (Inbox.start central) as = some t) :
    (∀ source c, t.cursors source = some c → ∀ row ∈ t.central.tasks.rows, Inbox.ofSource hub source row = true →
      hub.changeSeq row ≤ c → t.applied (hub.key row) = some row) ∧
    ∀ args, t.pc = .idle (some (args, .returned)) → args.limit ≤ recentLimitMax → ∀ row ∈ t.seen.tasks.rows,
      Inbox.ofSource hub args.source row = true → t.applied (hub.key row) = some row := by
  have hinv : t.Tracks ∧ t.Progress t.pc := by
    refine Run.invariant (I := fun t : Inbox hub => t.Tracks ∧ t.Progress t.pc)
      (fun s a s' hs h => Inbox.inv_next hs.1 hs.2 h) ?_ hrun
    exact ⟨⟨fun _ hrow => Or.inl hrow, le_rfl, fun _ _ h => (by cases h), fun _ _ h => by cases h⟩, fun _ => by simp⟩
  constructor
  · intro source c hc row hrow hsource hle
    rcases hinv.1.seen_or_newer row hrow with hseen | hnewer
    · exact hinv.1.applied source c hc row hseen hsource fun c' hc' => Option.some.inj hc' ▸ hle
    · have := hinv.1.cursor_le source c hc
      omega
  · intro args hpc hcap row hrow hsource
    have hprogress := hinv.2
    rw [hpc] at hprogress
    exact hprogress args rfl hcap row hrow hsource fun _ => by simp

/-! ### A task that moves between two pages -/

private def storedTask (globalId title : String) (version : Int) (changeSeq : Nat) : StoredTask where
  globalId := globalId
  localCardId := none
  repositoryId := some "repo_1"
  projectId := none
  title := some title
  description := none
  priority := none
  status := "created"
  version := version
  originatingClient := none
  updatedAt := 0
  lastStatusEventId := none
  changeSeq := changeSeq

private def noTasks : Central (SqlStore.hub Sql.sample) where
  tasks := Table.empty
  lastSeq := 0
  distinct := fun _ => nofun
  le_lastSeq := fun _ => nofun

/-- Pages of one task; the first task is updated after its page was applied, before the cursor is written. -/
private def movingTask : List (Inbox.Act (SqlStore.hub Sql.sample)) :=
  let page : List (Inbox.Act (SqlStore.hub Sql.sample)) := [.step .ok, .step .ok, .step .ok, .step .ok]
  [.upsert (storedTask "task_1" "Model the hub" 1 1), .upsert (storedTask "task_2" "Prove it" 1 2),
    .poll ⟨"repo_1", 1, 1000⟩, .step .ok, .step .ok, .upsert (storedTask "task_1" "Model the central hub" 2 3),
    .step .ok, .step .ok] ++ page ++ page ++ [.step .ok]

/-- The update is applied as well. -/
theorem moving_task_applied : ∃ t, Run.exec Inbox.next (Inbox.start noTasks) movingTask = some t ∧
    t.cursors "repo_1" = some 3 ∧
      ∀ row ∈ t.central.tasks.rows, Inbox.ofSource (SqlStore.hub Sql.sample) "repo_1" row = true →
      row.changeSeq ≤ 3 → t.applied ((SqlStore.hub Sql.sample).key row) = some row := by
  have hrun : (Run.exec Inbox.next (Inbox.start noTasks) movingTask).any
      (fun t => t.cursors "repo_1" = some 3) = true := by decide +kernel
  obtain ⟨t, ht, hcursor⟩ := (Option.any_eq_true _ _).1 hrun
  have hc := of_decide_eq_true hcursor
  refine ⟨t, ht, hc, fun row hrow hsource hle => ?_⟩
  have happlied := (cursor_never_ahead (SqlStore.hub Sql.sample) noTasks ht).1 "repo_1" 3 hc row hrow hsource
  exact happlied (by exact_mod_cast hle)

/-- A task event that writes is an upsert of the central tasks. -/
theorem SqlStore.materializeTask_put {sql : Sql} {env : EventEnvelope} {reg reg' : Registry sql}
    (h : SqlStore.materializeTask env reg = some reg') :
    reg' = reg ∨ ∃ row : StoredTask, row.changeSeq = reg.dbts + 1 ∧
      (row.globalId ∈ reg.tasks.rows.map (·.globalId) ∨
        ∃ values, taskRow sql env = some values ∧ row.globalId = values.globalId) ∧
      reg' = { reg with tasks := reg.tasks.put row, dbts := reg.dbts + 1 } := by
  unfold SqlStore.materializeTask at h
  split at h
  case isTrue => exact Or.inl (Option.some.inj h).symm
  case isFalse =>
    obtain ⟨row, hrow, h⟩ := Option.bind_eq_some_iff.1 h
    dsimp only at h
    split at h
    case isTrue hmatched =>
      rw [Table.rowcount_ne_zero] at hmatched
      obtain ⟨old, hold, hmatched⟩ := hmatched
      have hkey := (of_decide_eq_true hmatched).1
      obtain rfl := Option.some.inj h
      refine Or.inr ⟨{ row with globalId := old.globalId, changeSeq := reg.dbts + 1 }, rfl,
        Or.inl (List.mem_map.2 ⟨old, hold, rfl⟩), ?_⟩
      congr 1
      -- the UPDATE meets the one row of its key
      refine Table.update_eq_put _ hold hmatched fun x hx hx' => ?_
      exact Table.eq_of_key hx hold ((of_decide_eq_true hx').1.trans hkey.symm)
    case isFalse =>
      split at h
      case isTrue => exact Or.inl (Option.some.inj h).symm
      case isFalse =>
        obtain ⟨tasks, htasks, rfl⟩ := Option.map_eq_some_iff.1 h
        refine Or.inr ⟨{ row with changeSeq := reg.dbts + 1 }, rfl, Or.inr ⟨row, hrow, rfl⟩, ?_⟩
        rw [Table.insert_eq_put htasks]

end AgentOS
