import AgentOS.Lib.Keyset
import Mathlib.Data.List.TakeWhile

/-!
# The recent-events feed and the `--follow` walk

`GET /v1/events/recent` serves the hub log newest first and pages backwards; `walk_new_events` turns pages from the
newest one until it meets an event at or before its cursor, and `_run_follow` calls it again and again, giving each
call the cursor the previous one returned.

The hub log grows while pages are fetched.  A `HubHistory` says what the log holds at each instant, and each page
fetch happens at the next instant, so a history is any interleaving of appends with the page fetches.
-/

namespace AgentOS

/-- A row of `ops.events` as the feed serves it. -/
structure HubEvent where
  eventId : String
  ingestSeq : Int
  eventType : String
  repositoryId : Option String
  deriving DecidableEq

/-- The hub log over time: append-only, in commit order, with strictly increasing `ingest_seq`. -/
structure HubHistory where
  log : Nat → List HubEvent
  increasing : ∀ t, (log t).Pairwise fun x y => x.ingestSeq < y.ingestSeq
  grows : ∀ t, log t <+: log (t + 1)

/-- The body of a `GET /v1/events/recent` response. -/
structure EventPage where
  events : List HubEvent
  nextAfter : Option Int

/-- `_RECENT_LIMIT_MAX`. -/
def recentLimitMax : Int := 500

/-- `_parse_limit` on an integer parameter. -/
def parseLimit (limit : Int) : Nat := if limit < 1 then 1 else (min limit recentLimitMax).toNat

/-- `request.args.get(..) or None`: an absent or empty parameter is no filter. -/
def argOrNone (arg : Option String) : Option String := arg.filter (· ≠ "")

/-- `recent_events` of both stores: newest first (the log is kept in commit order), strictly older than `afterSeq`. -/
def recentEvents (log : List HubEvent) (limit : Nat) (repositoryId eventType : Option String)
    (afterSeq : Option Int) : List HubEvent :=
  let rows := log.reverse
  let rows := rows.filter fun r => afterSeq.all fun a => r.ingestSeq < a
  let rows := rows.filter fun r => repositoryId.all fun repo => r.repositoryId = some repo
  let rows := rows.filter fun r => eventType.all fun ty => r.eventType = ty
  rows.take limit

/-- The route `GET /v1/events/recent`. -/
def recentEventsRoute (log : List HubEvent) (limit : Int) (repositoryId eventType : Option String)
    (afterSeq : Option Int) : EventPage :=
  let events := recentEvents log (parseLimit limit) (argOrNone repositoryId) (argOrNone eventType) afterSeq
  ⟨events, events.getLast?.map (·.ingestSeq)⟩

/-- The command-line options `_run_follow` passes on to the feed. -/
structure FollowArgs where
  limit : Int
  repositoryId : Option String

/-- The local variables of the `while True` loop of `walk_new_events`; `clock` is the instant of the next fetch. -/
structure Walk where
  collected : List HubEvent := []
  afterSeq : Option Int := none
  topSeq : Option Int := none
  pages : Nat := 0
  truncated : Bool := false
  clock : Nat

section Walk

variable (fetchPage : Nat → Option Int → EventPage) (cursor : Option Int) (maxPages : Nat)

/-- One turn of the loop; the flag says whether the loop goes on. -/
def walkPage (w : Walk) : Walk × Bool :=
  let page := fetchPage w.clock w.afterSeq
  let w := { w with clock := w.clock + 1 }
  match page.events with
  | [] => (w, false)
  | newest :: _ =>
    let w := { w with topSeq := w.topSeq.or (some newest.ingestSeq) }
    match cursor with
    | none => (w, false)  -- the first page is the baseline, nothing in it is new
    | some c =>
      let fresh := page.events.takeWhile fun e => c < e.ingestSeq
      let w := { w with collected := w.collected ++ fresh, pages := w.pages + 1 }
      if fresh.length < page.events.length then (w, false)  -- `boundary_hit`
      else if maxPages ≤ w.pages then ({ w with truncated := true }, false)
      else match page.nextAfter with
        | none => (w, false)
        | some a => ({ w with afterSeq := some a }, true)

/-- The loop, with a bound on its turns; `walkLoop_stable` shows that `maxPages + 1` turns are enough. -/
def walkLoop : Nat → Walk → Walk
  | 0, w => w
  | n + 1, w => match walkPage fetchPage cursor maxPages w with
    | (w', true) => walkLoop n w'
    | (w', false) => w'

/-- `new_cursor`: the oldest event collected if the walk was cut off, else the newest one seen. -/
def newCursor (w : Walk) : Option Int :=
  match w.topSeq, cursor with
  | none, _ => cursor
  | some top, none => some top
  | some top, some c => match w.truncated, w.collected.getLast? with
    | true, some oldest => some (max oldest.ingestSeq c)
    | _, _ => some (max top c)

/-- `walk_new_events`: the new events, oldest first, the new cursor, and the instant after its last fetch. -/
def walkNewEvents (clock : Nat) : List HubEvent × Option Int × Nat :=
  let w := walkLoop fetchPage cursor maxPages (maxPages + 1) { clock := clock }
  (w.collected.reverse, newCursor cursor w, w.clock)

end Walk

/-- The state of `_run_follow` between two polls.  `lastStart` is the instant of the first fetch of the latest poll
(of the snapshot, before the first one); the client does not keep it. -/
structure FollowSession where
  cursor : Option Int
  printed : List HubEvent
  clock : Nat
  lastStart : Nat

section Session

variable (hist : HubHistory) (args : FollowArgs) (maxPages : Nat)

/-- `fetch_page` of `_run_follow`, answered by the hub from its log at that instant. -/
def fetchPage (t : Nat) (afterSeq : Option Int) : EventPage :=
  recentEventsRoute (hist.log t) args.limit args.repositoryId none afterSeq

/-- The start of `_run_follow` when the hub holds no sync cursor for the client: the cursor is the top `ingest_seq`
of the initial snapshot. -/
def followStart : FollowSession where
  cursor := (fetchPage hist args 0 none).events.head?.map (·.ingestSeq)
  printed := []
  clock := 1
  lastStart := 0

/-- One poll of `_run_follow`. -/
def followPoll (s : FollowSession) : FollowSession :=
  let (newEvents, cursor, clock) := walkNewEvents (fetchPage hist args) s.cursor maxPages s.clock
  ⟨cursor, s.printed ++ newEvents, clock, s.clock⟩

/-- The session after `n` polls. -/
def followSession : Nat → FollowSession
  | 0 => followStart hist args
  | n + 1 => followPoll hist args maxPages (followSession n)

end Session

/-! ### The five ways a turn ends -/

section Walk

variable {fetchPage : Nat → Option Int → EventPage} {cursor : Option Int} {maxPages : Nat} {w : Walk}

theorem walkPage_empty (h : (fetchPage w.clock w.afterSeq).events = []) :
    walkPage fetchPage cursor maxPages w = ({ w with clock := w.clock + 1 }, false) := by
  simp only [walkPage, h]

theorem walkPage_baseline {e : HubEvent} {es : List HubEvent}
    (h : (fetchPage w.clock w.afterSeq).events = e :: es) :
    walkPage fetchPage none maxPages w =
      ({ w with clock := w.clock + 1, topSeq := w.topSeq.or (some e.ingestSeq) }, false) := by
  simp only [walkPage, h]

variable {c : Int} {e : HubEvent} {es : List HubEvent}

/-- The variables after a page of which `fresh` was collected. -/
def Walk.turn (w : Walk) (newest : HubEvent) (fresh : List HubEvent) : Walk :=
  { w with
    clock := w.clock + 1
    topSeq := w.topSeq.or (some newest.ingestSeq)
    collected := w.collected ++ fresh
    pages := w.pages + 1 }

theorem walkPage_boundary (h : (fetchPage w.clock w.afterSeq).events = e :: es)
    (hb : ((e :: es).takeWhile fun x => c < x.ingestSeq).length < (e :: es).length) :
    walkPage fetchPage (some c) maxPages w = (w.turn e ((e :: es).takeWhile fun x => c < x.ingestSeq), false) := by
  simp only [walkPage, h, hb, ↓reduceIte, Walk.turn]

theorem walkPage_maxPages (h : (fetchPage w.clock w.afterSeq).events = e :: es)
    (hb : ∀ x ∈ e :: es, c < x.ingestSeq) (hm : maxPages ≤ w.pages + 1) :
    walkPage fetchPage (some c) maxPages w = ({ w.turn e (e :: es) with truncated := true }, false) := by
  have hfresh : ((e :: es).takeWhile fun x => c < x.ingestSeq) = e :: es :=
    List.takeWhile_eq_self_iff.2 (by simpa using hb)
  simp only [walkPage, h, hfresh, Nat.lt_irrefl, ↓reduceIte, hm, Walk.turn]

theorem walkPage_again (h : (fetchPage w.clock w.afterSeq).events = e :: es)
    (hb : ∀ x ∈ e :: es, c < x.ingestSeq) (hm : w.pages + 1 < maxPages) {a : Int}
    (ha : (fetchPage w.clock w.afterSeq).nextAfter = some a) :
    walkPage fetchPage (some c) maxPages w = ({ w.turn e (e :: es) with afterSeq := some a }, true) := by
  have hfresh : ((e :: es).takeWhile fun x => c < x.ingestSeq) = e :: es :=
    List.takeWhile_eq_self_iff.2 (by simpa using hb)
  simp only [walkPage, h, hfresh, Nat.lt_irrefl, ↓reduceIte, Nat.not_le.2 hm, ha, Walk.turn]

/-! ### The three cursor rules -/

theorem newCursor_empty (h : w.topSeq = none) : newCursor cursor w = cursor := by
  simp only [newCursor, h]

theorem newCursor_baseline {top : Int} (h : w.topSeq = some top) : newCursor none w = some top := by
  simp only [newCursor, h]

theorem newCursor_truncated {top : Int} {oldest : HubEvent} (h : w.topSeq = some top) (ht : w.truncated = true)
    (hc : w.collected.getLast? = some oldest) : newCursor (some c) w = some (max oldest.ingestSeq c) := by
  simp only [newCursor, h, ht, hc]

theorem newCursor_top {top : Int} (h : w.topSeq = some top) (ht : w.truncated = false ∨ w.collected = []) :
    newCursor (some c) w = some (max top c) := by
  rcases ht with ht | ht
  · simp only [newCursor, h, ht]
  · cases htr : w.truncated <;> simp only [newCursor, h, ht, htr, List.getLast?_nil]

/-! ### The loop ends -/

/-- A turn after which the loop goes on counts a page and leaves the page count below `maxPages`. -/
private theorem walkPage_pages {w' : Walk} (h : walkPage fetchPage cursor maxPages w = (w', true)) :
    w'.pages = w.pages + 1 ∧ w'.pages < maxPages := by
  simp only [walkPage] at h
  split at h
  · simp at h
  · cases cursor with
    | none => simp at h
    | some c =>
      simp only at h
      split at h
      · simp at h
      · split at h
        · simp at h
        · rename_i hlt
          split at h
          · simp at h
          · simp only [Prod.mk.injEq, and_true] at h
            subst h
            exact ⟨rfl, by simpa using hlt⟩

/-- The walk is bounded by `max_pages`: more turns than the pages still allowed change nothing. -/
theorem walkLoop_stable {n : Nat} (h : maxPages < w.pages + n) :
    walkLoop fetchPage cursor maxPages n w = walkLoop fetchPage cursor maxPages (n + 1) w ∨ n = 0 := by
  induction n generalizing w with
  | zero => exact Or.inr rfl
  | succ n ih =>
    left
    rw [walkLoop, walkLoop]
    split
    · rename_i w' hw
      obtain ⟨hp, hlt⟩ := walkPage_pages hw
      rcases ih (w := w') (by omega) with h' | h'
      · exact h'
      · omega
    · rfl

end Walk

end AgentOS
