import AgentOS.M3Client.Follow
import Mathlib.Data.Int.Order.Basic
import Mathlib.Order.OrderDual

/-!
# When the follow feed is gap-free

A follow session marks events as seen by moving its cursor.  It is gap-free when every event above the baseline and
at or below the cursor has been printed.

* One call (`walkNewEvents_some`): from a cursor `c` the walk collects the newest `maxPages * pageSize` of the events
  above `c` that were logged when it made its first fetch, whatever is appended meanwhile; if there are more of them,
  the cursor moves to the oldest one collected.
* A session (`session_inv`): as long as the initial snapshot was not empty and at most `maxPages * pageSize` events are
  appended between the first fetches of successive polls, everything logged at the first fetch of the latest poll has
  been printed.
* Otherwise the events below the oldest one collected, or the whole first page after an empty snapshot, are marked as
  seen without having been printed (`gapFree_iff`).
-/

namespace AgentOS

/-! ### One call -/

/-- The key of the feed order: newest first. -/
private def seqDesc (e : HubEvent) : ℤᵒᵈ := OrderDual.toDual e.ingestSeq

/-- `fetch` serves the list `D` (newest first) in consecutive pages of `lim` from the instant `t₀` on. -/
private structure Serves (fetch : Nat → Option Int → EventPage) (t₀ lim : Nat) (D : List HubEvent) : Prop where
  page : ∀ k, k = 0 ∨ D.take (k * lim) ≠ [] →
    (fetch (t₀ + k) ((D.take (k * lim)).getLast?.map (·.ingestSeq))).events = (D.drop (k * lim)).take lim
  nextAfter : ∀ t a, (fetch t a).nextAfter = (fetch t a).events.getLast?.map (·.ingestSeq)

/-- The state of the loop after `k` full pages, all newer than the cursor. -/
private def walkAt (D : List HubEvent) (lim t₀ k : Nat) : Walk where
  collected := D.take (k * lim)
  afterSeq := (D.take (k * lim)).getLast?.map (·.ingestSeq)
  topSeq := if k = 0 then none else D.head?.map (·.ingestSeq)
  pages := k
  truncated := false
  clock := t₀ + k

/-- What the loop leaves behind: `A` are the events above the cursor, `M` how many the walk can collect. -/
private structure Walked (D A : List HubEvent) (M : Nat) (w : Walk) : Prop where
  collected : w.collected = A.take M
  topSeq : w.topSeq = D.head?.map (·.ingestSeq)
  truncated : M < A.length → w.truncated = true

private theorem take_succ_mul (D : List HubEvent) (k lim : Nat) :
    D.take ((k + 1) * lim) = D.take (k * lim) ++ (D.drop (k * lim)).take lim := by
  rw [Nat.succ_mul, List.take_add]

/-- A page with an event at or before the cursor ends the events above the cursor. -/
private theorem takeWhile_of_boundary {p : HubEvent → Bool} {L : List HubEvent} {lim : Nat}
    (h : ((L.take lim).takeWhile p).length < (L.take lim).length) : L.takeWhile p = (L.take lim).takeWhile p := by
  conv => lhs; rw [← List.take_append_drop lim L]
  rw [List.takeWhile_append, if_neg (by omega)]

private theorem takeWhile_of_take {p : HubEvent → Bool} {D : List HubEvent} {m : Nat}
    (h : ∀ e ∈ D.take m, p e = true) : D.takeWhile p = D.take m ++ (D.drop m).takeWhile p := by
  conv => lhs; rw [← List.take_append_drop m D]
  exact List.takeWhile_append_of_pos h

private theorem take_takeWhile {p : HubEvent → Bool} {D : List HubEvent} {m : Nat}
    (h : ∀ e ∈ D.take m, p e = true) : (D.takeWhile p).take m = D.take m := by
  rw [takeWhile_of_take h]
  by_cases hm : m ≤ D.length
  · exact List.take_left' (by rw [List.length_take]; omega)
  · rw [List.drop_eq_nil_of_le (by omega), List.takeWhile_nil, List.append_nil, List.take_take, min_self]

/-- The top `ingest_seq` does not change once the first page has been read. -/
private theorem walkAt_topSeq {D : List HubEvent} {k lim : Nat} {e : HubEvent} {es : List HubEvent}
    (hlim : 0 < lim) (hP : (D.drop (k * lim)).take lim = e :: es) (t₀ : Nat) :
    (walkAt D lim t₀ k).topSeq.or (some e.ingestSeq) = D.head?.map (·.ingestSeq) := by
  by_cases hk : k = 0
  · subst hk
    rw [Nat.zero_mul, List.drop_zero] at hP
    have hD : D.head? = some e := by
      have hhead := List.head?_take (l := D) (i := lim)
      rw [hP, if_neg (by omega)] at hhead
      exact hhead.symm
    simp [walkAt, hD]
  · cases D with
    | nil => simp at hP
    | cons d D => simp [walkAt, hk]

/-- The loop from its state after `k` pages, by induction on the turns left. -/
private theorem walkLoop_spec {fetch : Nat → Option Int → EventPage} {t₀ lim maxPages : Nat} {D : List HubEvent}
    (hs : Serves fetch t₀ lim D) (hlim : 0 < lim) (c : Int) {n k : Nat} (hn : maxPages < k + n)
    (hk : k < maxPages) (hfull : k = 0 ∨ D.take (k * lim) ≠ [])
    (hnew : ∀ e ∈ D.take (k * lim), c < e.ingestSeq) :
    Walked D (D.takeWhile fun e => c < e.ingestSeq) (maxPages * lim)
      (walkLoop fetch (some c) maxPages n (walkAt D lim t₀ k)) := by
  induction n generalizing k with
  | zero => omega
  | succ n ih =>
    have hpage : (fetch (walkAt D lim t₀ k).clock (walkAt D lim t₀ k).afterSeq).events = _ := hs.page k hfull
    have hnext := hs.nextAfter (walkAt D lim t₀ k).clock (walkAt D lim t₀ k).afterSeq
    have hA := takeWhile_of_take (p := fun e => c < e.ingestSeq) (by simpa using hnew)
    have hkM : (k + 1) * lim ≤ maxPages * lim := Nat.mul_le_mul_right _ hk
    have hlen : (D.take (k * lim)).length ≤ k * lim := List.length_take_le _ _
    have hplen : ((D.drop (k * lim)).take lim).length ≤ lim := List.length_take_le _ _
    rw [Nat.succ_mul] at hkM
    rw [hpage] at hnext
    rw [walkLoop]
    rcases hP : (D.drop (k * lim)).take lim with _ | ⟨e, es⟩
    · -- an empty page: the feed ran out of history
      rw [walkPage_empty (hpage.trans hP)]
      have hdrop : D.drop (k * lim) = [] := by
        rcases List.take_eq_nil_iff.1 hP with h | h
        · omega
        · exact h
      rw [hdrop, List.takeWhile_nil, List.append_nil] at hA
      refine ⟨?_, ?_, ?_⟩
      · rw [hA, List.take_of_length_le (by omega)]
        rfl
      · rcases hfull with rfl | h
        · rw [Nat.zero_mul, List.drop_zero] at hdrop
          simp [walkAt, hdrop]
        · have hk0 : k ≠ 0 := by rintro rfl; simp at h
          simp [walkAt, hk0]
      · rw [hA]
        omega
    · have htop := walkAt_topSeq hlim hP t₀
      by_cases hb : ∀ x ∈ e :: es, c < x.ingestSeq
      · have htake : D.take (k * lim) ++ e :: es = D.take ((k + 1) * lim) := by
          rw [take_succ_mul, hP]
        have hnew' : ∀ x ∈ D.take ((k + 1) * lim), c < x.ingestSeq := by
          rw [← htake]
          intro x hx
          rcases List.mem_append.1 hx with hx | hx
          · exact hnew x hx
          · exact hb x hx
        by_cases hm : maxPages ≤ k + 1
        · -- `max_pages` stops the walk
          rw [walkPage_maxPages (hpage.trans hP) hb hm]
          obtain rfl : maxPages = k + 1 := by omega
          refine ⟨?_, htop, fun _ => rfl⟩
          exact htake.trans (take_takeWhile (by simpa using hnew')).symm
        · obtain ⟨x, hx⟩ : ∃ x, (e :: es).getLast? = some x := ⟨_, List.getLast?_eq_getLast_of_ne_nil (by simp)⟩
          have hlast : (D.take ((k + 1) * lim)).getLast? = (e :: es).getLast? := by
            rw [← htake, List.getLast?_append, hx]
            rfl
          have ha : (fetch (walkAt D lim t₀ k).clock (walkAt D lim t₀ k).afterSeq).nextAfter = some x.ingestSeq := by
            rw [hnext, hP, hx]
            rfl
          rw [walkPage_again (hpage.trans hP) hb (by simpa [walkAt] using hm) ha]
          have hw : { (walkAt D lim t₀ k).turn e (e :: es) with afterSeq := some x.ingestSeq } =
              walkAt D lim t₀ (k + 1) := by
            rw [Walk.turn, htop]
            simp only [walkAt, Nat.succ_ne_zero, ↓reduceIte, htake, hlast, hx, Option.map_some, Nat.add_assoc]
          rw [hw]
          exact ih (by omega) (by omega) (Or.inr (by rw [← htake]; simp)) hnew'
      · -- the boundary is on this page
        have hb' : ((e :: es).takeWhile fun x => c < x.ingestSeq).length < (e :: es).length := by
          refine Nat.lt_of_not_le fun hle => hb fun x hx => ?_
          rw [← (List.takeWhile_prefix _).eq_of_length_le hle] at hx
          simpa using List.mem_takeWhile_imp hx
        rw [walkPage_boundary (hpage.trans hP) hb']
        rw [takeWhile_of_boundary (L := D.drop (k * lim)) (by rw [hP]; exact hb'), hP] at hA
        have hAlen : (D.takeWhile fun e => c < e.ingestSeq).length ≤ maxPages * lim := by
          rw [hA, List.length_append]
          rw [hP] at hplen
          omega
        refine ⟨?_, htop, ?_⟩
        · rw [List.take_of_length_le hAlen, hA]
          rfl
        · omega

section Feed

variable (hist : HubHistory) (args : FollowArgs) (maxPages : Nat)

/-- The page size the hub grants. -/
def pageSize : Nat := parseLimit args.limit

/-- The events the session's repository filter selects. -/
def selected (e : HubEvent) : Bool := (argOrNone args.repositoryId).all fun repo => e.repositoryId = some repo

/-- The selected events logged at an instant, oldest first. -/
def feed (t : Nat) : List HubEvent := (hist.log t).filter (selected args)

variable {hist args maxPages}

theorem pageSize_pos : 0 < pageSize args := by
  unfold pageSize parseLimit recentLimitMax
  split
  · omega
  · omega

private theorem log_grows {t t' : Nat} (h : t ≤ t') : hist.log t <+: hist.log t' := by
  induction h with
  | refl => exact List.prefix_rfl
  | step _ ih => exact ih.trans (hist.grows _)

variable (hist args) in
private theorem feed_grows {t t' : Nat} (h : t ≤ t') : feed hist args t <+: feed hist args t' :=
  (log_grows h).filter _

variable (hist args) in
private theorem feed_increasing (t : Nat) :
    (feed hist args t).Pairwise fun x y => x.ingestSeq < y.ingestSeq :=
  (hist.increasing t).filter _

private theorem feed_sorted (t : Nat) : Keyset.Sorted seqDesc (feed hist args t).reverse :=
  List.pairwise_reverse.2 ((feed_increasing hist args t).imp fun h => OrderDual.toDual_lt_toDual.2 h)

private theorem pairwise_take_getElem {r : HubEvent → HubEvent → Prop} {L : List HubEvent} {i : Nat} {y : HubEvent}
    (h : L.Pairwise r) (hy : L[i]? = some y) : ∀ z ∈ L.take i, r z y := by
  intro z hz
  rw [← List.take_append_drop i L] at h
  refine (List.pairwise_append.1 h).2.2 z hz y ?_
  rw [← List.head?_drop] at hy
  exact List.mem_of_head? hy

/-- What is appended to the feed is newer than all of it. -/
private theorem newer_of_append {t t' : Nat} {N : List HubEvent} (h : feed hist args t' = feed hist args t ++ N)
    {x y : HubEvent} (hx : x ∈ feed hist args t) (hy : y ∈ N) : x.ingestSeq < y.ingestSeq := by
  have hp := feed_increasing hist args t'
  rw [h] at hp
  exact (List.pairwise_append.1 hp).2.2 x hx y hy

/-- The route serves keyset pages of the feed, newest first. -/
private theorem fetchPage_events (t : Nat) (after : Option Int) :
    (fetchPage hist args t after).events =
      Keyset.page seqDesc (pageSize args) (after.map OrderDual.toDual) (feed hist args t).reverse := by
  have hall : (fun r : HubEvent => (argOrNone none).all fun ty => decide (r.eventType = ty)) = fun _ => true := rfl
  simp only [fetchPage, recentEventsRoute, recentEvents, hall, List.filter_true, Keyset.page, feed,
    ← List.filter_reverse, pageSize]
  congr 1
  cases after with
  | none =>
    have hafter : (fun r : HubEvent => (none : Option Int).all fun a => decide (r.ingestSeq < a)) = fun _ => true :=
      rfl
    rw [hafter, List.filter_true]
    rfl
  | some a => exact List.filter_comm _ _ _

variable (hist args) in
/-- A walk starting at instant `t` pages through what the feed held at `t`: later appends are never older than the
continuation token. -/
private theorem fetchPage_serves (t : Nat) :
    Serves (fetchPage hist args) t (pageSize args) (feed hist args t).reverse where
  page k hk := by
    rw [fetchPage_events]
    by_cases hk0 : k = 0
    · subst hk0
      simp [Keyset.page]
    · obtain ⟨x, hx⟩ : ∃ x, ((feed hist args t).reverse.take (k * pageSize args)).getLast? = some x :=
        ⟨_, List.getLast?_eq_getLast_of_ne_nil (hk.resolve_left hk0)⟩
      have hxt : x ∈ feed hist args t := by
        have := List.mem_of_mem_take (List.mem_of_getLast? hx)
        simpa using this
      obtain ⟨N, hN⟩ := feed_grows hist args (Nat.le_add_right t k)
      have hnew : N.reverse.filter (fun y => seqDesc x < seqDesc y) = [] := by
        rw [List.filter_eq_nil_iff]
        intro y hy
        have := newer_of_append hN.symm hxt (List.mem_reverse.1 hy)
        simpa [seqDesc] using this.le
      rw [hx, ← hN, List.reverse_append]
      have hb : Keyset.beyond seqDesc (some (seqDesc x)) (N.reverse ++ (feed hist args t).reverse) =
          Keyset.beyond seqDesc (some (seqDesc x)) (feed hist args t).reverse := by
        simp only [Keyset.beyond, List.filter_append, hnew, List.nil_append]
      show List.take _ (Keyset.beyond seqDesc (some (seqDesc x)) _) = _
      rw [hb, Keyset.beyond_getLast_take (feed_sorted t) hx]
  nextAfter _ _ := rfl

private theorem walkPage_clock {fetch : Nat → Option Int → EventPage} {cursor : Option Int} (w : Walk) :
    (walkPage fetch cursor maxPages w).1.clock = w.clock + 1 := by
  simp only [walkPage]
  split
  · rfl
  · cases cursor with
    | none => rfl
    | some c =>
      simp only
      split
      · rfl
      · split
        · rfl
        · split <;> rfl

private theorem walkLoop_clock {fetch : Nat → Option Int → EventPage} {cursor : Option Int} (n : Nat) (w : Walk) :
    w.clock ≤ (walkLoop fetch cursor maxPages n w).clock := by
  induction n generalizing w with
  | zero => exact le_rfl
  | succ n ih =>
    have hc : (walkPage fetch cursor maxPages w).1.clock = w.clock + 1 := walkPage_clock w
    rw [walkLoop]
    split
    · rename_i w' hw
      rw [hw] at hc
      exact le_trans (le_of_le_of_eq (Nat.le_succ _) hc.symm) (ih w')
    · rename_i w' hw
      rw [hw] at hc
      exact le_of_le_of_eq (Nat.le_succ _) hc.symm

variable (hist args maxPages) in
theorem walkNewEvents_clock (cursor : Option Int) (t : Nat) :
    t ≤ (walkNewEvents (fetchPage hist args) cursor maxPages t).2.2 :=
  walkLoop_clock _ { clock := t }

/-- The events above a cursor at an instant, newest first. -/
def newerThan (hist : HubHistory) (args : FollowArgs) (c : Int) (t : Nat) : List HubEvent :=
  (feed hist args t).reverse.takeWhile fun e => c < e.ingestSeq

private theorem max_seq_seen {L : List HubEvent} {d : HubEvent} (hd : d ∈ L) (c : Int) :
    max d.ingestSeq c = c ∨ ∃ e ∈ L, e.ingestSeq = max d.ingestSeq c := by
  rcases le_total c d.ingestSeq with h | h
  · exact Or.inr ⟨d, hd, (max_eq_left h).symm⟩
  · exact Or.inl (max_eq_right h)

variable (hist args) in
/-- A call with a cursor: what it returns and where its cursor goes. -/
theorem walkNewEvents_some (hmax : 0 < maxPages) (c : Int) (t : Nat) :
    let A := newerThan hist args c t
    let M := maxPages * pageSize args
    let r := walkNewEvents (fetchPage hist args) (some c) maxPages t
    r.1 = (A.take M).reverse ∧
      ∃ c', r.2.1 = some c' ∧ (c' = c ∨ ∃ e ∈ feed hist args t, e.ingestSeq = c') ∧
        (M < A.length → ∃ x, (A.take M).getLast? = some x ∧ c' = x.ingestSeq) := by
  intro A M r
  have hw := walkLoop_spec (fetchPage_serves hist args t) pageSize_pos c
    (n := maxPages + 1) (k := 0) (by omega) hmax (Or.inl rfl) (by simp)
  have hstart : walkAt (feed hist args t).reverse (pageSize args) t 0 = { clock := t } := by
    simp [walkAt]
  rw [hstart] at hw
  have hD : ∀ x ∈ A, x ∈ feed hist args t := by
    intro x hx
    exact List.mem_reverse.1 ((List.takeWhile_prefix _).subset hx)
  have hAc : ∀ x ∈ A, c < x.ingestSeq := by
    intro x hx
    simpa using List.mem_takeWhile_imp hx
  refine ⟨congrArg List.reverse hw.collected, ?_⟩
  change ∃ c', newCursor (some c) (walkLoop (fetchPage hist args) (some c) maxPages (maxPages + 1) { clock := t }) =
    some c' ∧ _
  generalize walkLoop (fetchPage hist args) (some c) maxPages (maxPages + 1) { clock := t } = w at hw ⊢
  have hcol : w.collected = A.take M := hw.collected
  have htop := hw.topSeq
  rcases hD' : (feed hist args t).reverse with _ | ⟨d, D⟩
  · -- nothing has been logged
    have hA : A = [] := by
      change (feed hist args t).reverse.takeWhile _ = []
      rw [hD', List.takeWhile_nil]
    rw [hD'] at htop
    refine ⟨c, newCursor_empty htop, Or.inl rfl, ?_⟩
    rw [hA]
    simp
  · rw [hD'] at htop
    have hd : d ∈ feed hist args t := by
      rw [← List.mem_reverse, hD']
      simp
    rcases hx : w.collected.getLast? with _ | x
    · have hnil : w.collected = [] := List.getLast?_eq_none_iff.1 hx
      refine ⟨_, newCursor_top htop (Or.inr hnil), max_seq_seen hd c, fun hlt => ?_⟩
      have hM : 0 < M := Nat.mul_pos hmax pageSize_pos
      rw [hcol, List.take_eq_nil_iff, ← List.length_eq_zero_iff] at hnil
      omega
    · have hxA : x ∈ A := List.mem_of_mem_take (hcol ▸ List.mem_of_getLast? hx)
      rcases htr : w.truncated with _ | _
      · refine ⟨_, newCursor_top htop (Or.inl htr), max_seq_seen hd c, fun hlt => ?_⟩
        rw [hw.truncated hlt] at htr
        cases htr
      · refine ⟨_, newCursor_truncated htop htr hx, Or.inr ⟨x, hD x hxA, ?_⟩, fun _ => ⟨x, hcol ▸ hx, ?_⟩⟩
        · exact (max_eq_left (hAc x hxA).le).symm
        · exact max_eq_left (hAc x hxA).le

variable (hist args maxPages) in
/-- A call without a cursor prints nothing and takes the newest event as its baseline. -/
theorem walkNewEvents_none (t : Nat) :
    (walkNewEvents (fetchPage hist args) none maxPages t).1 = [] ∧
      (walkNewEvents (fetchPage hist args) none maxPages t).2.1 =
        (feed hist args t).getLast?.map (·.ingestSeq) := by
  have hpage : (fetchPage hist args t none).events = (feed hist args t).reverse.take (pageSize args) := by
    rw [fetchPage_events]
    rfl
  have hhead : ((feed hist args t).reverse.take (pageSize args)).head? = (feed hist args t).getLast? := by
    rw [List.head?_take, if_neg (Nat.ne_of_gt pageSize_pos), List.head?_reverse]
  rw [← hhead]
  rcases hP : (feed hist args t).reverse.take (pageSize args) with _ | ⟨e, es⟩
  · have hw : walkPage (fetchPage hist args) none maxPages { clock := t } = ({ clock := t + 1 }, false) :=
      walkPage_empty (hpage.trans hP)
    simp only [walkNewEvents, walkLoop, hw]
    exact ⟨rfl, newCursor_empty rfl⟩
  · have hw : walkPage (fetchPage hist args) none maxPages { clock := t } =
        ({ clock := t + 1, topSeq := some e.ingestSeq }, false) := walkPage_baseline (hpage.trans hP)
    simp only [walkNewEvents, walkLoop, hw]
    exact ⟨rfl, newCursor_baseline rfl⟩

end Feed

/-! ### A session -/

section Session

variable (hist : HubHistory) (args : FollowArgs) (maxPages : Nat)

/-- The top `ingest_seq` of the initial snapshot; `none` when it was empty. -/
def baseline : Option Int := (followStart hist args).cursor

/-- Every event above the baseline and at or below the cursor has been printed. -/
def GapFree (s : FollowSession) : Prop :=
  ∀ e ∈ hist.log s.clock, selected args e → (∀ b, baseline hist args = some b → b < e.ingestSeq) →
    (∃ c, s.cursor = some c ∧ e.ingestSeq ≤ c) → e ∈ s.printed

/-- The next poll comes in time: the snapshot was not empty (or there is still nothing to show), and since the first
fetch of the latest poll no more was appended than one walk can collect. -/
def PollInTime (s : FollowSession) : Prop :=
  (feed hist args 0 ≠ [] ∨ feed hist args s.clock = []) ∧
    (feed hist args s.clock).length ≤ (feed hist args s.lastStart).length + maxPages * pageSize args

/-- What the polls so far have achieved: exactly the feed at the first fetch of the latest poll is dealt with. -/
private structure SessionInv (s : FollowSession) : Prop where
  started : s.lastStart ≤ s.clock
  based : baseline hist args = none → s.cursor = none
  empty : s.cursor = none → feed hist args s.lastStart = []
  seen : ∀ c, s.cursor = some c → ∃ e ∈ feed hist args s.lastStart, e.ingestSeq = c
  logged : ∀ e ∈ s.printed, e ∈ feed hist args s.lastStart
  printed : ∀ e ∈ feed hist args s.lastStart, (∀ b, baseline hist args = some b → b < e.ingestSeq) → e ∈ s.printed

variable {hist args maxPages}

private theorem baseline_eq : baseline hist args = (feed hist args 0).getLast?.map (·.ingestSeq) := by
  have hpage : (fetchPage hist args 0 none).events = (feed hist args 0).reverse.take (pageSize args) := by
    rw [fetchPage_events]
    rfl
  rw [baseline, followStart, hpage, List.head?_take, if_neg (Nat.ne_of_gt pageSize_pos), List.head?_reverse]

/-- Everything in the snapshot is at or below the baseline. -/
private theorem not_above_baseline {e : HubEvent} (he : e ∈ feed hist args 0) :
    ¬ ∀ b, baseline hist args = some b → b < e.ingestSeq := by
  intro h
  obtain ⟨x, hx⟩ : ∃ x, (feed hist args 0).getLast? = some x :=
    ⟨_, List.getLast?_eq_getLast_of_ne_nil (List.ne_nil_of_mem he)⟩
  have hb := h x.ingestSeq (by rw [baseline_eq, hx]; rfl)
  obtain ⟨P, hP⟩ := List.getLast?_eq_some_iff.1 hx
  have hinc := feed_increasing hist args 0
  rw [hP] at he hinc
  rcases List.mem_append.1 he with he | he
  · have := (List.pairwise_append.1 hinc).2.2 e he x (by simp)
    omega
  · rw [List.mem_singleton.1 he] at hb
    omega

/-- An event logged later than one of the feed at `t` is newer than it. -/
private theorem mem_feed_of_le {t t' : Nat} (ht : t ≤ t') {e x : HubEvent} (he : e ∈ feed hist args t')
    (hx : x ∈ feed hist args t) (hle : e.ingestSeq ≤ x.ingestSeq) : e ∈ feed hist args t := by
  obtain ⟨N, hN⟩ := feed_grows hist args ht
  rw [← hN] at he
  rcases List.mem_append.1 he with he | he
  · exact he
  · have := newer_of_append hN.symm hx he
    omega

private theorem start_inv : SessionInv hist args (followStart hist args) where
  started := Nat.zero_le _
  based h := h
  empty h := by
    have hb : baseline hist args = none := h
    rw [baseline_eq, Option.map_eq_none_iff, List.getLast?_eq_none_iff] at hb
    exact hb
  seen c h := by
    have hb : baseline hist args = some c := h
    rw [baseline_eq, Option.map_eq_some_iff] at hb
    obtain ⟨e, he, hc⟩ := hb
    exact ⟨e, List.mem_of_getLast? he, hc⟩
  logged _ he := by cases he
  printed _ he hb := absurd hb (not_above_baseline he)

/-- What the invariant is for. -/
private theorem SessionInv.gapFree {s : FollowSession} (h : SessionInv hist args s) : GapFree hist args s := by
  intro e he hsel hb hcur
  obtain ⟨c, hc, hle⟩ := hcur
  obtain ⟨x, hx, rfl⟩ := h.seen c hc
  exact h.printed e (mem_feed_of_le h.started (List.mem_filter.2 ⟨he, hsel⟩) hx hle) hb

/-- The events above the cursor are those appended since the latest poll, and perhaps some that were printed. -/
private theorem newerThan_eq {s : FollowSession} (h : SessionInv hist args s) {c : Int} (hc : s.cursor = some c)
    {N : List HubEvent} (hN : feed hist args s.clock = feed hist args s.lastStart ++ N) :
    newerThan hist args c s.clock =
      N.reverse ++ (feed hist args s.lastStart).reverse.takeWhile fun e => c < e.ingestSeq := by
  obtain ⟨x, hx, rfl⟩ := h.seen c hc
  rw [newerThan, hN, List.reverse_append]
  refine List.takeWhile_append_of_pos fun y hy => ?_
  simpa using newer_of_append hN hx (List.mem_reverse.1 hy)

/-- A poll in time keeps the invariant. -/
private theorem poll_inv (hmax : 0 < maxPages) {s : FollowSession} (h : SessionInv hist args s)
    (ht : PollInTime hist args maxPages s) : SessionInv hist args (followPoll hist args maxPages s) := by
  have hclock := walkNewEvents_clock hist args maxPages s.cursor s.clock
  rcases hcur : s.cursor with _ | c
  · -- still no baseline: there is nothing to show yet
    have h0 : feed hist args 0 = [] := by
      have hpre := feed_grows hist args (Nat.zero_le s.lastStart)
      rwa [h.empty hcur, List.prefix_nil] at hpre
    have hnow : feed hist args s.clock = [] := ht.1.resolve_left (fun hne => hne h0)
    obtain ⟨hnew, hcursor⟩ := walkNewEvents_none hist args maxPages s.clock
    rw [hnow] at hcursor
    have hprinted : s.printed = [] := by
      rcases hp : s.printed with _ | ⟨e, es⟩
      · rfl
      · have := h.logged e (by simp [hp])
        rw [h.empty hcur] at this
        cases this
    rw [hcur] at hclock
    simp only [followPoll, hcur]
    exact
      { started := hclock
        based := fun _ => by rw [hcursor]; rfl
        empty := fun _ => hnow
        seen := by
          intro c hc
          rw [hcursor] at hc
          cases hc
        logged := by
          intro e he
          rw [hnew, hprinted] at he
          cases he
        printed := by
          intro e he
          rw [hnow] at he
          cases he }
  · obtain ⟨hnew, c', hc', hseen, -⟩ :=
      walkNewEvents_some hist args hmax c s.clock
    obtain ⟨N, hN⟩ := feed_grows hist args h.started
    have hA := newerThan_eq h hcur hN.symm
    have hlen : N.length ≤ maxPages * pageSize args := by
      have := ht.2
      rw [← hN, List.length_append] at this
      omega
    rw [hcur] at hclock
    simp only [followPoll, hcur]
    refine ⟨hclock, fun hb => ?_, ?_, ?_, ?_, ?_⟩
    · rw [h.based hb] at hcur
      cases hcur
    · intro hnone
      rw [hc'] at hnone
      cases hnone
    · intro d hd
      rw [hc'] at hd
      obtain rfl : c' = d := by simpa using hd
      rcases hseen with rfl | hseen
      · obtain ⟨x, hx, hxc⟩ := h.seen c' hcur
        exact ⟨x, (feed_grows hist args h.started).subset hx, hxc⟩
      · exact hseen
    · intro e he
      rcases List.mem_append.1 he with he | he
      · exact (feed_grows hist args h.started).subset (h.logged e he)
      · rw [hnew, List.mem_reverse] at he
        have he' := (List.takeWhile_prefix _).subset (List.mem_of_mem_take he)
        exact List.mem_reverse.1 he'
    · intro e he hb
      rw [← hN] at he
      refine List.mem_append.2 ((List.mem_append.1 he).imp (fun he => h.printed e he hb) fun he => ?_)
      rw [hnew, hA, List.mem_reverse, List.take_append]
      refine List.mem_append_left _ ?_
      rw [List.take_of_length_le (by simpa using hlen)]
      exact List.mem_reverse.2 he

/-- A poll that comes too late marks an event as seen that was not printed. -/
private theorem inTime_of_gapFree (hmax : 0 < maxPages) {s : FollowSession} (h : SessionInv hist args s)
    (hgap : GapFree hist args (followPoll hist args maxPages s)) : PollInTime hist args maxPages s := by
  have hclock := walkNewEvents_clock hist args maxPages s.cursor s.clock
  -- an event of the feed at the first fetch that the cursor passes is printed
  have hprint : ∀ e ∈ feed hist args s.clock, (∀ b, baseline hist args = some b → b < e.ingestSeq) →
      (∃ c, (followPoll hist args maxPages s).cursor = some c ∧ e.ingestSeq ≤ c) →
      e ∈ (followPoll hist args maxPages s).printed := by
    intro e he hb hc
    have he' := List.mem_filter.1 he
    exact hgap e ((log_grows hclock).subset he'.1) he'.2 hb hc
  rcases hcur : s.cursor with _ | c
  · have hlast := h.empty hcur
    have hempty : feed hist args s.clock = [] := by
      by_contra hne
      obtain ⟨x, hx⟩ : ∃ x, (feed hist args s.clock).getLast? = some x :=
        ⟨_, List.getLast?_eq_getLast_of_ne_nil hne⟩
      obtain ⟨hnew, hcursor⟩ := walkNewEvents_none hist args maxPages s.clock
      have hnone : baseline hist args = none := by
        have hpre := feed_grows hist args (Nat.zero_le s.lastStart)
        rw [hlast, List.prefix_nil] at hpre
        rw [baseline_eq, hpre]
        rfl
      have hxp := hprint x (List.mem_of_getLast? hx) (by simp [hnone])
        ⟨x.ingestSeq, by simp only [followPoll, hcur, hcursor, hx, Option.map_some], le_rfl⟩
      simp only [followPoll, hcur, hnew, List.append_nil] at hxp
      have := h.logged x hxp
      rw [hlast] at this
      cases this
    exact ⟨Or.inr hempty, by rw [hempty]; simp⟩
  · obtain ⟨hnew, c', hc', -, hcut⟩ := walkNewEvents_some hist args hmax c s.clock
    obtain ⟨N, hN⟩ := feed_grows hist args h.started
    have hA := newerThan_eq h hcur hN.symm
    refine ⟨Or.inl fun h0 => ?_, ?_⟩
    · have := h.based (by rw [baseline_eq, h0]; rfl)
      rw [hcur] at this
      cases this
    · by_contra hlate
      rw [← hN, List.length_append] at hlate
      have hM : maxPages * pageSize args < N.reverse.length := by
        rw [List.length_reverse]
        omega
      obtain ⟨x, hx, rfl⟩ := hcut (by rw [hA, List.length_append]; omega)
      have htake : (newerThan hist args c s.clock).take (maxPages * pageSize args) =
          N.reverse.take (maxPages * pageSize args) := by
        rw [hA, List.take_append_of_le_length hM.le]
      rw [htake] at hx hnew
      -- the first event below those that were collected
      obtain ⟨y, hy⟩ : ∃ y, N.reverse[maxPages * pageSize args]? = some y := ⟨_, List.getElem?_eq_getElem hM⟩
      have hyN : y ∈ N := List.mem_reverse.1 (List.mem_of_getElem? hy)
      have hbelow : ∀ z ∈ N.reverse.take (maxPages * pageSize args), y.ingestSeq < z.ingestSeq := by
        have hinc := feed_increasing hist args s.clock
        rw [← hN] at hinc
        exact pairwise_take_getElem (List.pairwise_reverse.2 (List.pairwise_append.1 hinc).2.1) hy
      have hyold : y ∉ feed hist args s.lastStart := fun hmem =>
        absurd (newer_of_append hN.symm hmem hyN) (lt_irrefl _)
      have hyp := hprint y (by rw [← hN]; exact List.mem_append_right _ hyN) ?_
        ⟨x.ingestSeq, by simp only [followPoll, hcur, hc'], (hbelow x (List.mem_of_getLast? hx)).le⟩
      · simp only [followPoll, hcur, hnew, List.mem_append, List.mem_reverse] at hyp
        rcases hyp with hyp | hyp
        · exact hyold (h.logged y hyp)
        · exact absurd (hbelow y hyp) (lt_irrefl _)
      · intro b hb
        rw [baseline_eq, Option.map_eq_some_iff] at hb
        obtain ⟨z, hz, rfl⟩ := hb
        have hz' := (feed_grows hist args (Nat.zero_le s.lastStart)).subset (List.mem_of_getLast? hz)
        exact newer_of_append hN.symm hz' hyN

/-- **When a session is gap-free.**  Every event above the baseline that the cursor passes is printed, after each of
the first `N` polls, if and only if each of them comes in time. -/
theorem follow_gapFree_iff (hist : HubHistory) (args : FollowArgs) (hmax : 0 < maxPages) (N : Nat) :
    (∀ n ≤ N, GapFree hist args (followSession hist args maxPages n)) ↔
      ∀ n < N, PollInTime hist args maxPages (followSession hist args maxPages n) := by
  have hrun : ∀ n, (∀ m < n, PollInTime hist args maxPages (followSession hist args maxPages m)) →
      SessionInv hist args (followSession hist args maxPages n) := by
    intro n
    induction n with
    | zero => exact fun _ => start_inv
    | succ n ih =>
      intro h
      exact poll_inv hmax (ih fun m hm => h m (by omega)) (h n (by omega))
  refine ⟨fun h n => ?_, fun h n hn => (hrun n fun m hm => h m (by omega)).gapFree⟩
  induction n using Nat.strong_induction_on with
  | _ n ih =>
    intro hn
    exact inTime_of_gapFree hmax (hrun n fun m hm => ih m hm (by omega)) (h (n + 1) (by omega))

end Session

/-! ### Two short sessions -/

private def logged (n : Int) : HubEvent := ⟨"", n, "task.created", none⟩

/-- The log holds its first event at the snapshot and `burst` from the first poll on. -/
private def burstHistory (burst : List HubEvent)
    (h : (logged 1 :: burst).Pairwise fun x y => x.ingestSeq < y.ingestSeq) :
    HubHistory where
  log t := if t = 0 then [logged 1] else logged 1 :: burst
  increasing t := by
    split
    · exact List.pairwise_singleton _ _
    · exact h
  grows t := by
    rw [if_neg (Nat.succ_ne_zero t)]
    split
    · exact ⟨burst, rfl⟩
    · exact List.prefix_rfl

/-- One page of one event between the polls, one event appended. -/
theorem trickle_gapFree :
    0 < 1 ∧ GapFree (burstHistory [logged 2] (by decide)) ⟨1, none⟩
      (followSession (burstHistory [logged 2] (by decide)) ⟨1, none⟩ 1 1) := by
  refine ⟨by decide, (follow_gapFree_iff _ _ (by decide) 1).2 (fun n hn => ?_) 1 le_rfl⟩
  obtain rfl : n = 0 := by omega
  unfold PollInTime
  decide

/-- Two events appended: the walk prints event 3 and moves the cursor onto it; event 2 is never printed. -/
theorem burst_not_gapFree :
    ¬ GapFree (burstHistory [logged 2, logged 3] (by decide)) ⟨1, none⟩
      (followSession (burstHistory [logged 2, logged 3] (by decide)) ⟨1, none⟩ 1 1) := by
  intro h
  have h2 := h (logged 2) (by decide) (by decide) (by decide) ⟨3, by decide, by decide⟩
  revert h2
  decide

end AgentOS
