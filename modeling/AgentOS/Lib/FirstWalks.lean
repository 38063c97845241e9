import AgentOS.Lib.Paths
import AgentOS.Lib.Hops
import Mathlib.Data.Finset.Lattice.Fold
import Mathlib.Data.List.Infix

/-!
# Breadth-first search

The search that visits a vertex when it comes to it first, and goes on from there.

* `exists_visit`: it ends, and has visited each vertex within the bound by the first of the walks to it, in the order of
  their lengths and then of their edges.
* `exists_isFirst_of_hops`: the first walk to a vertex has no more edges than the vertex is hops away.
-/

namespace Paths

variable {α ε : Type*} {steps : α → List (α × ε)} {a : α} {p q : List (α × ε)}

/-- An edge leads from a vertex to one other. -/
def Labelled (steps : α → List (α × ε)) : Prop := ∀ a, ∀ s ∈ steps a, ∀ t ∈ steps a, s.2 = t.2 → s = t

/-- A walk is known by its edges. -/
theorem eq_of_edges_eq (hsteps : Labelled steps) (hp : IsWalk steps a p) (hq : IsWalk steps a q)
    (h : edges p = edges q) : p = q := by
  induction p generalizing a q with
  | nil =>
    cases q with
    | nil => rfl
    | cons t q => cases h
  | cons s p ih =>
    cases q with
    | nil => cases h
    | cons t q =>
      obtain ⟨hlabel, hrest⟩ := List.cons.inj h
      obtain rfl := hsteps a s hp.1 t hq.1 hlabel
      rw [ih hp.2 hq.2 hrest]

theorem hops_iff {n : Nat} {b : α} : Hops (fun u v => ∃ step ∈ steps u, step.1 = v) n a b ↔
    ∃ p, IsWalk steps a p ∧ endOf a p = b ∧ p.length = n := by
  induction n generalizing b with
  | zero =>
    rw [Hops.zero_iff]
    constructor
    · rintro rfl
      exact ⟨[], trivial, rfl, rfl⟩
    · rintro ⟨p, -, hend, hp⟩
      rw [List.length_eq_zero_iff.1 hp] at hend
      exact hend
  | succ n ih =>
    rw [Hops.succ_iff]
    constructor
    · rintro ⟨c, hc, step, hstep, rfl⟩
      obtain ⟨p, hwalk, rfl, rfl⟩ := ih.1 hc
      exact ⟨p ++ [step], isWalk_append_singleton.2 ⟨hwalk, hstep⟩, endOf_append_singleton a p step, by simp⟩
    · rintro ⟨p, hwalk, rfl, hp⟩
      rcases List.eq_nil_or_concat p with rfl | ⟨q, step, rfl⟩
      · cases hp
      · rw [List.concat_eq_append] at hwalk hp ⊢
        obtain ⟨hq, hstep⟩ := isWalk_append_singleton.1 hwalk
        rw [List.length_append] at hp
        exact ⟨endOf a q, ih.2 ⟨q, hq, rfl, Nat.succ.inj hp⟩, step, hstep, (endOf_append_singleton a q step).symm⟩

/-! ### First walks -/

variable [LinearOrder ε]

/-- The walk comes first among those to its end, in the order of their lengths and then of their edges. -/
def IsFirst (steps : α → List (α × ε)) (a : α) (p : List (α × ε)) : Prop :=
  IsWalk steps a p ∧ ∀ q, IsWalk steps a q → endOf a q = endOf a p → q = p ∨ List.Shortlex (· < ·) (edges p) (edges q)

theorem not_shortlex_self (x : List ε) : ¬ List.Shortlex (· < ·) x x := fun h => Std.Asymm.asymm _ _ h h

theorem shortlex_append {x y : List ε} (h : List.Shortlex (· < ·) x y) (i j : ε) :
    List.Shortlex (· < ·) (x ++ [i]) (y ++ [j]) := by
  rcases List.shortlex_def.1 h with h | ⟨hlength, h⟩
  · exact List.Shortlex.of_length_lt (by simpa using h)
  · exact List.Shortlex.of_lex (by simp [hlength]) (lex_append h hlength _ _)

theorem shortlex_trichotomy (x y : List ε) :
    List.Shortlex (· < ·) x y ∨ x = y ∨ List.Shortlex (· < ·) y x := by
  by_contra h
  rw [not_or, not_or] at h
  exact h.2.1 (Std.Trichotomous.trichotomous x y h.1 h.2.2)

theorem shortlex_trans {x y z : List ε} (hxy : List.Shortlex (· < ·) x y) (hyz : List.Shortlex (· < ·) y z) :
    List.Shortlex (· < ·) x z := by
  rcases List.shortlex_def.1 hxy with hxy | ⟨hxy, hlex⟩
  · exact List.Shortlex.of_length_lt (hxy.trans_le (length_le_of_shortlex hyz))
  · rcases List.shortlex_def.1 hyz with hyz | ⟨hyz, hlex'⟩
    · exact List.Shortlex.of_length_lt (hxy.trans_lt hyz)
    · exact List.Shortlex.of_lex (hxy.trans hyz) (List.lex_trans lt_trans hlex hlex')

theorem IsFirst.unique (hp : IsFirst steps a p) (hq : IsFirst steps a q) (h : endOf a p = endOf a q) : p = q := by
  rcases hq.2 p hp.1 h with hpq | hlt
  · exact hpq
  · rcases hp.2 q hq.1 h.symm with hqp | hgt
    · exact hqp.symm
    · exact absurd hgt (Std.Asymm.asymm _ _ hlt)

theorem isFirst_nil (steps : α → List (α × ε)) (a : α) : IsFirst steps a [] := by
  refine ⟨trivial, fun q _ _ => ?_⟩
  cases q with
  | nil => exact Or.inl rfl
  | cons s q => exact Or.inr (List.Shortlex.of_length_lt (Nat.succ_pos _))

/-- What a first walk begins with is a first walk. -/
theorem IsFirst.of_append (hsteps : Labelled steps) {step : α × ε} (h : IsFirst steps a (p ++ [step])) :
    IsFirst steps a p := by
  obtain ⟨hp, hstep⟩ := isWalk_append_singleton.1 h.1
  refine ⟨hp, fun q hq hend => ?_⟩
  rcases shortlex_trichotomy (edges p) (edges q) with hlt | heq | hgt
  · exact Or.inr hlt
  · exact Or.inl (eq_of_edges_eq hsteps hq hp heq.symm)
  · -- with the last step, an earlier walk to the vertex would come before the first walk
    exfalso
    have hlonger : IsWalk steps a (q ++ [step]) := isWalk_append_singleton.2 ⟨hq, hend ▸ hstep⟩
    have hless : List.Shortlex (· < ·) (edges (q ++ [step])) (edges (p ++ [step])) := by
      rw [edges_append_singleton, edges_append_singleton]
      exact shortlex_append hgt _ _
    rcases h.2 _ hlonger (by rw [endOf_append_singleton, endOf_append_singleton]) with heq | hlt
    · rw [heq] at hless
      exact not_shortlex_self _ hless
    · exact Std.Asymm.asymm _ _ hless hlt

/-- Where there is a walk, there is a first one. -/
theorem exists_isFirst [WellFoundedLT ε] (hsteps : Labelled steps) (hp : IsWalk steps a p) : ∃ f, IsFirst steps a f ∧
    endOf a f = endOf a p ∧ (f = p ∨ List.Shortlex (· < ·) (edges f) (edges p)) := by
  -- the least of the walks to the same end
  have hwf : WellFounded fun q r : List (α × ε) => List.Shortlex (· < ·) (edges q) (edges r) :=
    InvImage.wf edges (List.Shortlex.wf wellFounded_lt)
  obtain ⟨f, ⟨hf, hend⟩, hmin⟩ := hwf.has_min {q | IsWalk steps a q ∧ endOf a q = endOf a p} ⟨p, hp, rfl⟩
  have hleast : ∀ q, IsWalk steps a q → endOf a q = endOf a p →
      q = f ∨ List.Shortlex (· < ·) (edges f) (edges q) := by
    intro q hq hqend
    rcases shortlex_trichotomy (edges f) (edges q) with hlt | heq | hgt
    · exact Or.inr hlt
    · exact Or.inl (eq_of_edges_eq hsteps hq hf heq.symm)
    · exact absurd hgt (hmin q ⟨hq, hqend⟩)
  refine ⟨f, ⟨hf, fun q hq hqend => hleast q hq (hqend.trans hend)⟩, hend, ?_⟩
  exact (hleast p hp rfl).imp_left Eq.symm

theorem IsFirst.length_le (h : IsFirst steps a p) (hq : IsWalk steps a q) (hend : endOf a q = endOf a p) :
    p.length ≤ q.length := by
  rcases h.2 q hq hend with rfl | hlt
  · exact le_rfl
  · exact length_le_of_edges hlt

/-- Within so many hops of a vertex there is the end of a first walk that is no longer. -/
theorem exists_isFirst_of_hops [WellFoundedLT ε] (hsteps : Labelled steps) {n : Nat} {b : α}
    (h : Hops (fun u v => ∃ step ∈ steps u, step.1 = v) n a b) :
    ∃ f, IsFirst steps a f ∧ endOf a f = b ∧ f.length ≤ n := by
  obtain ⟨p, hp, rfl, rfl⟩ := hops_iff.1 h
  obtain ⟨f, hf, hend, -⟩ := exists_isFirst hsteps hp
  exact ⟨f, hf, hend, hf.length_le hp hend.symm⟩

/-- A vertex has not been come to yet if a walk comes before all walks to it. -/
theorem IsFirst.before_iff [WellFoundedLT ε] (hsteps : Labelled steps) (hq : IsFirst steps a q) {b : α} :
    (¬ ∃ x, IsFirst steps a x ∧ endOf a x = b ∧ (x = q ∨ List.Shortlex (· < ·) (edges x) (edges q))) ↔
      ∀ r, IsWalk steps a r → endOf a r = b → List.Shortlex (· < ·) (edges q) (edges r) := by
  constructor
  · rintro h r hr rfl
    obtain ⟨f, hf, hend, hle⟩ := exists_isFirst hsteps hr
    have hlt : List.Shortlex (· < ·) (edges q) (edges f) := by
      rcases shortlex_trichotomy (edges q) (edges f) with hlt | heq | hgt
      · exact hlt
      · exact absurd ⟨f, hf, hend, Or.inl (eq_of_edges_eq hsteps hf.1 hq.1 heq.symm)⟩ h
      · exact absurd ⟨f, hf, hend, Or.inr hgt⟩ h
    rcases hle with rfl | hle
    · exact hlt
    · exact shortlex_trans hlt hle
  · rintro h ⟨x, hx, hend, rfl | hlt⟩
    · exact not_shortlex_self _ (h x hx.1 hend)
    · exact Std.Asymm.asymm _ _ hlt (h x hx.1 hend)

/-! ### The search -/

section

variable [DecidableEq α] (steps : α → List (α × ε)) (a : α) (bound : Nat) (keep : List α → Nat → α × ε → Bool)

/-- What is appended to the queue when a walk is visited; `keep` may leave out steps to what has been visited. -/
def onward (visited : List α) (p : List (α × ε)) : List (List (α × ε)) :=
  ((steps (endOf a p)).filter (keep visited p.length)).map (p ++ [·])

/-- The loop with a bound on its rounds, from the queue and the walks that have been visited. -/
def visit : Nat → List (List (α × ε)) → List (List (α × ε)) → Option (List (List (α × ε)))
  | _, [], done => some done
  | 0, _ :: _, _ => none
  | rounds + 1, p :: queue, done =>
    if bound < p.length ∨ endOf a p ∈ done.map (endOf a) then visit rounds queue done
    else visit rounds (queue ++ onward steps a keep ((done ++ [p]).map (endOf a)) p) (done ++ [p])

/-- All that is appended to the queue when the walks are visited one after the other, after those `before`. -/
def pushes (before : List (List (α × ε))) : List (List (α × ε)) → List (List (α × ε))
  | [] => []
  | p :: rest => onward steps a keep ((before ++ [p]).map (endOf a)) p ++ pushes (before ++ [p]) rest

/-- What the search needs of the steps that are kept. -/
structure Keeps : Prop where
  new : ∀ visited d (step : α × ε), step.1 ∉ visited → d < bound → keep visited d step = true
  sorted : ∀ visited d u, u ∈ visited → ((steps u).filter (keep visited d)).Pairwise fun s t => s.2 < t.2

/-- The invariant of the loop. -/
structure Searching (queue done : List (List (α × ε))) : Prop where
  sorted : (done ++ queue).Pairwise fun p q => List.Shortlex (· < ·) (edges p) (edges q)
  walks : ∀ p ∈ queue, IsWalk steps a p
  first : ∀ p ∈ done, IsFirst steps a p ∧ p.length ≤ bound
  nil : [] ∈ done ++ queue
  next : ∀ q ∈ done, ∀ step, q.length < bound → IsFirst steps a (q ++ [step]) → q ++ [step] ∈ done ++ queue
  origin : ∀ p ∈ queue, p = [] ∨ ∃ q ∈ done, ∃ step, p = q ++ [step]

end

variable {bound : Nat} {keep : List α → Nat → α × ε → Bool} {queue done : List (List (α × ε))}

theorem Searching.start (steps : α → List (α × ε)) (a : α) (bound : Nat) : Searching steps a bound [[]] [] where
  sorted := List.pairwise_singleton _ _
  walks _ hp := List.mem_singleton.1 hp ▸ trivial
  first _ hp := absurd hp List.not_mem_nil
  nil := List.mem_singleton_self _
  next _ hq := absurd hq List.not_mem_nil
  origin _ hp := Or.inl (List.mem_singleton.1 hp)

/-- A vertex that has been visited has been so by the first walk to it. -/
private theorem Searching.mem_done (h : Searching steps a bound queue done) (hp : IsFirst steps a p)
    (hend : endOf a p ∈ done.map (endOf a)) : p ∈ done := by
  obtain ⟨q, hq, hsame⟩ := List.mem_map.1 hend
  exact (h.first q hq).1.unique hp hsame ▸ hq

/-- A walk that is not visited is passed over. -/
private theorem Searching.skip (h : Searching steps a bound (p :: queue) done)
    (hskip : bound < p.length ∨ endOf a p ∈ done.map (endOf a)) : Searching steps a bound queue done := by
  have hfirst : IsFirst steps a p → p.length ≤ bound → p ∈ done :=
    fun hp hlength => h.mem_done hp (hskip.resolve_left (Nat.not_lt.2 hlength))
  have hkept : ∀ q, IsFirst steps a q → q.length ≤ bound → q ∈ done ++ p :: queue → q ∈ done ++ queue := by
    intro q hq hlength hmem
    rcases List.mem_append.1 hmem with hmem | hmem
    · exact List.mem_append_left _ hmem
    · rcases List.mem_cons.1 hmem with rfl | hmem
      · exact List.mem_append_left _ (hfirst hq hlength)
      · exact List.mem_append_right _ hmem
  refine ⟨h.sorted.sublist (List.Sublist.append_left (List.sublist_cons_self p queue) done), ?_, h.first, ?_, ?_, ?_⟩
  · exact fun q hq => h.walks q (List.mem_cons_of_mem p hq)
  · exact hkept [] (isFirst_nil steps a) (Nat.zero_le bound) h.nil
  · intro q hq step hlength hnext
    refine hkept _ hnext ?_ (h.next q hq step hlength hnext)
    rw [List.length_append]
    exact hlength
  · exact fun q hq => h.origin q (List.mem_cons_of_mem p hq)

/-- Of a first walk within the bound, the part that has not been visited begins in the queue. -/
private theorem Searching.exists_stem (hsteps : Labelled steps) (h : Searching steps a bound queue done)
    (hp : IsFirst steps a p) (hlength : p.length ≤ bound) : p ∈ done ∨ ∃ stem ∈ queue, stem <+: p := by
  induction p using List.reverseRecOn with
  | nil =>
    rcases List.mem_append.1 h.nil with hnil | hnil
    · exact Or.inl hnil
    · exact Or.inr ⟨[], hnil, List.prefix_rfl⟩
  | append_singleton q step ih =>
    rw [List.length_append] at hlength
    rcases ih (hp.of_append hsteps) (Nat.le_of_succ_le hlength) with hq | ⟨stem, hstem, hstart⟩
    · rcases List.mem_append.1 (h.next q hq step hlength hp) with hmem | hmem
      · exact Or.inl hmem
      · exact Or.inr ⟨_, hmem, List.prefix_rfl⟩
    · exact Or.inr ⟨stem, hstem, hstart.trans (List.prefix_append q [step])⟩

/-- A walk that is visited is the first one to its end. -/
private theorem Searching.isFirst [WellFoundedLT ε] (hsteps : Labelled steps)
    (h : Searching steps a bound (p :: queue) done) (hlength : p.length ≤ bound)
    (hnew : endOf a p ∉ done.map (endOf a)) : IsFirst steps a p := by
  obtain ⟨f, hf, hend, hle⟩ := exists_isFirst hsteps (h.walks p List.mem_cons_self)
  rcases hle with rfl | hlt
  · exact hf
  · -- part of the first walk is in the queue, and is all of it, since the queue has no shorter walks than `p`
    exfalso
    have hshort : f.length ≤ p.length := hf.length_le (h.walks p List.mem_cons_self) hend.symm
    rcases h.exists_stem hsteps hf (hshort.trans hlength) with hdone | ⟨stem, hstem, hstart⟩
    · exact hnew (hend ▸ List.mem_map_of_mem hdone)
    · rcases List.mem_cons.1 hstem with rfl | hmem
      · have heq : stem = f := hstart.eq_of_length_le hshort
        rw [heq] at hlt
        exact not_shortlex_self _ hlt
      · have hbefore : List.Shortlex (· < ·) (edges p) (edges stem) :=
          (List.pairwise_cons.1 (List.pairwise_append.1 h.sorted).2.1).1 stem hmem
        have heq : stem = f := hstart.eq_of_length_le (hshort.trans (length_le_of_edges hbefore))
        rw [heq] at hbefore
        exact Std.Asymm.asymm _ _ hlt hbefore

/-- What is appended to the queue comes after all that was in it. -/
private theorem Searching.sorted_visit (hkeep : Keeps steps bound keep)
    (h : Searching steps a bound (p :: queue) done) :
    (done ++ [p] ++ (queue ++ onward steps a keep ((done ++ [p]).map (endOf a)) p)).Pairwise
      fun q r => List.Shortlex (· < ·) (edges q) (edges r) := by
  have hold : ((done ++ [p]) ++ queue).Pairwise fun q r => List.Shortlex (· < ·) (edges q) (edges r) := by
    rw [List.append_assoc]
    exact h.sorted
  have hdone : ∀ q ∈ done, List.Shortlex (· < ·) (edges q) (edges p) :=
    fun q hq => (List.pairwise_append.1 h.sorted).2.2 q hq p List.mem_cons_self
  rw [← List.append_assoc, List.pairwise_append]
  refine ⟨hold, ?_, ?_⟩
  · refine List.pairwise_map.2 ((hkeep.sorted _ p.length (endOf a p) (List.mem_map_of_mem ?_)).imp ?_)
    · exact List.mem_append_right _ (List.mem_singleton_self p)
    · intro s t hlt
      rw [edges_append_singleton, edges_append_singleton]
      exact List.Shortlex.of_lex (by rw [List.length_append, List.length_append]; rfl)
        (List.Lex.append_left _ (List.Lex.rel hlt) _)
  · intro q hq r hr
    obtain ⟨step, -, rfl⟩ := List.mem_map.1 hr
    have hshorter : ∀ x : List (α × ε), x.length ≤ p.length →
        List.Shortlex (· < ·) (edges x) (edges (p ++ [step])) := by
      intro x hx
      refine List.Shortlex.of_length_lt ?_
      rw [length_edges, length_edges, List.length_append]
      exact Nat.lt_succ_of_le hx
    rcases List.mem_append.1 hq with hq | hq
    · rcases List.mem_append.1 hq with hq | hq
      · exact hshorter q (length_le_of_edges (hdone q hq))
      · exact hshorter q (List.mem_singleton.1 hq ▸ le_rfl)
    · -- a walk in the queue is longer by one step than one that was visited before `p`
      rcases h.origin q (List.mem_cons_of_mem p hq) with rfl | ⟨x, hx, t, rfl⟩
      · exact hshorter [] (Nat.zero_le _)
      · rw [edges_append_singleton, edges_append_singleton]
        exact shortlex_append (hdone x hx) _ _

/-- A walk that is visited leads on to the walks that are one edge longer. -/
private theorem Searching.visit [WellFoundedLT ε] (hsteps : Labelled steps) (hkeep : Keeps steps bound keep)
    (h : Searching steps a bound (p :: queue) done) (hlength : p.length ≤ bound)
    (hnew : endOf a p ∉ done.map (endOf a)) :
    Searching steps a bound (queue ++ onward steps a keep ((done ++ [p]).map (endOf a)) p) (done ++ [p]) := by
  have hfirst : ∀ q ∈ done ++ [p], IsFirst steps a q ∧ q.length ≤ bound := by
    intro q hq
    rcases List.mem_append.1 hq with hq | hq
    · exact h.first q hq
    · rw [List.mem_singleton.1 hq]
      exact ⟨h.isFirst hsteps hlength hnew, hlength⟩
  have hkept : ∀ q ∈ done ++ p :: queue,
      q ∈ done ++ [p] ++ (queue ++ onward steps a keep ((done ++ [p]).map (endOf a)) p) := by
    intro q hq
    rw [← List.append_assoc]
    refine List.mem_append_left _ ?_
    rwa [List.append_assoc]
  refine ⟨h.sorted_visit hkeep, ?_, hfirst, hkept [] h.nil, ?_, ?_⟩
  · intro q hq
    rcases List.mem_append.1 hq with hq | hq
    · exact h.walks q (List.mem_cons_of_mem p hq)
    · obtain ⟨step, hstep, rfl⟩ := List.mem_map.1 hq
      exact isWalk_append_singleton.2 ⟨h.walks p List.mem_cons_self, (List.mem_filter.1 hstep).1⟩
  · intro q hq step hshort hnext
    rcases List.mem_append.1 hq with hq | hq
    · exact hkept _ (h.next q hq step hshort hnext)
    · obtain rfl := List.mem_singleton.1 hq
      refine List.mem_append_right _ (List.mem_append_right _ (List.mem_map_of_mem (List.mem_filter.2 ?_)))
      refine ⟨(isWalk_append_singleton.1 hnext.1).2, hkeep.new _ _ step ?_ hshort⟩
      intro hmem
      -- the first walk to that vertex would have been visited, and is longer than all of these
      obtain ⟨x, hx, hend⟩ := List.mem_map.1 hmem
      rw [← endOf_append_singleton a q step] at hend
      have heq : x = q ++ [step] := (hfirst x hx).1.unique hnext hend
      have hle : x.length ≤ q.length := by
        rcases List.mem_append.1 hx with hx | hx
        · exact length_le_of_edges ((List.pairwise_append.1 h.sorted).2.2 x hx q List.mem_cons_self)
        · exact List.mem_singleton.1 hx ▸ le_rfl
      rw [heq, List.length_append] at hle
      exact absurd hle (Nat.not_succ_le_self _)
  · intro q hq
    rcases List.mem_append.1 hq with hq | hq
    · rcases h.origin q (List.mem_cons_of_mem p hq) with hnil | ⟨x, hx, step, hstep⟩
      · exact Or.inl hnil
      · exact Or.inr ⟨x, List.mem_append_left _ hx, step, hstep⟩
    · obtain ⟨step, -, rfl⟩ := List.mem_map.1 hq
      exact Or.inr ⟨p, List.mem_append_right _ (List.mem_singleton_self p), step, rfl⟩

/-! ### Its end -/

private theorem Searching.nodup_ends (h : Searching steps a bound queue done) : (done.map (endOf a)).Nodup := by
  refine List.pairwise_map.2 ((List.pairwise_append.1 h.sorted).1.imp_of_mem fun {p q} hp hq hlt hend => ?_)
  rw [(h.first p hp).1.unique (h.first q hq).1 hend] at hlt
  exact not_shortlex_self _ hlt

variable [DecidableEq α]

/-- No more walks are visited than there are vertices. -/
private theorem Searching.length_done_le (h : Searching steps a bound queue done) {vertices : Finset α}
    (hends : ∀ p, IsWalk steps a p → endOf a p ∈ vertices) : done.length ≤ vertices.card := by
  rw [← List.length_map (endOf a), ← List.toFinset_card_of_nodup h.nodup_ends]
  refine Finset.card_le_card fun b hb => ?_
  obtain ⟨p, hp, rfl⟩ := List.mem_map.1 (List.mem_toFinset.1 hb)
  exact hends p (h.first p hp).1.1

omit [LinearOrder ε] in
private theorem visit_nil (steps : α → List (α × ε)) (a : α) (bound : Nat) (keep : List α → Nat → α × ε → Bool)
    (rounds : Nat) (done : List (List (α × ε))) : Paths.visit steps a bound keep rounds [] done = some done := by
  cases rounds with
  | zero => rfl
  | succ rounds => rfl

/-- Each round makes the queue shorter, or visits a vertex that has not been visited. -/
private theorem Searching.exists_end [WellFoundedLT ε] (hsteps : Labelled steps) (hkeep : Keeps steps bound keep)
    {vertices : Finset α} (hends : ∀ p, IsWalk steps a p → endOf a p ∈ vertices) {degree : Nat}
    (hdegree : ∀ b ∈ vertices, (steps b).length ≤ degree) (rounds : Nat) (h : Searching steps a bound queue done)
    (hrounds : queue.length + degree * (vertices.card - done.length) ≤ rounds) :
    ∃ final, (∀ more, Paths.visit steps a bound keep (rounds + more) queue done = some final) ∧
      Searching steps a bound [] final := by
  -- the rounds that are left pay for the queue and for the steps of the vertices that have not been visited
  induction rounds generalizing queue done with
  | zero =>
    obtain rfl : queue = [] := List.length_eq_zero_iff.1 (Nat.eq_zero_of_add_eq_zero_right (Nat.le_zero.1 hrounds))
    exact ⟨done, fun _ => visit_nil _ _ _ _ _ _, h⟩
  | succ rounds ih =>
    cases queue with
    | nil => exact ⟨done, fun _ => visit_nil _ _ _ _ _ _, h⟩
    | cons p queue =>
      rw [List.length_cons] at hrounds
      by_cases hskip : bound < p.length ∨ endOf a p ∈ done.map (endOf a)
      · obtain ⟨final, hfinal, hend⟩ := ih (h.skip hskip) (by omega)
        refine ⟨final, fun more => ?_, hend⟩
        rw [Nat.succ_add, Paths.visit, if_pos hskip]
        exact hfinal more
      · have hnext := h.visit hsteps hkeep (Nat.not_lt.1 fun hlt => hskip (Or.inl hlt)) fun hmem => hskip (Or.inr hmem)
        have hcard := hnext.length_done_le hends
        have honward : (onward steps a keep ((done ++ [p]).map (endOf a)) p).length ≤ degree := by
          rw [onward, List.length_map]
          exact (List.length_filter_le _ _).trans (hdegree _ (hends p (h.walks p List.mem_cons_self)))
        have hless : vertices.card - done.length = vertices.card - (done.length + 1) + 1 := by
          rw [List.length_append] at hcard
          simp only [List.length_singleton] at hcard
          omega
        obtain ⟨final, hfinal, hend⟩ := ih hnext (by
          rw [hless, Nat.mul_succ] at hrounds
          rw [List.length_append, List.length_append, List.length_singleton]
          omega)
        refine ⟨final, fun more => ?_, hend⟩
        rw [Nat.succ_add, Paths.visit, if_neg hskip]
        exact hfinal more

/-- **The search.**  It ends, and has visited each vertex within the bound, by the first walk to it. -/
theorem exists_visit [WellFoundedLT ε] (hsteps : Labelled steps) (hkeep : Keeps steps bound keep) {vertices : Finset α}
    (hends : ∀ p, IsWalk steps a p → endOf a p ∈ vertices) :
    ∃ rounds final, (∀ more, visit steps a bound keep (rounds + more) [[]] [] = some final) ∧
      (final.Pairwise fun p q => List.Shortlex (· < ·) (edges p) (edges q)) ∧
      ∀ p, p ∈ final ↔ IsFirst steps a p ∧ p.length ≤ bound := by
  obtain ⟨final, hfinal, h⟩ := (Searching.start steps a bound).exists_end hsteps hkeep hends
    (fun b hb => Finset.le_sup (f := fun b => (steps b).length) hb) _ le_rfl
  refine ⟨_, final, hfinal, (List.pairwise_append.1 h.sorted).1, fun p => ⟨h.first p, fun hp => ?_⟩⟩
  rcases h.exists_stem hsteps hp.1 hp.2 with hmem | ⟨stem, hstem, -⟩
  · exact hmem
  · exact absurd hstem List.not_mem_nil

/-! ### What was queued -/

omit [LinearOrder ε] [DecidableEq α]

theorem pushes_append_singleton (steps : α → List (α × ε)) (a : α) (keep : List α → Nat → α × ε → Bool)
    (before done : List (List (α × ε))) (p : List (α × ε)) : pushes steps a keep before (done ++ [p]) =
      pushes steps a keep before done ++ onward steps a keep ((before ++ done ++ [p]).map (endOf a)) p := by
  induction done generalizing before with
  | nil =>
    rw [List.nil_append, pushes, pushes, pushes, List.append_nil, List.append_nil]
    rfl
  | cons q done ih =>
    rw [List.cons_append, pushes, ih, pushes, List.append_assoc (onward steps a keep _ q),
      List.append_assoc before [q] done]
    rfl

private theorem mem_pushes {before done : List (List (α × ε))} : p ∈ pushes steps a keep before done ↔
    ∃ l q r, done = l ++ q :: r ∧ p ∈ onward steps a keep ((before ++ l ++ [q]).map (endOf a)) q := by
  induction done generalizing before with
  | nil =>
    constructor
    · exact fun h => absurd h List.not_mem_nil
    · rintro ⟨l, q, r, h, -⟩
      exact absurd h.symm (List.append_ne_nil_of_right_ne_nil l (List.cons_ne_nil q r))
  | cons x done ih =>
    rw [pushes, List.mem_append, ih]
    constructor
    · rintro (h | ⟨l, q, r, rfl, h⟩)
      · exact ⟨[], x, done, rfl, by rwa [List.append_nil]⟩
      · refine ⟨x :: l, q, r, rfl, ?_⟩
        rwa [List.append_assoc before [x] l] at h
    · rintro ⟨l, q, r, heq, h⟩
      cases l with
      | nil =>
        obtain ⟨rfl, rfl⟩ := List.cons.inj heq
        rw [List.append_nil] at h
        exact Or.inl h
      | cons y l =>
        obtain ⟨rfl, rfl⟩ := List.cons.inj heq
        refine Or.inr ⟨l, q, r, rfl, ?_⟩
        rwa [List.append_assoc before [x] l]

/-- What is queued are the first walks with a step that is kept when they are visited. -/
theorem mem_pushes_iff [LinearOrder ε] {Kept : (α → Prop) → Nat → α × ε → Prop}
    (hkeep : ∀ visited d step, keep visited d step = true ↔ Kept (· ∈ visited) d step) {final : List (List (α × ε))}
    (hsorted : final.Pairwise fun p q => List.Shortlex (· < ·) (edges p) (edges q))
    (hfinal : ∀ p, p ∈ final ↔ IsFirst steps a p ∧ p.length ≤ bound) : p ∈ pushes steps a keep [] final ↔
    ∃ q step, p = q ++ [step] ∧ IsFirst steps a q ∧ q.length ≤ bound ∧ step ∈ steps (endOf a q) ∧
      Kept (fun b => ∃ x, IsFirst steps a x ∧ endOf a x = b ∧ (x = q ∨ List.Shortlex (· < ·) (edges x) (edges q)))
        q.length step := by
  have hvisited : ∀ l q r, final = l ++ q :: r → (· ∈ (l ++ [q]).map (endOf a)) = fun b =>
      ∃ x, IsFirst steps a x ∧ endOf a x = b ∧ (x = q ∨ List.Shortlex (· < ·) (edges x) (edges q)) := by
    rintro l q r rfl
    funext b
    refine propext ?_
    obtain ⟨-, hright, hcross⟩ := List.pairwise_append.1 hsorted
    have hq := (hfinal q).1 (List.mem_append_right l List.mem_cons_self)
    constructor
    · intro hb
      obtain ⟨x, hx, rfl⟩ := List.mem_map.1 hb
      rcases List.mem_append.1 hx with hx | hx
      · exact ⟨x, ((hfinal x).1 (List.mem_append_left _ hx)).1, rfl, Or.inr (hcross x hx q List.mem_cons_self)⟩
      · exact ⟨x, List.mem_singleton.1 hx ▸ hq.1, rfl, Or.inl (List.mem_singleton.1 hx)⟩
    · rintro ⟨x, hx, rfl, rfl | hlt⟩
      · exact List.mem_map_of_mem (List.mem_append_right l (List.mem_singleton_self x))
      · refine List.mem_map_of_mem (List.mem_append_left _ ?_)
        rcases List.mem_append.1 ((hfinal x).2 ⟨hx, (length_le_of_edges hlt).trans hq.2⟩) with hmem | hmem
        · exact hmem
        · rcases List.mem_cons.1 hmem with rfl | hmem
          · exact absurd hlt (not_shortlex_self _)
          · exact absurd ((List.pairwise_cons.1 hright).1 x hmem) (Std.Asymm.asymm _ _ hlt)
  rw [mem_pushes]
  constructor
  · rintro ⟨l, q, r, rfl, h⟩
    obtain ⟨step, hstep, rfl⟩ := List.mem_map.1 h
    obtain ⟨hstep, hkept⟩ := List.mem_filter.1 hstep
    obtain ⟨hq, hlength⟩ := (hfinal q).1 (List.mem_append_right l List.mem_cons_self)
    rw [hkeep, List.nil_append, hvisited l q r rfl] at hkept
    exact ⟨q, step, rfl, hq, hlength, hstep, hkept⟩
  · rintro ⟨q, step, rfl, hq, hlength, hstep, hkept⟩
    obtain ⟨l, r, hsplit⟩ := List.append_of_mem ((hfinal q).2 ⟨hq, hlength⟩)
    refine ⟨l, q, r, hsplit, List.mem_map_of_mem (List.mem_filter.2 ⟨hstep, ?_⟩)⟩
    rw [hkeep, List.nil_append, hvisited l q r hsplit]
    exact hkept

end Paths
