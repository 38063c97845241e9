import Mathlib.Combinatorics.SimpleGraph.Walk.Basic
import Mathlib.Data.Finset.SDiff

/-!
# Breadth-first search

The vertices of a graph within a number of hops, and the search that goes from frontier to frontier and finds them
(`mem_explore`).  The graph is known to the search by a function from a set of vertices to their neighbours, which may
return vertices of the set too.
-/

namespace Bfs

variable {α : Type*} {G : SimpleGraph α} {n : Nat} {a b c : α}

/-- A walk of at most `n` edges leads from `a` to `b`. -/
def Within (G : SimpleGraph α) (n : Nat) (a b : α) : Prop := ∃ w : G.Walk a b, w.length ≤ n

theorem Within.refl (G : SimpleGraph α) (n : Nat) (a : α) : Within G n a a := ⟨.nil, Nat.zero_le n⟩

theorem Within.cons (hab : G.Adj a b) (h : Within G n b c) : Within G (n + 1) a c := by
  obtain ⟨w, hw⟩ := h
  exact ⟨.cons hab w, Nat.succ_le_succ hw⟩

theorem within_zero : Within G 0 a b ↔ a = b := by
  constructor
  · rintro ⟨w, hw⟩
    exact SimpleGraph.Walk.eq_of_length_eq_zero (Nat.le_zero.1 hw)
  · rintro rfl
    exact Within.refl G 0 a

theorem within_succ : Within G (n + 1) a c ↔ a = c ∨ ∃ b, G.Adj a b ∧ Within G n b c := by
  constructor
  · rintro ⟨w, hw⟩
    cases w with
    | nil => exact Or.inl rfl
    | cons hab w => exact Or.inr ⟨_, hab, w, Nat.le_of_succ_le_succ hw⟩
  · rintro (rfl | ⟨b, hab, h⟩)
    · exact Within.refl G (n + 1) a
    · exact h.cons hab

theorem Within.succ (h : Within G n a b) : Within G (n + 1) a b := by
  obtain ⟨w, hw⟩ := h
  exact ⟨w, Nat.le_succ_of_le hw⟩

/-- A set that adjacency does not leave is not left by a walk. -/
theorem Within.mem_of_closed {D : Finset α} (hclosed : ∀ a ∈ D, ∀ b, G.Adj a b → b ∈ D) (ha : a ∈ D)
    (h : Within G n a b) : b ∈ D := by
  obtain ⟨w, -⟩ := h
  induction w with
  | nil => exact ha
  | cons hab w ih => exact ih (hclosed _ ha _ hab)

/-! ### The search -/

variable {neighbors : Finset α → Finset α} {D F : Finset α}

/-- Outside of `F`, `neighbors F` are the vertices next to `F`. -/
def Expands (G : SimpleGraph α) (neighbors : Finset α → Finset α) : Prop :=
  ∀ F a, a ∉ F → (a ∈ neighbors F ↔ ∃ b ∈ F, G.Adj b a)

/-- The vertices next to a discovered one that is not in the frontier are discovered. -/
structure Explored (G : SimpleGraph α) (D F : Finset α) : Prop where
  frontier : F ⊆ D
  inner : ∀ a ∈ D, a ∉ F → ∀ b, G.Adj a b → b ∈ D

theorem Explored.start (G : SimpleGraph α) (a : α) : Explored G {a} {a} :=
  ⟨Finset.Subset.refl _, fun _ hD hF => absurd hD hF⟩

variable [DecidableEq α]

/-- In every round, what is new among the neighbours of the frontier is discovered, and is the next frontier. -/
def explore (neighbors : Finset α → Finset α) : Nat → Finset α → Finset α → Finset α
  | 0, discovered, _ => discovered
  | rounds + 1, discovered, frontier =>
    if frontier = ∅ then discovered
    else
      let new := neighbors frontier \ discovered
      explore neighbors rounds (discovered ∪ new) new

/-- After a round, the vertices next to those discovered before it are discovered. -/
theorem Explored.mem_round (hneighbors : Expands G neighbors) (h : Explored G D F) (ha : a ∈ D) (hab : G.Adj a b) :
    b ∈ D ∪ (neighbors F \ D) := by
  by_cases hb : b ∈ D
  · exact Finset.mem_union_left _ hb
  · have haF : a ∈ F := by
      by_contra haF
      exact hb (h.inner a ha haF b hab)
    have hbF : b ∉ F := fun hbF => hb (h.frontier hbF)
    have hnext : b ∈ neighbors F := (hneighbors F b hbF).2 ⟨a, haF, hab⟩
    exact Finset.mem_union_right _ (Finset.mem_sdiff.2 ⟨hnext, hb⟩)

theorem Explored.round (hneighbors : Expands G neighbors) (h : Explored G D F) :
    Explored G (D ∪ (neighbors F \ D)) (neighbors F \ D) := by
  refine ⟨Finset.subset_union_right, fun a ha hnew b hab => ?_⟩
  have haD : a ∈ D := (Finset.mem_union.1 ha).resolve_right hnew
  exact h.mem_round hneighbors haD hab

/-- The search finds what is within as many hops as it makes rounds. -/
theorem mem_explore_of_explored (hneighbors : Expands G neighbors) (h : Explored G D F) :
    b ∈ explore neighbors n D F ↔ ∃ a ∈ D, Within G n a b := by
  induction n generalizing D F with
  | zero =>
    constructor
    · intro hb
      exact ⟨b, hb, Within.refl G 0 b⟩
    · rintro ⟨a, ha, hab⟩
      obtain rfl := within_zero.1 hab
      exact ha
  | succ n ih =>
    rw [explore]
    split
    case isTrue hF =>
      constructor
      · intro hb
        exact ⟨b, hb, Within.refl G (n + 1) b⟩
      · rintro ⟨a, ha, hab⟩
        have hclosed : ∀ a ∈ D, ∀ b, G.Adj a b → b ∈ D := fun a ha =>
          h.inner a ha (hF ▸ Finset.notMem_empty a)
        exact hab.mem_of_closed hclosed ha
    case isFalse =>
      rw [ih (h.round hneighbors)]
      constructor
      · rintro ⟨a, ha, hab⟩
        rcases Finset.mem_union.1 ha with ha | ha
        · exact ⟨a, ha, hab.succ⟩
        · obtain ⟨hnext, haD⟩ := Finset.mem_sdiff.1 ha
          obtain ⟨c, hc, hca⟩ := (hneighbors F a fun haF => haD (h.frontier haF)).1 hnext
          exact ⟨c, h.frontier hc, hab.cons hca⟩
      · rintro ⟨a, ha, hab⟩
        rcases within_succ.1 hab with rfl | ⟨c, hac, hcb⟩
        · exact ⟨a, Finset.mem_union_left _ ha, Within.refl G n a⟩
        · exact ⟨c, h.mem_round hneighbors ha hac, hcb⟩

theorem mem_explore (hneighbors : Expands G neighbors) : b ∈ explore neighbors n {a} {a} ↔ Within G n a b := by
  rw [mem_explore_of_explored hneighbors (Explored.start G a)]
  constructor
  · rintro ⟨c, hc, h⟩
    obtain rfl := Finset.mem_singleton.1 hc
    exact h
  · intro h
    exact ⟨a, Finset.mem_singleton_self a, h⟩

end Bfs
