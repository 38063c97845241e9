import Mathlib.Data.Finset.Lattice.Basic
import Mathlib.Tactic.Cases

/-!
# Hops

Elements that so many steps of a relation lead to, and the search that collects them level by level (`mem_spread_iff`).
-/

/-- `n` steps of `r` lead from `a` to `b`. -/
inductive Hops {α : Type*} (r : α → α → Prop) : Nat → α → α → Prop where
  | zero (a : α) : Hops r 0 a a
  | succ {n : Nat} {a b c : α} : Hops r n a b → r b c → Hops r (n + 1) a c

namespace Hops

variable {α : Type*} {r : α → α → Prop} {n : Nat} {a b c : α}

theorem zero_iff : Hops r 0 a b ↔ a = b := by
  constructor
  · rintro ⟨⟩
    rfl
  · rintro rfl
    exact Hops.zero a

theorem succ_iff : Hops r (n + 1) a c ↔ ∃ b, Hops r n a b ∧ r b c := by
  constructor
  · rintro (_ | ⟨h, hbc⟩)
    exact ⟨_, h, hbc⟩
  · rintro ⟨b, h, hbc⟩
    exact h.succ hbc

theorem head_iff : Hops r (n + 1) a c ↔ ∃ b, r a b ∧ Hops r n b c := by
  induction n generalizing c with
  | zero =>
    rw [succ_iff]
    constructor
    · rintro ⟨b, h, hbc⟩
      obtain rfl := zero_iff.1 h
      exact ⟨c, hbc, Hops.zero c⟩
    · rintro ⟨b, hab, h⟩
      obtain rfl := zero_iff.1 h
      exact ⟨a, Hops.zero a, hab⟩
  | succ n ih =>
    rw [succ_iff]
    constructor
    · rintro ⟨b, h, hbc⟩
      obtain ⟨x, hax, hxb⟩ := ih.1 h
      exact ⟨x, hax, hxb.succ hbc⟩
    · rintro ⟨x, hax, h⟩
      obtain ⟨b, hxb, hbc⟩ := succ_iff.1 h
      exact ⟨b, ih.2 ⟨x, hax, hxb⟩, hbc⟩

/-- Steps of the converse relation lead back. -/
theorem flip_iff : Hops (flip r) n a b ↔ Hops r n b a := by
  induction n generalizing b with
  | zero => exact zero_iff.trans (eq_comm.trans zero_iff.symm)
  | succ n ih =>
    rw [succ_iff, head_iff]
    exact exists_congr fun c => (and_congr_left' ih).trans and_comm

/-! ### The search -/

variable [DecidableEq α] {next : Finset α → Finset α} {visited level : Finset α}

/-- In every round what is next to the level is visited, and is the next level. -/
def spread (next : Finset α → Finset α) : Nat → Finset α → Finset α → Finset α
  | 0, visited, _ => visited
  | rounds + 1, visited, level => spread next rounds (visited ∪ next level) (next level)

theorem mem_spread_iff (hnext : ∀ F b, b ∈ next F ↔ ∃ a ∈ F, r a b) :
    b ∈ spread next n visited level ↔ b ∈ visited ∨ ∃ a ∈ level, ∃ k < n, Hops r (k + 1) a b := by
  induction n generalizing visited level with
  | zero => simp [spread]
  | succ n ih =>
    rw [spread, ih, Finset.mem_union, or_assoc]
    refine or_congr_right ?_
    constructor
    · rintro (hb | ⟨a, ha, k, hk, h⟩)
      · obtain ⟨a, ha, hab⟩ := (hnext level b).1 hb
        exact ⟨a, ha, 0, Nat.succ_pos n, (Hops.zero a).succ hab⟩
      · obtain ⟨x, hx, hxa⟩ := (hnext level a).1 ha
        exact ⟨x, hx, k + 1, Nat.succ_lt_succ hk, head_iff.2 ⟨a, hxa, h⟩⟩
    · rintro ⟨a, ha, k, hk, h⟩
      obtain ⟨x, hax, hxb⟩ := head_iff.1 h
      have hx : x ∈ next level := (hnext level x).2 ⟨a, ha, hax⟩
      cases k with
      | zero => exact Or.inl (zero_iff.1 hxb ▸ hx)
      | succ k => exact Or.inr ⟨x, hx, k, Nat.lt_of_succ_lt_succ hk, hxb⟩

/-- From a level of its own, the search visits what is within as many hops as it makes rounds. -/
theorem mem_spread_self_iff (hnext : ∀ F b, b ∈ next F ↔ ∃ a ∈ F, r a b) :
    b ∈ spread next n level level ↔ ∃ a ∈ level, ∃ k ≤ n, Hops r k a b := by
  rw [mem_spread_iff hnext]
  constructor
  · rintro (hb | ⟨a, ha, k, hk, h⟩)
    · exact ⟨b, hb, 0, Nat.zero_le n, Hops.zero b⟩
    · exact ⟨a, ha, k + 1, hk, h⟩
  · rintro ⟨a, ha, k, hk, h⟩
    cases k with
    | zero => exact Or.inl (zero_iff.1 h ▸ ha)
    | succ k => exact Or.inr ⟨a, ha, k, hk, h⟩

end Hops
