import Mathlib.Algebra.BigOperators.Group.List.Basic
import Mathlib.Data.List.Nodup

/-!
# Tallies

A dict of sums, whose keys stand in the order in which they were set first.

* `mem_tally_iff`: what the sums of a list of pairs are.
-/

namespace Tally

variable {κ β : Type*} [DecidableEq κ] [AddMonoid β] {t : List (κ × β)} {j k : κ} {x : β}

/-- `t[k] = t.get(k, 0) + x`. -/
def add : List (κ × β) → κ → β → List (κ × β)
  | [], k, x => [(k, 0 + x)]
  | e :: t, k, x => if e.1 = k then (k, e.2 + x) :: t else e :: add t k x

/-- The pairs are added one after the other. -/
def addAll (t : List (κ × β)) (pairs : List (κ × β)) : List (κ × β) := pairs.foldl (fun t pair => add t pair.1 pair.2) t

/-- `t.get(k, 0)`. -/
def value : List (κ × β) → κ → β
  | [], _ => 0
  | e :: t, k => if e.1 = k then e.2 else value t k

theorem value_add (t : List (κ × β)) (j k : κ) (x : β) :
    value (add t k x) j = if k = j then value t j + x else value t j := by
  induction t with
  | nil => rfl
  | cons e t ih =>
    rw [add, value]
    by_cases hek : e.1 = k
    · rw [if_pos hek, value, hek]
      split
      · rfl
      · rfl
    · rw [if_neg hek, value, ih]
      by_cases hej : e.1 = j
      · have hkj : k ≠ j := fun h => hek (hej.trans h.symm)
        rw [if_pos hej, if_pos hej, if_neg hkj]
      · rw [if_neg hej, if_neg hej]

theorem mem_keys_add : j ∈ (add t k x).map Prod.fst ↔ j ∈ t.map Prod.fst ∨ j = k := by
  induction t with
  | nil => simp [add]
  | cons e t ih =>
    rw [add]
    split
    · rename_i hek
      rw [List.map_cons, List.map_cons, List.mem_cons, List.mem_cons, hek]
      tauto
    · rw [List.map_cons, List.map_cons, List.mem_cons, List.mem_cons, ih, or_assoc]

theorem nodup_keys_add (h : (t.map Prod.fst).Nodup) (k : κ) (x : β) : ((add t k x).map Prod.fst).Nodup := by
  induction t with
  | nil => exact List.nodup_singleton k
  | cons e t ih =>
    rw [List.map_cons, List.nodup_cons] at h
    rw [add]
    split
    · rename_i hek
      rw [List.map_cons, List.nodup_cons]
      exact ⟨hek ▸ h.1, h.2⟩
    · rename_i hek
      rw [List.map_cons, List.nodup_cons, mem_keys_add]
      exact ⟨fun hmem => hmem.elim h.1 hek, ih h.2⟩

theorem mem_iff (h : (t.map Prod.fst).Nodup) : (k, x) ∈ t ↔ k ∈ t.map Prod.fst ∧ value t k = x := by
  induction t with
  | nil => simp
  | cons e t ih =>
    obtain ⟨l, y⟩ := e
    rw [List.map_cons, List.nodup_cons] at h
    rw [List.mem_cons, List.map_cons, List.mem_cons, ih h.2, value, Prod.mk.injEq]
    by_cases hlk : l = k
    · subst hlk
      rw [if_pos rfl]
      have hnot := h.1
      tauto
    · rw [if_neg hlk]
      have hkl : ¬ k = l := fun heq => hlk heq.symm
      tauto

/-! ### Sums -/

theorem value_addAll (t pairs : List (κ × β)) (k : κ) :
    value (addAll t pairs) k = value t k + ((pairs.filter fun pair => pair.1 = k).map Prod.snd).sum := by
  induction pairs generalizing t with
  | nil => exact (add_zero _).symm
  | cons pair pairs ih =>
    rw [addAll, List.foldl_cons]
    refine (ih _).trans ?_
    rw [value_add]
    by_cases hk : pair.1 = k
    · rw [if_pos hk, List.filter_cons_of_pos (by simpa using hk), List.map_cons, List.sum_cons, add_assoc]
    · rw [if_neg hk, List.filter_cons_of_neg (by simpa using hk)]

theorem mem_keys_addAll {pairs : List (κ × β)} :
    k ∈ (addAll t pairs).map Prod.fst ↔ k ∈ t.map Prod.fst ∨ k ∈ pairs.map Prod.fst := by
  induction pairs generalizing t with
  | nil => simp [addAll]
  | cons pair pairs ih =>
    rw [addAll, List.foldl_cons]
    refine ih.trans ?_
    rw [mem_keys_add, List.map_cons, List.mem_cons, or_assoc]

theorem nodup_keys_addAll (h : (t.map Prod.fst).Nodup) (pairs : List (κ × β)) :
    ((addAll t pairs).map Prod.fst).Nodup := by
  induction pairs generalizing t with
  | nil => exact h
  | cons pair pairs ih => exact ih (nodup_keys_add h pair.1 pair.2)

/-- The tally of a list of pairs has one entry for each of the keys, with its sum. -/
theorem mem_tally_iff {pairs : List (κ × β)} : (k, x) ∈ addAll [] pairs ↔
    k ∈ pairs.map Prod.fst ∧ ((pairs.filter fun pair => pair.1 = k).map Prod.snd).sum = x := by
  rw [mem_iff (nodup_keys_addAll (t := []) List.nodup_nil pairs), mem_keys_addAll, value_addAll, value, zero_add]
  simp

end Tally
