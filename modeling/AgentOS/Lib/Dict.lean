import Mathlib.Data.List.Induction
import Mathlib.Data.List.Nodup
import Mathlib.Logic.Function.Basic

/-!
# Dicts

A dict is a function to `Option`.  `assign` sets the keys of a list of pairs one after the other, and `drop` pops the
keys that meet a condition.
-/

namespace Dict

variable {κ β : Type*}

/-- Every key that meets `p` is popped. -/
def drop (d : κ → Option β) (p : κ → Bool) : κ → Option β := fun k => if p k then none else d k

theorem drop_eq_some {d : κ → Option β} {p : κ → Bool} {k : κ} {v : β} :
    drop d p k = some v ↔ ¬ p k ∧ d k = some v := by
  unfold drop
  split
  · simp_all
  · simp_all

variable [DecidableEq κ]

/-- `d[k] = v` for every pair, in order. -/
def assign (d : κ → Option β) (pairs : List (κ × β)) : κ → Option β :=
  pairs.foldl (fun d pair => Function.update d pair.1 (some pair.2)) d

variable {d : κ → Option β} {pairs : List (κ × β)} {k : κ} {v : β}

theorem assign_of_notMem (h : k ∉ pairs.map Prod.fst) : assign d pairs k = d k := by
  induction pairs generalizing d with
  | nil => rfl
  | cons pair pairs ih =>
    rw [List.map_cons, List.mem_cons, not_or] at h
    exact (ih h.2).trans (Function.update_of_ne h.1 _ d)

theorem assign_of_mem (hkeys : (pairs.map Prod.fst).Nodup) (h : (k, v) ∈ pairs) : assign d pairs k = some v := by
  induction pairs generalizing d with
  | nil => cases h
  | cons pair pairs ih =>
    rw [List.map_cons, List.nodup_cons] at hkeys
    rcases List.mem_cons.1 h with rfl | h
    · exact (assign_of_notMem hkeys.1).trans (Function.update_self _ _ d)
    · exact ih hkeys.2 h

theorem mem_of_assign (h : assign (fun _ => none) pairs k = some v) : (k, v) ∈ pairs := by
  induction pairs using List.reverseRecOn with
  | nil => cases h
  | append_singleton pairs pair ih =>
    unfold assign at h ih
    rw [List.foldl_append, List.foldl_cons, List.foldl_nil] at h
    by_cases hk : k = pair.1
    · subst hk
      rw [Function.update_self] at h
      obtain rfl := Option.some.inj h
      exact List.mem_append_right _ List.mem_cons_self
    · rw [Function.update_of_ne hk] at h
      exact List.mem_append_left _ (ih h)

theorem isSome_assign (hk : k ∈ pairs.map Prod.fst) : (assign d pairs k).isSome := by
  induction pairs generalizing d with
  | nil => exact absurd hk List.not_mem_nil
  | cons pair pairs ih =>
    by_cases hrest : k ∈ pairs.map Prod.fst
    · exact ih hrest
    · obtain rfl := (List.mem_cons.1 hk).resolve_right hrest
      show (assign (Function.update d pair.1 (some pair.2)) pairs pair.1).isSome
      rw [assign_of_notMem hrest, Function.update_self]
      rfl

/-- A key that is set to one value only. -/
theorem assign_of_forall (hmem : (k, v) ∈ pairs) (h : ∀ w, (k, w) ∈ pairs → w = v) :
    assign (fun _ => none) pairs k = some v := by
  have hsome := isSome_assign (d := fun _ => none) (List.mem_map_of_mem (f := Prod.fst) hmem)
  obtain ⟨w, hw⟩ := Option.isSome_iff_exists.1 hsome
  rw [hw, h w (mem_of_assign hw)]

/-- Keys that are distinct are set each to its own value, and the others stay. -/
theorem assign_eq_some (hkeys : (pairs.map Prod.fst).Nodup) :
    assign d pairs k = some v ↔ (k, v) ∈ pairs ∨ k ∉ pairs.map Prod.fst ∧ d k = some v := by
  constructor
  · intro h
    by_cases hk : k ∈ pairs.map Prod.fst
    · obtain ⟨⟨_, w⟩, hw, rfl⟩ := List.mem_map.1 hk
      rw [assign_of_mem hkeys hw] at h
      obtain rfl := Option.some.inj h
      exact Or.inl hw
    · exact Or.inr ⟨hk, (assign_of_notMem hk).symm.trans h⟩
  · rintro (h | ⟨hk, h⟩)
    · exact assign_of_mem hkeys h
    · exact (assign_of_notMem hk).trans h

/-- At a key, the pairs act on what the dict has there. -/
theorem assign_congr {d d' : κ → Option β} (h : d k = d' k) : assign d pairs k = assign d' pairs k := by
  induction pairs generalizing d d' with
  | nil => exact h
  | cons pair pairs ih =>
    refine @ih (Function.update d pair.1 _) (Function.update d' pair.1 _) ?_
    by_cases hpair : k = pair.1
    · subst hpair
      rw [Function.update_self, Function.update_self]
    · rw [Function.update_of_ne hpair, Function.update_of_ne hpair, h]

/-- Pairs that are left out do not matter for a key that they do not have. -/
theorem assign_filter {p : κ × β → Bool} (h : ∀ pair ∈ pairs, pair.1 = k → p pair) :
    assign d (pairs.filter p) k = assign d pairs k := by
  induction pairs generalizing d with
  | nil => rfl
  | cons pair pairs ih =>
    have hrest := fun d => ih (d := d) fun pair' hpair' => h pair' (List.mem_cons_of_mem _ hpair')
    by_cases hp : p pair
    · rw [List.filter_cons_of_pos hp]
      exact hrest _
    · rw [List.filter_cons_of_neg hp, hrest]
      have hk : k ≠ pair.1 := fun hk => hp (h pair List.mem_cons_self hk.symm)
      exact (assign_congr (Function.update_of_ne hk _ d)).symm

end Dict
