import Mathlib.Data.List.Infix

/-!
# The first occurrence of a separator

`cut sep xs` are the parts of `xs` in front of the first `sep` and behind it.

* `cut_eq_none_iff`: there is none just in case `sep` is no infix.
* `cut_append` and `cut_of_notMem`: text in which no separator can begin does not matter.
-/

namespace Cut

variable {α : Type*} [DecidableEq α]

/-- What is in front of the first `sep` and what is behind it. -/
def cut (sep : List α) : List α → Option (List α × List α)
  | [] => if sep = [] then some ([], []) else none
  | x :: xs =>
    if sep <+: x :: xs then some ([], (x :: xs).drop sep.length)
    else (cut sep xs).map fun parts => (x :: parts.1, parts.2)

theorem eq_append_of_cut {sep xs before behind : List α} (h : cut sep xs = some (before, behind)) :
    xs = before ++ sep ++ behind := by
  induction xs generalizing before with
  | nil =>
    rw [cut] at h
    split at h
    · rename_i hsep
      obtain ⟨rfl, rfl⟩ := Prod.mk.inj (Option.some.inj h)
      rw [hsep, List.append_nil, List.append_nil]
    · cases h
  | cons x xs ih =>
    rw [cut] at h
    split at h
    · rename_i hsep
      obtain ⟨rfl, rfl⟩ := Prod.mk.inj (Option.some.inj h)
      obtain ⟨rest, hrest⟩ := hsep
      rw [← hrest, List.drop_left, List.nil_append]
    · obtain ⟨parts, hparts, heq⟩ := Option.map_eq_some_iff.1 h
      obtain ⟨rfl, rfl⟩ := Prod.mk.inj heq
      rw [ih hparts]
      rfl

theorem cut_eq_none_iff {sep xs : List α} : cut sep xs = none ↔ ¬ sep <:+: xs := by
  induction xs with
  | nil =>
    rw [cut, List.infix_nil]
    split
    · rename_i hsep
      simp [hsep]
    · rename_i hsep
      simp [hsep]
  | cons x xs ih =>
    rw [cut, List.infix_cons_iff]
    split
    · rename_i hsep
      simp [hsep]
    · rename_i hsep
      rw [Option.map_eq_none_iff, ih]
      simp [hsep]

/-- Text in which no separator can begin does not matter. -/
theorem cut_append {s : α} {start : List α} (h : s ∉ start) (sep xs : List α) :
    cut (s :: sep) (start ++ xs) = (cut (s :: sep) xs).map fun parts => (start ++ parts.1, parts.2) := by
  induction start with
  | nil => simp
  | cons x start ih =>
    have hne : ¬ s :: sep <+: x :: (start ++ xs) := fun hstart =>
      h (List.mem_cons.2 (Or.inl (List.cons_prefix_cons.1 hstart).1))
    rw [List.cons_append, cut, if_neg hne, ih fun hmem => h (List.mem_cons_of_mem _ hmem), Option.map_map]
    rfl

theorem cut_self (s : α) (sep xs : List α) : cut (s :: sep) (s :: sep ++ xs) = some ([], xs) := by
  have hstart : s :: sep <+: s :: (sep ++ xs) := List.prefix_append (s :: sep) xs
  rw [List.cons_append, cut, if_pos hstart, List.length_cons, List.drop_succ_cons, List.drop_left]

/-- The separator is found where nothing in front of it can begin one. -/
theorem cut_of_notMem {s : α} {before : List α} (h : s ∉ before) (sep behind : List α) :
    cut (s :: sep) (before ++ (s :: sep ++ behind)) = some (before, behind) := by
  rw [cut_append h, cut_self, Option.map_some, List.append_nil]

end Cut
