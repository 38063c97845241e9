import Mathlib.Order.Lattice
import Mathlib.Data.List.Induction

/-!
# Version-guarded registers

A register that a value replaces unless it is older: `push` is one arrival, `newest xs` what the arrivals `xs` leave.
Whatever the order in which values arrive, and however often each of them does, what is left is a value of the largest
version (`version_newest`), so two registers that saw the same values hold the same version.
-/

namespace Newest

variable {α ν : Type*} [LinearOrder ν] (version : α → ν)

/-- `x` arrives; it replaces what is held unless that is newer. -/
def push (held : Option α) (x : α) : Option α :=
  match held with
  | none => some x
  | some y => if version y ≤ version x then some x else some y

/-- What is held after the arrivals `xs`. -/
def newest (xs : List α) : Option α := xs.foldl (push version) none

variable {version}

/-- A view of the values that keeps their versions. -/
theorem push_map {β : Type*} {version' : β → ν} {f : α → β} (hf : ∀ x, version' (f x) = version x) (held : Option α)
    (x : α) : push version' (held.map f) (f x) = (push version held x).map f := by
  cases held with
  | none => rfl
  | some y =>
    simp only [Option.map_some, push, hf]
    by_cases h : version y ≤ version x
    · rw [if_pos h, if_pos h, Option.map_some]
    · rw [if_neg h, if_neg h, Option.map_some]

theorem newest_append_singleton (xs : List α) (x : α) :
    newest version (xs ++ [x]) = push version (newest version xs) x := by
  rw [newest, List.foldl_append]
  rfl

variable (version) in
/-- What is held arrived, and nothing newer did. -/
theorem newest_spec (xs : List α) :
    (newest version xs = none ∧ xs = []) ∨
      ∃ x, newest version xs = some x ∧ x ∈ xs ∧ ∀ y ∈ xs, version y ≤ version x := by
  induction xs using List.reverseRecOn with
  | nil => exact Or.inl ⟨rfl, rfl⟩
  | append_singleton xs x ih =>
    right
    rw [newest_append_singleton]
    rcases ih with ⟨hnone, rfl⟩ | ⟨y, hy, hmem, hmax⟩
    · refine ⟨x, by rw [hnone, push], by simp, ?_⟩
      intro z hz
      rw [List.nil_append, List.mem_singleton] at hz
      rw [hz]
    · by_cases h : version y ≤ version x
      · refine ⟨x, by simp only [hy, push, if_pos h], by simp, ?_⟩
        intro z hz
        rcases List.mem_append.1 hz with hz | hz
        · exact le_trans (hmax z hz) h
        · rw [List.mem_singleton.1 hz]
      · refine ⟨y, by simp only [hy, push, if_neg h], List.mem_append_left _ hmem, ?_⟩
        intro z hz
        rcases List.mem_append.1 hz with hz | hz
        · exact hmax z hz
        · rw [List.mem_singleton.1 hz]
          exact le_of_not_ge h

theorem newest_eq_none {xs : List α} : newest version xs = none ↔ xs = [] := by
  constructor
  · intro h
    rcases newest_spec version xs with ⟨-, hxs⟩ | ⟨x, hx, -, -⟩
    · exact hxs
    · rw [h] at hx
      cases hx
  · rintro rfl
    rfl

theorem mem_of_newest {xs : List α} {x : α} (h : newest version xs = some x) : x ∈ xs := by
  rcases newest_spec version xs with ⟨hnone, -⟩ | ⟨y, hy, hmem, -⟩
  · rw [h] at hnone
    cases hnone
  · obtain rfl := Option.some.inj (h.symm.trans hy)
    exact hmem

theorem le_newest {xs : List α} {x y : α} (h : newest version xs = some x) (hy : y ∈ xs) : version y ≤ version x := by
  rcases newest_spec version xs with ⟨hnone, -⟩ | ⟨z, hz, -, hmax⟩
  · rw [h] at hnone
    cases hnone
  · obtain rfl := Option.some.inj (h.symm.trans hz)
    exact hmax y hy

/-- **Order and repetition wash out.**  After the values of any list, in any order and any multiplicity, the register
holds one of them whose version is the largest. -/
theorem version_newest {xs : List α} {e : α} (he : e ∈ xs) (hmax : ∀ y ∈ xs, version y ≤ version e) :
    ∃ x ∈ xs, newest version xs = some x ∧ version x = version e := by
  cases h : newest version xs with
  | none =>
    rw [newest_eq_none.1 h] at he
    cases he
  | some x =>
    have hx := mem_of_newest h
    exact ⟨x, hx, rfl, le_antisymm (hmax x hx) (le_newest h he)⟩

/-! ### A register for each key -/

section

variable {κ : Type*} [DecidableEq κ] (version) (key : α → κ)

/-- What the arrivals `xs` leave in the register of the key `k`. -/
def newestAt (k : κ) (xs : List α) : Option α := newest version (xs.filter fun x => key x = k)

variable {version key}

theorem newestAt_append_singleton (k : κ) (xs : List α) (x : α) : newestAt version key k (xs ++ [x]) =
    if key x = k then push version (newestAt version key k xs) x else newestAt version key k xs := by
  rw [newestAt, newestAt, List.filter_append]
  by_cases h : key x = k
  · have hx : [x].filter (fun x => key x = k) = [x] := by simp [h]
    rw [if_pos h, hx, newest_append_singleton]
  · simp [h]

theorem mem_of_newestAt {k : κ} {xs : List α} {x : α} (h : newestAt version key k xs = some x) :
    x ∈ xs ∧ key x = k := by
  have hmem := List.mem_filter.1 (mem_of_newest h)
  exact ⟨hmem.1, by simpa using hmem.2⟩

variable (version key) in
/-- The register of a key that something arrived for holds nothing older. -/
theorem exists_newestAt {xs : List α} {e : α} (he : e ∈ xs) :
    ∃ x, newestAt version key (key e) xs = some x ∧ version e ≤ version x := by
  have hfilter : e ∈ xs.filter fun x => key x = key e := List.mem_filter.2 ⟨he, by simp⟩
  cases h : newestAt version key (key e) xs with
  | none =>
    rw [newest_eq_none.1 h] at hfilter
    cases hfilter
  | some x => exact ⟨x, rfl, le_newest h hfilter⟩

variable (version key) in
/-- The register of a key holds an arrival for that key whose version is the largest. -/
theorem version_newestAt {xs : List α} {e : α} (he : e ∈ xs)
    (hmax : ∀ y ∈ xs, key y = key e → version y ≤ version e) :
    ∃ x ∈ xs, key x = key e ∧ newestAt version key (key e) xs = some x ∧ version x = version e := by
  have hfilter : e ∈ xs.filter fun x => key x = key e := List.mem_filter.2 ⟨he, by simp⟩
  obtain ⟨x, hx, hnewest, hversion⟩ := version_newest hfilter fun y hy => by
    have hmem := List.mem_filter.1 hy
    exact hmax y hmem.1 (by simpa using hmem.2)
  have hmem := List.mem_filter.1 hx
  exact ⟨x, hmem.1, by simpa using hmem.2, hnewest, hversion⟩

end

end Newest
