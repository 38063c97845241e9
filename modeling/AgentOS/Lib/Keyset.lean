import Mathlib.Order.Basic
import Mathlib.Data.List.Sort

/-!
# Keyset pages of a sorted list

A list whose keys strictly increase is served in pages: `page key n after L` is the first `n` entries whose key lies
beyond `after`, and the key of the last entry of a page is where the next page starts.  A feed served newest first is
the same thing over the reversed order of keys.

* Pages are consecutive pieces of the list: beyond the last entry of `L.take m` lies exactly `L.drop m`
  (`beyond_getLast_take`).
* A page leaves no hole: an entry beyond `after` and not beyond some entry of the page is in the page
  (`mem_page_of_le`), and a page with fewer than `n` entries is all there is (`page_eq_beyond`).
* A table in no order is served by sorting what meets a condition (`serve`); when keys tell its rows apart, the same
  facts hold (`mem_serve_of_le`, `mem_serve_of_length_lt`).
-/

namespace Keyset

variable {α κ : Type*} [LinearOrder κ] (key : α → κ)

/-- The entries in order of strictly increasing keys. -/
def Sorted (L : List α) : Prop := L.Pairwise fun x y => key x < key y

/-- The entries beyond the position `after`; `none` is the position before all of them. -/
def beyond (after : Option κ) (L : List α) : List α :=
  match after with
  | none => L
  | some a => L.filter fun x => a < key x

/-- At most `n` entries beyond the position `after`. -/
def page (n : Nat) (after : Option κ) (L : List α) : List α := (beyond key after L).take n

variable {key}

@[simp] theorem beyond_none (L : List α) : beyond key none L = L := rfl

theorem mem_beyond {after : Option κ} {L : List α} {x : α} :
    x ∈ beyond key after L ↔ x ∈ L ∧ ∀ a, after = some a → a < key x := by
  cases after with
  | none => simp
  | some a => simp [beyond]

theorem Sorted.beyond {L : List α} (h : Sorted key L) (after : Option κ) : Sorted key (beyond key after L) := by
  cases after with
  | none => exact h
  | some a => exact List.Pairwise.filter _ h

/-- In a sorted list, beyond an entry lies exactly what follows it. -/
theorem beyond_of_append {P S : List α} {x : α} (h : Sorted key (P ++ x :: S)) :
    beyond key (some (key x)) (P ++ x :: S) = S := by
  obtain ⟨-, h₂, h₃⟩ := List.pairwise_append.1 h
  have hP : P.filter (fun y => key x < key y) = [] := by
    rw [List.filter_eq_nil_iff]
    intro y hy
    simpa using le_of_lt (h₃ y hy x (by simp))
  have hS : S.filter (fun y => key x < key y) = S := by
    rw [List.filter_eq_self]
    intro y hy
    simpa using (List.pairwise_cons.1 h₂).1 y hy
  simp [beyond, List.filter_append, hP, hS]

/-- Consecutive pages: beyond the last of the first `m` entries lies the rest of the list. -/
theorem beyond_getLast_take {L : List α} (h : Sorted key L) {m : Nat} {x : α}
    (hx : (L.take m).getLast? = some x) : beyond key (some (key x)) L = L.drop m := by
  obtain ⟨P, hP⟩ := List.getLast?_eq_some_iff.1 hx
  have hL : L = P ++ x :: L.drop m := by
    conv => lhs; rw [← List.take_append_drop m L, hP]
    simp
  rw [hL] at h
  conv => lhs; rw [hL]
  exact beyond_of_append h

/-- No hole: an entry beyond `after` whose key is not beyond some entry of the page is in the page. -/
theorem mem_page_of_le {L : List α} (h : Sorted key L) {n : Nat} {after : Option κ} {x y : α}
    (hx : x ∈ page key n after L) (hy : y ∈ L) (hafter : ∀ a, after = some a → a < key y) (hle : key y ≤ key x) :
    y ∈ page key n after L := by
  have hb : Sorted key (beyond key after L) := h.beyond after
  have hmem : y ∈ beyond key after L := mem_beyond.2 ⟨hy, hafter⟩
  rw [← List.take_append_drop n (beyond key after L)] at hmem hb
  rcases List.mem_append.1 hmem with hm | hm
  · exact hm
  · have := (List.pairwise_append.1 hb).2.2 x hx y hm
    exact absurd hle (not_le.2 this)

/-- A page that is not full holds everything beyond `after`. -/
theorem page_eq_beyond {L : List α} {n : Nat} {after : Option κ} (h : (page key n after L).length < n) :
    page key n after L = beyond key after L := by
  unfold page at h ⊢
  rw [List.length_take] at h
  exact List.take_of_length_le (by omega)

/-! ### Pages of a table -/

variable (key) in
/-- The first `n` of the rows that meet `p`, in the order of their keys. -/
def serve (n : Nat) (p : α → Bool) (rows : List α) : List α :=
  ((rows.filter p).insertionSort fun a b => key a ≤ key b).take n

theorem mem_serve {n : Nat} {p : α → Bool} {rows : List α} {x : α} (hx : x ∈ serve key n p rows) :
    x ∈ rows ∧ p x = true :=
  List.mem_filter.1 ((List.mem_insertionSort _).1 (List.mem_of_mem_take hx))

section

variable {rows : List α} (hnodup : rows.Nodup) (hkey : ∀ x ∈ rows, ∀ y ∈ rows, key x = key y → x = y)
include hnodup hkey

theorem sorted_insertionSort (p : α → Bool) :
    Sorted key ((rows.filter p).insertionSort fun a b => key a ≤ key b) := by
  have : Std.Total fun a b : α => key a ≤ key b := ⟨fun a b => le_total (key a) (key b)⟩
  have : IsTrans α fun a b => key a ≤ key b := ⟨fun _ _ _ => le_trans⟩
  have hle := List.pairwise_insertionSort (fun a b : α => key a ≤ key b) (rows.filter p)
  have hne : ((rows.filter p).insertionSort fun a b => key a ≤ key b).Nodup :=
    (List.perm_insertionSort _ _).nodup_iff.2 (hnodup.filter p)
  have hrows : ∀ x ∈ (rows.filter p).insertionSort fun a b => key a ≤ key b, x ∈ rows :=
    fun x hx => List.mem_of_mem_filter ((List.mem_insertionSort _).1 hx)
  refine (hle.and hne).imp_of_mem fun {a b} ha hb hab => lt_of_le_of_ne hab.1 fun heq => ?_
  exact hab.2 (hkey a (hrows a ha) b (hrows b hb) heq)

/-- No hole: a row that meets the condition and is not beyond some row of the page is in the page. -/
theorem mem_serve_of_le {n : Nat} {p : α → Bool} {x y : α} (hx : x ∈ serve key n p rows) (hy : y ∈ rows)
    (hp : p y = true) (hle : key y ≤ key x) : y ∈ serve key n p rows := by
  have hmem : y ∈ (rows.filter p).insertionSort fun a b => key a ≤ key b :=
    (List.mem_insertionSort _).2 (List.mem_filter.2 ⟨hy, hp⟩)
  have hpage : x ∈ page key n none ((rows.filter p).insertionSort fun a b => key a ≤ key b) := hx
  exact mem_page_of_le (sorted_insertionSort hnodup hkey p) hpage hmem (by simp) hle

end

/-- A page that is not full holds every row that meets the condition. -/
theorem mem_serve_of_length_lt {n : Nat} {p : α → Bool} {rows : List α} {y : α}
    (h : (serve key n p rows).length < n) (hy : y ∈ rows) (hp : p y = true) : y ∈ serve key n p rows := by
  have hmem : y ∈ (rows.filter p).insertionSort fun a b => key a ≤ key b :=
    (List.mem_insertionSort _).2 (List.mem_filter.2 ⟨hy, hp⟩)
  have hall : page key n none ((rows.filter p).insertionSort fun a b => key a ≤ key b) =
      beyond key none ((rows.filter p).insertionSort fun a b => key a ≤ key b) := page_eq_beyond h
  change y ∈ page key n none ((rows.filter p).insertionSort fun a b => key a ≤ key b)
  rw [hall]
  exact hmem

end Keyset
