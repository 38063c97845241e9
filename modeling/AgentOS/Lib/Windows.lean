import Mathlib.Data.List.Chain

/-!
# Overlapping windows

Windows on a sequence, each from the position `w.1` up to but not including `w.2`.  They cover the sequence if the first
begins with it, each begins inside of or right behind the one before and ends behind it, and the last ends with it.

* `Covering.concat`: one more window behind the last.
-/

namespace Windows

variable {α : Type*}

/-- What is seen through a window. -/
def slice (xs : List α) (w : Nat × Nat) : List α := (xs.take w.2).drop w.1

/-- The windows cover the first `n` positions, in order and each with a new one. -/
structure Covering (ws : List (Nat × Nat)) (n : Nat) : Prop where
  proper : ∀ w ∈ ws, w.1 < w.2
  first : ∀ w ∈ ws.head?, w.1 = 0
  next : ws.IsChain fun w v => w.1 ≤ v.1 ∧ v.1 ≤ w.2 ∧ w.2 < v.2
  last : (ws.getLast?.map Prod.snd).getD 0 = n

theorem Covering.nil : Covering [] 0 where
  proper w h := by cases h
  first w h := by cases h
  next := List.IsChain.nil
  last := rfl

theorem Covering.concat {ws : List (Nat × Nat)} {m start n : Nat} (h : Covering ws m) (hstart : start ≤ m) (hn : m < n)
    (hfirst : ws = [] → start = 0) (hlast : ∀ w ∈ ws.getLast?, w.1 ≤ start) : Covering (ws ++ [(start, n)]) n where
  proper := by
    intro w hw
    rcases List.mem_append.1 hw with hw | hw
    · exact h.proper w hw
    · rw [List.mem_singleton.1 hw]
      omega
  first := by
    intro w hw
    cases ws with
    | nil =>
      obtain rfl := Option.some.inj hw
      exact hfirst rfl
    | cons v ws => exact h.first w hw
  next := by
    refine List.isChain_append.2 ⟨h.next, List.IsChain.singleton _, ?_⟩
    rintro w hw v ⟨⟩
    have hm : w.2 = m := by
      rw [← h.last, Option.mem_def.1 hw]
      rfl
    exact ⟨hlast w hw, by omega, by omega⟩
  last := by
    rw [List.getLast?_concat]
    rfl

theorem slice_length {xs : List α} {w : Nat × Nat} (h : w.2 ≤ xs.length) : (slice xs w).length = w.2 - w.1 := by
  rw [slice, List.length_drop, List.length_take, Nat.min_eq_left h]

/-- One more position. -/
theorem slice_concat {xs : List α} {start stop : Nat} {x : α} (hstart : start ≤ stop) (hx : xs[stop]? = some x) :
    slice xs (start, stop + 1) = slice xs (start, stop) ++ [x] := by
  have hlt : stop < xs.length := (List.getElem?_eq_some_iff.1 hx).1
  rw [slice, slice, List.take_add_one, hx, List.drop_append_of_le_length]
  · rfl
  · rw [List.length_take]
    omega

/-- The end of what is seen. -/
theorem slice_of_suffix {xs seen : List α} {start stop : Nat} (hstart : start ≤ stop) (hstop : stop ≤ xs.length)
    (h : seen <:+ slice xs (start, stop)) :
    start ≤ stop - seen.length ∧ seen = slice xs (stop - seen.length, stop) := by
  have hlength : (slice xs (start, stop)).length = stop - start := slice_length hstop
  have hle := h.length_le
  have hdrop : seen = (slice xs (start, stop)).drop ((slice xs (start, stop)).length - seen.length) :=
    List.suffix_iff_eq_drop.1 h
  have hposition : start + (stop - start - seen.length) = stop - seen.length := by omega
  refine ⟨by omega, ?_⟩
  rw [hlength, slice, List.drop_drop, hposition] at hdrop
  exact hdrop

end Windows
