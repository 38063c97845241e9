import Mathlib.Data.Set.Card

/-!
# Places in a sorted list

An element of a sorted list is among the first `n` just in case fewer than `n` elements come before it in the order.
-/

namespace Rank

variable {α : Type*} {r : α → α → Prop}

/-- In a sorted list, what comes before an element in the order stands in front of it. -/
private theorem before_iff [Std.Asymm r] {front back : List α} {a : α} (h : (front ++ a :: back).Pairwise r) (b : α) :
    b ∈ front ++ a :: back ∧ r b a ↔ b ∈ front := by
  obtain ⟨-, hback, hfront⟩ := List.pairwise_append.1 h
  constructor
  · rintro ⟨hb, hba⟩
    rcases List.mem_append.1 hb with hb | hb
    · exact hb
    · rcases List.mem_cons.1 hb with rfl | hb
      · exact absurd hba (Std.Asymm.asymm _ _ hba)
      · exact absurd hba (Std.Asymm.asymm _ _ ((List.pairwise_cons.1 hback).1 b hb))
  · exact fun hb => ⟨List.mem_append_left _ hb, hfront b hb a List.mem_cons_self⟩

theorem mem_take_iff [Std.Asymm r] {l : List α} (h : l.Pairwise r) {a : α} (ha : a ∈ l) (n : Nat) :
    a ∈ l.take n ↔ {b | b ∈ l ∧ r b a}.encard < n := by
  classical
  obtain ⟨front, back, rfl⟩ := List.append_of_mem ha
  have hnodup : front.Nodup := by
    refine List.Pairwise.imp (fun {b c} hbc => ?_) (List.pairwise_append.1 h).1
    rintro rfl
    exact Std.Asymm.asymm _ _ hbc hbc
  have hset : {b | b ∈ front ++ a :: back ∧ r b a} = (front.toFinset : Set α) := by
    ext b
    rw [List.coe_toFinset]
    exact before_iff h b
  have hcard : {b | b ∈ front ++ a :: back ∧ r b a}.encard < n ↔ front.length < n := by
    rw [hset, Set.encard_coe_eq_coe_finsetCard, List.toFinset_card_of_nodup hnodup]
    exact Nat.cast_lt
  rw [hcard, List.take_append]
  constructor
  · intro hmem
    by_contra hlong
    rw [Nat.sub_eq_zero_of_le (Nat.not_lt.1 hlong), List.take_zero, List.append_nil] at hmem
    have haa := ((before_iff h a).2 (List.mem_of_mem_take hmem)).2
    exact Std.Asymm.asymm _ _ haa haa
  · intro hlt
    obtain ⟨k, hk⟩ := Nat.exists_eq_succ_of_ne_zero (Nat.sub_ne_zero_of_lt hlt)
    rw [hk, List.take_succ_cons]
    exact List.mem_append_right _ List.mem_cons_self

end Rank
