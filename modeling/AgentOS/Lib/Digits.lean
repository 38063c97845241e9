import Mathlib.Algebra.Group.Nat.Defs
import Mathlib.Data.List.Lex
import Mathlib.Data.Set.Function
import Mathlib.Order.Monotone.Basic

/-!
# Numerals of a fixed width

`digits b width n` are the last `width` digits of `n` in base `b`, the most significant one first, and `value b` reads
digits back.

* `value_digits` and `digits_value`: the two are inverse to each other.
* `value_lt_value`: numerals of one width are ordered as their values.
* `map_lt_map`: spelling the digits in an increasing alphabet keeps that order.
-/

namespace Digits

/-- The value of a numeral. -/
def value (b : Nat) : List Nat → Nat
  | [] => 0
  | d :: ds => d * b ^ ds.length + value b ds

/-- The last digits of a number. -/
def digits (b : Nat) : Nat → Nat → List Nat
  | 0, _ => []
  | width + 1, n => n / b ^ width % b :: digits b width n

variable {b : Nat}

@[simp] theorem length_digits (width n : Nat) : (digits b width n).length = width := by
  induction width with
  | zero => rfl
  | succ width ih => rw [digits, List.length_cons, ih]

theorem lt_of_mem_digits (hb : 0 < b) {width n d : Nat} (h : d ∈ digits b width n) : d < b := by
  induction width with
  | zero => cases h
  | succ width ih =>
    rcases List.mem_cons.1 h with rfl | h
    · exact Nat.mod_lt _ hb
    · exact ih h

/-- The last digit by division with remainder, and the digits before it. -/
theorem digits_succ (width n : Nat) : digits b (width + 1) n = digits b width (n / b) ++ [n % b] := by
  induction width with
  | zero => simp [digits]
  | succ width ih =>
    rw [digits, ih, digits, List.cons_append, Nat.div_div_eq_div_mul, ← Nat.pow_succ']

theorem value_digits (width n : Nat) : value b (digits b width n) = n % b ^ width := by
  induction width with
  | zero => simp [digits, value, Nat.mod_one]
  | succ width ih =>
    rw [digits, value, ih, length_digits, Nat.mod_pow_succ, Nat.mul_comm, Nat.add_comm]

theorem value_lt {ds : List Nat} (h : ∀ d ∈ ds, d < b) : value b ds < b ^ ds.length := by
  induction ds with
  | nil => simp [value]
  | cons d ds ih =>
    have hd : d + 1 ≤ b := h d List.mem_cons_self
    have hds := ih fun e he => h e (List.mem_cons_of_mem _ he)
    calc value b (d :: ds) < d * b ^ ds.length + b ^ ds.length := Nat.add_lt_add_left hds _
      _ = (d + 1) * b ^ ds.length := (Nat.succ_mul _ _).symm
      _ ≤ b * b ^ ds.length := Nat.mul_le_mul_right _ hd
      _ = b ^ (d :: ds).length := (Nat.pow_succ' ..).symm

/-- Digits above the width do not matter. -/
private theorem digits_mul_add (width k n : Nat) : digits b width (k * b ^ width + n) = digits b width n := by
  induction width generalizing k with
  | zero => rfl
  | succ width ih =>
    have hsplit : k * b ^ (width + 1) + n = k * b * b ^ width + n := by rw [Nat.pow_succ', Nat.mul_assoc]
    rw [digits, digits, hsplit, ih]
    rcases Nat.eq_zero_or_pos (b ^ width) with hzero | hpos
    · rw [hzero, Nat.div_zero, Nat.div_zero]
    · rw [Nat.add_comm, Nat.add_mul_div_right _ _ hpos, Nat.add_mul_mod_self_right]

theorem digits_value {ds : List Nat} (h : ∀ d ∈ ds, d < b) : digits b ds.length (value b ds) = ds := by
  induction ds with
  | nil => rfl
  | cons d ds ih =>
    have hds : ∀ e ∈ ds, e < b := fun e he => h e (List.mem_cons_of_mem _ he)
    have hlt := value_lt hds
    have hhead : (d * b ^ ds.length + value b ds) / b ^ ds.length % b = d := by
      rw [Nat.add_comm, Nat.add_mul_div_right _ _ (Nat.zero_lt_of_lt hlt), Nat.div_eq_of_lt hlt, Nat.zero_add]
      exact Nat.mod_eq_of_lt (h d List.mem_cons_self)
    rw [List.length_cons, digits, value, hhead, digits_mul_add, ih hds]

/-- Numerals of one width are ordered as their values. -/
theorem value_lt_value {ds es : List Nat} (hlen : ds.length = es.length) (hds : ∀ d ∈ ds, d < b)
    (hes : ∀ e ∈ es, e < b) : value b ds < value b es ↔ ds < es := by
  induction ds generalizing es with
  | nil =>
    obtain rfl := List.eq_nil_of_length_eq_zero hlen.symm
    simp
  | cons d ds ih =>
    cases es with
    | nil => cases hlen
    | cons e es =>
      have hlen' : ds.length = es.length := Nat.succ.inj hlen
      have hds' : ∀ x ∈ ds, x < b := fun x hx => hds x (List.mem_cons_of_mem _ hx)
      have hes' : ∀ x ∈ es, x < b := fun x hx => hes x (List.mem_cons_of_mem _ hx)
      have hd := value_lt hds'
      have he := value_lt hes'
      rw [List.cons_lt_cons_iff, ← ih hlen' hds' hes', value, value]
      rw [hlen'] at hd ⊢
      -- the leading digits decide, unless they agree
      rcases Nat.lt_trichotomy d e with hlt | rfl | hgt
      · have hle : (d + 1) * b ^ es.length ≤ e * b ^ es.length := Nat.mul_le_mul_right _ hlt
        rw [Nat.succ_mul] at hle
        exact iff_of_true (by omega) (Or.inl hlt)
      · simp
      · have hle : (e + 1) * b ^ es.length ≤ d * b ^ es.length := Nat.mul_le_mul_right _ hgt
        rw [Nat.succ_mul] at hle
        exact iff_of_false (by omega) (by omega)

/-- An increasing alphabet keeps the order of numerals. -/
theorem map_lt_map {α : Type*} [LinearOrder α] {spell : Nat → α} (hspell : StrictMonoOn spell {d | d < b})
    {ds es : List Nat} (hds : ∀ d ∈ ds, d < b) (hes : ∀ e ∈ es, e < b) : ds.map spell < es.map spell ↔ ds < es := by
  induction ds generalizing es with
  | nil => cases es <;> simp
  | cons d ds ih =>
    cases es with
    | nil => simp
    | cons e es =>
      have hd : d < b := hds d List.mem_cons_self
      have he : e < b := hes e List.mem_cons_self
      rw [List.map_cons, List.map_cons, List.cons_lt_cons_iff, List.cons_lt_cons_iff, hspell.lt_iff_lt hd he,
        hspell.injOn.eq_iff hd he, ih (fun x hx => hds x (List.mem_cons_of_mem _ hx))
          (fun x hx => hes x (List.mem_cons_of_mem _ hx))]

end Digits
