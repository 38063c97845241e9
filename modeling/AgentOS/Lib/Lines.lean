import Mathlib.Data.List.Basic

/-!
# Terminated lines of a growing file

A file of terminated lines is cut at its separator `nl`: `lines nl data` are the complete lines, and `framed nl start
data` pairs each with the offset just after its separator, when `data` begins at offset `start`.

* Appending never changes a complete line or its offset (`framed_mono`).
* The offsets strictly increase (`framed_pairwise`), and every one of them is a `Boundary`.
* Reading from a boundary continues where the lines before it ended (`framed_of_boundary`).
-/

namespace Lines

variable {α : Type*} [DecidableEq α] (nl : α)

/-- The complete lines, without their separators; what follows the last separator is dropped. -/
def lines : List α → List (List α)
  | [] => []
  | b :: bs => if b = nl then [] :: lines bs else match lines bs with
    | [] => []
    | l :: ls => (b :: l) :: ls

omit [DecidableEq α] in
/-- Each line with the offset just after its separator. -/
def stamp : Nat → List (List α) → List (List α × Nat)
  | _, [] => []
  | start, l :: ls => (l, start + l.length + 1) :: stamp (start + l.length + 1) ls

/-- The complete lines of `data`, which begins at offset `start`, with the offsets at which they end. -/
def framed (start : Nat) (data : List α) : List (List α × Nat) := stamp start (lines nl data)

omit [DecidableEq α] in
/-- Nothing of a line is pending. -/
def Ended (data : List α) : Prop := data = [] ∨ data.getLast? = some nl

omit [DecidableEq α] in
/-- An offset at which a line of `data` may start. -/
structure Boundary (data : List α) (o : Nat) : Prop where
  le : o ≤ data.length
  ended : Ended nl (data.take o)

variable {nl}

omit [DecidableEq α] in
theorem ended_cons {b : α} {bs : List α} (h : Ended nl (b :: bs)) : (bs = [] ∧ b = nl) ∨ Ended nl bs := by
  rcases h with h | h
  · cases h
  · cases bs with
    | nil => exact Or.inl ⟨rfl, by simpa using h⟩
    | cons c cs => exact Or.inr (Or.inr (by rwa [List.getLast?_cons_cons] at h))

omit [DecidableEq α] in
theorem Ended.append {x y : List α} (hx : Ended nl x) (hy : Ended nl y) : Ended nl (x ++ y) := by
  rcases hy with rfl | hy
  · rwa [List.append_nil]
  · exact Or.inr (by rw [List.getLast?_append, hy]; rfl)

theorem lines_nil : lines nl [] = [] := rfl

theorem lines_sep (bs : List α) : lines nl (nl :: bs) = [] :: lines nl bs := by
  rw [lines, if_pos rfl]

theorem lines_cons {b : α} {bs l : List α} {ls : List (List α)} (hb : b ≠ nl) (h : lines nl bs = l :: ls) :
    lines nl (b :: bs) = (b :: l) :: ls := by
  rw [lines, if_neg hb, h]

theorem lines_cons_nil {b : α} {bs : List α} (hb : b ≠ nl) (h : lines nl bs = []) : lines nl (b :: bs) = [] := by
  rw [lines, if_neg hb, h]

/-- Data that ends with a separator has a line. -/
theorem lines_ne_nil {x : List α} (hx : Ended nl x) (hne : x ≠ []) : lines nl x ≠ [] := by
  induction x with
  | nil => exact absurd rfl hne
  | cons b bs ih =>
    by_cases hb : b = nl
    · rw [hb, lines_sep]
      simp
    · rcases ended_cons hx with ⟨-, h⟩ | h
      · exact absurd h hb
      · rcases hl : lines nl bs with _ | ⟨l, ls⟩
        · by_cases hbs : bs = []
          · subst hbs
            rcases hx with hx | hx
            · cases hx
            · exact absurd (by simpa using hx) hb
          · exact absurd hl (ih h hbs)
        · rw [lines_cons hb hl]
          simp

/-- After a separator the lines start afresh. -/
theorem lines_append {x : List α} (hx : Ended nl x) (y : List α) : lines nl (x ++ y) = lines nl x ++ lines nl y := by
  induction x with
  | nil => rfl
  | cons b bs ih =>
    rw [List.cons_append]
    rcases ended_cons hx with ⟨rfl, rfl⟩ | h
    · rw [lines_sep, lines_sep, List.nil_append, lines_nil]
      rfl
    · by_cases hb : b = nl
      · rw [hb, lines_sep, lines_sep, ih h]
        rfl
      · have hbs : bs ≠ [] := by
          rintro rfl
          rcases hx with hx | hx
          · cases hx
          · exact hb (by simpa using hx)
        rcases hl : lines nl bs with _ | ⟨l, ls⟩
        · exact absurd hl (lines_ne_nil h hbs)
        · have hly := ih h
          rw [hl, List.cons_append] at hly
          rw [lines_cons hb hl, lines_cons hb hly]
          rfl

variable (nl) in
/-- Appending never changes the complete lines. -/
theorem lines_mono (x y : List α) : lines nl x <+: lines nl (x ++ y) := by
  induction x with
  | nil => exact List.nil_prefix
  | cons b bs ih =>
    rw [List.cons_append]
    by_cases hb : b = nl
    · rw [hb, lines_sep, lines_sep]
      exact (List.prefix_cons_inj _).2 ih
    · rcases hl : lines nl bs with _ | ⟨l, ls⟩
      · rw [lines_cons_nil hb hl]
        exact List.nil_prefix
      · rw [hl] at ih
        obtain ⟨t, ht⟩ := ih
        rw [lines_cons hb hl, lines_cons hb ht.symm]
        exact ⟨t, rfl⟩

variable (nl) in
/-- The lines are the data up to the last separator. -/
theorem lines_flatMap (x : List α) : (lines nl x).flatMap (· ++ [nl]) <+: x := by
  induction x with
  | nil => exact List.nil_prefix
  | cons b bs ih =>
    by_cases hb : b = nl
    · rw [hb, lines_sep]
      exact (List.prefix_cons_inj _).2 ih
    · rcases hl : lines nl bs with _ | ⟨l, ls⟩
      · rw [lines_cons_nil hb hl]
        exact List.nil_prefix
      · rw [hl] at ih
        rw [lines_cons hb hl]
        exact (List.prefix_cons_inj _).2 ih

/-- Data that ends with a separator is exactly its lines. -/
theorem lines_flatMap_of_ended {x : List α} (hx : Ended nl x) : (lines nl x).flatMap (· ++ [nl]) = x := by
  induction x with
  | nil => rfl
  | cons b bs ih =>
    rcases ended_cons hx with ⟨rfl, rfl⟩ | h
    · rw [lines_sep]
      rfl
    · by_cases hb : b = nl
      · rw [hb, lines_sep, List.flatMap_cons, ih h]
        rfl
      · have hbs : bs ≠ [] := by
          rintro rfl
          rcases hx with hx | hx
          · cases hx
          · exact hb (by simpa using hx)
        rcases hl : lines nl bs with _ | ⟨l, ls⟩
        · exact absurd hl (lines_ne_nil h hbs)
        · rw [lines_cons hb hl]
          rw [hl] at ih
          exact congrArg (b :: ·) (ih h)

/-- A line and its separator in front of other data. -/
theorem lines_line {l : List α} (hl : nl ∉ l) (rest : List α) : lines nl (l ++ nl :: rest) = l :: lines nl rest := by
  induction l with
  | nil => exact lines_sep rest
  | cons b bs ih =>
    have hb : b ≠ nl := fun h => hl (h ▸ List.mem_cons_self)
    exact lines_cons hb (ih fun h => hl (List.mem_cons_of_mem _ h))

/-- Writing lines and cutting the file gives the lines back. -/
theorem lines_of_flatMap {ls : List (List α)} (hls : ∀ l ∈ ls, nl ∉ l) : lines nl (ls.flatMap (· ++ [nl])) = ls := by
  induction ls with
  | nil => rfl
  | cons l ls ih =>
    rw [List.flatMap_cons, List.append_assoc, List.singleton_append, lines_line (hls l List.mem_cons_self),
      ih fun x hx => hls x (List.mem_cons_of_mem _ hx)]

omit [DecidableEq α] in
theorem ended_flatMap (ls : List (List α)) : Ended nl (ls.flatMap (· ++ [nl])) := by
  induction ls with
  | nil => exact Or.inl rfl
  | cons l ls ih =>
    rw [List.flatMap_cons]
    exact Ended.append (Or.inr (by simp)) ih

/-! ### The start of a file -/

theorem lines_notMem {x : List α} (hx : nl ∉ x) : lines nl x = [] := by
  induction x with
  | nil => rfl
  | cons b bs ih =>
    have hb : b ≠ nl := fun h => hx (h ▸ List.mem_cons_self)
    exact lines_cons_nil hb (ih fun h => hx (List.mem_cons_of_mem _ h))

omit [DecidableEq α] in
/-- The first lines that, with their separators, are at most `bound` long. -/
def fitting : Nat → List (List α) → List (List α)
  | _, [] => []
  | bound, l :: ls => if l.length + 1 ≤ bound then l :: fitting (bound - (l.length + 1)) ls else []

/-- The complete lines of the start of a file. -/
theorem lines_take {ls : List (List α)} (hls : ∀ l ∈ ls, nl ∉ l) (bound : Nat) :
    lines nl ((ls.flatMap (· ++ [nl])).take bound) = fitting bound ls := by
  induction ls generalizing bound with
  | nil => rw [List.flatMap_nil, List.take_nil, lines_nil, fitting]
  | cons l ls ih =>
    have hl : nl ∉ l := hls l List.mem_cons_self
    rw [List.flatMap_cons, fitting]
    by_cases hfits : l.length + 1 ≤ bound
    · have htake : ((l ++ [nl]) ++ ls.flatMap (· ++ [nl])).take bound =
          l ++ nl :: (ls.flatMap (· ++ [nl])).take (bound - (l.length + 1)) := by
        rw [List.take_append, List.length_append, List.length_singleton, List.take_of_length_le (by simpa using hfits),
          List.append_assoc, List.singleton_append]
      rw [if_pos hfits, htake, lines_line hl, ih fun x hx => hls x (List.mem_cons_of_mem _ hx)]
    · have htake : ((l ++ [nl]) ++ ls.flatMap (· ++ [nl])).take bound = l.take bound := by
        rw [List.append_assoc, List.take_append_of_le_length (by omega)]
      rw [if_neg hfits, htake, lines_notMem fun h => hl (List.mem_of_mem_take h)]

omit [DecidableEq α] in
/-- The lines that fit are short enough. -/
theorem fitting_le (nl : α) (bound : Nat) (ls : List (List α)) :
    fitting bound ls <+: ls ∧ ((fitting bound ls).flatMap (· ++ [nl])).length ≤ bound := by
  induction ls generalizing bound with
  | nil => exact ⟨List.prefix_rfl, Nat.zero_le _⟩
  | cons l ls ih =>
    rw [fitting]
    by_cases hfits : l.length + 1 ≤ bound
    · obtain ⟨hstart, hle⟩ := ih (bound - (l.length + 1))
      rw [if_pos hfits, List.flatMap_cons, List.length_append, List.length_append, List.length_singleton]
      exact ⟨(List.prefix_cons_inj l).2 hstart, by omega⟩
    · rw [if_neg hfits]
      exact ⟨List.nil_prefix, Nat.zero_le _⟩

omit [DecidableEq α] in
/-- Lines that are short enough fit. -/
theorem fits_of_le {bound : Nat} {ls : List (List α)} (h : (ls.flatMap (· ++ [nl])).length ≤ bound)
    (more : List (List α)) : ls <+: fitting bound (ls ++ more) := by
  induction ls generalizing bound with
  | nil => exact List.nil_prefix
  | cons l ls ih =>
    rw [List.flatMap_cons, List.length_append, List.length_append, List.length_singleton] at h
    rw [List.cons_append, fitting, if_pos (by omega)]
    exact (List.prefix_cons_inj l).2 (ih (by omega))

/-! ### Offsets -/

omit [DecidableEq α] in
theorem stamp_append (nl : α) (start : Nat) (a b : List (List α)) :
    stamp start (a ++ b) = stamp start a ++ stamp (start + (a.flatMap (· ++ [nl])).length) b := by
  induction a generalizing start with
  | nil => rfl
  | cons l ls ih =>
    rw [List.cons_append, stamp, stamp, ih, List.flatMap_cons]
    simp only [List.length_append, List.length_singleton, List.cons_append, Nat.add_assoc]

omit [DecidableEq α] in
theorem stamp_map_fst (start : Nat) (ls : List (List α)) : (stamp start ls).map Prod.fst = ls := by
  induction ls generalizing start with
  | nil => rfl
  | cons l ls ih => rw [stamp, List.map_cons, ih]

omit [DecidableEq α] in
theorem lt_of_mem_stamp {start : Nat} {ls : List (List α)} {x : List α × Nat} (hx : x ∈ stamp start ls) :
    start + x.1.length < x.2 := by
  induction ls generalizing start with
  | nil => cases hx
  | cons l ls ih =>
    rcases List.mem_cons.1 hx with rfl | hx
    · exact Nat.lt_succ_self _
    · have := ih hx
      omega

variable (nl) in
/-- The offsets strictly increase; each line lies between the one before it and its own end. -/
theorem framed_pairwise (start : Nat) (data : List α) :
    (framed nl start data).Pairwise fun x y => x.2 + y.1.length < y.2 := by
  rw [framed]
  generalize lines nl data = ls
  induction ls generalizing start with
  | nil => exact List.Pairwise.nil
  | cons l ls ih => exact List.pairwise_cons.2 ⟨fun y hy => lt_of_mem_stamp hy, ih _⟩

theorem lt_of_mem_framed {start : Nat} {data : List α} {x : List α × Nat} (hx : x ∈ framed nl start data) :
    start + x.1.length < x.2 :=
  lt_of_mem_stamp hx

/-- Appending never changes a complete line or the offset at which it ends. -/
theorem framed_mono (start : Nat) (x y : List α) : framed nl start x <+: framed nl start (x ++ y) := by
  obtain ⟨t, ht⟩ := lines_mono nl x y
  rw [framed, framed, ← ht, stamp_append nl]
  exact ⟨_, rfl⟩

theorem framed_append {x : List α} (hx : Ended nl x) (start : Nat) (y : List α) :
    framed nl start (x ++ y) = framed nl start x ++ framed nl (start + x.length) y := by
  rw [framed, lines_append hx, stamp_append nl, lines_flatMap_of_ended hx]
  rfl

omit [DecidableEq α] in
variable (nl) in
private theorem mem_stamp {start : Nat} {ls : List (List α)} {x : List α × Nat} (hx : x ∈ stamp start ls) :
    ∃ p s, ls = p ++ x.1 :: s ∧ x.2 = start + ((p ++ [x.1]).flatMap (· ++ [nl])).length := by
  induction ls generalizing start with
  | nil => cases hx
  | cons l ls ih =>
    rcases List.mem_cons.1 hx with rfl | hx
    · exact ⟨[], ls, rfl, by simp [Nat.add_assoc]⟩
    · obtain ⟨p, s, hps, he⟩ := ih hx
      refine ⟨l :: p, s, by rw [hps]; rfl, ?_⟩
      rw [he, List.cons_append, List.flatMap_cons, List.length_append]
      simp [Nat.add_assoc]

/-- A line of `data` ends at a boundary of it. -/
theorem boundary_of_mem {start : Nat} {data : List α} {x : List α × Nat} (hx : x ∈ framed nl start data) :
    ∃ n, x.2 = start + n ∧ Boundary nl data n := by
  obtain ⟨p, s, hps, he⟩ := mem_stamp nl hx
  obtain ⟨t, ht⟩ := lines_flatMap nl data
  have hdata : data = (p ++ [x.1]).flatMap (· ++ [nl]) ++ (s.flatMap (· ++ [nl]) ++ t) := by
    rw [← ht, hps]
    simp
  refine ⟨_, he, ⟨?_, ?_⟩⟩
  · conv => rhs; rw [hdata]
    rw [List.length_append]
    omega
  · right
    conv => lhs; rw [hdata]
    rw [List.take_left]
    simp

omit [DecidableEq α] in
theorem Boundary.zero (data : List α) : Boundary nl data 0 := ⟨Nat.zero_le _, Or.inl (List.take_zero)⟩

omit [DecidableEq α] in
theorem Boundary.append {data : List α} {o : Nat} (h : Boundary nl data o) (y : List α) :
    Boundary nl (data ++ y) o where
  le := by
    rw [List.length_append]
    exact Nat.le_add_right_of_le h.le
  ended := by
    rw [List.take_append_of_le_length h.le]
    exact h.ended

/-- Reading from a boundary continues where the lines before it ended. -/
theorem framed_of_boundary {data : List α} {o : Nat} (h : Boundary nl data o) :
    framed nl 0 data = framed nl 0 (data.take o) ++ framed nl o (data.drop o) := by
  conv => lhs; rw [← List.take_append_drop o data, framed_append h.ended]
  rw [Nat.zero_add, List.length_take, Nat.min_eq_left h.le]

/-- A line that ends beyond a boundary is read from there. -/
theorem mem_framed_drop {data : List α} {o : Nat} (h : Boundary nl data o) {x : List α × Nat}
    (hx : x ∈ framed nl 0 data) (hlt : o < x.2) : x ∈ framed nl o (data.drop o) := by
  rw [framed_of_boundary h] at hx
  refine (List.mem_append.1 hx).resolve_left fun hx => ?_
  obtain ⟨n, hn, hb⟩ := boundary_of_mem hx
  have := hb.le
  rw [List.length_take] at this
  omega

omit [DecidableEq α] in
/-- A boundary of what is read from a boundary is a boundary of the whole. -/
theorem Boundary.add {data : List α} {o n : Nat} (h : Boundary nl data o) (hn : Boundary nl (data.drop o) n) :
    Boundary nl data (o + n) where
  le := by
    have h₁ := h.le
    have h₂ := hn.le
    rw [List.length_drop] at h₂
    omega
  ended := by
    rw [List.take_add]
    exact h.ended.append hn.ended

end Lines
