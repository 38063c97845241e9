import AgentOS.Python.Text
import Mathlib.Data.List.DropRight

/-!
# Methods of `str`

`strip`, `removeprefix`, `partition`, `split` and `isascii`, `hmac.compare_digest` of two strings, and `str` of an
integer.
-/

namespace AgentOS

/-- `text.strip()`. -/
def strip (text : String) : String := String.ofList ((text.toList.dropWhile isspace).rdropWhile isspace)

/-- What is behind a prefix; `none` where `text.startswith(start)` is false. -/
def dropPrefix? (start text : String) : Option String :=
  if start.toList.isPrefixOf text.toList then some (String.ofList (text.toList.drop start.toList.length)) else none

/-- What is before the first `sep` of a list and what is behind it. -/
def cutAt (sep : Char) : List Char → Option (List Char × List Char)
  | [] => none
  | c :: cs => if c = sep then some ([], cs) else (cutAt sep cs).map fun (before, after) => (c :: before, after)

/-- `text.partition(sep)`, without the separator; `none` where `sep not in text`. -/
def partition? (sep : Char) (text : String) : Option (String × String) :=
  (cutAt sep text.toList).map fun (before, after) => (String.ofList before, String.ofList after)

/-- `text.split(sep)`. -/
def splitOn (sep : Char) (text : String) : List String := (text.toList.splitOn sep).map String.ofList

/-- `text.isascii()`. -/
def isascii (text : String) : Bool := text.toList.all fun c => c.toNat < 128

/-- `hmac.compare_digest(a, b)`; `none` is the `TypeError` on text that is not ASCII. -/
def compareDigest (a b : String) : Option Bool := if isascii a && isascii b then some (a = b) else none

theorem dropPrefix?_eq_some {start text rest : String} : dropPrefix? start text = some rest ↔ text = start ++ rest := by
  unfold dropPrefix?
  split
  case isTrue h =>
    obtain ⟨tail, htail⟩ := List.isPrefixOf_iff_prefix.1 h
    rw [← htail, List.drop_left]
    constructor
    · intro h'
      obtain rfl := Option.some.inj h'
      rw [← String.toList_inj, String.toList_append, String.toList_ofList, htail]
    · intro h'
      rw [h', String.toList_append, List.append_cancel_left_eq] at htail
      rw [htail, String.ofList_toList]
  case isFalse h =>
    constructor
    · simp
    · rintro rfl
      rw [String.toList_append] at h
      exact absurd (List.isPrefixOf_iff_prefix.2 (List.prefix_append _ _)) h

theorem cutAt_eq_some {sep : Char} {cs before after : List Char} :
    cutAt sep cs = some (before, after) ↔ cs = before ++ sep :: after ∧ sep ∉ before := by
  induction cs generalizing before with
  | nil => simp [cutAt]
  | cons c cs ih =>
    rw [cutAt]
    split
    case isTrue hc =>
      subst hc
      cases before with
      | nil => simp
      | cons d before => simp_all [eq_comm]
    case isFalse hc =>
      rw [Option.map_eq_some_iff]
      constructor
      · rintro ⟨⟨start, rest⟩, hcut, heq⟩
        obtain ⟨rfl, rfl⟩ := Prod.mk.inj heq
        obtain ⟨rfl, hstart⟩ := ih.1 hcut
        exact ⟨rfl, List.not_mem_cons_of_ne_of_not_mem (Ne.symm hc) hstart⟩
      · rintro ⟨hcs, hbefore⟩
        cases before with
        | nil => exact absurd (List.cons.inj hcs).1 hc
        | cons d before =>
          obtain ⟨rfl, rfl⟩ := List.cons.inj hcs
          exact ⟨(before, after), ih.2 ⟨rfl, List.not_mem_of_not_mem_cons hbefore⟩, rfl⟩

/-- The two sides of the first separator. -/
theorem partition?_eq_some {sep : Char} {text before after : String} :
    partition? sep text = some (before, after) ↔
      text = before ++ String.ofList [sep] ++ after ∧ sep ∉ before.toList := by
  have htext : text = before ++ String.ofList [sep] ++ after ↔ text.toList = before.toList ++ sep :: after.toList := by
    rw [← String.toList_inj]
    simp
  rw [partition?, Option.map_eq_some_iff, htext]
  constructor
  · rintro ⟨⟨start, rest⟩, hcut, heq⟩
    obtain ⟨rfl, rfl⟩ := Prod.mk.inj heq
    rw [String.toList_ofList, String.toList_ofList]
    exact cutAt_eq_some.1 hcut
  · intro h
    refine ⟨(before.toList, after.toList), cutAt_eq_some.2 h, ?_⟩
    dsimp only
    rw [String.ofList_toList, String.ofList_toList]

theorem compareDigest_of_ascii {a b : String} (ha : isascii a = true) (hb : isascii b = true) :
    compareDigest a b = some (decide (a = b)) := by
  rw [compareDigest, ha, hb]
  rfl

/-! ### `str` of an integer -/

private theorem toList_toString (n : Int) :
    (toString n).toList = if 0 ≤ n then Nat.toDigits 10 n.toNat else '-' :: Nat.toDigits 10 (-n).toNat := by
  show (Int.repr n).toList = _
  rw [Int.repr_eq_if]
  split
  · rw [Nat.toList_repr]
  · rw [String.toList_append, Nat.toList_repr]
    rfl

private theorem isDigit_of_mem {n : Nat} {c : Char} (h : c ∈ Nat.toDigits 10 n) : c.isDigit = true :=
  Nat.isDigit_of_mem_toDigits (by decide) (by decide) h

theorem colon_notMem_toString (n : Int) : ':' ∉ (toString n).toList := by
  intro h
  rw [toList_toString] at h
  split at h
  · exact absurd (isDigit_of_mem h) (by decide)
  · rcases List.mem_cons.1 h with h | h
    · exact absurd h (by decide)
    · exact absurd (isDigit_of_mem h) (by decide)

private theorem toDigits_injective {m n : Nat} (h : Nat.toDigits 10 m = Nat.toDigits 10 n) : m = n := by
  rw [← Nat.ofDigitChars_toDigits (b := 10) (n := m) (by decide) (by decide), h,
    Nat.ofDigitChars_toDigits (by decide) (by decide)]

private theorem cons_minus_ne_toDigits {m n : Nat} : '-' :: Nat.toDigits 10 m ≠ Nat.toDigits 10 n :=
  fun h => absurd (isDigit_of_mem (h ▸ List.mem_cons_self)) (by decide)

theorem toString_int_injective {m n : Int} (h : toString m = toString n) : m = n := by
  have hlist := congrArg String.toList h
  rw [toList_toString, toList_toString] at hlist
  split at hlist
  · split at hlist
    · have := toDigits_injective hlist
      omega
    · exact absurd hlist.symm cons_minus_ne_toDigits
  · split at hlist
    · exact absurd hlist cons_minus_ne_toDigits
    · have := toDigits_injective (List.cons.inj hlist).2
      omega

private theorem append_singleton_inj {α : Type*} {sep : α} {as bs as' bs' : List α} (hbs : sep ∉ bs)
    (h : as ++ [sep] ++ bs = as' ++ [sep] ++ bs') (hlong : bs'.length ≤ bs.length) : as = as' ∧ bs = bs' := by
  obtain ⟨cs, hcs, rfl⟩ : ∃ cs, as' ++ [sep] = as ++ [sep] ++ cs ∧ bs = cs ++ bs' := by
    rcases List.append_eq_append_iff.1 h with ⟨cs, h₁, h₂⟩ | ⟨cs, h₁, h₂⟩
    · exact ⟨cs, h₁, h₂⟩
    · rw [h₂, List.length_append] at hlong
      obtain rfl : cs = [] := List.eq_nil_of_length_eq_zero (by omega)
      exact ⟨[], by simpa using h₁.symm, by simpa using h₂.symm⟩
  rcases List.eq_nil_or_concat cs with rfl | ⟨front, last, rfl⟩
  · rw [List.append_nil] at hcs
    exact ⟨(List.append_cancel_right hcs).symm, rfl⟩
  · rw [List.concat_eq_append, ← List.append_assoc] at hcs
    obtain ⟨-, hlast⟩ := List.append_inj' hcs rfl
    obtain rfl := (List.cons.inj hlast).1
    exact absurd (by simp) hbs

/-- Text behind the last separator. -/
theorem append_sep_inj (sep : Char) {a b a' b' : String} (hb : sep ∉ b.toList) (hb' : sep ∉ b'.toList)
    (h : a ++ String.ofList [sep] ++ b = a' ++ String.ofList [sep] ++ b') : a = a' ∧ b = b' := by
  have hlist := congrArg String.toList h
  simp only [String.toList_append, String.toList_ofList] at hlist
  rcases Nat.le_total b'.toList.length b.toList.length with hle | hle
  · obtain ⟨ha, hb⟩ := append_singleton_inj hb hlist hle
    exact ⟨String.toList_inj.1 ha, String.toList_inj.1 hb⟩
  · obtain ⟨ha, hb⟩ := append_singleton_inj hb' hlist.symm hle
    exact ⟨(String.toList_inj.1 ha).symm, (String.toList_inj.1 hb).symm⟩

end AgentOS
