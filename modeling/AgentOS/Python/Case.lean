import AgentOS.Python.Values

/-!
# `str.lower`

Lowering maps each code point to a text, with a sigma at the end of a word for itself.  The tables of the interpreter
are parameters, of which `CaseTable` says what they hold for ASCII.

* `lower_ascii`: ASCII text is mapped letter by letter.
* `lower_cut`: text is lowered on both sides of a code point that is no part of a word.
-/

namespace AgentOS.Py

/-- An ASCII letter in lower case. -/
def asciiLower (c : CodePoint) : CodePoint := if code 'A' ≤ c ∧ c ≤ code 'Z' then Fin.ofNat 0x110000 (c.val + 32) else c

theorem asciiLower_spec {c : CodePoint} (h : c.val < 0x80) : (asciiLower c).val < 0x80 ∧
    asciiLower (asciiLower c) = asciiLower c ∧ isspace (asciiLower c) = isspace c := by
  have hall : ∀ n < 0x80, (asciiLower (Fin.ofNat 0x110000 n)).val < 0x80 ∧
      asciiLower (asciiLower (Fin.ofNat 0x110000 n)) = asciiLower (Fin.ofNat 0x110000 n) ∧
      isspace (asciiLower (Fin.ofNat 0x110000 n)) = isspace (Fin.ofNat 0x110000 n) := by decide
  have hc : Fin.ofNat 0x110000 c.val = c := Fin.ext (Nat.mod_eq_of_lt c.isLt)
  exact hc ▸ hall c.val h

/-- The tables of the interpreter: the lower case of a code point out of context, and which code points are cased and
which are skipped in looking for a cased one. -/
structure CaseTable where
  mapping : CodePoint → Str
  cased : CodePoint → Bool
  ignorable : CodePoint → Bool
  mapping_ascii : ∀ c, c.val < 0x80 → mapping c = [asciiLower c]
  mapping_other : ∀ c, 0x80 ≤ c.val → mapping c ≠ [] ∧ ∀ d ∈ mapping c, d.val < 0x80 → code 'a' ≤ d ∧ d ≤ code 'z'
  sign : ∀ c, c = code '@' ∨ c = code '/' → cased c = false ∧ ignorable c = false

section

variable (table : CaseTable)

/-- The next code point that is not skipped is cased. -/
def atWord (text : Str) : Bool := (text.dropWhile table.ignorable).head?.any table.cased

/-- A code point in lower case, with what is in front of it, last first, and what is behind it. -/
def lowerAt (before : Str) (c : CodePoint) (behind : Str) : Str :=
  if c.val = 0x3A3 then [if atWord table before && !atWord table behind then 0x3C2 else 0x3C3] else table.mapping c

def lowerFrom (before : Str) : Str → Str
  | [] => []
  | c :: behind => lowerAt table before c behind ++ lowerFrom (c :: before) behind

/-- `text.lower()`. -/
def lower (text : Str) : Str := lowerFrom table [] text

end

variable {table : CaseTable}

private theorem lowerAt_ascii {c : CodePoint} (h : c.val < 0x80) (before behind : Str) :
    lowerAt table before c behind = [asciiLower c] := by
  rw [lowerAt, if_neg (by omega), table.mapping_ascii c h]

theorem lower_ascii {text : Str} (h : ∀ c ∈ text, c.val < 0x80) : lower table text = text.map asciiLower := by
  have hfrom : ∀ before, lowerFrom table before text = text.map asciiLower := by
    induction text with
    | nil => exact fun before => rfl
    | cons c cs ih =>
      intro before
      rw [lowerFrom, lowerAt_ascii (h c List.mem_cons_self), ih fun d hd => h d (List.mem_cons_of_mem _ hd)]
      rfl
  exact hfrom []

private theorem atWord_cut {c : CodePoint} (hc : c = code '@' ∨ c = code '/') (text rest : Str) :
    atWord table (text ++ c :: rest) = atWord table text := by
  obtain ⟨hcased, hignorable⟩ := table.sign c hc
  induction text with
  | nil => simp [atWord, hcased, hignorable]
  | cons d text ih =>
    unfold atWord at ih ⊢
    rw [List.cons_append, List.dropWhile_cons, List.dropWhile_cons]
    split
    · exact ih
    · rfl

private theorem lowerFrom_behind {c : CodePoint} (hc : c = code '@' ∨ c = code '/') (before text rest : Str) :
    lowerFrom table before (text ++ c :: rest) =
      lowerFrom table before text ++ lowerFrom table (text.reverse ++ before) (c :: rest) := by
  induction text generalizing before with
  | nil => rfl
  | cons d text ih =>
    rw [List.cons_append, lowerFrom, lowerFrom, ih, lowerAt, lowerAt, atWord_cut hc, List.reverse_cons,
      List.append_assoc, List.append_assoc, List.singleton_append]

private theorem lowerFrom_before {c : CodePoint} (hc : c = code '@' ∨ c = code '/') (near far text : Str) :
    lowerFrom table (near ++ c :: far) text = lowerFrom table near text := by
  induction text generalizing near with
  | nil => rfl
  | cons d text ih => rw [lowerFrom, lowerFrom, lowerAt, lowerAt, atWord_cut hc, ← List.cons_append, ih]

/-- A text is lowered on both sides of `@` and of `/`. -/
theorem lower_cut {c : CodePoint} (hc : c = code '@' ∨ c = code '/') (text rest : Str) :
    lower table (text ++ c :: rest) = lower table text ++ c :: lower table rest := by
  have hsign : c.val < 0x80 ∧ asciiLower c = c := by
    rcases hc with rfl | rfl
    · decide
    · decide
  have hrest : lowerFrom table (c :: (text.reverse ++ [])) rest = lower table rest := lowerFrom_before hc [] _ rest
  rw [lower, lowerFrom_behind hc, lowerFrom, lowerAt_ascii hsign.1, hsign.2, hrest]
  rfl

theorem lower_eq_nil {text : Str} (h : lower table text = []) : text = [] := by
  cases text with
  | nil => rfl
  | cons c cs =>
    have hc : lowerAt table [] c cs = [] := (List.append_eq_nil_iff.1 h).1
    unfold lowerAt at hc
    split at hc
    · cases hc
    · rcases Nat.lt_or_ge c.val 0x80 with hlt | hge
      · rw [table.mapping_ascii c hlt] at hc
        cases hc
      · exact absurd hc (table.mapping_other c hge).1

theorem asciiLower_sign {c d : CodePoint} (hd : d = code '@' ∨ d = code '/' ∨ d = code ':')
    (h : asciiLower c = d) : c = d := by
  unfold asciiLower at h
  split at h
  · rename_i hletter
    have hlow : 65 ≤ c.val := hletter.1
    have hhigh : c.val ≤ 90 := hletter.2
    have hvalue : (c.val + 32) % 0x110000 = d.val := congrArg Fin.val h
    rcases hd with rfl | rfl | rfl
    · have : (code '@').val = 64 := rfl
      omega
    · have : (code '/').val = 47 := rfl
      omega
    · have : (code ':').val = 58 := rfl
      omega
  · exact h

private theorem mem_lowerAt {before behind : Str} {c d : CodePoint} (hd : d = code '@' ∨ d = code '/' ∨ d = code ':')
    (h : d ∈ lowerAt table before c behind) : c = d := by
  have hsmall : d.val < 0x80 ∧ ¬ (code 'a' ≤ d ∧ d ≤ code 'z') := by
    rcases hd with rfl | rfl | rfl
    · decide
    · decide
    · decide
  unfold lowerAt at h
  split at h
  · have hsigma : 0x80 ≤ d.val := by
      rw [List.mem_singleton.1 h]
      split
      · decide
      · decide
    omega
  · rcases Nat.lt_or_ge c.val 0x80 with hlt | hge
    · rw [table.mapping_ascii c hlt] at h
      exact asciiLower_sign hd (List.mem_singleton.1 h).symm
    · exact absurd ((table.mapping_other c hge).2 d h hsmall.1) hsmall.2

/-- Lowering makes no separator of a remote. -/
theorem mem_of_mem_lower {text : Str} {d : CodePoint} (hd : d = code '@' ∨ d = code '/' ∨ d = code ':')
    (h : d ∈ lower table text) : d ∈ text := by
  have hfrom : ∀ (before text : Str), d ∈ lowerFrom table before text → d ∈ text := by
    intro before text
    induction text generalizing before with
    | nil => exact fun h => h
    | cons c cs ih =>
      intro h
      rcases List.mem_append.1 h with h | h
      · exact List.mem_cons.2 (Or.inl (mem_lowerAt hd h).symm)
      · exact List.mem_cons_of_mem _ (ih _ h)
  exact hfrom [] text h

end AgentOS.Py
