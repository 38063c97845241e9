import AgentOS.Python.Values

/-!
# Estimated tokens

A token is a CJK code point, a run of word characters that does not begin with one, or another code point that is no
whitespace.  An ideographic space is whitespace, but it is also a token.

* `tokens_append`: the tokens of two texts are those of the whole, if no run goes on across the border.
* `tokens_flatten`: the tokens of a text without whitespace can be put together again, and so can any stretch of them.
-/

namespace AgentOS

open Py

/-- The marks that the code relies on to be no word characters: those that end a sentence, and a colon. -/
def marks : Str := [0x2E, 0x21, 0x3F, 0x3002, 0xFF01, 0xFF1F, 0x2026, 0x3A]

/-- The table of the interpreter for `\w`. -/
structure WordTable where
  word : CodePoint → Bool
  space : ∀ c, Py.isspace c = true → word c = false
  mark : ∀ c ∈ marks, word c = false

/-- The word characters of ASCII. -/
def asciiWords : WordTable where
  word c := (0x30 ≤ c.val && c.val ≤ 0x39) || (0x41 ≤ c.val && c.val ≤ 0x5A) || c.val == 0x5F ||
    (0x61 ≤ c.val && c.val ≤ 0x7A)
  space c h := by
    simp only [Py.isspace, Bool.or_eq_true, Bool.and_eq_true, decide_eq_true_eq, beq_iff_eq] at h
    simp only [Bool.or_eq_false_iff, Bool.and_eq_false_iff, decide_eq_false_iff_not, beq_eq_false_iff_ne]
    omega
  mark c h := by
    simp only [marks, List.mem_cons, List.not_mem_nil, or_false] at h
    rcases h with rfl | rfl | rfl | rfl | rfl | rfl | rfl | rfl
    all_goals rfl

/-- `[{_CJK}]`. -/
def isCjk (c : CodePoint) : Bool :=
  let n := c.val
  (0x3000 ≤ n && n ≤ 0x303F) || (0x3040 ≤ n && n ≤ 0x30FF) || (0x3400 ≤ n && n ≤ 0x4DBF) ||
    (0x4E00 ≤ n && n ≤ 0x9FFF) || (0xF900 ≤ n && n ≤ 0xFAFF) || (0xAC00 ≤ n && n ≤ 0xD7AF)

section

variable (table : WordTable)

/-- `_TOKEN_RE.findall`, in the middle of the word run `run` where it is not empty. -/
def tokensFrom : Str → Str → List Str
  | run, [] => if run = [] then [] else [run]
  | run, c :: cs =>
    if run ≠ [] ∧ table.word c then tokensFrom (run ++ [c]) cs
    else (if run = [] then [] else [run]) ++
      if isCjk c then [c] :: tokensFrom [] cs
      else if table.word c then tokensFrom [c] cs
      else if Py.isspace c then tokensFrom [] cs
      else [c] :: tokensFrom [] cs

/-- `_TOKEN_RE.findall(text)`. -/
def tokens (text : Str) : List Str := tokensFrom table [] text

/-- `estimate_tokens`. -/
def estimateTokens (text : Str) : Nat := (tokens table text).length

end

variable {table : WordTable}

/-! ### Borders -/

/-- A run ends where no word character comes next. -/
private theorem tokensFrom_next {c : CodePoint} (hc : table.word c = false) (run cs : Str) :
    tokensFrom table run (c :: cs) = (if run = [] then [] else [run]) ++ tokens table (c :: cs) := by
  have hends : ∀ run : Str, ¬ (run ≠ [] ∧ table.word c = true) := by simp [hc]
  rw [tokens, tokensFrom, tokensFrom, if_neg (hends run), if_neg (hends []), if_pos (rfl : ([] : Str) = []),
    List.nil_append]

/-- A border stays one when there is more in front of it. -/
private theorem tokensFrom_border {x b : Str}
    (h : ∀ run, tokensFrom table run (x ++ b) = tokensFrom table run x ++ tokens table b) (run a : Str) :
    tokensFrom table run (a ++ (x ++ b)) = tokensFrom table run (a ++ x) ++ tokens table b := by
  induction a generalizing run with
  | nil => exact h run
  | cons d a ih =>
    rw [List.cons_append, List.cons_append, tokensFrom, tokensFrom]
    split
    · exact ih _
    · rw [List.append_assoc]
      congr 1
      split
      · rw [ih, List.cons_append]
      · split
        · exact ih _
        · split
          · exact ih _
          · rw [ih, List.cons_append]

private theorem border_of_next {b : Str} (hb : ∀ c ∈ b.head?, table.word c = false) (run : Str) :
    tokensFrom table run ([] ++ b) = tokensFrom table run [] ++ tokens table b := by
  cases b with
  | nil => rw [List.append_nil, tokens, tokensFrom, tokensFrom, if_pos (rfl : ([] : Str) = []), List.append_nil]
  | cons c cs => rw [List.nil_append, tokensFrom_next (hb c rfl), tokensFrom]

private theorem border_of_last {z : CodePoint} (hz : table.word z = false) (run b : Str) :
    tokensFrom table run ([z] ++ b) = tokensFrom table run [z] ++ tokens table b := by
  have hends : ∀ run : Str, ¬ (run ≠ [] ∧ table.word z = true) := by simp [hz]
  have hnotWord : ¬ table.word z = true := by simp [hz]
  rw [List.singleton_append, tokensFrom, tokensFrom, if_neg (hends run), if_neg (hends run), if_neg hnotWord,
    if_neg hnotWord, List.append_assoc]
  congr 1
  split
  · rfl
  · split
    · rfl
    · rfl

/-- The tokens on both sides of a border. -/
theorem tokens_append {a b : Str}
    (h : (∀ c ∈ a.getLast?, table.word c = false) ∨ ∀ c ∈ b.head?, table.word c = false) :
    tokens table (a ++ b) = tokens table a ++ tokens table b := by
  rcases h with ha | hb
  · rcases List.eq_nil_or_concat a with rfl | ⟨a, z, rfl⟩
    · rfl
    · rw [List.concat_eq_append] at ha ⊢
      rw [List.append_assoc]
      exact tokensFrom_border (fun run => border_of_last (ha z (by simp)) run b) [] a
  · have hborder := tokensFrom_border (border_of_next hb) [] a
    rwa [List.append_nil] at hborder

/-! ### Whitespace -/

/-- The token that is whitespace. -/
def ideographicSpace : Str := [0x3000]

/-- Tokens of a text of which only ideographic spaces have been dropped. -/
def Thinned (ts us : List Str) : Prop :=
  ts.Sublist us ∧ ts.filter (· ≠ ideographicSpace) = us.filter (· ≠ ideographicSpace)

theorem Thinned.refl (ts : List Str) : Thinned ts ts := ⟨List.Sublist.refl ts, rfl⟩

theorem Thinned.trans {ts us vs : List Str} (h : Thinned ts us) (h' : Thinned us vs) : Thinned ts vs :=
  ⟨h.1.trans h'.1, h.2.trans h'.2⟩

theorem Thinned.append {ts ts' us us' : List Str} (h : Thinned ts us) (h' : Thinned ts' us') :
    Thinned (ts ++ ts') (us ++ us') := by
  refine ⟨h.1.append h'.1, ?_⟩
  rw [List.filter_append, List.filter_append, h.2, h'.2]

private theorem isCjk_space {c : CodePoint} (hspace : Py.isspace c = true) (hcjk : isCjk c = true) : c = 0x3000 := by
  refine Fin.ext ?_
  show c.val = 0x3000
  simp only [Py.isspace, isCjk, Bool.or_eq_true, Bool.and_eq_true, decide_eq_true_eq, beq_iff_eq] at hspace hcjk
  omega

/-- Whitespace has ideographic spaces for tokens. -/
theorem thinned_space {gap : Str} (h : ∀ c ∈ gap, Py.isspace c = true) : Thinned [] (tokens table gap) := by
  induction gap with
  | nil => exact Thinned.refl []
  | cons c gap ih =>
    have hc : Py.isspace c = true := h c List.mem_cons_self
    have hword := table.space c hc
    have hrest := ih fun d hd => h d (List.mem_cons_of_mem _ hd)
    rw [tokens, tokensFrom, if_neg (by simp), if_pos (rfl : ([] : Str) = []), List.nil_append]
    by_cases hcjk : isCjk c = true
    · rw [if_pos hcjk]
      have hone : Thinned [] [[c]] := by
        rw [isCjk_space hc hcjk]
        exact ⟨List.nil_sublist _, rfl⟩
      exact hone.append hrest
    · rw [if_neg hcjk, if_neg (by simp [hword]), if_pos hc]
      exact hrest

theorem tokens_space {gap : Str} (h : ∀ c ∈ gap, Py.isspace c = true ∧ isCjk c = false) : tokens table gap = [] := by
  induction gap with
  | nil => rfl
  | cons c gap ih =>
    obtain ⟨hspace, hcjk⟩ := h c List.mem_cons_self
    rw [tokens, tokensFrom, if_neg (by simp), if_pos (rfl : ([] : Str) = []), List.nil_append, if_neg (by simp [hcjk]),
      if_neg (by simp [table.space c hspace]), if_pos hspace]
    exact ih fun d hd => h d (List.mem_cons_of_mem _ hd)

/-- A gap of whitespace is a border on both sides, unless it is empty and in the middle of a word run. -/
theorem thinned_gap {a gap b : Str} (hgap : ∀ c ∈ gap, Py.isspace c = true)
    (hborder : gap ≠ [] ∨ ∀ c ∈ a.getLast?, table.word c = false) :
    Thinned (tokens table a ++ tokens table b) (tokens table (a ++ (gap ++ b))) := by
  have hlast : ∀ c ∈ gap.getLast?, table.word c = false := fun c hc =>
    table.space c (hgap c (List.mem_of_getLast? hc))
  have hfirst : (∀ c ∈ a.getLast?, table.word c = false) ∨ ∀ c ∈ (gap ++ b).head?, table.word c = false := by
    rcases hborder with hne | ha
    · obtain ⟨c, cs, rfl⟩ := List.exists_cons_of_ne_nil hne
      refine Or.inr fun d hd => ?_
      obtain rfl := Option.some.inj hd
      exact table.space c (hgap c List.mem_cons_self)
    · exact Or.inl ha
  rw [tokens_append hfirst, tokens_append (Or.inl hlast)]
  exact (Thinned.refl _).append ((thinned_space hgap).append (Thinned.refl _))

variable (table) in
/-- The run that a text is in the middle of is in a token. -/
private theorem mem_tokensFrom {run : Str} (hrun : run ≠ []) (text : Str) :
    ∃ t ∈ tokensFrom table run text, run <+: t := by
  induction text generalizing run with
  | nil =>
    rw [tokensFrom, if_neg hrun]
    exact ⟨run, List.mem_singleton_self run, List.prefix_rfl⟩
  | cons c text ih =>
    rw [tokensFrom]
    split
    · obtain ⟨t, ht, hrun⟩ := ih (List.append_ne_nil_of_right_ne_nil run (List.cons_ne_nil c []))
      exact ⟨t, ht, (List.prefix_append run [c]).trans hrun⟩
    · exact ⟨run, List.mem_append_left _ (List.mem_singleton_self run), List.prefix_rfl⟩

variable (table) in
/-- A text that begins with no whitespace has a token that is no ideographic space. -/
theorem exists_token {c : CodePoint} (hspace : Py.isspace c = false) (text : Str) :
    ∃ t ∈ tokens table (c :: text), t ≠ ideographicSpace := by
  have hne : ∀ t : Str, c ∈ t → t ≠ ideographicSpace := by
    rintro t hc rfl
    rw [List.mem_singleton.1 hc] at hspace
    revert hspace
    decide
  rw [tokens, tokensFrom, if_neg (by simp), if_pos (rfl : ([] : Str) = []), List.nil_append]
  split
  · exact ⟨[c], List.mem_cons_self, hne _ (List.mem_singleton_self c)⟩
  · split
    · obtain ⟨t, ht, hrun⟩ := mem_tokensFrom table (List.cons_ne_nil c []) text
      exact ⟨t, ht, hne t (hrun.subset (List.mem_singleton_self c))⟩
    · rw [if_neg (by simp [hspace])]
      exact ⟨[c], List.mem_cons_self, hne _ (List.mem_singleton_self c)⟩

variable (table) in
theorem thinned_strip (text : Str) : Thinned (tokens table (Py.strip text)) (tokens table text) := by
  have hfront : Thinned (tokens table [] ++ tokens table (text.dropWhile Py.isspace))
      (tokens table ([] ++ (text.takeWhile Py.isspace ++ text.dropWhile Py.isspace))) :=
    thinned_gap (fun c hc => List.mem_takeWhile_imp hc) (Or.inr (by simp))
  have hback : Thinned (tokens table (Py.strip text)) (tokens table (text.dropWhile Py.isspace)) := by
    have hsplit : Py.strip text ++ (text.dropWhile Py.isspace).rtakeWhile Py.isspace = text.dropWhile Py.isspace :=
      List.rdropWhile_append_rtakeWhile
    by_cases hnil : (text.dropWhile Py.isspace).rtakeWhile Py.isspace = []
    · rw [hnil, List.append_nil] at hsplit
      rw [hsplit]
      exact Thinned.refl _
    · have hgap : Thinned (tokens table (Py.strip text) ++ tokens table [])
          (tokens table (Py.strip text ++ ((text.dropWhile Py.isspace).rtakeWhile Py.isspace ++ []))) :=
        thinned_gap (fun c hc => List.mem_rtakeWhile_imp hc) (Or.inl hnil)
      rw [List.append_nil, hsplit] at hgap
      exact (List.append_nil (tokens table (Py.strip text))) ▸ hgap
  rw [List.nil_append, List.takeWhile_append_dropWhile] at hfront
  exact hback.trans hfront

/-- Pieces of a text with gaps of whitespace between them; a gap may be empty behind a piece that does not end in the
middle of a word. -/
inductive Pieces (table : WordTable) : List Str → Str → Prop where
  | last (piece : Str) : Pieces table [piece] piece
  | cons {piece gap text : Str} {pieces : List Str} (hgap : ∀ c ∈ gap, Py.isspace c = true)
      (hborder : gap ≠ [] ∨ ∀ c ∈ piece.getLast?, table.word c = false) :
      Pieces table pieces text → Pieces table (piece :: pieces) (piece ++ (gap ++ text))

/-- Only ideographic spaces lie between the pieces. -/
theorem Pieces.thinned {pieces : List Str} {text : Str} (h : Pieces table pieces text) :
    Thinned (pieces.flatMap (tokens table)) (tokens table text) := by
  induction h with
  | last piece =>
    rw [List.flatMap_singleton]
    exact Thinned.refl _
  | cons hgap hborder _ ih =>
    rw [List.flatMap_cons]
    exact ((Thinned.refl _).append ih).trans (thinned_gap hgap hborder)

theorem thinned_flatMap {ps : List Str} {f : Str → List Str}
    (h : ∀ p ∈ ps, Thinned ((f p).flatMap (tokens table)) (tokens table p)) :
    Thinned ((ps.flatMap f).flatMap (tokens table)) (ps.flatMap (tokens table)) := by
  induction ps with
  | nil => exact Thinned.refl _
  | cons p ps ih =>
    rw [List.flatMap_cons, List.flatMap_append, List.flatMap_cons]
    exact (h p List.mem_cons_self).append (ih fun q hq => h q (List.mem_cons_of_mem _ hq))

/-- Text that is joined with blanks or newlines keeps its tokens. -/
theorem tokens_intercalate {sep : Str} (hne : sep ≠ []) (hsep : ∀ c ∈ sep, Py.isspace c = true ∧ isCjk c = false)
    (parts : List Str) : tokens table (sep.intercalate parts) = parts.flatMap (tokens table) := by
  induction parts with
  | nil => rfl
  | cons a parts ih =>
    cases parts with
    | nil =>
      have hone : sep.intercalate [a] = a := by simp [List.intercalate]
      rw [hone, List.flatMap_singleton]
    | cons b parts =>
      have hcons : sep.intercalate (a :: b :: parts) = a ++ (sep ++ sep.intercalate (b :: parts)) := rfl
      have hfirst : ∀ c ∈ (sep ++ sep.intercalate (b :: parts)).head?, table.word c = false := by
        obtain ⟨c, cs, rfl⟩ := List.exists_cons_of_ne_nil hne
        rintro d ⟨⟩
        exact table.space c (hsep c List.mem_cons_self).1
      have hlast : ∀ c ∈ sep.getLast?, table.word c = false := fun c hc =>
        table.space c (hsep c (List.mem_of_getLast? hc)).1
      rw [hcons, tokens_append (Or.inr hfirst), tokens_append (Or.inl hlast), tokens_space hsep, List.nil_append, ih]
      rfl

/-! ### Text without whitespace -/

/-- Tokens in a row: behind a word run no word character comes next. -/
inductive Row (table : WordTable) : List Str → Prop where
  | nil : Row table []
  | sign {c : CodePoint} {ts : List Str} (h : isCjk c = true ∨ table.word c = false ∧ Py.isspace c = false) :
      Row table ts → Row table ([c] :: ts)
  | run {c : CodePoint} {cs : Str} {ts : List Str} (hc : isCjk c = false) (h : ∀ d ∈ c :: cs, table.word d = true)
      (hnext : ∀ d ∈ ts.flatten.head?, table.word d = false) : Row table ts → Row table ((c :: cs) :: ts)

private theorem tokensFrom_word {word : Str} (h : ∀ c ∈ word, table.word c = true) {run : Str} (hrun : run ≠ [])
    (rest : Str) : tokensFrom table run (word ++ rest) = tokensFrom table (run ++ word) rest := by
  induction word generalizing run with
  | nil => rw [List.nil_append, List.append_nil]
  | cons c word ih =>
    rw [List.cons_append, tokensFrom, if_pos ⟨hrun, h c List.mem_cons_self⟩,
      ih (fun d hd => h d (List.mem_cons_of_mem _ hd)) (by simp), List.append_assoc, List.singleton_append]

/-- Tokens in a row are the tokens of their concatenation. -/
theorem tokens_flatten {ts : List Str} (h : Row table ts) : tokens table ts.flatten = ts := by
  induction h with
  | nil => rfl
  | @sign c ts hsign _ ih =>
    rw [List.flatten_cons, List.singleton_append, tokens, tokensFrom, if_neg (by simp), if_pos (rfl : ([] : Str) = []),
      List.nil_append]
    rcases hsign with hcjk | ⟨hword, hspace⟩
    · rw [if_pos hcjk]
      exact congrArg _ ih
    · by_cases hcjk : isCjk c = true
      · rw [if_pos hcjk]
        exact congrArg _ ih
      · rw [if_neg hcjk, if_neg (by simp [hword]), if_neg (by simp [hspace])]
        exact congrArg _ ih
  | @run c cs ts hc hall hnext _ ih =>
    have hcjk : ¬ isCjk c = true := by simp [hc]
    have hends := border_of_next hnext (c :: cs)
    rw [List.nil_append] at hends
    rw [List.flatten_cons, List.cons_append, tokens, tokensFrom, if_neg (by simp), if_pos (rfl : ([] : Str) = []),
      List.nil_append, if_neg hcjk, if_pos (hall c List.mem_cons_self),
      tokensFrom_word (fun d hd => hall d (List.mem_cons_of_mem _ hd)) (List.cons_ne_nil _ _), List.singleton_append,
      hends, tokensFrom, if_neg (List.cons_ne_nil _ _), ih]
    rfl

theorem Row.of_append {ts us : List Str} (h : Row table (ts ++ us)) : Row table ts ∧ Row table us := by
  induction ts with
  | nil => exact ⟨Row.nil, h⟩
  | cons t ts ih =>
    cases h with
    | sign hsign hrest => exact ⟨Row.sign hsign (ih hrest).1, (ih hrest).2⟩
    | run hc hall hnext hrest =>
      refine ⟨Row.run hc hall (fun d hd => hnext d ?_) (ih hrest).1, (ih hrest).2⟩
      have hflatten : (ts ++ us).flatten.head? = some d := by
        rw [List.flatten_append, List.head?_append, hd]
        rfl
      exact hflatten

private theorem row_tokensFrom {text : Str} (h : ∀ c ∈ text, Py.isspace c = false) {run : Str}
    (hrun : run = [] ∨ ∃ c cs, run = c :: cs ∧ isCjk c = false ∧ ∀ d ∈ c :: cs, table.word d = true) :
    Row table (tokensFrom table run text) ∧ (tokensFrom table run text).flatten = run ++ text := by
  induction text generalizing run with
  | nil =>
    rw [tokensFrom, List.append_nil]
    rcases hrun with rfl | ⟨c, cs, rfl, hc, hall⟩
    · exact ⟨Row.nil, rfl⟩
    · rw [if_neg (List.cons_ne_nil c cs)]
      exact ⟨Row.run hc hall (by simp) Row.nil, by simp⟩
  | cons c text ih =>
    have htext : ∀ d ∈ text, Py.isspace d = false := fun d hd => h d (List.mem_cons_of_mem _ hd)
    have hspace := h c List.mem_cons_self
    rw [tokensFrom]
    split
    · rename_i hgoes
      obtain ⟨d, ds, rfl, hd, hall⟩ := hrun.resolve_left hgoes.1
      have hlonger : ∀ e ∈ d :: (ds ++ [c]), table.word e = true := by
        rw [← List.cons_append, List.forall_mem_append, List.forall_mem_singleton]
        exact ⟨hall, hgoes.2⟩
      obtain ⟨hrow, hflatten⟩ := ih htext (Or.inr ⟨d, ds ++ [c], rfl, hd, hlonger⟩)
      exact ⟨hrow, hflatten.trans (List.append_assoc (d :: ds) [c] text)⟩
    · rename_i hends
      have hnil := ih htext (Or.inl rfl)
      -- what the next code point begins
      have hrest : Row table (if isCjk c then [c] :: tokensFrom table [] text
            else if table.word c then tokensFrom table [c] text
            else if Py.isspace c then tokensFrom table [] text else [c] :: tokensFrom table [] text) ∧
          (if isCjk c then [c] :: tokensFrom table [] text
            else if table.word c then tokensFrom table [c] text
            else if Py.isspace c then tokensFrom table [] text else [c] :: tokensFrom table [] text).flatten =
            c :: text := by
        split
        · rename_i hcjk
          exact ⟨Row.sign (Or.inl hcjk) hnil.1, by rw [List.flatten_cons, hnil.2]; rfl⟩
        · rename_i hcjk
          split
          · rename_i hword
            exact ih htext (Or.inr ⟨c, [], rfl, by simpa using hcjk, by simpa using hword⟩)
          · rename_i hword
            rw [if_neg (by simp [hspace])]
            exact ⟨Row.sign (Or.inr ⟨by simpa using hword, hspace⟩) hnil.1, by rw [List.flatten_cons, hnil.2]; rfl⟩
      rcases hrun with rfl | ⟨d, ds, rfl, hd, hall⟩
      · exact hrest
      · have hword : table.word c = false := by simpa using hends
        rw [if_neg (List.cons_ne_nil d ds), List.singleton_append]
        refine ⟨Row.run hd hall ?_ hrest.1, by rw [List.flatten_cons, hrest.2]⟩
        rw [hrest.2]
        rintro e ⟨⟩
        exact hword

/-- The tokens of a text without whitespace are in a row, and the text is their concatenation. -/
theorem row_tokens {text : Str} (h : ∀ c ∈ text, Py.isspace c = false) :
    Row table (tokens table text) ∧ (tokens table text).flatten = text :=
  row_tokensFrom h (Or.inl rfl)

end AgentOS
