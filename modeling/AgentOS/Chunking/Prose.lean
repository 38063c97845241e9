import AgentOS.Chunking.Tokens
import AgentOS.Lib.Windows
import Mathlib.Algebra.GroupWithZero.Nat

/-!
# Chunks of prose

`chunk_prose` cuts a text into segments, paragraphs where these fit the budget, else sentences, else stretches of words
or of tokens, and packs the segments into chunks that overlap.

* `segments_fits`: of the tokens of the text the segments lose only ideographic spaces, and none exceeds the budget.
* `chunk_prose_windows`: the chunks are windows on the segments.
* `chunkProse_ended`: no chunk is empty or ends in whitespace.
-/

namespace AgentOS

open Py Windows

variable (table : WordTable)

/-! ### Segments -/

/-- `[tokens[i : i + n] for i in range(0, len(tokens), n)]`, in the middle of the slice `current`; `n` is positive. -/
def slicesOf (n : Nat) : List Str → List Str → List (List Str)
  | current, [] => if current = [] then [] else [current]
  | current, t :: ts => if current.length = n then current :: slicesOf n [t] ts else slicesOf n (current ++ [t]) ts

/-- `_char_split`. -/
def charSplit (target : Nat) (text : Str) : List Str := (slicesOf target [] (tokens table text)).map List.flatten

/-- `text.split()`, in the middle of the word `word`. -/
def splitWords : Str → Str → List Str
  | word, [] => if word = [] then [] else [word]
  | word, c :: cs =>
    if Py.isspace c then (if word = [] then [] else [word]) ++ splitWords [] cs else splitWords (word ++ [c]) cs

/-- The variables of `_hard_split`. -/
structure HardSplit where
  slices : List Str
  current : List Str
  currentTokens : Nat

/-- `slices.append(" ".join(current))` where there is anything. -/
def HardSplit.flush (s : HardSplit) : List Str :=
  if s.current = [] then s.slices else s.slices ++ [(lit " ").intercalate s.current]

/-- The loop of `_hard_split` on one word. -/
def HardSplit.step (target : Nat) (s : HardSplit) (word : Str) : HardSplit :=
  let wt := estimateTokens table word
  if target < wt then ⟨s.flush ++ charSplit table target word, [], 0⟩
  else if s.current ≠ [] ∧ target < s.currentTokens + wt then ⟨s.flush, [word], wt⟩
  else ⟨s.slices, s.current ++ [word], s.currentTokens + wt⟩

/-- `_hard_split`. -/
def hardSplit (target : Nat) (text : Str) : List Str :=
  let words := splitWords [] text
  if words.length ≤ 1 then charSplit table target text
  else (words.foldl (HardSplit.step table target) ⟨[], [], 0⟩).flush

/-- `_PARAGRAPH_RE.split`, in the middle of the paragraph `para`, with `skip` more code points of the last match. -/
def paragraphs : Nat → Str → Str → List Str
  | _, para, [] => [para]
  | skip + 1, para, _ :: cs => paragraphs skip para cs
  | 0, para, c :: cs =>
    let gap := (cs.takeWhile Py.isspace).rdropWhile (· ≠ code '\n')
    if c = code '\n' ∧ gap ≠ [] then para :: paragraphs gap.length [] cs else paragraphs 0 (para ++ [c]) cs

/-- What ends a sentence. -/
def terminators : Str := [0x2E, 0x21, 0x3F, 0x3002, 0xFF01, 0xFF1F, 0x2026]

/-- `_SENTENCE_RE.split`, in the middle of the sentence `sentence`, with `skip` more code points of the last match. -/
def sentences : Nat → Str → Str → List Str
  | _, sentence, [] => [sentence]
  | skip + 1, sentence, _ :: cs => sentences skip sentence cs
  | 0, sentence, c :: cs =>
    if c ∈ terminators then (sentence ++ [c]) :: sentences (cs.takeWhile Py.isspace).length [] cs
    else sentences 0 (sentence ++ [c]) cs

/-- A piece, where it is not blank, as it is or cut by `split` if it exceeds the budget. -/
def fitPiece (target : Nat) (split : Str → List Str) (piece : Str) : List Str :=
  let piece := Py.strip piece
  if piece = [] then []
  else if estimateTokens table piece ≤ target then [piece]
  else split piece

/-- `_segments`. -/
def segments (target : Nat) (text : Str) : List Str :=
  (paragraphs 0 [] text).flatMap (fitPiece table target fun para =>
    (sentences 0 [] para).flatMap (fitPiece table target (hardSplit table target)))

/-! ### Packing -/

/-- `sum(estimate_tokens(s) for s in segs)`. -/
def totalTokens (segs : List Str) : Nat := (segs.map (estimateTokens table)).sum

/-- The loop of `flush` over the segments of the chunk, the last one first. -/
def overlapSeed (ov : Nat) : List Str → List Str → Nat → List Str
  | [], seed, _ => seed
  | seg :: rest, seed, seedTokens =>
    let segTokens := estimateTokens table seg
    if seed ≠ [] ∧ ov < seedTokens + segTokens then seed
    else if seed = [] ∧ ov < segTokens then seed
    else if ov ≤ seedTokens + segTokens then seg :: seed
    else overlapSeed ov rest (seg :: seed) (seedTokens + segTokens)

/-- The overlap that `flush` returns. -/
def flushSeed (ov : Nat) (current : List Str) : List Str :=
  if ov ≤ 0 then []
  else
    let seed := overlapSeed table ov current.reverse [] 0
    if current.length ≤ seed.length then [] else seed

/-- The overlap without the leading segments that leave no room for the next one. -/
def trimSeed (target segTokens : Nat) : List Str → List Str
  | [] => []
  | s :: seed => if target < totalTokens table (s :: seed) + segTokens then trimSeed target segTokens seed else s :: seed

/-- The variables of `chunk_prose`. -/
structure Packing where
  chunks : List Str
  current : List Str
  currentTokens : Nat

/-- The loop of `chunk_prose` on one segment. -/
def Packing.step (target ov : Nat) (p : Packing) (seg : Str) : Packing :=
  let segTokens := estimateTokens table seg
  if p.current ≠ [] ∧ target < p.currentTokens + segTokens then
    let seed := trimSeed table target segTokens (flushSeed table ov p.current)
    ⟨p.chunks ++ [(lit " ").intercalate p.current], seed ++ [seg], totalTokens table seed + segTokens⟩
  else ⟨p.chunks, p.current ++ [seg], p.currentTokens + segTokens⟩

/-- `chunk_prose`, with the overlap `ov` in tokens. -/
def chunkProse (target ov : Nat) (text : Str) : List Str :=
  let text := Py.strip text
  if text = [] then []
  else
    let p := (segments table target text).foldl (Packing.step table target ov) ⟨[], [], 0⟩
    if p.current = [] then p.chunks else p.chunks ++ [(lit " ").intercalate p.current]

/-! ### How the segments end -/

variable {table} {target : Nat}

/-- Text that is not empty and does not end in whitespace. -/
def Ended (text : Str) : Prop := ∃ c ∈ text.getLast?, Py.isspace c = false

private theorem Ended.of_notSpace {text : Str} (hne : text ≠ []) (h : ∀ c ∈ text, Py.isspace c = false) : Ended text :=
  ⟨_, List.getLast?_eq_some_getLast hne, h _ (List.getLast_mem hne)⟩

private theorem Ended.strip {text : Str} (hne : Py.strip text ≠ []) : Ended (Py.strip text) :=
  ⟨_, List.getLast?_eq_some_getLast hne, (strip_ends text).2 _ (List.getLast?_eq_some_getLast hne)⟩

private theorem Ended.join {parts : List Str} (hne : parts ≠ []) (h : ∀ part ∈ parts, Ended part) :
    Ended ((lit " ").intercalate parts) := by
  induction parts with
  | nil => exact absurd rfl hne
  | cons a parts ih =>
    cases parts with
    | nil =>
      have hone : (lit " ").intercalate [a] = a := by simp [List.intercalate]
      rw [hone]
      exact h a List.mem_cons_self
    | cons b parts =>
      have hcons : (lit " ").intercalate (a :: b :: parts) = a ++ lit " " ++ (lit " ").intercalate (b :: parts) :=
        (List.append_assoc _ _ _).symm
      obtain ⟨c, hc, hspace⟩ := ih (List.cons_ne_nil b parts) fun part hpart => h part (List.mem_cons_of_mem _ hpart)
      refine ⟨c, ?_, hspace⟩
      rw [hcons, List.getLast?_append, hc]
      rfl

/-- A segment that fits the budget. -/
structure Segment (table : WordTable) (target : Nat) (seg : Str) : Prop where
  bounded : estimateTokens table seg ≤ target
  ended : Ended seg

/-! ### What the segments keep -/

theorem tokens_join (parts : List Str) :
    tokens table ((lit " ").intercalate parts) = parts.flatMap (tokens table) := by
  have hspace : Py.isspace (code ' ') = true ∧ isCjk (code ' ') = false := by decide
  exact tokens_intercalate (by decide) (fun c hc => List.mem_singleton.1 hc ▸ hspace) parts

private theorem slicesOf_flatten (n : Nat) (current ts : List Str) :
    (slicesOf n current ts).flatten = current ++ ts := by
  induction ts generalizing current with
  | nil =>
    rw [slicesOf, List.append_nil]
    split
    · rename_i hnil
      rw [hnil]
      rfl
    · exact List.append_nil current
  | cons t ts ih =>
    rw [slicesOf]
    split
    · rw [List.flatten_cons, ih]
      rfl
    · rw [ih, List.append_assoc, List.singleton_append]

private theorem slicesOf_length {n : Nat} (hn : 0 < n) {current : List Str} (hle : current.length ≤ n) (ts : List Str) :
    ∀ slice ∈ slicesOf n current ts, slice.length ≤ n := by
  induction ts generalizing current with
  | nil =>
    rw [slicesOf]
    split
    · exact fun slice hslice => absurd hslice List.not_mem_nil
    · exact fun slice hslice => List.mem_singleton.1 hslice ▸ hle
  | cons t ts ih =>
    rw [slicesOf]
    split
    · exact List.forall_mem_cons.2 ⟨hle, ih hn⟩
    · exact ih (by rw [List.length_append, List.length_singleton]; omega)

private theorem slicesOf_ne_nil {n : Nat} (hn : 0 < n) (current ts : List Str) :
    ∀ slice ∈ slicesOf n current ts, slice ≠ [] := by
  induction ts generalizing current with
  | nil =>
    rw [slicesOf]
    split
    · exact fun slice hslice => absurd hslice List.not_mem_nil
    · rename_i hne
      exact fun slice hslice => List.mem_singleton.1 hslice ▸ hne
  | cons t ts ih =>
    rw [slicesOf]
    split
    · rename_i hlength
      refine List.forall_mem_cons.2 ⟨?_, ih [t]⟩
      rintro rfl
      exact absurd hlength hn.ne
    · exact ih _

private theorem row_of_mem_flatten {slices : List (List Str)} (h : Row table slices.flatten) :
    ∀ slice ∈ slices, Row table slice := by
  induction slices with
  | nil => exact fun slice hslice => absurd hslice List.not_mem_nil
  | cons s slices ih =>
    obtain ⟨hs, hrest⟩ := Row.of_append h
    exact List.forall_mem_cons.2 ⟨hs, ih hrest⟩

private theorem Row.ne_nil {ts : List Str} (h : Row table ts) : ∀ t ∈ ts, t ≠ [] := by
  induction h with
  | nil => exact fun t ht => absurd ht List.not_mem_nil
  | sign _ _ ih => exact List.forall_mem_cons.2 ⟨List.cons_ne_nil _ _, ih⟩
  | run _ _ _ _ ih => exact List.forall_mem_cons.2 ⟨List.cons_ne_nil _ _, ih⟩

variable (table) in
/-- The pieces of a text without whitespace are stretches of its tokens. -/
private theorem charSplit_spec (htarget : 0 < target) {text : Str} (h : ∀ c ∈ text, Py.isspace c = false) :
    (charSplit table target text).flatMap (tokens table) = tokens table text ∧
      ∀ piece ∈ charSplit table target text, Segment table target piece := by
  have hflatten := slicesOf_flatten target [] (tokens table text)
  rw [List.nil_append] at hflatten
  have hrow := row_of_mem_flatten (hflatten.symm ▸ (row_tokens h).1)
  constructor
  · have hmap : (slicesOf target [] (tokens table text)).map (tokens table ∘ List.flatten) =
        (slicesOf target [] (tokens table text)).map id :=
      List.map_congr_left fun slice hslice => tokens_flatten (hrow slice hslice)
    rw [charSplit, List.flatMap_def, List.map_map, hmap, List.map_id, hflatten]
  · intro piece hpiece
    obtain ⟨slice, hslice, rfl⟩ := List.mem_map.1 hpiece
    have hmem : ∀ t ∈ slice, t ∈ tokens table text := fun t ht =>
      hflatten ▸ List.mem_flatten.2 ⟨slice, hslice, ht⟩
    refine ⟨?_, Ended.of_notSpace ?_ ?_⟩
    · rw [estimateTokens, tokens_flatten (hrow slice hslice)]
      exact slicesOf_length htarget (Nat.zero_le _) _ slice hslice
    · obtain ⟨t, ts, rfl⟩ := List.exists_cons_of_ne_nil (slicesOf_ne_nil htarget _ _ slice hslice)
      exact List.append_ne_nil_of_left_ne_nil ((hrow _ hslice).ne_nil t List.mem_cons_self) _
    · intro c hc
      obtain ⟨t, ht, hct⟩ := List.mem_flatten.1 hc
      exact h c ((row_tokens h).2 ▸ List.mem_flatten.2 ⟨t, hmem t ht, hct⟩)

variable (table) in
/-- A word that has ended. -/
private theorem endedWord_spec {word : Str} (hword : ∀ c ∈ word, Py.isspace c = false) :
    (∀ w ∈ (if word = [] then [] else [word] : List Str), w ≠ [] ∧ ∀ c ∈ w, Py.isspace c = false) ∧
      (if word = [] then [] else [word] : List Str).flatMap (tokens table) = tokens table word := by
  split
  · rename_i hnil
    exact ⟨fun w hw => absurd hw List.not_mem_nil, hnil ▸ rfl⟩
  · rename_i hne
    exact ⟨fun w hw => List.mem_singleton.1 hw ▸ ⟨hne, hword⟩, List.flatMap_singleton _ _⟩

variable (table) in
/-- The words are not empty and hold no whitespace, and only ideographic spaces lie between them. -/
private theorem splitWords_spec {word : Str} (hword : ∀ c ∈ word, Py.isspace c = false) (text : Str) :
    (∀ w ∈ splitWords word text, w ≠ [] ∧ ∀ c ∈ w, Py.isspace c = false) ∧
      Thinned ((splitWords word text).flatMap (tokens table)) (tokens table (word ++ text)) := by
  induction text generalizing word with
  | nil =>
    obtain ⟨hended, htokens⟩ := endedWord_spec table hword
    rw [splitWords, List.append_nil, htokens]
    exact ⟨hended, Thinned.refl _⟩
  | cons c text ih =>
    rw [splitWords]
    split
    · rename_i hspace
      obtain ⟨hended, htokens⟩ := endedWord_spec table hword
      have hnil : ∀ d ∈ ([] : Str), Py.isspace d = false := fun d hd => absurd hd List.not_mem_nil
      obtain ⟨hwords, hthinned⟩ := ih hnil
      have hgap : Thinned (tokens table word ++ tokens table text) (tokens table (word ++ ([c] ++ text))) :=
        thinned_gap (fun d hd => List.mem_singleton.1 hd ▸ hspace) (Or.inl (List.cons_ne_nil _ _))
      rw [List.forall_mem_append, List.flatMap_append, htokens]
      exact ⟨⟨hended, hwords⟩, ((Thinned.refl _).append hthinned).trans hgap⟩
    · rename_i hspace
      have hlonger : ∀ d ∈ word ++ [c], Py.isspace d = false := by
        rw [List.forall_mem_append, List.forall_mem_singleton]
        exact ⟨hword, by simpa using hspace⟩
      have hih := ih hlonger
      rwa [List.append_assoc, List.singleton_append] at hih

private theorem splitWords_ne_nil {word text : Str} (h : word ≠ [] ∨ ∃ c ∈ text, Py.isspace c = false) :
    splitWords word text ≠ [] := by
  induction text generalizing word with
  | nil =>
    rw [splitWords]
    rcases h with hne | ⟨c, hc, -⟩
    · rw [if_neg hne]
      exact List.cons_ne_nil _ _
    · exact absurd hc List.not_mem_nil
  | cons c text ih =>
    rw [splitWords]
    split
    · rename_i hspace
      rcases h with hne | ⟨d, hd, hdspace⟩
      · rw [if_neg hne]
        exact List.cons_ne_nil _ _
      · refine List.append_ne_nil_of_right_ne_nil _ (ih (Or.inr ⟨d, ?_, hdspace⟩))
        rcases List.mem_cons.1 hd with rfl | hd
        · rw [hspace] at hdspace
          cases hdspace
        · exact hd
    · exact ih (Or.inl (by simp))

/-- Stripped text of one word has no whitespace. -/
private theorem space_of_oneWord {word text : Str} (hne : word ≠ []) (hlast : ∀ c ∈ text.getLast?, Py.isspace c = false)
    (hone : (splitWords word text).length ≤ 1) : ∀ c ∈ text, Py.isspace c = false := by
  induction text generalizing word with
  | nil => exact fun c hc => absurd hc List.not_mem_nil
  | cons c text ih =>
    rw [splitWords] at hone
    split at hone
    · rename_i hspace
      rw [List.length_append, List.length_singleton] at hone
      have hrest : splitWords [] text ≠ [] := by
        refine splitWords_ne_nil (Or.inr ?_)
        cases text with
        | nil => exact absurd (hlast c rfl) (by rw [hspace]; decide)
        | cons d text =>
          have hmem := List.getLast?_eq_some_getLast (List.cons_ne_nil d text)
          exact ⟨_, List.getLast_mem _, hlast _ (by rw [List.getLast?_cons_cons]; exact hmem)⟩
      exact absurd (List.length_pos_iff.2 hrest) (by omega)
    · rename_i hspace
      refine List.forall_mem_cons.2 ⟨by simpa using hspace, ih (by simp) (fun d hd => hlast d ?_) hone⟩
      cases text with
      | nil => cases hd
      | cons e text => exact hd

/-- Segments that keep the tokens of a text, but for ideographic spaces. -/
structure Segmented (table : WordTable) (target : Nat) (segs : List Str) (text : Str) : Prop where
  thinned : Thinned (segs.flatMap (tokens table)) (tokens table text)
  segment : ∀ seg ∈ segs, Segment table target seg

private theorem flush_spec {s : HardSplit} (hslices : ∀ slice ∈ s.slices, Segment table target slice)
    (hended : ∀ word ∈ s.current, Ended word) (hcurrent : (s.current.flatMap (tokens table)).length ≤ target) :
    s.flush.flatMap (tokens table) = s.slices.flatMap (tokens table) ++ s.current.flatMap (tokens table) ∧
      ∀ slice ∈ s.flush, Segment table target slice := by
  rw [HardSplit.flush]
  split
  · rename_i hnil
    rw [hnil]
    exact ⟨(List.append_nil _).symm, hslices⟩
  · rename_i hne
    rw [List.flatMap_append, List.flatMap_singleton, tokens_join, List.forall_mem_append, List.forall_mem_singleton]
    refine ⟨rfl, hslices, ?_, Ended.join hne hended⟩
    rw [estimateTokens, tokens_join]
    exact hcurrent

/-- The loop of `_hard_split`. -/
private theorem hardSplit_loop (htarget : 0 < target) {words : List Str}
    (hwords : ∀ w ∈ words, w ≠ [] ∧ ∀ c ∈ w, Py.isspace c = false) {s : HardSplit}
    (hslices : ∀ slice ∈ s.slices, Segment table target slice) (hended : ∀ word ∈ s.current, Ended word)
    (hcurrent : (s.current.flatMap (tokens table)).length = s.currentTokens) (hle : s.currentTokens ≤ target) :
    (words.foldl (HardSplit.step table target) s).flush.flatMap (tokens table) =
        s.slices.flatMap (tokens table) ++ s.current.flatMap (tokens table) ++ words.flatMap (tokens table) ∧
      ∀ slice ∈ (words.foldl (HardSplit.step table target) s).flush, Segment table target slice := by
  induction words generalizing s with
  | nil =>
    rw [List.foldl_nil, List.flatMap_nil, List.append_nil]
    exact flush_spec hslices hended (by omega)
  | cons word words ih =>
    obtain ⟨hne, hspace⟩ := hwords word List.mem_cons_self
    have hword := Ended.of_notSpace hne hspace
    have hrest := fun w hw => hwords w (List.mem_cons_of_mem _ hw)
    obtain ⟨hflush, hflushed⟩ := flush_spec hslices hended (by omega)
    obtain ⟨hchars, hpieces⟩ := charSplit_spec table htarget hspace
    rw [List.foldl_cons, HardSplit.step]
    split
    · obtain ⟨htokens, hall⟩ := ih hrest (s := ⟨s.flush ++ charSplit table target word, [], 0⟩)
        (List.forall_mem_append.2 ⟨hflushed, hpieces⟩) (fun word hword => absurd hword List.not_mem_nil) rfl
        (Nat.zero_le _)
      refine ⟨htokens.trans ?_, hall⟩
      simp only [List.flatMap_append, List.flatMap_nil, List.flatMap_cons, hflush, hchars, List.append_nil,
        List.append_assoc]
    · rename_i hfits
      split
      · obtain ⟨htokens, hall⟩ := ih hrest (s := ⟨s.flush, [word], estimateTokens table word⟩) hflushed
          (List.forall_mem_singleton.2 hword) (congrArg List.length (List.flatMap_singleton _ _)) (Nat.not_lt.1 hfits)
        refine ⟨htokens.trans ?_, hall⟩
        simp only [hflush, List.flatMap_cons, List.flatMap_nil, List.append_nil, List.append_assoc]
      · rename_i hroom
        have hcurrent' : ((s.current ++ [word]).flatMap (tokens table)).length =
            s.currentTokens + estimateTokens table word := by
          rw [List.flatMap_append, List.flatMap_singleton, List.length_append, hcurrent]
          rfl
        have hle' : s.currentTokens + estimateTokens table word ≤ target := by
          by_cases hnil : s.current = []
          · rw [hnil] at hcurrent
            have : (0 : Nat) = s.currentTokens := hcurrent
            omega
          · exact Nat.not_lt.1 fun hlt => hroom ⟨hnil, hlt⟩
        obtain ⟨htokens, hall⟩ := ih hrest
          (s := ⟨s.slices, s.current ++ [word], s.currentTokens + estimateTokens table word⟩) hslices
          (List.forall_mem_append.2 ⟨hended, List.forall_mem_singleton.2 hword⟩) hcurrent' hle'
        refine ⟨htokens.trans ?_, hall⟩
        simp only [List.flatMap_append, List.flatMap_cons, List.flatMap_nil, List.append_nil, List.append_assoc]

/-- A sentence that is too long. -/
private theorem hardSplit_fits (htarget : 0 < target) {text : Str} (hhead : ∀ c ∈ text.head?, Py.isspace c = false)
    (hlast : ∀ c ∈ text.getLast?, Py.isspace c = false) :
    Segmented table target (hardSplit table target text) text := by
  have hnil : ∀ c ∈ ([] : Str), Py.isspace c = false := fun c hc => absurd hc List.not_mem_nil
  obtain ⟨hwords, hthinned⟩ := splitWords_spec table hnil text
  rw [hardSplit]
  split
  · rename_i hone
    have hspace : ∀ c ∈ text, Py.isspace c = false := by
      cases text with
      | nil => exact hnil
      | cons c text =>
        have hc := hhead c rfl
        rw [splitWords, if_neg (by simp [hc])] at hone
        refine List.forall_mem_cons.2 ⟨hc, space_of_oneWord (by simp) (fun d hd => hlast d ?_) hone⟩
        cases text with
        | nil => cases hd
        | cons e text => exact hd
    obtain ⟨htokens, hpieces⟩ := charSplit_spec table htarget hspace
    exact ⟨htokens ▸ Thinned.refl _, hpieces⟩
  · obtain ⟨htokens, hslices⟩ := hardSplit_loop htarget hwords (s := ⟨[], [], 0⟩)
      (fun slice hslice => absurd hslice List.not_mem_nil) (fun word hword => absurd hword List.not_mem_nil) rfl
      (Nat.zero_le _)
    exact ⟨htokens ▸ hthinned, hslices⟩

/-- A piece that fits is kept, another is split. -/
private theorem fitPiece_fits {split : Str → List Str} {piece : Str}
    (h : Segmented table target (split (Py.strip piece)) (Py.strip piece)) :
    Segmented table target (fitPiece table target split piece) piece := by
  have hstrip := thinned_strip table piece
  rw [fitPiece]
  split
  · rename_i hnil
    rw [hnil] at hstrip
    exact ⟨hstrip, fun seg hseg => absurd hseg List.not_mem_nil⟩
  · rename_i hne
    split
    · rename_i hle
      exact ⟨(List.flatMap_singleton _ _).symm ▸ hstrip,
        fun seg hseg => List.mem_singleton.1 hseg ▸ ⟨hle, Ended.strip hne⟩⟩
    · exact ⟨h.thinned.trans hstrip, h.segment⟩

private theorem pieces_fits {pieces : List Str} {text : Str} {f : Str → List Str} (hpieces : Pieces table pieces text)
    (h : ∀ piece ∈ pieces, Segmented table target (f piece) piece) :
    Segmented table target (pieces.flatMap f) text where
  thinned := (thinned_flatMap fun piece hpiece => (h piece hpiece).thinned).trans hpieces.thinned
  segment := by
    intro seg hseg
    obtain ⟨piece, hpiece, hmem⟩ := List.mem_flatMap.1 hseg
    exact (h piece hpiece).segment seg hmem

private theorem paragraphs_skip (skip : Nat) (para text : Str) :
    paragraphs skip para text = paragraphs 0 para (text.drop skip) := by
  induction skip generalizing text with
  | zero => rfl
  | succ skip ih =>
    cases text with
    | nil => rfl
    | cons c text => exact ih text

private theorem paragraphs_pieces (para text : Str) : Pieces table (paragraphs 0 para text) (para ++ text) := by
  induction hn : text.length using Nat.strongRecOn generalizing para text with
  | _ n ih =>
    cases text with
    | nil =>
      rw [paragraphs, List.append_nil]
      exact Pieces.last para
    | cons c text =>
      rw [paragraphs]
      split
      · rename_i hgap
        generalize hrun : (text.takeWhile Py.isspace).rdropWhile (· ≠ code '\n') = gap at hgap ⊢
        have hstem : gap <+: text.takeWhile Py.isspace := hrun ▸ List.rdropWhile_prefix _ _
        obtain ⟨rest, rfl⟩ := hstem.trans (List.takeWhile_prefix _)
        have hspace : ∀ d ∈ c :: gap, Py.isspace d = true := by
          refine List.forall_mem_cons.2 ⟨hgap.1 ▸ by decide, fun d hd => ?_⟩
          exact List.mem_takeWhile_imp (hstem.subset hd)
        have hlength : rest.length < n := by
          rw [← hn, List.length_cons, List.length_append]
          omega
        have hih := ih rest.length hlength [] rest rfl
        rw [paragraphs_skip, List.drop_left]
        exact Pieces.cons hspace (Or.inl (List.cons_ne_nil _ _)) hih
      · have hih := ih text.length (by rw [← hn]; exact Nat.lt_succ_self _) (para ++ [c]) text rfl
        rwa [List.append_assoc, List.singleton_append] at hih

private theorem sentences_skip (skip : Nat) (sentence text : Str) :
    sentences skip sentence text = sentences 0 sentence (text.drop skip) := by
  induction skip generalizing text with
  | zero => rfl
  | succ skip ih =>
    cases text with
    | nil => rfl
    | cons c text => exact ih text

private theorem terminator_mark {c : CodePoint} (h : c ∈ terminators) : table.word c = false := by
  refine table.mark c ?_
  have hmarks : marks = terminators ++ [0x3A] := rfl
  rw [hmarks]
  exact List.mem_append_left _ h

private theorem sentences_pieces (sentence text : Str) :
    Pieces table (sentences 0 sentence text) (sentence ++ text) := by
  induction hn : text.length using Nat.strongRecOn generalizing sentence text with
  | _ n ih =>
    cases text with
    | nil =>
      rw [sentences, List.append_nil]
      exact Pieces.last sentence
    | cons c text =>
      rw [sentences]
      split
      · rename_i hend
        have hlength : (text.dropWhile Py.isspace).length < n := by
          have := (List.dropWhile_suffix Py.isspace (l := text)).length_le
          rw [← hn, List.length_cons]
          omega
        have hih := ih _ hlength [] (text.dropWhile Py.isspace) rfl
        have hlast : ∀ d ∈ (sentence ++ [c]).getLast?, table.word d = false := by
          intro d hd
          rw [List.getLast?_concat] at hd
          obtain rfl := Option.some.inj hd
          exact terminator_mark hend
        have hsplit : sentence ++ c :: text =
            (sentence ++ [c]) ++ (text.takeWhile Py.isspace ++ text.dropWhile Py.isspace) := by
          rw [List.takeWhile_append_dropWhile, List.append_assoc, List.singleton_append]
        have hdrop : (text.takeWhile Py.isspace ++ text.dropWhile Py.isspace).drop (text.takeWhile Py.isspace).length =
            text.dropWhile Py.isspace := List.drop_left
        rw [List.takeWhile_append_dropWhile] at hdrop
        rw [sentences_skip, hdrop, hsplit]
        exact Pieces.cons (fun d hd => List.mem_takeWhile_imp hd) (Or.inr hlast) hih
      · have hih := ih text.length (by rw [← hn]; exact Nat.lt_succ_self _) (sentence ++ [c]) text rfl
        rwa [List.append_assoc, List.singleton_append] at hih

variable (table) in
/-- The segments lose only ideographic spaces, and none exceeds the budget. -/
theorem segments_fits (htarget : 0 < target) (text : Str) :
    Segmented table target (segments table target text) text := by
  refine pieces_fits (paragraphs_pieces [] text) fun para _ => fitPiece_fits ?_
  refine pieces_fits (sentences_pieces [] (Py.strip para)) fun sentence _ => fitPiece_fits ?_
  exact hardSplit_fits htarget (strip_ends sentence).1 (strip_ends sentence).2

/-! ### The loop over the segments -/

variable {ov : Nat}

theorem totalTokens_append (a b : List Str) :
    totalTokens table (a ++ b) = totalTokens table a + totalTokens table b := by
  rw [totalTokens, List.map_append, List.sum_append]
  rfl

theorem totalTokens_concat (segs : List Str) (seg : Str) :
    totalTokens table (segs ++ [seg]) = totalTokens table segs + estimateTokens table seg := by
  rw [totalTokens_append]
  exact congrArg _ (Nat.add_zero _)

theorem estimate_le_total {segs : List Str} {seg : Str} (h : seg ∈ segs) :
    estimateTokens table seg ≤ totalTokens table segs := by
  obtain ⟨front, back, rfl⟩ := List.append_of_mem h
  rw [← List.singleton_append, ← List.append_assoc, totalTokens_append, totalTokens_concat]
  omega

private theorem estimate_join (segs : List Str) :
    estimateTokens table ((lit " ").intercalate segs) = totalTokens table segs := by
  rw [estimateTokens, tokens_join, List.length_flatMap]
  rfl

/-- The loop of `flush` keeps to the overlap and takes segments from the end of the chunk. -/
private theorem overlapSeed_spec {rest seed : List Str} (hseed : totalTokens table seed ≤ ov) :
    overlapSeed table ov rest seed (totalTokens table seed) <:+ rest.reverse ++ seed ∧
      totalTokens table (overlapSeed table ov rest seed (totalTokens table seed)) ≤ ov := by
  induction rest generalizing seed with
  | nil => exact ⟨List.suffix_rfl, hseed⟩
  | cons seg rest ih =>
    have hkept : seed <:+ (seg :: rest).reverse ++ seed := List.suffix_append _ _
    have hlonger : (seg :: rest).reverse ++ seed = rest.reverse ++ seg :: seed := by
      rw [List.reverse_cons, List.append_assoc, List.singleton_append]
    have htotal : totalTokens table seed + estimateTokens table seg = totalTokens table (seg :: seed) := by
      rw [totalTokens, totalTokens, List.map_cons, List.sum_cons, Nat.add_comm]
    rw [overlapSeed]
    split
    · exact ⟨hkept, hseed⟩
    · rename_i hfull
      split
      · exact ⟨hkept, hseed⟩
      · rename_i hfirst
        have hfits : totalTokens table (seg :: seed) ≤ ov := by
          rw [← htotal]
          by_cases hnil : seed = []
          · have hzero : totalTokens table seed = 0 := by rw [hnil]; rfl
            have := Nat.not_lt.1 fun hlt => hfirst ⟨hnil, hlt⟩
            omega
          · exact Nat.not_lt.1 fun hlt => hfull ⟨hnil, hlt⟩
        split
        · exact ⟨hlonger ▸ List.suffix_append _ _, hfits⟩
        · rw [hlonger, htotal]
          exact ih hfits

variable (table ov) in
private theorem flushSeed_spec (current : List Str) : flushSeed table ov current <:+ current ∧
    totalTokens table (flushSeed table ov current) ≤ ov ∧
    (current ≠ [] → (flushSeed table ov current).length < current.length) := by
  have hspec : overlapSeed table ov current.reverse [] 0 <:+ current.reverse.reverse ++ [] ∧
      totalTokens table (overlapSeed table ov current.reverse [] 0) ≤ ov := overlapSeed_spec (Nat.zero_le ov)
  rw [List.reverse_reverse, List.append_nil] at hspec
  unfold flushSeed
  dsimp only
  split
  · exact ⟨List.nil_suffix, Nat.zero_le _, List.length_pos_iff.2⟩
  · split
    · exact ⟨List.nil_suffix, Nat.zero_le _, List.length_pos_iff.2⟩
    · rename_i hshort
      exact ⟨hspec.1, hspec.2, fun _ => Nat.not_le.1 hshort⟩

variable (table target) in
private theorem trimSeed_spec (segTokens : Nat) (seed : List Str) :
    trimSeed table target segTokens seed <:+ seed ∧
      (trimSeed table target segTokens seed = [] ∨
        totalTokens table (trimSeed table target segTokens seed) + segTokens ≤ target) := by
  induction seed with
  | nil => exact ⟨List.suffix_rfl, Or.inl rfl⟩
  | cons s seed ih =>
    rw [trimSeed]
    split
    · exact ⟨ih.1.trans (List.suffix_cons s seed), ih.2⟩
    · rename_i hfits
      exact ⟨List.suffix_rfl, Or.inr (Nat.not_lt.1 hfits)⟩

private theorem totalTokens_le_of_suffix {a b : List Str} (h : a <:+ b) :
    totalTokens table a ≤ totalTokens table b := by
  obtain ⟨front, rfl⟩ := h
  rw [totalTokens_append]
  exact Nat.le_add_left _ _

/-- After `b` of the segments: the chunks are windows on them, and the pending segments begin at `start`, where they
share at most the overlap with the last chunk. -/
private structure Packed (table : WordTable) (target ov : Nat) (segs : List Str) (b : Nat) (p : Packing)
    (ws : List (Nat × Nat)) (m start : Nat) : Prop where
  covering : Covering ws m
  start_le : start ≤ m
  new : m < b ∨ m = 0 ∧ b = 0
  empty : ws = [] → start = 0
  last : ∀ w ∈ ws.getLast?, w.1 ≤ start
  chunks : p.chunks = ws.map fun w => (lit " ").intercalate (slice segs w)
  current : p.current = slice segs (start, b)
  total : p.currentTokens = totalTokens table p.current
  fits : p.currentTokens ≤ target
  bounded : ∀ w ∈ ws, totalTokens table (slice segs w) ≤ target
  shared : ws.IsChain fun w v => totalTokens table (slice segs (v.1, w.2)) ≤ ov
  shared_last : ∀ w ∈ ws.getLast?, totalTokens table (slice segs (start, w.2)) ≤ ov

private theorem Packed.step {segs : List Str} {b m start : Nat} {p : Packing} {ws : List (Nat × Nat)} {seg : Str}
    (h : Packed table target ov segs b p ws m start) (hseg : segs[b]? = some seg)
    (hfits : estimateTokens table seg ≤ target) :
    ∃ ws m start, Packed table target ov segs (b + 1) (p.step table target ov seg) ws m start := by
  have hb : b < segs.length := (List.getElem?_eq_some_iff.1 hseg).1
  have hstart : start ≤ b := by
    have := h.start_le
    have := h.new
    omega
  unfold Packing.step
  dsimp only
  split
  · rename_i hfull
    -- the pending segments are a chunk
    have hbpos : m < b := by
      refine h.new.resolve_right fun hzero => hfull.1 ?_
      rw [h.current, hzero.2]
      exact List.drop_nil
    obtain ⟨hseedSuffix, hseedTotal, hseedShort⟩ := flushSeed_spec table ov p.current
    obtain ⟨htrimSuffix, htrimFits⟩ :=
      trimSeed_spec table target (estimateTokens table seg) (flushSeed table ov p.current)
    generalize htrim : trimSeed table target (estimateTokens table seg) (flushSeed table ov p.current) = seed at *
    obtain ⟨hstart', hseed⟩ := slice_of_suffix hstart hb.le (h.current ▸ htrimSuffix.trans hseedSuffix)
    have hlast : (ws ++ [(start, b)]).getLast? = some (start, b) := List.getLast?_concat
    refine ⟨ws ++ [(start, b)], b, b - seed.length, ?_, ?_, ?_, ?_, ?_, ?_, ?_, ?_, ?_, ?_, ?_, ?_⟩
    · exact h.covering.concat h.start_le hbpos h.empty h.last
    · omega
    · omega
    · simp
    · rintro w hw
      rw [hlast] at hw
      obtain rfl := Option.some.inj hw
      exact hstart'
    · rw [h.chunks, List.map_append, h.current]
      rfl
    · rw [slice_concat (Nat.sub_le _ _) hseg, ← hseed]
    · exact (totalTokens_concat seed seg).symm
    · dsimp only
      rcases htrimFits with hnil | hle
      · rw [hnil]
        exact (Nat.zero_add _).symm ▸ hfits
      · exact hle
    · refine List.forall_mem_append.2 ⟨h.bounded, List.forall_mem_singleton.2 ?_⟩
      rw [← h.current, ← h.total]
      exact h.fits
    · refine List.isChain_append.2 ⟨h.shared, List.IsChain.singleton _, ?_⟩
      rintro w hw v ⟨⟩
      exact h.shared_last w hw
    · rintro w hw
      rw [hlast] at hw
      obtain rfl := Option.some.inj hw
      rw [← hseed]
      exact (totalTokens_le_of_suffix htrimSuffix).trans hseedTotal
  · rename_i hroom
    have hle : p.currentTokens + estimateTokens table seg ≤ target := by
      by_cases hnil : p.current = []
      · rw [h.total, hnil]
        exact (Nat.zero_add _).symm ▸ hfits
      · exact Nat.not_lt.1 fun hlt => hroom ⟨hnil, hlt⟩
    refine ⟨ws, m, start, h.covering, h.start_le, ?_, h.empty, h.last, h.chunks, ?_, ?_, hle, h.bounded, h.shared,
      h.shared_last⟩
    · have := h.new
      omega
    · rw [h.current, slice_concat hstart hseg]
    · rw [totalTokens_concat, h.total]

private theorem Packed.run {segs : List Str} (hfits : ∀ seg ∈ segs, estimateTokens table seg ≤ target) {rest : List Str}
    {b m start : Nat} {p : Packing} {ws : List (Nat × Nat)} (h : Packed table target ov segs b p ws m start)
    (hb : b ≤ segs.length) (hrest : segs.drop b = rest) :
    ∃ ws m start, Packed table target ov segs segs.length (rest.foldl (Packing.step table target ov) p) ws m start := by
  induction rest generalizing b p ws m start with
  | nil =>
    have hlength := List.drop_eq_nil_iff.1 hrest
    obtain rfl : b = segs.length := by omega
    exact ⟨ws, m, start, h⟩
  | cons seg rest ih =>
    have hseg : segs[b]? = some seg := by
      rw [← List.head?_drop, hrest]
      rfl
    obtain ⟨ws', m', start', h'⟩ := h.step hseg (hfits seg (List.mem_of_getElem? hseg))
    have hnext : segs.drop (b + 1) = rest := by
      rw [← List.drop_drop, hrest]
      rfl
    exact ih h' (List.getElem?_eq_some_iff.1 hseg).1 hnext

variable (table target ov) in
private theorem Packed.init (segs : List Str) : Packed table target ov segs 0 ⟨[], [], 0⟩ [] 0 0 where
  covering := Covering.nil
  start_le := Nat.le_refl 0
  new := Or.inr ⟨rfl, rfl⟩
  empty _ := rfl
  last w hw := by cases hw
  chunks := rfl
  current := rfl
  total := rfl
  fits := Nat.zero_le _
  bounded w hw := by cases hw
  shared := List.IsChain.nil
  shared_last w hw := by cases hw

/-- The pending segments are the last chunk. -/
private theorem Packed.finish {segs : List Str} {p : Packing} {ws : List (Nat × Nat)} {m start : Nat}
    (h : Packed table target ov segs segs.length p ws m start) : ∃ ws, Covering ws segs.length ∧
      (if p.current = [] then p.chunks else p.chunks ++ [(lit " ").intercalate p.current]) =
        (ws.map fun w => (lit " ").intercalate (slice segs w)) ∧
      (∀ w ∈ ws, totalTokens table (slice segs w) ≤ target) ∧
      ws.IsChain fun w v => totalTokens table (slice segs (v.1, w.2)) ≤ ov := by
  have hlength : p.current.length = segs.length - start := by
    rw [h.current]
    exact slice_length (le_refl segs.length)
  have hle := h.start_le
  split
  · rename_i hnil
    rw [hnil] at hlength
    have hzero : m = 0 ∧ segs.length = 0 := by
      refine h.new.resolve_left fun hlt => ?_
      have : 0 = segs.length - start := hlength
      omega
    exact ⟨ws, hzero.2 ▸ hzero.1 ▸ h.covering, h.chunks, h.bounded, h.shared⟩
  · rename_i hne
    have hpos := List.length_pos_iff.2 hne
    have hlt : m < segs.length := by
      have := h.new
      omega
    refine ⟨ws ++ [(start, segs.length)], h.covering.concat hle hlt h.empty h.last, ?_, ?_, ?_⟩
    · rw [h.chunks, List.map_append, h.current]
      rfl
    · refine List.forall_mem_append.2 ⟨h.bounded, List.forall_mem_singleton.2 ?_⟩
      rw [← h.current, ← h.total]
      exact h.fits
    · refine List.isChain_append.2 ⟨h.shared, List.IsChain.singleton _, ?_⟩
      rintro w hw v ⟨⟩
      exact h.shared_last w hw

/-! ### How the chunks end -/

private structure Packing.Closed (p : Packing) : Prop where
  chunks : ∀ chunk ∈ p.chunks, Ended chunk
  current : ∀ seg ∈ p.current, Ended seg

private theorem Packing.Closed.step {p : Packing} (h : p.Closed) {seg : Str} (hseg : Ended seg) :
    (p.step table target ov seg).Closed := by
  unfold Packing.step
  dsimp only
  split
  · rename_i hfull
    have hsuffix := (trimSeed_spec table target (estimateTokens table seg) (flushSeed table ov p.current)).1.trans
      (flushSeed_spec table ov p.current).1
    have hchunk : Ended ((lit " ").intercalate p.current) := Ended.join hfull.1 h.current
    refine ⟨List.forall_mem_append.2 ⟨h.chunks, List.forall_mem_singleton.2 hchunk⟩, ?_⟩
    exact List.forall_mem_append.2 ⟨fun s hs => h.current s (hsuffix.subset hs), List.forall_mem_singleton.2 hseg⟩
  · exact ⟨h.chunks, List.forall_mem_append.2 ⟨h.current, List.forall_mem_singleton.2 hseg⟩⟩

variable (table target ov) in
private theorem Packing.Closed.run {segs : List Str} (hsegs : ∀ seg ∈ segs, Ended seg) {p : Packing} (h : p.Closed) :
    (segs.foldl (Packing.step table target ov) p).Closed := by
  induction segs generalizing p with
  | nil => exact h
  | cons seg segs ih =>
    exact ih (fun s hs => hsegs s (List.mem_cons_of_mem _ hs)) (h.step (hsegs seg List.mem_cons_self))

variable (table ov) in
/-- No chunk is empty or ends in whitespace. -/
theorem chunkProse_ended (htarget : 0 < target) (text : Str) :
    ∀ chunk ∈ chunkProse table target ov text, Ended chunk := by
  rw [chunkProse]
  split
  · exact fun chunk hchunk => absurd hchunk List.not_mem_nil
  · have hsegs : ∀ seg ∈ segments table target (Py.strip text), Ended seg := fun seg hseg =>
      ((segments_fits table htarget (Py.strip text)).segment seg hseg).ended
    have hinit : Packing.Closed ⟨[], [], 0⟩ :=
      ⟨fun chunk hchunk => absurd hchunk List.not_mem_nil, fun seg hseg => absurd hseg List.not_mem_nil⟩
    have hrun := Packing.Closed.run table target ov hsegs hinit
    dsimp only
    split
    · exact hrun.chunks
    · rename_i hne
      exact List.forall_mem_append.2 ⟨hrun.chunks, List.forall_mem_singleton.2 (Ended.join hne hrun.current)⟩

private theorem Packing.current_ne_nil {segs : List Str} (hne : segs ≠ []) (p : Packing) :
    (segs.foldl (Packing.step table target ov) p).current ≠ [] := by
  obtain ⟨front, seg, rfl⟩ := List.eq_nil_or_concat segs |>.resolve_left hne
  rw [List.concat_eq_append, List.foldl_append, List.foldl_cons, List.foldl_nil, Packing.step]
  split
  · simp
  · simp

variable (table ov) in
/-- A text that is not blank has a chunk. -/
theorem chunkProse_ne_nil (htarget : 0 < target) {text : Str} (h : Py.strip text ≠ []) :
    chunkProse table target ov text ≠ [] := by
  have hsegs : segments table target (Py.strip text) ≠ [] := by
    intro hnil
    have hthinned := (segments_fits table htarget (Py.strip text)).thinned
    rw [hnil] at hthinned
    obtain ⟨c, cs, hstrip⟩ := List.exists_cons_of_ne_nil h
    have hspace : Py.isspace c = false := (strip_ends text).1 c (by rw [hstrip]; rfl)
    obtain ⟨t, ht, hne⟩ := exists_token table hspace cs
    rw [← hstrip] at ht
    have hmem : t ∈ (tokens table (Py.strip text)).filter (· ≠ ideographicSpace) :=
      List.mem_filter.2 ⟨ht, by simpa using hne⟩
    rw [← hthinned.2] at hmem
    exact absurd hmem List.not_mem_nil
  rw [chunkProse, if_neg h]
  dsimp only
  rw [if_neg (Packing.current_ne_nil hsegs _)]
  simp

/-! ### What the chunks are -/

variable (table ov) in
/-- The chunks of a text are windows on a sequence of segments that hold its tokens, but for ideographic spaces.  They
cover the sequence in order, each has at most `target` tokens and a segment that no chunk before it has, and neighbours
share at most `ov` tokens. -/
theorem chunk_prose_windows (htarget : 0 < target) (text : Str) : ∃ segs ws,
    Thinned (segs.flatMap (tokens table)) (tokens table text) ∧ Covering ws segs.length ∧
    chunkProse table target ov text = (ws.map fun w => (lit " ").intercalate (slice segs w)) ∧
    (∀ chunk ∈ chunkProse table target ov text, estimateTokens table chunk ≤ target) ∧
    ws.IsChain fun w v => totalTokens table (slice segs (v.1, w.2)) ≤ ov := by
  have hstrip := thinned_strip table text
  rw [chunkProse]
  split
  · rename_i hnil
    rw [hnil] at hstrip
    exact ⟨[], [], hstrip, Covering.nil, rfl, fun chunk hchunk => absurd hchunk List.not_mem_nil, List.IsChain.nil⟩
  · obtain ⟨hthinned, hfits⟩ := segments_fits table htarget (Py.strip text)
    generalize segments table target (Py.strip text) = segs at hthinned hfits ⊢
    obtain ⟨ws, m, start, h⟩ := (Packed.init table target ov segs).run (fun seg hseg => (hfits seg hseg).bounded)
      (Nat.zero_le _) List.drop_zero
    refine ⟨segs, ?_⟩
    generalize segs.foldl (Packing.step table target ov) ⟨[], [], 0⟩ = p at h ⊢
    obtain ⟨ws, hcovering, hchunks, hbounded, hshared⟩ := h.finish
    refine ⟨ws, hthinned.trans hstrip, hcovering, hchunks, fun chunk hchunk => ?_, hshared⟩
    replace hchunk := hchunks ▸ hchunk
    obtain ⟨w, hw, rfl⟩ := List.mem_map.1 hchunk
    rw [estimate_join]
    exact hbounded w hw

theorem chunk_prose_sentences : ∃ segs ws,
    Thinned (segs.flatMap (tokens asciiWords)) (tokens asciiWords (lit "One two. Three four.")) ∧
    Covering ws segs.length ∧
    chunkProse asciiWords 3 1 (lit "One two. Three four.") = (ws.map fun w => (lit " ").intercalate (slice segs w)) ∧
    (∀ chunk ∈ chunkProse asciiWords 3 1 (lit "One two. Three four."), estimateTokens asciiWords chunk ≤ 3) ∧
    ws.IsChain fun w v => totalTokens asciiWords (slice segs (v.1, w.2)) ≤ 1 :=
  chunk_prose_windows asciiWords 1 (by decide) (lit "One two. Three four.")

/-- Two sentences are two chunks; an overlap of one token leaves no room for a sentence. -/
example : chunkProse asciiWords 3 1 (lit "One two. Three four.") = [lit "One two.", lit "Three four."] := by
  decide +kernel

end AgentOS
