import AgentOS.Python.Codecs

/-!
# `json.loads` with its exceptions

The text is cut into tokens, one code point at a time, and the tokens drive a stack of the lists and dicts that are
still open.  A token that does not fit is a `JSONDecodeError`, so is an integer of more than `maxStrDigits` digits; a
value that opens more than `limit` lists and dicts at once is a `RecursionError`.  How a float literal is read (`float`)
is a parameter.

* `loads_error` and `loads_tooDeep`: apart from a `ValueError` a text fails just in case it is nested too deeply.
* `lex_word` and `lex_plain`: what a run of digits or letters, and a string without escapes, is read as.
* `wordToken_decimal`: the digits of an integer are read as that integer.
-/

namespace AgentOS.Py

/-! ### Tokens -/

inductive Token where
  | openBrace
  | closeBrace
  | openBracket
  | closeBracket
  | colon
  | comma
  | atom (value : Value)
  | str (text : Str)
  | invalid

/-- What the text read last is a part of; of a string each code point with whether it was a `\u` escape. -/
inductive Lexing where
  | between
  | word (text : Str)
  | string (read : List (CodePoint × Bool))
  | escape (read : List (CodePoint × Bool))
  | hex (read : List (CodePoint × Bool)) (digits : List Nat)

def isWs (c : CodePoint) : Bool := c = code ' ' ∨ c = code '\t' ∨ c = code '\n' ∨ c = code '\r'

def isDigit (c : CodePoint) : Bool := code '0' ≤ c ∧ c ≤ code '9'

/-- A part of a number or of a constant. -/
def isWordChar (c : CodePoint) : Bool :=
  isDigit c ∨ (code 'a' ≤ c ∧ c ≤ code 'z') ∨ (code 'A' ≤ c ∧ c ≤ code 'Z') ∨ c = code '-' ∨ c = code '+' ∨ c = code '.'

def punctuation (c : CodePoint) : Option Token :=
  if c = code '\x7b' then some .openBrace
  else if c = code '\x7d' then some .closeBrace
  else if c = code '[' then some .openBracket
  else if c = code ']' then some .closeBracket
  else if c = code ':' then some .colon
  else if c = code ',' then some .comma
  else none

/-- What a code point between two tokens begins; `none` where no token begins so. -/
def start (c : CodePoint) : Option (List Token × Lexing) :=
  if isWs c then some ([], .between)
  else if c = code '"' then some ([], .string [])
  else if isWordChar c then some ([], .word [c])
  else (punctuation c).map fun token => ([token], .between)

def hexValue (c : CodePoint) : Option Nat :=
  if isDigit c then some (c.val - 48)
  else if code 'a' ≤ c ∧ c ≤ code 'f' then some (c.val - 87)
  else if code 'A' ≤ c ∧ c ≤ code 'F' then some (c.val - 55)
  else none

/-- The escapes of two characters. -/
def unescape (c : CodePoint) : Option CodePoint :=
  if c = code '"' ∨ c = code '\\' ∨ c = code '/' then some c
  else if c = code 'b' then some 0x08
  else if c = code 'f' then some 0x0C
  else if c = code 'n' then some 0x0A
  else if c = code 'r' then some 0x0D
  else if c = code 't' then some 0x09
  else none

/-- The text of a string: two escapes that are a surrogate pair are one code point. -/
def joinSurrogates : List (CodePoint × Bool) → Str
  | [] => []
  | [(c, _)] => [c]
  | (c, escaped) :: (d, escaped') :: rest =>
    if escaped ∧ escaped' ∧ isHighSurrogate c.val ∧
      isLowSurrogate d.val then joinPair c.val d.val :: joinSurrogates rest
    else c :: joinSurrogates ((d, escaped') :: rest)

/-- A float from what is behind the integer part of a number, with the text read so far. -/
def fractionOk (rest : Str) : Bool :=
  let (frac, rest) := match rest with
    | [] => (true, [])
    | c :: cs => if c = code '.' then (!(cs.takeWhile isDigit).isEmpty, cs.dropWhile isDigit) else (true, c :: cs)
  frac && match rest with
    | [] => true
    | c :: cs => (c = code 'e' || c = code 'E') &&
      let digits := match cs with
        | [] => []
        | s :: ds => if s = code '+' ∨ s = code '-' then ds else s :: ds
      !digits.isEmpty && digits.all isDigit

section

variable (float : Str → PyFloat)

/-- `NUMBER_RE` on all of a word: an integer without leading zeros, and the fraction and exponent that make a float. -/
def numberToken (text : Str) : Token :=
  let (negative, body) := match text with
    | [] => (false, [])
    | c :: cs => if c = code '-' then (true, cs) else (false, c :: cs)
  let digits := body.takeWhile isDigit
  let rest := body.dropWhile isDigit
  if digits.isEmpty ∨ (digits.head? = some (code '0') ∧ digits.length ≠ 1) then .invalid
  else if rest.isEmpty then
    let n : Int := digits.foldl (fun value d => 10 * value + (d.val - 48 : Nat)) 0
    if maxStrDigits < digits.length then .invalid else .atom (.int (if negative then -n else n))
  else if fractionOk rest then .atom (.float (float text)) else .invalid

def wordToken (text : Str) : Token :=
  if text = lit "null" then .atom .none
  else if text = lit "true" then .atom (.bool true)
  else if text = lit "false" then .atom (.bool false)
  else if text = lit "NaN" then .atom (.float .nan)
  else if text = lit "Infinity" then .atom (.float .inf)
  else if text = lit "-Infinity" then .atom (.float .negInf)
  else numberToken float text

/-- The tokens of a text, up to the first that is invalid. -/
def lex : Lexing → Str → List Token
  | .between, [] => []
  | .word text, [] => [wordToken float text]
  | _, [] => [.invalid]
  | .between, c :: cs => match start c with
    | some (tokens, state) => tokens ++ lex state cs
    | none => [.invalid]
  | .word text, c :: cs =>
    if isWordChar c then lex (.word (text ++ [c])) cs
    else wordToken float text :: match start c with
      | some (tokens, state) => tokens ++ lex state cs
      | none => [.invalid]
  | .string read, c :: cs =>
    if c = code '"' then .str (joinSurrogates read) :: lex .between cs
    else if c = code '\\' then lex (.escape read) cs
    else if c < 0x20 then [.invalid]
    else lex (.string (read ++ [(c, false)])) cs
  | .escape read, c :: cs =>
    if c = code 'u' then lex (.hex read []) cs
    else match unescape c with
      | some d => lex (.string (read ++ [(d, false)])) cs
      | none => [.invalid]
  | .hex read digits, c :: cs => match hexValue c with
    | none => [.invalid]
    | some d =>
      if digits.length = 3 then
        let n := (digits ++ [d]).foldl (fun value d => 16 * value + d) 0
        lex (.string (read ++ [(Fin.ofNat 0x110000 n, true)])) cs
      else lex (.hex read (digits ++ [d])) cs

end

/-! ### Values -/

/-- A list or dict that waits for a value. -/
inductive Frame where
  | item (items : List Value)
  | member (items : List (Str × Value)) (key : Str)

/-- What comes next. -/
inductive Expected where
  | value
  | firstItem
  | firstKey
  | key (items : List (Str × Value))
  | colon (items : List (Str × Value)) (key : Str)
  | afterItem (items : List Value)
  | afterMember (items : List (Str × Value))
  | nothing (value : Value)

structure Scan where
  waiting : List Frame
  expected : Expected

/-- A value is complete. -/
def complete (value : Value) : List Frame → Scan
  | [] => ⟨[], .nothing value⟩
  | .item items :: waiting => ⟨waiting, .afterItem (items ++ [value])⟩
  | .member items key :: waiting => ⟨waiting, .afterMember (setItem items key value)⟩

section

variable (limit : Nat)

def scanValue (waiting : List Frame) : Token → Except Error Scan
  | .openBrace => if waiting.length < limit then .ok ⟨waiting, .firstKey⟩ else .error .recursionError
  | .openBracket => if waiting.length < limit then .ok ⟨waiting, .firstItem⟩ else .error .recursionError
  | .atom value => .ok (complete value waiting)
  | .str text => .ok (complete (.str text) waiting)
  | _ => .error .valueError

def scanToken (scan : Scan) (token : Token) : Except Error Scan :=
  match scan.expected, token with
  | .value, token => scanValue limit scan.waiting token
  | .firstItem, .closeBracket => .ok (complete (.list []) scan.waiting)
  | .firstItem, token => scanValue limit (.item [] :: scan.waiting) token
  | .firstKey, .closeBrace => .ok (complete (.dict []) scan.waiting)
  | .firstKey, .str key => .ok ⟨scan.waiting, .colon [] key⟩
  | .key items, .str key => .ok ⟨scan.waiting, .colon items key⟩
  | .colon items key, .colon => .ok ⟨.member items key :: scan.waiting, .value⟩
  | .afterItem items, .comma => .ok ⟨.item items :: scan.waiting, .value⟩
  | .afterItem items, .closeBracket => .ok (complete (.list items) scan.waiting)
  | .afterMember items, .comma => .ok ⟨scan.waiting, .key items⟩
  | .afterMember items, .closeBrace => .ok (complete (.dict items) scan.waiting)
  | _, _ => .error .valueError

/-- `json.loads(text)`. -/
def loads (float : Str → PyFloat) (text : Str) : Except Error Value :=
  match (lex float .between text).foldlM (scanToken limit) ⟨[], .value⟩ with
  | .ok ⟨_, .nothing value⟩ => .ok value
  | .ok _ => .error .valueError
  | .error error => .error error

end

/-! ### Nesting -/

/-- The number of lists and dicts that are open after a token, from the number before it. -/
def Token.count : Token → Nat → Nat
  | .openBrace, n | .openBracket, n => n + 1
  | .closeBrace, n | .closeBracket, n => n - 1
  | _, n => n

/-- The number of lists and dicts that are open. -/
def Scan.depth (scan : Scan) : Nat :=
  match scan.expected with
  | .value | .nothing _ => scan.waiting.length
  | _ => scan.waiting.length + 1

/-- The text begins with more than `limit` open lists and dicts. -/
def TooDeep (limit : Nat) (float : Str → PyFloat) (text : Str) : Prop :=
  ∃ stem, stem <+: lex float .between text ∧ limit < stem.foldl (fun n token => token.count n) 0 ∧
    ∃ bound scan, stem.foldlM (scanToken bound) ⟨[], .value⟩ = .ok scan

private theorem depth_complete (value : Value) (waiting : List Frame) :
    (complete value waiting).depth = waiting.length := by
  cases waiting with
  | nil => rfl
  | cons frame waiting =>
    cases frame with
    | item items => rfl
    | member items key => rfl

/-- What a token does at any limit: it is read, it is read if the limit admits one more list or dict, or it does not
fit. -/
private def Scans (depth : Nat) (token : Token) (scan : Nat → Except Error Scan) : Prop :=
  (∃ next, (∀ limit, scan limit = .ok next) ∧ next.depth = token.count depth ∧ next.depth ≤ depth) ∨
  (∃ next, (∀ limit, scan limit = if depth < limit then .ok next else .error .recursionError) ∧
    next.depth = token.count depth ∧ next.depth = depth + 1) ∨
  ∀ limit, scan limit = .error .valueError

private theorem scanValue_cases (waiting : List Frame) (token : Token) :
    Scans waiting.length token fun limit => scanValue limit waiting token := by
  cases token with
  | openBrace => exact Or.inr (Or.inl ⟨_, fun _ => rfl, rfl, rfl⟩)
  | openBracket => exact Or.inr (Or.inl ⟨_, fun _ => rfl, rfl, rfl⟩)
  | atom value => exact Or.inl ⟨_, fun _ => rfl, depth_complete _ _, (depth_complete _ _).le⟩
  | str text => exact Or.inl ⟨_, fun _ => rfl, depth_complete _ _, (depth_complete _ _).le⟩
  | closeBrace | closeBracket | colon | comma | invalid => exact Or.inr (Or.inr fun _ => rfl)

private theorem scanToken_cases (scan : Scan) (token : Token) :
    Scans scan.depth token fun limit => scanToken limit scan token := by
  obtain ⟨waiting, expected⟩ := scan
  have hclose : ∀ value, Scans (waiting.length + 1) .closeBrace fun _ => .ok (complete value waiting) := fun value =>
    Or.inl ⟨_, fun _ => rfl, depth_complete _ _, (depth_complete _ _).le.trans (Nat.le_succ _)⟩
  cases expected with
  | value => exact scanValue_cases waiting token
  | firstItem =>
    cases token with
    | closeBracket => exact hclose _
    | openBrace | openBracket | closeBrace | colon | comma | atom | str | invalid =>
      exact scanValue_cases (.item [] :: waiting) _
  | firstKey | key | colon | afterItem | afterMember | nothing =>
    cases token
    all_goals first
      | exact Or.inr (Or.inr fun _ => rfl)
      | exact Or.inl ⟨_, fun _ => rfl, rfl, le_rfl⟩
      | exact hclose _

/-- A token that is read under one limit is read under another, unless that leaves it too little. -/
private theorem scanToken_ok {limit : Nat} {scan next : Scan} {token : Token}
    (h : scanToken limit scan token = .ok next)
    (bound : Nat) : next.depth = token.count scan.depth ∧ (scanToken bound scan token = .ok next ∧
      next.depth ≤ max bound scan.depth ∨
        scanToken bound scan token = .error .recursionError ∧ bound < next.depth ∧ next.depth ≤ limit) := by
  rcases scanToken_cases scan token with ⟨next', hread, hcount, hle⟩ | ⟨next', hread, hcount, hdepth⟩ | hread
  · obtain rfl := Except.ok.inj ((hread limit).symm.trans h)
    exact ⟨hcount, Or.inl ⟨hread bound, by omega⟩⟩
  · have hlimit := (hread limit).symm.trans h
    split at hlimit
    · obtain rfl := Except.ok.inj hlimit
      refine ⟨hcount, ?_⟩
      rcases Nat.lt_or_ge scan.depth bound with hlt | hge
      · exact Or.inl ⟨(hread bound).trans (if_pos hlt), by omega⟩
      · exact Or.inr ⟨(hread bound).trans (if_neg (by omega)), by omega, by omega⟩
    · cases hlimit
  · cases (hread limit).symm.trans h

private theorem scanToken_error {limit : Nat} {scan : Scan} {token : Token} {error : Error}
    (h : scanToken limit scan token = .error error) : error = .valueError ∨ error = .recursionError ∧
      ∃ next, scanToken (scan.depth + 1) scan token = .ok next ∧ limit < next.depth := by
  rcases scanToken_cases scan token with ⟨next, hread, -⟩ | ⟨next, hread, -, hdepth⟩ | hread
  · cases (hread limit).symm.trans h
  · have hlimit := (hread limit).symm.trans h
    split at hlimit
    · cases hlimit
    · refine Or.inr ⟨(Except.error.inj hlimit).symm, next, (hread _).trans (if_pos (Nat.lt_succ_self _)), ?_⟩
      omega
  · exact Or.inl (Except.error.inj ((hread limit).symm.trans h)).symm

/-- More room does not change what has been read. -/
private theorem scan_mono {small big : Nat} (hle : small ≤ big) {tokens : List Token} {scan next : Scan}
    (h : tokens.foldlM (scanToken small) scan = .ok next) : tokens.foldlM (scanToken big) scan = .ok next := by
  induction tokens generalizing scan with
  | nil => exact h
  | cons token tokens ih =>
    rw [List.foldlM_cons] at h ⊢
    cases hfirst : scanToken small scan token with
    | error error =>
      rw [hfirst] at h
      cases h
    | ok mid =>
      rw [hfirst] at h
      rcases (scanToken_ok hfirst big).2 with ⟨hbig, -⟩ | ⟨-, hlt, hsmall⟩
      · rw [hbig]
        exact ih h
      · omega

private theorem scan_error {limit : Nat} {tokens : List Token} {scan : Scan} {error : Error}
    (h : tokens.foldlM (scanToken limit) scan = .error error) : error = .valueError ∨ error = .recursionError ∧
      ∃ stem, stem <+: tokens ∧ limit < stem.foldl (fun n token => token.count n) scan.depth ∧
        ∃ bound next, stem.foldlM (scanToken bound) scan = .ok next := by
  induction tokens generalizing scan with
  | nil => cases h
  | cons token tokens ih =>
    rw [List.foldlM_cons] at h
    cases hfirst : scanToken limit scan token with
    | error first =>
      rw [hfirst] at h
      obtain rfl := Except.error.inj h
      rcases scanToken_error hfirst with herror | ⟨herror, next, hnext, hdepth⟩
      · exact Or.inl herror
      · refine Or.inr ⟨herror, [token], (List.prefix_cons_inj _).2 List.nil_prefix, ?_, scan.depth + 1, next, ?_⟩
        · rw [List.foldl_cons, List.foldl_nil, ← (scanToken_ok hnext 0).1]
          exact hdepth
        · rw [List.foldlM_cons, hnext]
          rfl
    | ok mid =>
      rw [hfirst] at h
      rcases ih h with herror | ⟨herror, stem, hstem, hdepth, bound, next, hread⟩
      · exact Or.inl herror
      · refine Or.inr ⟨herror, token :: stem, (List.prefix_cons_inj _).2 hstem, ?_, max limit bound, next, ?_⟩
        · rw [List.foldl_cons, ← (scanToken_ok hfirst 0).1]
          exact hdepth
        · have hmid : scanToken (max limit bound) scan token = .ok mid := by
            rcases (scanToken_ok hfirst (max limit bound)).2 with ⟨hmid, -⟩ | ⟨-, hlt, hle⟩
            · exact hmid
            · omega
          rw [List.foldlM_cons, hmid]
          exact scan_mono (le_max_right _ _) hread

private theorem scan_tooDeep {limit bound : Nat} {stem tokens : List Token} (hstem : stem <+: tokens) {scan next : Scan}
    (hscan : scan.depth ≤ limit) (hdepth : limit < stem.foldl (fun n token => token.count n) scan.depth)
    (hread : stem.foldlM (scanToken bound) scan = .ok next) :
    tokens.foldlM (scanToken limit) scan = .error .recursionError := by
  induction stem generalizing tokens scan with
  | nil => exact absurd hdepth (Nat.not_lt.2 hscan)
  | cons token stem ih =>
    obtain ⟨rest, rfl⟩ := hstem
    rw [List.foldlM_cons] at hread
    rw [List.foldl_cons] at hdepth
    rw [List.cons_append, List.foldlM_cons]
    cases hfirst : scanToken bound scan token with
    | error error =>
      rw [hfirst] at hread
      cases hread
    | ok mid =>
      rw [hfirst] at hread
      obtain ⟨hcount, hcase⟩ := scanToken_ok hfirst limit
      rcases hcase with ⟨hmid, hle⟩ | ⟨herror, -⟩
      · rw [hmid]
        exact ih (List.prefix_append _ _) (by omega) (hcount ▸ hdepth) hread
      · rw [herror]
        rfl

/-- Apart from a `ValueError`, a text fails for its nesting only, and a text that is nested too deeply always does. -/
theorem loads_error {limit : Nat} {float : Str → PyFloat} {text : Str} {error : Error}
    (h : loads limit float text = .error error) :
    error = .valueError ∨ error = .recursionError ∧ TooDeep limit float text := by
  unfold loads at h
  cases hscan : (lex float .between text).foldlM (scanToken limit) ⟨[], .value⟩ with
  | error first =>
    rw [hscan] at h
    obtain rfl := Except.error.inj h
    exact scan_error hscan
  | ok scan =>
    rw [hscan] at h
    obtain ⟨waiting, expected⟩ := scan
    cases expected with
    | nothing value => cases h
    | value | firstItem | firstKey | key | colon | afterItem | afterMember => exact Or.inl (Except.error.inj h).symm

theorem loads_tooDeep {limit : Nat} {float : Str → PyFloat} {text : Str} (h : TooDeep limit float text) :
    loads limit float text = .error .recursionError := by
  obtain ⟨stem, hstem, hdepth, bound, scan, hread⟩ := h
  rw [loads, scan_tooDeep hstem (Nat.zero_le _) hdepth hread]

/-! ### Words, strings and integers -/

section

variable (float : Str → PyFloat)

theorem lex_word {text : Str} (h : ∀ c ∈ text, isWordChar c = true) (read rest : Str) :
    lex float (.word read) (text ++ rest) = lex float (.word (read ++ text)) rest := by
  induction text generalizing read with
  | nil => rw [List.nil_append, List.append_nil]
  | cons c cs ih =>
    rw [List.cons_append, lex, if_pos (h c List.mem_cons_self), ih fun d hd => h d (List.mem_cons_of_mem _ hd),
      List.append_assoc, List.singleton_append]

/-- A word ends where something else begins. -/
theorem lex_wordEnd {c : CodePoint} (h : isWordChar c = false) (read rest : Str) :
    lex float (.word read) (c :: rest) = wordToken float read :: lex float .between (c :: rest) := by
  conv => lhs; rw [lex, h]
  rfl

/-- A string without escapes. -/
theorem lex_plain {text : Str} (h : ∀ c ∈ text, c ≠ code '"' ∧ c ≠ code '\\' ∧ ¬ c < 0x20)
    (read : List (CodePoint × Bool)) (rest : Str) :
    lex float (.string read) (text ++ rest) = lex float (.string (read ++ text.map fun c => (c, false))) rest := by
  induction text generalizing read with
  | nil => rw [List.nil_append, List.map_nil, List.append_nil]
  | cons c cs ih =>
    obtain ⟨hquote, hescape, hcontrol⟩ := h c List.mem_cons_self
    rw [List.cons_append, lex, if_neg hquote, if_neg hescape, if_neg hcontrol,
      ih fun d hd => h d (List.mem_cons_of_mem _ hd), List.append_assoc]
    rfl

theorem joinSurrogates_plain (text : Str) : joinSurrogates (text.map fun c => (c, false)) = text := by
  induction text with
  | nil => rfl
  | cons c cs ih =>
    cases cs with
    | nil => rfl
    | cons d cs =>
      rw [List.map_cons, List.map_cons, joinSurrogates, if_neg (by simp)]
      exact congrArg (c :: ·) ih

end

theorem val_code (c : Char) : (code c).val = c.toNat := by
  have hvalid : c.toNat < 0xD800 ∨ 0xDFFF < c.toNat ∧ c.toNat < 0x110000 := c.valid
  exact Nat.mod_eq_of_lt (by omega)

/-- The decimal digits of a number, as code points. -/
def decimalDigits (n : Nat) : Str := (Nat.toDigits 10 n).map code

private theorem decimalDigits_of_lt {n : Nat} (h : n < 10) : decimalDigits n = [code n.digitChar] := by
  rw [decimalDigits, Nat.toDigits_of_lt_base h]
  rfl

private theorem decimalDigits_of_le {n : Nat} (h : 10 ≤ n) :
    decimalDigits n = decimalDigits (n / 10) ++ [code (n % 10).digitChar] := by
  rw [decimalDigits, Nat.toDigits_of_base_le (by decide) h, List.map_append]
  rfl

/-- The digits of a number: each is a digit, they add up to it, and the first is not zero. -/
private theorem decimalDigits_spec (n : Nat) : (∀ c ∈ decimalDigits n, isDigit c = true) ∧
    (decimalDigits n).foldl (fun (value : Int) d => 10 * value + (d.val - 48 : Nat)) 0 = n ∧
    (0 < n → (decimalDigits n).head? ≠ some (code '0')) := by
  have hdigit : ∀ d < 10, isDigit (code (Nat.digitChar d)) = true ∧ (code (Nat.digitChar d)).val - 48 = d ∧
      (0 < d → code (Nat.digitChar d) ≠ code '0') := by decide
  induction n using Nat.strongRecOn with
  | _ n ih =>
    rcases Nat.lt_or_ge n 10 with hlt | hge
    · obtain ⟨hall, hvalue, hhead⟩ := hdigit n hlt
      rw [decimalDigits_of_lt hlt]
      refine ⟨fun c hc => List.mem_singleton.1 hc ▸ hall, ?_, fun hpos h => hhead hpos (Option.some.inj h)⟩
      rw [List.foldl_cons, List.foldl_nil, hvalue]
      omega
    · obtain ⟨hall, hvalue, hhead⟩ := ih (n / 10) (by omega)
      obtain ⟨hlast, hlastValue, -⟩ := hdigit (n % 10) (by omega)
      rw [decimalDigits_of_le hge]
      refine ⟨fun c hc => ?_, ?_, fun _ => ?_⟩
      · rcases List.mem_append.1 hc with hc | hc
        · exact hall c hc
        · exact List.mem_singleton.1 hc ▸ hlast
      · rw [List.foldl_append, hvalue, List.foldl_cons, List.foldl_nil, hlastValue]
        omega
      · have hne : decimalDigits (n / 10) ≠ [] := fun hnil => Nat.toDigits_ne_nil (List.map_eq_nil_iff.1 hnil)
        rw [List.head?_append_of_ne_nil _ hne]
        exact hhead (by omega)

theorem isWordChar_of_isDigit {c : CodePoint} (h : isDigit c = true) : isWordChar c = true := by
  simp [isWordChar, h]

theorem isDigit_of_mem {n : Nat} {c : CodePoint} (h : c ∈ decimalDigits n) : isDigit c = true :=
  (decimalDigits_spec n).1 c h

theorem exists_decimalDigits (n : Nat) : ∃ d ds, decimalDigits n = d :: ds :=
  List.exists_cons_of_ne_nil fun hnil => Nat.toDigits_ne_nil (List.map_eq_nil_iff.1 hnil)

/-- The digits of a number are read as it, unless there are too many. -/
theorem wordToken_decimal (float : Str → PyFloat) {n : Nat} (h : n < 10 ^ maxStrDigits) :
    wordToken float (decimalDigits n) = .atom (.int n) := by
  obtain ⟨hall, hvalue, hhead⟩ := decimalDigits_spec n
  have hlen : (decimalDigits n).length ≤ maxStrDigits := by
    rw [decimalDigits, List.length_map]
    exact (Nat.length_toDigits_le_iff (by decide) (by decide)).2 h
  have hlead : (decimalDigits n).head? = some (code '0') → (decimalDigits n).length = 1 := by
    intro hzero
    obtain rfl : n = 0 := Nat.eq_zero_of_not_pos fun hpos => hhead hpos hzero
    rfl
  obtain ⟨d, ds, hcons⟩ := exists_decimalDigits n
  have hdigit : isDigit d = true := hall d (hcons ▸ List.mem_cons_self)
  have hconstant : ∀ text : Str, text.head?.any isDigit = false → decimalDigits n ≠ text := by
    rintro text htext rfl
    rw [hcons, List.head?_cons, Option.any_some, hdigit] at htext
    cases htext
  have hminus : d ≠ code '-' := by
    rintro rfl
    exact absurd hdigit (by decide)
  unfold wordToken
  rw [if_neg (hconstant _ (by decide)), if_neg (hconstant _ (by decide)), if_neg (hconstant _ (by decide)),
    if_neg (hconstant _ (by decide)), if_neg (hconstant _ (by decide)), if_neg (hconstant _ (by decide))]
  unfold numberToken
  rw [hcons]
  dsimp only
  rw [if_neg hminus]
  dsimp only
  rw [← hcons, List.takeWhile_eq_self_iff.2 hall, List.dropWhile_eq_nil_iff.2 hall]
  have hok : ¬ ((decimalDigits n).isEmpty = true ∨
      ((decimalDigits n).head? = some (code '0') ∧ (decimalDigits n).length ≠ 1)) := by
    rintro (hempty | ⟨hzero, hlong⟩)
    · rw [hcons] at hempty
      cases hempty
    · exact hlong (hlead hzero)
  rw [if_neg hok, if_pos List.isEmpty_nil, hvalue, if_neg (Nat.not_lt.2 hlen)]
  rfl

private theorem start_of_isDigit {c : CodePoint} (h : isDigit c = true) : start c = some ([], .word [c]) := by
  have hws : ¬ isWs c = true := by
    intro hws
    rcases of_decide_eq_true hws with rfl | rfl | rfl | rfl <;> exact absurd h (by decide)
  have hquote : c ≠ code '"' := by
    rintro rfl
    exact absurd h (by decide)
  unfold start
  rw [if_neg hws, if_neg hquote, if_pos (isWordChar_of_isDigit h)]

/-- An integer in front of something else. -/
theorem lex_decimal (float : Str → PyFloat) {n : Nat} (h : n < 10 ^ maxStrDigits) {c : CodePoint}
    (hc : isWordChar c = false) (rest : Str) :
    lex float .between (decimalDigits n ++ c :: rest) = .atom (.int n) :: lex float .between (c :: rest) := by
  obtain ⟨d, ds, hcons⟩ := exists_decimalDigits n
  have hall : ∀ e ∈ ds, isWordChar e = true := fun e he =>
    isWordChar_of_isDigit (isDigit_of_mem (hcons ▸ List.mem_cons_of_mem _ he))
  have hfirst : lex float .between (d :: (ds ++ c :: rest)) = lex float (.word [d]) (ds ++ c :: rest) := by
    rw [lex, start_of_isDigit (isDigit_of_mem (hcons ▸ List.mem_cons_self))]
    rfl
  rw [hcons, List.cons_append, hfirst, lex_word float hall, lex_wordEnd float hc, List.singleton_append, ← hcons,
    wordToken_decimal float h]

/-- A string without escapes in front of something else. -/
theorem lex_str (float : Str → PyFloat) {text : Str} (h : ∀ c ∈ text, c ≠ code '"' ∧ c ≠ code '\\' ∧ ¬ c < 0x20)
    (rest : Str) : lex float .between (code '"' :: text ++ code '"' :: rest) =
    .str text :: lex float .between rest := by
  have hfirst : lex float .between (code '"' :: (text ++ code '"' :: rest)) =
      lex float (.string []) (text ++ code '"' :: rest) := rfl
  rw [List.cons_append, hfirst, lex_plain float h, List.nil_append, lex, if_pos rfl, joinSurrogates_plain]

end AgentOS.Py
