import AgentOS.Python.Json
import Mathlib.Algebra.GroupWithZero.Nat

/-!
# `json.dumps`

Serialization with the default separators `", "` and `": "`, and with every character outside of printable ASCII escaped
or, under `ensure_ascii=False`, only the control characters.  How a float is written (`float.__repr__`) is a parameter.

`length_encode_dumps` counts the bytes of the result: `dumpsSize` adds up what each character, separator and bracket
contributes.
-/

namespace AgentOS

private def hexDigit (n : Nat) : Char := "0123456789abcdef".toList.getD (n % 16) '0'

/-- `"\\u{0:04x}".format(n)`. -/
private def unicodeEscape (n : Nat) : List Char :=
  ['\\', 'u', hexDigit (n / 4096), hexDigit (n / 256), hexDigit (n / 16), hexDigit n]

/-- The two-character escapes of `ESCAPE_DCT`. -/
def shortEscape : Char → Option Char
  | '\\' => some '\\'
  | '"' => some '"'
  | '\x08' => some 'b'
  | '\x0c' => some 'f'
  | '\n' => some 'n'
  | '\r' => some 'r'
  | '\t' => some 't'
  | _ => none

/-- A character as `py_encode_basestring_ascii` writes it. -/
def escapeChar (c : Char) : List Char :=
  match shortEscape c with
  | some e => ['\\', e]
  | none =>
    let n := c.toNat
    if 0x20 ≤ n ∧ n ≤ 0x7E then [c]
    else if n < 0x10000 then unicodeEscape n
    else unicodeEscape (0xD800 + (n - 0x10000) / 1024) ++ unicodeEscape (0xDC00 + (n - 0x10000) % 1024)

def dumpsStr (s : String) : String := String.ofList ('"' :: s.toList.flatMap escapeChar ++ ['"'])

section

variable (reprFloat : PyFloat → String)

mutual

/-- `json.dumps(value)`. -/
def dumps : Json → String
  | .null => "null"
  | .bool true => "true"
  | .bool false => "false"
  | .int n => toString n
  | .float f => reprFloat f
  | .str s => dumpsStr s
  | .arr [] => "[]"
  | .arr (v :: vs) => "[" ++ dumps v ++ dumpsItems vs ++ "]"
  | .obj [] => "\x7b\x7d"
  | .obj (field :: fields) => "\x7b" ++ dumpsField field ++ dumpsFields fields ++ "\x7d"

def dumpsItems : List Json → String
  | [] => ""
  | v :: vs => ", " ++ dumps v ++ dumpsItems vs

def dumpsFields : List (String × Json) → String
  | [] => ""
  | field :: fields => ", " ++ dumpsField field ++ dumpsFields fields

def dumpsField : String × Json → String
  | (k, v) => dumpsStr k ++ ": " ++ dumps v

end

end

/-! ### `ensure_ascii=False` -/

/-- A character as `py_encode_basestring` writes it. -/
def escapeControl (c : Char) : List Char :=
  match shortEscape c with
  | some e => ['\\', e]
  | none => if c.toNat < 0x20 then unicodeEscape c.toNat else [c]

def dumpsPlainStr (s : String) : String := String.ofList ('"' :: s.toList.flatMap escapeControl ++ ['"'])

section

variable (reprFloat : PyFloat → String)

mutual

/-- `json.dumps(value, ensure_ascii=False)`. -/
def dumpsPlain : Json → String
  | .null => "null"
  | .bool true => "true"
  | .bool false => "false"
  | .int n => toString n
  | .float f => reprFloat f
  | .str s => dumpsPlainStr s
  | .arr [] => "[]"
  | .arr (v :: vs) => "[" ++ dumpsPlain v ++ dumpsPlainItems vs ++ "]"
  | .obj [] => "\x7b\x7d"
  | .obj (field :: fields) => "\x7b" ++ dumpsPlainField field ++ dumpsPlainFields fields ++ "\x7d"

def dumpsPlainItems : List Json → String
  | [] => ""
  | v :: vs => ", " ++ dumpsPlain v ++ dumpsPlainItems vs

def dumpsPlainFields : List (String × Json) → String
  | [] => ""
  | field :: fields => ", " ++ dumpsPlainField field ++ dumpsPlainFields fields

def dumpsPlainField : String × Json → String
  | (k, v) => dumpsPlainStr k ++ ": " ++ dumpsPlain v

end

end

/-! ### Size -/

/-- How many bytes `escapeChar` writes. -/
def escapedSize (c : Char) : Nat :=
  if (shortEscape c).isSome then 2
  else if 0x20 ≤ c.toNat ∧ c.toNat ≤ 0x7E then 1
  else if c.toNat < 0x10000 then 6
  else 12

def dumpsStrSize (s : String) : Nat := 2 + (s.toList.map escapedSize).sum

section

variable (reprFloat : PyFloat → String)

mutual

/-- How many bytes `json.dumps(value).encode("utf-8")` has. -/
def dumpsSize : Json → Nat
  | .null => 4
  | .bool true => 4
  | .bool false => 5
  | .int n => (encode (toString n)).length
  | .float f => (encode (reprFloat f)).length
  | .str s => dumpsStrSize s
  | .arr [] => 2
  | .arr (v :: vs) => 2 + dumpsSize v + dumpsItemsSize vs
  | .obj [] => 2
  | .obj (field :: fields) => 2 + dumpsFieldSize field + dumpsFieldsSize fields

def dumpsItemsSize : List Json → Nat
  | [] => 0
  | v :: vs => (2 + dumpsSize v) + dumpsItemsSize vs

def dumpsFieldsSize : List (String × Json) → Nat
  | [] => 0
  | field :: fields => (2 + dumpsFieldSize field) + dumpsFieldsSize fields

def dumpsFieldSize : String × Json → Nat
  | (k, v) => dumpsStrSize k + 2 + dumpsSize v

end

end

theorem encode_append (a b : String) : encode (a ++ b) = encode a ++ encode b := by
  rw [encode, String.toList_append, List.flatMap_append]
  rfl

private theorem hexDigit_ascii (n : Nat) : (hexDigit n).toNat < 0x80 := by
  have h : ∀ k < 16, (hexDigit k).toNat < 0x80 := by decide
  have hmod : hexDigit n = hexDigit (n % 16) := by
    rw [hexDigit, hexDigit, Nat.mod_mod]
  rw [hmod]
  exact h _ (Nat.mod_lt _ (by decide))

private theorem length_flatMap_encodeChar {cs : List Char} (h : ∀ c ∈ cs, c.toNat < 0x80) :
    (cs.flatMap encodeChar).length = cs.length := by
  induction cs with
  | nil => rfl
  | cons c cs ih =>
    have hc := h c List.mem_cons_self
    rw [List.flatMap_cons, List.length_append, ih fun x hx => h x (List.mem_cons_of_mem _ hx), encodeChar, if_pos hc]
    simp only [List.length_cons, List.length_nil]
    omega

private theorem unicodeEscape_ascii (n : Nat) : ∀ c ∈ unicodeEscape n, c.toNat < 0x80 := by
  intro c hc
  simp only [unicodeEscape, List.mem_cons, List.not_mem_nil, or_false] at hc
  rcases hc with rfl | rfl | rfl | rfl | rfl | rfl
  · decide
  · decide
  all_goals exact hexDigit_ascii _

private theorem shortEscape_ascii {c e : Char} (h : shortEscape c = some e) : e.toNat < 0x80 := by
  unfold shortEscape at h
  split at h
  all_goals first | (cases h; decide) | cases h

/-- `ensure_ascii`. -/
theorem escapeChar_ascii (c : Char) : ∀ x ∈ escapeChar c, x.toNat < 0x80 := by
  intro x hx
  unfold escapeChar at hx
  cases hs : shortEscape c with
  | some e =>
    simp only [hs, List.mem_cons, List.not_mem_nil, or_false] at hx
    rcases hx with rfl | rfl
    · decide
    · exact shortEscape_ascii hs
  | none =>
    simp only [hs] at hx
    split at hx
    · rw [List.mem_singleton.1 hx]
      omega
    · split at hx
      · exact unicodeEscape_ascii _ x hx
      · rcases List.mem_append.1 hx with hx | hx
        · exact unicodeEscape_ascii _ x hx
        · exact unicodeEscape_ascii _ x hx

theorem length_escapeChar (c : Char) : (escapeChar c).length = escapedSize c := by
  unfold escapeChar escapedSize
  cases shortEscape c with
  | some e => rfl
  | none =>
    simp only [Option.isSome_none, Bool.false_eq_true, ↓reduceIte]
    split
    · rfl
    · split
      · rfl
      · rfl

theorem length_encode_dumpsStr (s : String) : (encode (dumpsStr s)).length = dumpsStrSize s := by
  rw [encode, dumpsStr, String.toList_ofList, length_flatMap_encodeChar]
  · rw [List.length_append, List.length_cons, List.length_flatMap, dumpsStrSize]
    rw [show (fun c => (escapeChar c).length) = escapedSize from funext length_escapeChar, List.length_singleton]
    omega
  · intro c hc
    simp only [List.cons_append, List.mem_cons, List.mem_append, List.mem_flatMap, List.not_mem_nil, or_false] at hc
    rcases hc with rfl | ⟨x, -, hx⟩ | rfl
    · decide
    · exact escapeChar_ascii x c hx
    · decide

variable {reprFloat : PyFloat → String}

mutual

/-- The size of a serialized value, constructor by constructor. -/
theorem length_encode_dumps : ∀ v : Json, (encode (dumps reprFloat v)).length = dumpsSize reprFloat v
  | .null => by
    rw [dumps, dumpsSize]
    decide
  | .bool true => by
    rw [dumps, dumpsSize]
    decide
  | .bool false => by
    rw [dumps, dumpsSize]
    decide
  | .int _ => by rw [dumps, dumpsSize]
  | .float _ => by rw [dumps, dumpsSize]
  | .str s => length_encode_dumpsStr s
  | .arr [] => by
    rw [dumps, dumpsSize]
    decide
  | .arr (v :: vs) => by
    simp only [dumps, dumpsSize, encode_append, List.length_append, length_encode_dumps v, length_encode_dumpsItems vs]
    rw [show (encode "[").length = 1 by decide, show (encode "]").length = 1 by decide]
    omega
  | .obj [] => by
    rw [dumps, dumpsSize]
    decide
  | .obj (field :: fields) => by
    simp only [dumps, dumpsSize, encode_append, List.length_append, length_encode_dumpsField field,
      length_encode_dumpsFields fields]
    rw [show (encode "\x7b").length = 1 by decide, show (encode "\x7d").length = 1 by decide]
    omega

theorem length_encode_dumpsItems : ∀ vs : List Json,
    (encode (dumpsItems reprFloat vs)).length = dumpsItemsSize reprFloat vs
  | [] => rfl
  | v :: vs => by
    simp only [dumpsItems, dumpsItemsSize, encode_append, List.length_append, length_encode_dumps v,
      length_encode_dumpsItems vs]
    rw [show (encode ", ").length = 2 by decide]

theorem length_encode_dumpsFields : ∀ fields : List (String × Json),
    (encode (dumpsFields reprFloat fields)).length = dumpsFieldsSize reprFloat fields
  | [] => rfl
  | field :: fields => by
    simp only [dumpsFields, dumpsFieldsSize, encode_append, List.length_append, length_encode_dumpsField field,
      length_encode_dumpsFields fields]
    rw [show (encode ", ").length = 2 by decide]

theorem length_encode_dumpsField : ∀ field : String × Json,
    (encode (dumpsField reprFloat field)).length = dumpsFieldSize reprFloat field
  | (k, v) => by
    simp only [dumpsField, dumpsFieldSize, encode_append, List.length_append, length_encode_dumps v,
      length_encode_dumpsStr]
    rw [show (encode ": ").length = 2 by decide]

end

/-! ### The text as a list of characters -/

/-- A `\\u` escape. -/
def hexEscape (n : Nat) : List Char :=
  ['\\', 'u', (n / 4096 % 16).digitChar, (n / 256 % 16).digitChar, (n / 16 % 16).digitChar, (n % 16).digitChar]

private theorem unicodeEscape_eq (n : Nat) : unicodeEscape n = hexEscape n := by
  have h : ∀ k < 16, hexDigit k = k.digitChar := by decide
  have hmod : ∀ k, hexDigit k = (k % 16).digitChar := by
    intro k
    have hself : hexDigit k = hexDigit (k % 16) := by rw [hexDigit, hexDigit, Nat.mod_mod]
    rw [hself]
    exact h _ (Nat.mod_lt _ (by decide))
  simp only [unicodeEscape, hexEscape, hmod]

theorem escapeChar_of_short {c e : Char} (h : shortEscape c = some e) : escapeChar c = ['\\', e] := by
  simp [escapeChar, h]

theorem escapeControl_of_short {c e : Char} (h : shortEscape c = some e) : escapeControl c = ['\\', e] := by
  simp [escapeControl, h]

theorem escapeChar_of_long {c : Char} (h : shortEscape c = none) : escapeChar c =
    if 0x20 ≤ c.toNat ∧ c.toNat ≤ 0x7E then [c]
    else if c.toNat < 0x10000 then hexEscape c.toNat
    else hexEscape (0xD800 + (c.toNat - 0x10000) / 1024) ++ hexEscape (0xDC00 + (c.toNat - 0x10000) % 1024) := by
  simp [escapeChar, h, unicodeEscape_eq]

theorem escapeControl_of_long {c : Char} (h : shortEscape c = none) : escapeControl c =
    if c.toNat < 0x20 then hexEscape c.toNat else [c] := by
  simp [escapeControl, h, unicodeEscape_eq]

/-- How a serializer lays a value out: `ensure_ascii`, and the blanks behind an opening bracket, behind a comma and in
front of a closing bracket, each at a depth, and behind a colon. -/
structure JsonLayout where
  ensureAscii : Bool
  opening : Nat → List Char
  comma : Nat → List Char
  closing : Nat → List Char
  colon : List Char
  opening_blank : ∀ depth, ∀ c ∈ opening depth, c = ' ' ∨ c = '\n'
  comma_blank : ∀ depth, ∀ c ∈ comma depth, c = ' ' ∨ c = '\n'
  closing_blank : ∀ depth, ∀ c ∈ closing depth, c = ' ' ∨ c = '\n'
  colon_blank : ∀ c ∈ colon, c = ' ' ∨ c = '\n'

namespace JsonLayout

/-- A line break, and the spaces in front of what stands at a depth. -/
def newline (width depth : Nat) : List Char := '\n' :: List.replicate (width * depth) ' '

theorem newline_blank (width depth : Nat) : ∀ c ∈ newline width depth, c = ' ' ∨ c = '\n' := by
  intro c hc
  rcases List.mem_cons.1 hc with hc | hc
  · exact .inr hc
  · exact .inl (List.eq_of_mem_replicate hc)

/-- `json.dumps(value)`. -/
def plain : JsonLayout where
  ensureAscii := true
  opening _ := []
  comma _ := [' ']
  closing _ := []
  colon := [' ']
  opening_blank := by simp
  comma_blank := by simp
  closing_blank := by simp
  colon_blank := by simp

/-- `json.dumps(value, ensure_ascii=False)`. -/
def plainText : JsonLayout := { plain with ensureAscii := false }

/-- `json.dumps(value, indent=width)`. -/
def indent (width : Nat) : JsonLayout where
  ensureAscii := true
  opening depth := newline width (depth + 1)
  comma depth := newline width (depth + 1)
  closing depth := newline width depth
  colon := [' ']
  opening_blank depth := newline_blank width (depth + 1)
  comma_blank depth := newline_blank width (depth + 1)
  closing_blank depth := newline_blank width depth
  colon_blank := by simp

def escape (layout : JsonLayout) : Char → List Char := if layout.ensureAscii then escapeChar else escapeControl

theorem escape_pos (layout : JsonLayout) (c : Char) : 0 < (layout.escape c).length := by
  unfold escape
  cases layout.ensureAscii with
  | true =>
    rw [if_pos rfl, length_escapeChar]
    unfold escapedSize
    repeat' split
    all_goals exact Nat.zero_lt_succ _
  | false =>
    rw [if_neg (by decide)]
    unfold escapeControl
    split
    · exact Nat.zero_lt_succ _
    · split <;> exact Nat.zero_lt_succ _

def str (layout : JsonLayout) (s : String) : List Char := '"' :: (s.toList.flatMap layout.escape ++ ['"'])

variable (layout : JsonLayout) (reprFloat : PyFloat → String)

mutual

/-- The text of a value at a depth. -/
def render (depth : Nat) : Json → List Char
  | .null => "null".toList
  | .bool true => "true".toList
  | .bool false => "false".toList
  | .int n => (toString n).toList
  | .float f => (reprFloat f).toList
  | .str s => layout.str s
  | .arr [] => ['[', ']']
  | .arr (v :: vs) =>
    '[' :: (layout.opening depth ++ render (depth + 1) v ++ renderItems depth vs ++ layout.closing depth ++ [']'])
  | .obj [] => ['\x7b', '\x7d']
  | .obj (field :: fields) =>
    '\x7b' :: (layout.opening depth ++ renderField depth field ++ renderFields depth fields ++ layout.closing depth ++
      ['\x7d'])

def renderItems (depth : Nat) : List Json → List Char
  | [] => []
  | v :: vs => ',' :: (layout.comma depth ++ render (depth + 1) v ++ renderItems depth vs)

def renderFields (depth : Nat) : List (String × Json) → List Char
  | [] => []
  | field :: fields => ',' :: (layout.comma depth ++ renderField depth field ++ renderFields depth fields)

def renderField (depth : Nat) : String × Json → List Char
  | (k, v) => layout.str k ++ ':' :: (layout.colon ++ render (depth + 1) v)

end

variable {reprFloat}

mutual

theorem toList_dumps : ∀ (depth : Nat) (v : Json), (dumps reprFloat v).toList = plain.render reprFloat depth v
  | _, .null => rfl
  | _, .bool true => rfl
  | _, .bool false => rfl
  | _, .int _ => rfl
  | _, .float _ => rfl
  | _, .str s => by simp [dumps, render, dumpsStr, str, escape, plain]
  | _, .arr [] => by
    rw [dumps, render]
    decide
  | depth, .arr (v :: vs) => by
    simp [dumps, render, toList_dumps (depth + 1) v, toList_dumpsItems depth vs, plain]
  | _, .obj [] => by
    rw [dumps, render]
    decide
  | depth, .obj (field :: fields) => by
    simp [dumps, render, toList_dumpsField depth field, toList_dumpsFields depth fields, plain]

theorem toList_dumpsItems : ∀ (depth : Nat) (vs : List Json),
    (dumpsItems reprFloat vs).toList = plain.renderItems reprFloat depth vs
  | _, [] => rfl
  | depth, v :: vs => by
    simp [dumpsItems, renderItems, toList_dumps (depth + 1) v, toList_dumpsItems depth vs, plain]

theorem toList_dumpsFields : ∀ (depth : Nat) (fields : List (String × Json)),
    (dumpsFields reprFloat fields).toList = plain.renderFields reprFloat depth fields
  | _, [] => rfl
  | depth, field :: fields => by
    simp [dumpsFields, renderFields, toList_dumpsField depth field, toList_dumpsFields depth fields, plain]

theorem toList_dumpsField : ∀ (depth : Nat) (field : String × Json),
    (dumpsField reprFloat field).toList = plain.renderField reprFloat depth field
  | depth, (k, v) => by
    simp [dumpsField, renderField, toList_dumps (depth + 1) v, dumpsStr, str, escape, plain]

end

mutual

theorem toList_dumpsPlain : ∀ (depth : Nat) (v : Json),
    (dumpsPlain reprFloat v).toList = plainText.render reprFloat depth v
  | _, .null => rfl
  | _, .bool true => rfl
  | _, .bool false => rfl
  | _, .int _ => rfl
  | _, .float _ => rfl
  | _, .str s => by simp [dumpsPlain, render, dumpsPlainStr, str, escape, plainText]
  | _, .arr [] => by
    rw [dumpsPlain, render]
    decide
  | depth, .arr (v :: vs) => by
    simp [dumpsPlain, render, toList_dumpsPlain (depth + 1) v, toList_dumpsPlainItems depth vs, plainText, plain]
  | _, .obj [] => by
    rw [dumpsPlain, render]
    decide
  | depth, .obj (field :: fields) => by
    simp [dumpsPlain, render, toList_dumpsPlainField depth field, toList_dumpsPlainFields depth fields, plainText,
      plain]

theorem toList_dumpsPlainItems : ∀ (depth : Nat) (vs : List Json),
    (dumpsPlainItems reprFloat vs).toList = plainText.renderItems reprFloat depth vs
  | _, [] => rfl
  | depth, v :: vs => by
    simp [dumpsPlainItems, renderItems, toList_dumpsPlain (depth + 1) v, toList_dumpsPlainItems depth vs, plainText,
      plain]

theorem toList_dumpsPlainFields : ∀ (depth : Nat) (fields : List (String × Json)),
    (dumpsPlainFields reprFloat fields).toList = plainText.renderFields reprFloat depth fields
  | _, [] => rfl
  | depth, field :: fields => by
    simp [dumpsPlainFields, renderFields, toList_dumpsPlainField depth field, toList_dumpsPlainFields depth fields,
      plainText, plain]

theorem toList_dumpsPlainField : ∀ (depth : Nat) (field : String × Json),
    (dumpsPlainField reprFloat field).toList = plainText.renderField reprFloat depth field
  | depth, (k, v) => by
    simp [dumpsPlainField, renderField, toList_dumpsPlain (depth + 1) v, dumpsPlainStr, str, escape, plainText, plain]

end

end JsonLayout

end AgentOS
