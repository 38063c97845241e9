import AgentOS.Python.Values

/-!
# Strict decoding

`bytes.decode("utf-8")` as `Path.read_text` uses it, and the decoding of `json.loads` of bytes: the encoding is detected
from the byte order mark or the first zero bytes, and encoded surrogates pass.
-/

namespace AgentOS.Py

/-- A sequence the decoder is in the middle of, after the first byte `b`; `pass` admits encoded surrogates. -/
def utf8Lead (pass : Bool) (b : Nat) : Option Partial :=
  if 0xC2 ≤ b ∧ b ≤ 0xDF then some ⟨b - 0xC0, 1, 0x80, 0xBF⟩
  else if 0xE0 ≤ b ∧ b ≤ 0xEF then
    some ⟨b - 0xE0, 2, if b = 0xE0 then 0xA0 else 0x80, if b = 0xED ∧ !pass then 0x9F else 0xBF⟩
  else if 0xF0 ≤ b ∧ b ≤ 0xF4 then
    some ⟨b - 0xF0, 3, if b = 0xF0 then 0x90 else 0x80, if b = 0xF4 then 0x8F else 0xBF⟩
  else none

def utf8From (pass : Bool) : Option Partial → List UInt8 → Option Str
  | none, [] => some []
  | some _, [] => none
  | none, b :: bs =>
    if b.toNat < 0x80 then (utf8From pass none bs).map (Fin.ofNat 0x110000 b.toNat :: ·)
    else match utf8Lead pass b.toNat with
      | some p => utf8From pass (some p) bs
      | none => none
  | some p, b :: bs =>
    if p.lower ≤ b.toNat ∧ b.toNat ≤ p.upper then
      let bits := p.bits * 64 + (b.toNat - 0x80)
      if p.needed ≤ 1 then (utf8From pass none bs).map (Fin.ofNat 0x110000 bits :: ·)
      else utf8From pass (some ⟨bits, p.needed - 1, 0x80, 0xBF⟩) bs
    else none

/-- `data.decode("utf-8")`, with `errors="surrogatepass"` where `pass`; `none` is a `UnicodeDecodeError`. -/
def utf8 (pass : Bool) (data : List UInt8) : Option Str := utf8From pass none data

/-- The units of two bytes. -/
def units16 (big : Bool) : List UInt8 → Option (List Nat)
  | [] => some []
  | [_] => none
  | a :: b :: rest =>
    (units16 big rest).map ((if big then a.toNat * 256 + b.toNat else b.toNat * 256 + a.toNat) :: ·)

/-- The units of four bytes. -/
def units32 (big : Bool) : List UInt8 → Option (List Nat)
  | [] => some []
  | a :: b :: c :: d :: rest =>
    let (a, b, c, d) := if big then (a, b, c, d) else (d, c, b, a)
    (units32 big rest).map ((((a.toNat * 256 + b.toNat) * 256 + c.toNat) * 256 + d.toNat) :: ·)
  | _ => none

def isHighSurrogate (n : Nat) : Bool := 0xD800 ≤ n && n ≤ 0xDBFF

def isLowSurrogate (n : Nat) : Bool := 0xDC00 ≤ n && n ≤ 0xDFFF

/-- A code point that no text of a file has. -/
def isSurrogate (c : CodePoint) : Bool := isHighSurrogate c.val || isLowSurrogate c.val

/-- `text.encode("utf-8")`: a surrogate cannot be encoded. -/
def encodeStr (text : Str) : Except Error (List UInt8) :=
  if text.any isSurrogate then .error .unicodeEncodeError else .ok (text.flatMap fun c => encodeChar (Char.ofNat c.val))

/-- The code point of a surrogate pair. -/
def joinPair (high low : Nat) : CodePoint := Fin.ofNat 0x110000 (0x10000 + (high - 0xD800) * 1024 + (low - 0xDC00))

/-- `data.decode("utf-16-le", "surrogatepass")`: a surrogate without its partner passes. -/
def utf16 : List Nat → Str
  | [] => []
  | [u] => [Fin.ofNat 0x110000 u]
  | u :: v :: rest =>
    if isHighSurrogate u ∧ isLowSurrogate v then joinPair u v :: utf16 rest
    else Fin.ofNat 0x110000 u :: utf16 (v :: rest)

def utf32 (units : List Nat) : Option Str :=
  if units.all (· < 0x110000) then some (units.map (Fin.ofNat 0x110000)) else none

/-- `data.decode(detect_encoding(data), "surrogatepass")`. -/
def decodeJson (data : List UInt8) : Option Str :=
  let utf16? big rest := (units16 big rest).map utf16
  let utf32? big rest := (units32 big rest).bind utf32
  match data with
  | 0 :: 0 :: 0xFE :: 0xFF :: rest => utf32? true rest
  | 0xFF :: 0xFE :: 0 :: 0 :: rest => utf32? false rest
  | 0xFE :: 0xFF :: rest => utf16? true rest
  | 0xFF :: 0xFE :: rest => utf16? false rest
  | 0xEF :: 0xBB :: 0xBF :: rest => utf8 true rest
  | a :: b :: c :: d :: _ =>
    if a = 0 then (if b ≠ 0 then utf16? true data else utf32? true data)
    else if b = 0 then (if c ≠ 0 ∨ d ≠ 0 then utf16? false data else utf32? false data)
    else utf8 true data
  | [a, b] => if a = 0 then utf16? true data else if b = 0 then utf16? false data else utf8 true data
  | _ => utf8 true data

/-- Text without a surrogate. -/
def Encodable (text : Str) : Prop := ∀ c ∈ text, isSurrogate c = false

theorem encodeStr_ok_iff {text : Str} : (∃ data, encodeStr text = .ok data) ↔ Encodable text := by
  rw [encodeStr]
  split
  · rename_i hany
    refine iff_of_false (by simp) fun h => ?_
    obtain ⟨c, hc, hsurrogate⟩ := List.any_eq_true.1 hany
    rw [h c hc] at hsurrogate
    cases hsurrogate
  · rename_i hnone
    refine iff_of_true ⟨_, rfl⟩ fun c hc => ?_
    exact Bool.eq_false_iff.2 fun hsurrogate => hnone (List.any_eq_true.2 ⟨c, hc, hsurrogate⟩)

/-- ASCII text is read as it was written. -/
theorem utf8_encode {text : String} (h : ∀ c ∈ text.toList, c.toNat < 0x80) (pass : Bool) :
    utf8 pass (encode text) = some (lit text) := by
  have hall : ∀ cs : List Char, (∀ c ∈ cs, c.toNat < 0x80) →
      utf8From pass none (cs.flatMap encodeChar) = some (cs.map code) := by
    intro cs hcs
    induction cs with
    | nil => rfl
    | cons c cs ih =>
      have hc := hcs c List.mem_cons_self
      have hbyte : (UInt8.ofNat c.toNat).toNat = c.toNat := by
        rw [UInt8.toNat_ofNat']
        omega
      have hencode : encodeChar c = [UInt8.ofNat c.toNat] := by
        unfold encodeChar
        exact if_pos hc
      rw [List.flatMap_cons, hencode, List.singleton_append, utf8From, if_pos (by rw [hbyte]; exact hc), hbyte,
        ih fun d hd => hcs d (List.mem_cons_of_mem _ hd)]
      rfl
  exact hall _ h

end AgentOS.Py
