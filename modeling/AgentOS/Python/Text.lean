/-!
# Text and bytes

`str.encode("utf-8")`, `bytes.decode("utf-8", errors="replace")` and `str.strip` as the outbox uses them.  The decoder
reads one byte at a time and keeps the sequence it is in the middle of; a byte that cannot continue the sequence turns
it into one replacement character and is read again as a first byte.

* `decode_encode`: decoding what `encode` wrote gives the text back.
* `newline_notMem_encode`: the encoding of a text without `"\n"` has no newline byte.
-/

namespace AgentOS

/-- A continuation byte carrying six bits. -/
private def tailByte (n : Nat) : UInt8 := UInt8.ofNat (0x80 + n % 64)

/-- The UTF-8 encoding of a character. -/
def encodeChar (c : Char) : List UInt8 :=
  let n := c.toNat
  if n < 0x80 then [UInt8.ofNat n]
  else if n < 0x800 then [UInt8.ofNat (0xC0 + n / 64), tailByte n]
  else if n < 0x10000 then [UInt8.ofNat (0xE0 + n / 4096), tailByte (n / 64), tailByte n]
  else [UInt8.ofNat (0xF0 + n / 262144), tailByte (n / 4096), tailByte (n / 64), tailByte n]

/-- `text.encode("utf-8")`. -/
def encode (text : String) : List UInt8 := text.toList.flatMap encodeChar

/-- A sequence the decoder is in the middle of: its bits so far, the bytes still needed, and the range of the next. -/
structure Partial where
  bits : Nat
  needed : Nat
  lower : Nat
  upper : Nat

def replacementChar : Char := '\uFFFD'

/-- The decoder on the first byte of a sequence. -/
def decodeFirst (b : Nat) : List Char × Option Partial :=
  if b < 0x80 then ([Char.ofNat b], none)
  else if 0xC2 ≤ b ∧ b ≤ 0xDF then ([], some ⟨b - 0xC0, 1, 0x80, 0xBF⟩)
  else if 0xE0 ≤ b ∧ b ≤ 0xEF then
    ([], some ⟨b - 0xE0, 2, if b = 0xE0 then 0xA0 else 0x80, if b = 0xED then 0x9F else 0xBF⟩)
  else if 0xF0 ≤ b ∧ b ≤ 0xF4 then
    ([], some ⟨b - 0xF0, 3, if b = 0xF0 then 0x90 else 0x80, if b = 0xF4 then 0x8F else 0xBF⟩)
  else ([replacementChar], none)

/-- The decoder in the middle of `pending`, or between sequences. -/
def decodeFrom : Option Partial → List UInt8 → List Char
  | none, [] => []
  | some _, [] => [replacementChar]
  | none, b :: bs => (decodeFirst b.toNat).1 ++ decodeFrom (decodeFirst b.toNat).2 bs
  | some p, b :: bs =>
    if p.lower ≤ b.toNat ∧ b.toNat ≤ p.upper then
      let bits := p.bits * 64 + (b.toNat - 0x80)
      if p.needed ≤ 1 then Char.ofNat bits :: decodeFrom none bs
      else decodeFrom (some ⟨bits, p.needed - 1, 0x80, 0xBF⟩) bs
    else replacementChar :: ((decodeFirst b.toNat).1 ++ decodeFrom (decodeFirst b.toNat).2 bs)

/-- `data.decode("utf-8", errors="replace")`. -/
def decode (data : List UInt8) : String := String.ofList (decodeFrom none data)

/-- `str.isspace` of one character. -/
def isspace (c : Char) : Bool :=
  let n := c.toNat
  (0x09 ≤ n && n ≤ 0x0D) || (0x1C ≤ n && n ≤ 0x20) || n == 0x85 || n == 0xA0 || n == 0x1680 ||
    (0x2000 ≤ n && n ≤ 0x200A) || n == 0x2028 || n == 0x2029 || n == 0x202F || n == 0x205F || n == 0x3000

/-- `not text.strip()`. -/
def isBlank (text : String) : Bool := text.toList.all isspace

/-! ### Round trip -/

private theorem decodeFrom_first (b : UInt8) (bs : List UInt8) :
    decodeFrom none (b :: bs) = (decodeFirst b.toNat).1 ++ decodeFrom (decodeFirst b.toNat).2 bs := rfl

private theorem toNat_ofNat {n : Nat} (h : n < 256) : (UInt8.ofNat n).toNat = n := by
  rw [UInt8.toNat_ofNat']
  omega

private theorem toNat_tailByte (n : Nat) : (tailByte n).toNat = 0x80 + n % 64 :=
  toNat_ofNat (by omega)

private theorem decodeFrom_tail {p : Partial} (n : Nat) (hl : p.lower ≤ 0x80 + n % 64) (hu : 0x80 + n % 64 ≤ p.upper)
    (hp : 1 < p.needed) (bs : List UInt8) :
    decodeFrom (some p) (tailByte n :: bs) =
      decodeFrom (some ⟨p.bits * 64 + n % 64, p.needed - 1, 0x80, 0xBF⟩) bs := by
  rw [decodeFrom, toNat_tailByte, if_pos ⟨hl, hu⟩, if_neg (by omega)]
  simp only [Nat.add_sub_cancel_left]

private theorem decodeFrom_last {p : Partial} (n : Nat) (hl : p.lower ≤ 0x80 + n % 64) (hu : 0x80 + n % 64 ≤ p.upper)
    (hp : p.needed ≤ 1) (bs : List UInt8) :
    decodeFrom (some p) (tailByte n :: bs) = Char.ofNat (p.bits * 64 + n % 64) :: decodeFrom none bs := by
  rw [decodeFrom, toNat_tailByte, if_pos ⟨hl, hu⟩, if_pos hp]
  simp only [Nat.add_sub_cancel_left]

theorem decodeFrom_encodeChar (c : Char) (bs : List UInt8) :
    decodeFrom none (encodeChar c ++ bs) = c :: decodeFrom none bs := by
  have hvalid : c.toNat < 0xD800 ∨ 0xDFFF < c.toNat ∧ c.toNat < 0x110000 := c.valid
  have hc : Char.ofNat c.toNat = c := Char.ofNat_toNat c
  generalize hn : c.toNat = n at hvalid hc
  unfold encodeChar
  simp only [hn]
  split
  · rename_i h
    rw [List.cons_append, List.nil_append, decodeFrom_first, toNat_ofNat (by omega), decodeFirst, if_pos h, hc]
    rfl
  · split
    · rename_i h₁ h₂
      rw [List.cons_append, List.cons_append, List.nil_append, decodeFrom_first, toNat_ofNat (by omega), decodeFirst,
        if_neg (by omega), if_pos (by omega)]
      simp only [List.nil_append]
      rw [decodeFrom_last n (by simp only; omega) (by simp only; omega) (by simp only; omega)]
      simp only
      rw [show (0xC0 + n / 64 - 0xC0) * 64 + n % 64 = n by omega, hc]
    · split
      · rename_i h₁ h₂ h₃
        rw [List.cons_append, List.cons_append, List.cons_append, List.nil_append, decodeFrom_first,
          toNat_ofNat (by omega), decodeFirst, if_neg (by omega), if_neg (by omega), if_pos (by omega)]
        simp only [List.nil_append]
        rw [decodeFrom_tail (n / 64) (by simp only; split <;> omega) (by simp only; split <;> omega)
            (by simp only; omega),
          decodeFrom_last n (by simp only; omega) (by simp only; omega) (by simp only; omega)]
        simp only
        rw [show ((0xE0 + n / 4096 - 0xE0) * 64 + n / 64 % 64) * 64 + n % 64 = n by omega, hc]
      · rename_i h₁ h₂ h₃
        have hlt : n < 0x110000 := by omega
        rw [List.cons_append, List.cons_append, List.cons_append, List.cons_append, List.nil_append, decodeFrom_first,
          toNat_ofNat (by omega), decodeFirst, if_neg (by omega), if_neg (by omega), if_neg (by omega),
          if_pos (by omega)]
        simp only [List.nil_append]
        rw [decodeFrom_tail (n / 4096) (by simp only; split <;> omega) (by simp only; split <;> omega)
            (by simp only; omega),
          decodeFrom_tail (n / 64) (by simp only; omega) (by simp only; omega) (by simp only; omega),
          decodeFrom_last n (by simp only; omega) (by simp only; omega) (by simp only; omega)]
        simp only
        rw [show (((0xF0 + n / 262144 - 0xF0) * 64 + n / 4096 % 64) * 64 + n / 64 % 64) * 64 + n % 64 = n by omega, hc]

/-- Decoding gives back what was encoded. -/
theorem decode_encode (text : String) : decode (encode text) = text := by
  have h : ∀ cs : List Char, decodeFrom none (cs.flatMap encodeChar) = cs := by
    intro cs
    induction cs with
    | nil => rfl
    | cons c cs ih => rw [List.flatMap_cons, decodeFrom_encodeChar, ih]
  rw [decode, encode, h, String.ofList_toList]

/-- `"\n"`. -/
def newline : UInt8 := 10

theorem newline_notMem_encode {text : String} (h : '\n' ∉ text.toList) : newline ∉ encode text := by
  intro hmem
  obtain ⟨c, hc, hb⟩ := List.mem_flatMap.1 hmem
  have hne : c.toNat ≠ 10 := by
    intro h10
    refine h ((?_ : c = '\n') ▸ hc)
    rw [← Char.ofNat_toNat c, h10]
  have hhead : ∀ n, 0x80 ≤ n → n < 256 → newline ≠ UInt8.ofNat n := by
    intro n h₁ h₂ heq
    have := congrArg UInt8.toNat heq
    rw [toNat_ofNat h₂, show newline.toNat = 10 from rfl] at this
    omega
  have htail : ∀ n, newline ≠ tailByte n := fun n => hhead _ (by omega) (by omega)
  have hvalid : c.toNat < 0xD800 ∨ 0xDFFF < c.toNat ∧ c.toNat < 0x110000 := c.valid
  unfold encodeChar at hb
  simp only at hb
  split at hb
  · have := congrArg UInt8.toNat (List.mem_singleton.1 hb)
    rw [toNat_ofNat (by omega), show newline.toNat = 10 from rfl] at this
    omega
  · split at hb
    · simp only [List.mem_cons, List.not_mem_nil, or_false] at hb
      exact hb.elim (hhead _ (by omega) (by omega)) (htail _)
    · split at hb
      · simp only [List.mem_cons, List.not_mem_nil, or_false] at hb
        rcases hb with hb | hb | hb
        · exact hhead _ (by omega) (by omega) hb
        · exact htail _ hb
        · exact htail _ hb
      · simp only [List.mem_cons, List.not_mem_nil, or_false] at hb
        rcases hb with hb | hb | hb | hb
        · exact hhead _ (by omega) (by omega) hb
        · exact htail _ hb
        · exact htail _ hb
        · exact htail _ hb

end AgentOS
