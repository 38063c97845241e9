import AgentOS.Python.Strings
import Mathlib.Algebra.Group.Nat.Defs
import Mathlib.Data.List.GetD

/-!
# Prefixed ULIDs

The generator of `contracts/identifiers.py`, whose clock and random bytes are arguments, and its validators.
-/

namespace AgentOS

/-- `_CROCKFORD`. -/
def crockford : List Char := "0123456789ABCDEFGHJKMNPQRSTVWXYZ".toList

/-- The loop of `_encode_crockford`: the digits from the last one on, and what is left of the value. -/
def crockfordDigits : Nat → Nat → List Char × Nat
  | value, 0 => ([], value)
  | value, length + 1 =>
    let (chars, rest) := crockfordDigits (value / 32) length
    (crockford.getD (value % 32) '0' :: chars, rest)

/-- `_encode_crockford`; `none` where it raises. -/
def encodeCrockford (value length : Nat) : Option String :=
  let (chars, rest) := crockfordDigits value length
  if rest = 0 then some (String.ofList chars.reverse) else none

/-- `ULID_LENGTH`. -/
def ulidLength : Nat := 26

/-- `_MAX_TIMESTAMP`. -/
def maxTimestamp : Nat := 2 ^ 48 - 1

/-- `generate_ulid`, with the 80 bits of `os.urandom`; `none` where it raises. -/
def generateUlid (timestampMs : Nat) (randomness : BitVec 80) : Option String :=
  if timestampMs ≤ maxTimestamp then encodeCrockford (timestampMs <<< 80 ||| randomness.toNat) ulidLength else none

/-- `is_valid_ulid`. -/
def isValidUlid (value : String) : Bool :=
  value.length = ulidLength && value.toList.head?.any ("01234567".toList.contains ·) &&
    value.toList.all (crockford.contains ·)

/-- `KNOWN_PREFIXES`. -/
def knownPrefixes : List String :=
  ["evt", "task", "mach", "repo", "proj", "agent", "sess", "mem", "prop", "grant"]

/-- `new_id`; `none` where it raises. -/
def newId (stem : String) (timestampMs : Nat) (randomness : BitVec 80) : Option String :=
  if stem ∈ knownPrefixes then (generateUlid timestampMs randomness).map fun ulid => stem ++ "_" ++ ulid else none

/-- `split_id`; `none` where it raises. -/
def splitId (value : String) : Option (String × String) :=
  match partition? '_' value with
  | none => none
  | some (stem, body) => if stem ∈ knownPrefixes ∧ isValidUlid body then some (stem, body) else none

private theorem mem_crockfordDigits {value length : Nat} {c : Char} (h : c ∈ (crockfordDigits value length).1) :
    c ∈ crockford := by
  induction length generalizing value with
  | zero => cases h
  | succ length ih =>
    rw [crockfordDigits] at h
    rcases List.mem_cons.1 h with rfl | h
    · have hlt : value % 32 < crockford.length := Nat.mod_lt _ (by decide)
      rw [List.getD_eq_getElem _ _ hlt]
      exact List.getElem_mem hlt
    · exact ih h

theorem crockfordDigits_rest (value length : Nat) : (crockfordDigits value length).2 = value / 32 ^ length := by
  induction length generalizing value with
  | zero => rw [crockfordDigits, Nat.pow_zero, Nat.div_one]
  | succ length ih =>
    rw [crockfordDigits, Nat.pow_succ', ← Nat.div_div_eq_div_mul]
    exact ih (value / 32)

/-- Within the range of the clock, a ULID is generated. -/
theorem isSome_generateUlid {timestampMs : Nat} (h : timestampMs ≤ maxTimestamp) (randomness : BitVec 80) :
    (generateUlid timestampMs randomness).isSome := by
  have hlt : timestampMs <<< 80 ||| randomness.toNat < 2 ^ 128 := by
    refine Nat.or_lt_two_pow ?_ (Nat.lt_of_lt_of_le randomness.isLt (Nat.pow_le_pow_right (by decide) (by decide)))
    rw [Nat.shiftLeft_eq]
    unfold maxTimestamp at h
    omega
  have hrest : (crockfordDigits (timestampMs <<< 80 ||| randomness.toNat) ulidLength).2 = 0 := by
    rw [crockfordDigits_rest]
    exact Nat.div_eq_of_lt (Nat.lt_trans hlt (by decide))
  unfold generateUlid encodeCrockford
  rw [if_pos h]
  dsimp only
  rw [if_pos hrest]
  rfl

/-- A ULID is spelled in the alphabet of Crockford. -/
theorem mem_of_generateUlid {timestampMs : Nat} {randomness : BitVec 80} {ulid : String}
    (h : generateUlid timestampMs randomness = some ulid) : ∀ c ∈ ulid.toList, c ∈ crockford := by
  unfold generateUlid encodeCrockford at h
  split at h
  · dsimp only at h
    split at h
    · obtain rfl := Option.some.inj h
      intro c hc
      rw [String.toList_ofList, List.mem_reverse] at hc
      exact mem_crockfordDigits hc
    · cases h
  · cases h

end AgentOS
