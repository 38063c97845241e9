import AgentOS.Python.Json
import Mathlib.Algebra.Group.Int.Defs
import Mathlib.Algebra.Group.Nat.Defs
import Mathlib.Data.List.DropRight

/-!
# Python text and values

A `str` is a list of code points, among which there may be surrogates; the values are those that `json.loads` builds.
Which code points are decimal digits (`decimal`) is a table of the interpreter and a parameter.
-/

namespace AgentOS.Py

/-- A code point; unlike a `Char` it may be a surrogate. -/
abbrev CodePoint := Fin 0x110000

instance neZeroCodePoints : @NeZero Nat Zero.ofOfNat0 0x110000 := ⟨Nat.succ_ne_zero _⟩

instance lawfulBEqCodePoint : LawfulBEq CodePoint := inferInstance

/-- `str`. -/
abbrev Str := List CodePoint

instance lawfulBEqStr : LawfulBEq Str := List.instLawfulBEq

def code (c : Char) : CodePoint := Fin.ofNat 0x110000 c.toNat

/-- The text of a literal. -/
def lit (text : String) : Str := text.toList.map code

/-- `str.isspace` of one code point. -/
def isspace (c : CodePoint) : Bool :=
  let n := c.val
  (0x09 ≤ n && n ≤ 0x0D) || (0x1C ≤ n && n ≤ 0x20) || n == 0x85 || n == 0xA0 || n == 0x1680 ||
    (0x2000 ≤ n && n ≤ 0x200A) || n == 0x2028 || n == 0x2029 || n == 0x202F || n == 0x205F || n == 0x3000

/-- `text.strip()`. -/
def strip (text : Str) : Str := (text.dropWhile isspace).rdropWhile isspace

/-- Stripped text does not begin or end with whitespace. -/
theorem strip_ends (text : Str) :
    (∀ c ∈ (strip text).head?, isspace c = false) ∧ ∀ c ∈ (strip text).getLast?, isspace c = false := by
  constructor
  · intro c hc
    rw [strip, Option.mem_def] at hc
    obtain ⟨rest, hrest⟩ := List.rdropWhile_prefix isspace (text.dropWhile isspace)
    have hhead : (text.dropWhile isspace).head? = some c := by
      rw [← hrest, List.head?_append, hc]
      rfl
    have hnot := List.head?_dropWhile_not isspace text
    rw [hhead] at hnot
    exact hnot
  · intro c hc
    obtain ⟨hne, hlast⟩ := List.mem_getLast?_eq_getLast hc
    have hnot := List.rdropWhile_last_not isspace (text.dropWhile isspace) hne
    rw [hlast]
    exact Bool.eq_false_iff.2 hnot

/-- Text that does not begin or end with whitespace is stripped. -/
theorem strip_of_ends {text : Str} (hhead : ∀ c ∈ text.head?, isspace c = false)
    (hlast : ∀ c ∈ text.getLast?, isspace c = false) : strip text = text := by
  cases text with
  | nil => rfl
  | cons c cs =>
    have hlast : (c :: cs).rdropWhile isspace = c :: cs := by
      rw [List.rdropWhile_eq_self_iff]
      intro hne
      simp [hlast _ (List.getLast?_eq_some_getLast hne)]
    rw [strip, List.dropWhile_cons_of_neg (by simp [hhead c rfl]), hlast]

theorem strip_strip (text : Str) : strip (strip text) = strip text :=
  strip_of_ends (strip_ends text).1 (strip_ends text).2

/-- The exceptions of the interpreter that the code can meet. -/
inductive Error where
  | typeError
  | valueError
  | overflowError
  | recursionError
  | attributeError
  | keyError
  | unicodeEncodeError
  deriving DecidableEq

/-- `isinstance(exc, ValueError)`. -/
def Error.isValueError : Error → Bool
  | valueError | unicodeEncodeError => true
  | _ => false

/-- A dict is the list of its items in insertion order. -/
inductive Value where
  | none
  | bool (b : Bool)
  | int (n : Int)
  | float (f : PyFloat)
  | str (s : Str)
  | list (items : List Value)
  | dict (items : List (Str × Value))

namespace Value

/-- `bool(value)`. -/
def truthy : Value → Bool
  | none => false
  | bool b => b
  | int n => n ≠ 0
  | float (.finite _ m _) => m ≠ 0
  | float _ => true
  | str s => !s.isEmpty
  | list items => !items.isEmpty
  | dict items => !items.isEmpty

/-- `value.get(key)` of a dict; `None` where the key is absent. -/
def get (items : List (Str × Value)) (key : Str) : Value := (items.lookup key).getD none

/-- `value or other`. -/
def or (value other : Value) : Value := if value.truthy then value else other

/-- `isinstance(value, dict)`. -/
def isDict : Value → Bool
  | dict _ => true
  | _ => false

/-- `isinstance(value, str)`. -/
def isStr : Value → Bool
  | str _ => true
  | _ => false

/-- The items of a dict. -/
def items : Value → List (Str × Value)
  | dict items => items
  | _ => []

/-- The text of a `str`. -/
def text : Value → Str
  | str text => text
  | _ => []

/-- The two floats that `int` cannot convert for their size. -/
def isInfinite : Value → Bool
  | float .inf | float .negInf => true
  | _ => false

end Value

/-- `items[key] = value`: an existing key keeps its place. -/
def setItem {β : Type} : List (Str × β) → Str → β → List (Str × β)
  | [], key, value => [(key, value)]
  | (k, v) :: rest, key, value => if k = key then (k, value) :: rest else (k, v) :: setItem rest key value

theorem mem_keys_setItem {β : Type} {items : List (Str × β)} {key k : Str} {value : β}
    (h : k ∈ (setItem items key value).map Prod.fst) : k ∈ items.map Prod.fst ∨ k = key := by
  induction items with
  | nil => exact Or.inr (List.mem_singleton.1 h)
  | cons item items ih =>
    rw [setItem] at h
    split at h
    · exact Or.inl h
    · rcases List.mem_cons.1 h with rfl | h
      · exact Or.inl List.mem_cons_self
      · exact (ih h).imp_left (List.mem_cons_of_mem _)

/-- The keys of a dict stay distinct. -/
theorem nodup_setItem {β : Type} {items : List (Str × β)} (h : (items.map Prod.fst).Nodup) (key : Str) (value : β) :
    ((setItem items key value).map Prod.fst).Nodup := by
  induction items with
  | nil => exact List.pairwise_singleton _ _
  | cons item items ih =>
    obtain ⟨hitem, hitems⟩ := List.nodup_cons.1 h
    rw [setItem]
    split
    · exact h
    · rename_i hkey
      refine List.nodup_cons.2 ⟨fun hmem => ?_, ih hitems⟩
      exact (mem_keys_setItem hmem).elim hitem hkey

/-! ### `int` -/

/-- `sys.get_int_max_str_digits()`. -/
def maxStrDigits : Nat := 4300

/-- The whitespace that `int` ignores around a number; the four separators of ASCII are not part of it. -/
def isNumberSpace (c : CodePoint) : Bool := isspace c && !(0x1C ≤ c.val && c.val ≤ 0x1F)

/-- The digits zero of Unicode 15.0, each with the nine digits that follow it. -/
def decimalZeros : List Nat := [
    0x0030, 0x0660, 0x06F0, 0x07C0, 0x0966, 0x09E6, 0x0A66, 0x0AE6, 0x0B66, 0x0BE6, 0x0C66, 0x0CE6, 0x0D66,
    0x0DE6, 0x0E50, 0x0ED0, 0x0F20, 0x1040, 0x1090, 0x17E0, 0x1810, 0x1946, 0x19D0, 0x1A80, 0x1A90, 0x1B50,
    0x1BB0, 0x1C40, 0x1C50, 0xA620, 0xA8D0, 0xA900, 0xA9D0, 0xA9F0, 0xAA50, 0xABF0, 0xFF10, 0x104A0, 0x10D30,
    0x11066, 0x110F0, 0x11136, 0x111D0, 0x112F0, 0x11450, 0x114D0, 0x11650, 0x116C0, 0x11730, 0x118E0, 0x11950,
    0x11C50, 0x11D50, 0x11DA0, 0x11F50, 0x16A60, 0x16AC0, 0x16B50, 0x1D7CE, 0x1D7D8, 0x1D7E2, 0x1D7EC, 0x1D7F6,
    0x1E140, 0x1E2F0, 0x1E4F0, 0x1E950, 0x1FBF0]

/-- `unicodedata.decimal(c)` with the tables of Python 3.12. -/
def decimalOf (c : CodePoint) : Option Nat :=
  (decimalZeros.find? fun zero => zero ≤ c.val ∧ c.val < zero + 10).map fun zero => c.val - zero

section

variable (decimal : CodePoint → Option Nat)

/-- Decimal digits with single underscores between them. -/
def underscored : Str → Option (List Nat)
  | [] => none
  | [d] => (decimal d).map ([·])
  | d :: e :: rest => do
    let n ← decimal d
    let ns ← if e = code '_' then underscored rest else underscored (e :: rest)
    some (n :: ns)

/-- `int(text)`; `none` is a `ValueError`. -/
def intOfStr (text : Str) : Option Int :=
  let (negative, body) := match (text.dropWhile isNumberSpace).rdropWhile isNumberSpace with
    | [] => (false, [])
    | c :: rest => if c = code '-' then (true, rest) else if c = code '+' then (false, rest) else (false, c :: rest)
  match underscored decimal body with
  | none => none
  | some ns =>
    let n : Int := ns.foldl (fun value d => 10 * value + d) 0
    if maxStrDigits < ns.length then none else some (if negative then -n else n)

/-- `int(value)` of a float. -/
def intOfFloat : PyFloat → Except Error Int
  | .finite negative mantissa exponent =>
    let n : Int := if 0 ≤ exponent then mantissa * 2 ^ exponent.toNat else mantissa / 2 ^ (-exponent).toNat
    .ok (if negative then -n else n)
  | .nan => .error .valueError
  | .inf | .negInf => .error .overflowError

/-- `int(value)`. -/
def intOf : Value → Except Error Int
  | .bool b => .ok b.toNat
  | .int n => .ok n
  | .float f => intOfFloat f
  | .str s => match intOfStr decimal s with
    | some n => .ok n
    | none => .error .valueError
  | .none | .list _ | .dict _ => .error .typeError

/-- `int` fails with a `TypeError` or a `ValueError`, except on an infinite float. -/
theorem intOf_cases (value : Value) : value.isInfinite = true ∧ intOf decimal value = .error .overflowError ∨
    value.isInfinite = false ∧ ((∃ n, intOf decimal value = .ok n) ∨
      ∃ error, intOf decimal value = .error error ∧ (error = .typeError ∨ error.isValueError = true)) := by
  cases value with
  | bool b => exact Or.inr ⟨rfl, Or.inl ⟨_, rfl⟩⟩
  | int n => exact Or.inr ⟨rfl, Or.inl ⟨_, rfl⟩⟩
  | float f =>
    cases f with
    | finite negative mantissa exponent => exact Or.inr ⟨rfl, Or.inl ⟨_, rfl⟩⟩
    | nan => exact Or.inr ⟨rfl, Or.inr ⟨_, rfl, Or.inr rfl⟩⟩
    | inf => exact Or.inl ⟨rfl, rfl⟩
    | negInf => exact Or.inl ⟨rfl, rfl⟩
  | str s =>
    refine Or.inr ⟨rfl, ?_⟩
    rw [intOf]
    cases intOfStr decimal s with
    | some n => exact Or.inl ⟨_, rfl⟩
    | none => exact Or.inr ⟨_, rfl, Or.inr rfl⟩
  | none => exact Or.inr ⟨rfl, Or.inr ⟨_, rfl, Or.inl rfl⟩⟩
  | list items => exact Or.inr ⟨rfl, Or.inr ⟨_, rfl, Or.inl rfl⟩⟩
  | dict items => exact Or.inr ⟨rfl, Or.inr ⟨_, rfl, Or.inl rfl⟩⟩

end

end AgentOS.Py
