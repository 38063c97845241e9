import AgentOS.Python.Text

/-!
# JSON values

What `json.loads` builds.  A dict is the list of its items in insertion order, with distinct keys.
-/

namespace AgentOS

/-- A Python float: `mantissa * 2 ^ exponent`, signed, or one of the three special values. -/
inductive PyFloat where
  | finite (negative : Bool) (mantissa : Nat) (exponent : Int)
  | inf
  | negInf
  | nan
  deriving DecidableEq

inductive Json where
  | null
  | bool (b : Bool)
  | int (n : Int)
  | float (f : PyFloat)
  | str (s : String)
  | arr (items : List Json)
  | obj (fields : List (String × Json))

namespace Json

/-- `bool(value)`. -/
def truthy : Json → Bool
  | null => false
  | bool b => b
  | int n => n ≠ 0
  | float (.finite _ m _) => m ≠ 0
  | float _ => true
  | str s => s ≠ ""
  | arr items => !items.isEmpty
  | obj fields => !fields.isEmpty

/-- A value where it is a string. -/
def asStr : Json → Option String
  | str s => some s
  | _ => none

/-- `value.get(key)` of a dict; `None` where the key is absent. -/
def get (fields : List (String × Json)) (key : String) : Json := (fields.lookup key).getD null

/-- `fields[key] = value`: an existing key keeps its place. -/
def set : List (String × Json) → String → Json → List (String × Json)
  | [], key, value => [(key, value)]
  | (k, v) :: rest, key, value => if k = key then (k, value) :: rest else (k, v) :: set rest key value

theorem mem_keys_set {fields : List (String × Json)} {key : String} {value : Json} {k : String} :
    k ∈ (set fields key value).map Prod.fst ↔ k ∈ fields.map Prod.fst ∨ k = key := by
  induction fields with
  | nil => simp [set]
  | cons field fields ih =>
    unfold set
    by_cases hkey : field.1 = key
    · simp only [if_pos hkey, List.map_cons, List.mem_cons]
      subst hkey
      constructor
      · intro hk
        exact .inl hk
      · intro hk
        rcases hk with hk | rfl
        · exact hk
        · exact .inl rfl
    · simp only [if_neg hkey, List.map_cons, List.mem_cons, ih, or_assoc]

theorem get_set (fields : List (String × Json)) (key : String) (value : Json) :
    get (set fields key value) key = value := by
  induction fields with
  | nil => simp [set, get]
  | cons field fields ih =>
    unfold set
    by_cases hkey : field.1 = key
    · simp [hkey, get]
    · have hne : (key == field.1) = false := by simpa using Ne.symm hkey
      simp only [if_neg hkey]
      rw [get, List.lookup_cons, hne]
      exact ih

mutual

/-- The value holds neither an infinity nor a NaN, for which JSON has no text. -/
def finite : Json → Bool
  | float (.finite ..) => true
  | float _ => false
  | arr items => finiteItems items
  | obj fields => finiteFields fields
  | _ => true

def finiteItems : List Json → Bool
  | [] => true
  | v :: vs => finite v && finiteItems vs

def finiteFields : List (String × Json) → Bool
  | [] => true
  | field :: fields => finiteField field && finiteFields fields

def finiteField : String × Json → Bool
  | (_, v) => finite v

end

/-! ### Equality -/

mutual

def same : Json → Json → Bool
  | null, null => true
  | bool a, bool b => a = b
  | int a, int b => a = b
  | float a, float b => a = b
  | str a, str b => a = b
  | arr as, arr bs => sameItems as bs
  | obj as, obj bs => sameFields as bs
  | _, _ => false

def sameItems : List Json → List Json → Bool
  | [], [] => true
  | a :: as, b :: bs => same a b && sameItems as bs
  | _, _ => false

def sameFields : List (String × Json) → List (String × Json) → Bool
  | [], [] => true
  | (k, a) :: as, (l, b) :: bs => decide (k = l) && same a b && sameFields as bs
  | _, _ => false

end

mutual

private theorem eq_of_same : ∀ a b : Json, same a b = true → a = b
  | null, b, h => by cases b <;> simp_all [same]
  | bool a, b, h => by cases b <;> simp_all [same]
  | int a, b, h => by cases b <;> simp_all [same]
  | float a, b, h => by cases b <;> simp_all [same]
  | str a, b, h => by cases b <;> simp_all [same]
  | arr as, b, h => by
    cases b with
    | arr bs => exact congrArg arr (eq_of_sameItems as bs (by simpa [same] using h))
    | _ => simp [same] at h
  | obj as, b, h => by
    cases b with
    | obj bs => exact congrArg obj (eq_of_sameFields as bs (by simpa [same] using h))
    | _ => simp [same] at h

private theorem eq_of_sameItems : ∀ as bs : List Json, sameItems as bs = true → as = bs
  | [], [], _ => rfl
  | [], _ :: _, h => by simp [sameItems] at h
  | _ :: _, [], h => by simp [sameItems] at h
  | a :: as, b :: bs, h => by
    rw [sameItems, Bool.and_eq_true] at h
    rw [eq_of_same a b h.1, eq_of_sameItems as bs h.2]

private theorem eq_of_sameFields : ∀ as bs : List (String × Json), sameFields as bs = true → as = bs
  | [], [], _ => rfl
  | [], _ :: _, h => by simp [sameFields] at h
  | _ :: _, [], h => by simp [sameFields] at h
  | (k, a) :: as, (l, b) :: bs, h => by
    rw [sameFields, Bool.and_eq_true, Bool.and_eq_true, decide_eq_true_eq] at h
    rw [h.1.1, eq_of_same a b h.1.2, eq_of_sameFields as bs h.2]

end

mutual

private theorem same_self : ∀ a : Json, same a a = true
  | null => by rw [same]
  | bool a => by simp [same]
  | int a => by simp [same]
  | float a => by simp [same]
  | str a => by simp [same]
  | arr as => by rw [same, sameItems_self as]
  | obj as => by rw [same, sameFields_self as]

private theorem sameItems_self : ∀ as : List Json, sameItems as as = true
  | [] => by rw [sameItems]
  | a :: as => by rw [sameItems, same_self a, sameItems_self as, Bool.and_self]

private theorem sameFields_self : ∀ as : List (String × Json), sameFields as as = true
  | [] => by rw [sameFields]
  | (k, a) :: as => by simp [sameFields, same_self a, sameFields_self as]

end

instance : DecidableEq Json := fun a b =>
  decidable_of_iff (same a b = true) ⟨eq_of_same a b, fun h => h ▸ same_self a⟩

end Json

end AgentOS
