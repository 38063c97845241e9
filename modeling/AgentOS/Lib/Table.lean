import Mathlib.Data.List.Nodup

/-!
# Tables with a primary key

A table is a list of rows in which no two rows have the same key.  The operations are those of SQL: `insert` fails on a
key that is taken, `update` changes the rows that meet a condition, `delete` drops them, and none ever produces a second
row of a key.

* `lookup_insert`, `lookup_update` and `lookup_delete` say what each operation does to one key; `put` makes a row the
  row of its key.
* `filter_insert` and `filter_update` say that rows which an operation does not concern stay as they are.
-/

/-- Rows of which no two have the same key. -/
structure Table {ρ κ : Type*} (key : ρ → κ) where
  rows : List ρ
  unique : (rows.map key).Nodup

namespace Table

variable {ρ κ : Type*} [DecidableEq κ] {key : ρ → κ}

omit [DecidableEq κ] in
theorem ext {t t' : Table key} (h : t.rows = t'.rows) : t = t' := by
  cases t
  cases t'
  cases h
  rfl

omit [DecidableEq κ] in
/-- The table without rows. -/
def empty : Table key where
  rows := []
  unique := List.nodup_nil

/-- The row with a key. -/
def lookup (t : Table key) (k : κ) : Option ρ := t.rows.find? fun r => key r = k

/-- `INSERT`; `none` where the key is taken. -/
def insert (t : Table key) (r : ρ) : Option (Table key) :=
  if h : key r ∈ t.rows.map key then none
  else some ⟨t.rows ++ [r], by
    rw [List.map_append, List.map_singleton]
    exact t.unique.append (List.nodup_singleton _) (List.disjoint_singleton.2 h)⟩

omit [DecidableEq κ] in
private theorem map_key_update (rows : List ρ) (p : ρ → Bool) {f : ρ → ρ} (hf : ∀ r, key (f r) = key r) :
    (rows.map fun r => if p r then f r else r).map key = rows.map key := by
  rw [List.map_map]
  refine List.map_congr_left fun r _ => ?_
  by_cases hp : p r
  · simp [hp, hf]
  · simp [hp]

omit [DecidableEq κ] in
/-- `UPDATE … WHERE p`, with an `f` that leaves the key alone. -/
def update (t : Table key) (p : ρ → Bool) (f : ρ → ρ) (hf : ∀ r, key (f r) = key r) : Table key where
  rows := t.rows.map fun r => if p r then f r else r
  unique := by
    rw [map_key_update t.rows p hf]
    exact t.unique

omit [DecidableEq κ] in
/-- `DELETE … WHERE p`. -/
def delete (t : Table key) (p : ρ → Bool) : Table key where
  rows := t.rows.filter fun r => !p r
  unique := t.unique.sublist (List.filter_sublist.map key)

/-- The row becomes the row of its key. -/
def put (t : Table key) (r : ρ) : Table key where
  rows := if key r ∈ t.rows.map key then t.rows.map fun x => if key x = key r then r else x else t.rows ++ [r]
  unique := by
    by_cases h : key r ∈ t.rows.map key
    · have hkeys : (fun x => key (if key x = key r then r else x)) = key := by
        funext x
        by_cases hx : key x = key r
        · rw [if_pos hx, hx]
        · rw [if_neg hx]
      rw [if_pos h, List.map_map, Function.comp_def, hkeys]
      exact t.unique
    · rw [if_neg h, List.map_append, List.map_singleton]
      exact t.unique.append (List.nodup_singleton _) (List.disjoint_singleton.2 h)

omit [DecidableEq κ] in
/-- `rowcount` of an `UPDATE … WHERE p`. -/
def rowcount (t : Table key) (p : ρ → Bool) : Nat := (t.rows.filter p).length

variable {t t' : Table key} {k : κ} {r : ρ}

omit [DecidableEq κ] in
/-- A column that an `UPDATE` leaves alone. -/
theorem map_update {γ : Type*} {g : ρ → γ} {p : ρ → Bool} {f : ρ → ρ} {hf : ∀ r, key (f r) = key r}
    (hg : ∀ r, g (f r) = g r) : (t.update p f hf).rows.map g = t.rows.map g :=
  map_key_update t.rows p hg

theorem lookup_eq_some : t.lookup k = some r ↔ r ∈ t.rows ∧ key r = k := by
  constructor
  · intro h
    exact ⟨List.mem_of_find?_eq_some h, by simpa using List.find?_some h⟩
  · rintro ⟨hr, rfl⟩
    have hsome : (t.lookup (key r)).isSome := by
      rw [lookup, List.find?_isSome]
      exact ⟨r, hr, by simp⟩
    obtain ⟨r', hr'⟩ := Option.isSome_iff_exists.1 hsome
    have hk : key r' = key r := by simpa using List.find?_some hr'
    rw [hr', List.inj_on_of_nodup_map t.unique (List.mem_of_find?_eq_some hr') hr hk]

theorem lookup_eq_none : t.lookup k = none ↔ ∀ r ∈ t.rows, key r ≠ k := by
  simp [lookup, List.find?_eq_none]

theorem lookup_isSome : (t.lookup k).isSome ↔ k ∈ t.rows.map key := by
  simp [lookup, List.find?_isSome]

@[simp] theorem lookup_empty : (empty : Table key).lookup k = none := rfl

theorem insert_rows (h : t.insert r = some t') : t'.rows = t.rows ++ [r] := by
  unfold insert at h
  split at h
  · cases h
  · obtain rfl := Option.some.inj h
    rfl

theorem foldlM_insert_rows {rs : List ρ} (h : rs.foldlM insert t = some t') : t'.rows = t.rows ++ rs := by
  induction rs generalizing t with
  | nil =>
    obtain rfl := Option.some.inj h
    rw [List.append_nil]
  | cons r rs ih =>
    rw [List.foldlM_cons] at h
    obtain ⟨t₁, h₁, h₂⟩ := Option.bind_eq_some_iff.1 h
    rw [ih h₂, insert_rows h₁, List.append_assoc, List.singleton_append]

theorem insert_eq_none : t.insert r = none ↔ (t.lookup (key r)).isSome := by
  rw [lookup_isSome]
  unfold insert
  split
  · simp_all
  · simp_all

theorem exists_insert (h : t.lookup (key r) = none) : ∃ t', t.insert r = some t' := by
  rw [← Option.ne_none_iff_exists', Ne, insert_eq_none, h]
  simp

/-- A set of rows can be inserted just in case their keys are free and distinct. -/
theorem isSome_foldlM_insert {rs : List ρ} {t : Table key} :
    (rs.foldlM insert t).isSome ↔ (t.rows.map key ++ rs.map key).Nodup := by
  constructor
  · intro h
    obtain ⟨t', ht'⟩ := Option.isSome_iff_exists.1 h
    have hunique := t'.unique
    rw [foldlM_insert_rows ht', List.map_append] at hunique
    exact hunique
  · intro h
    induction rs generalizing t with
    | nil => rfl
    | cons r rs ih =>
      have hfree : t.lookup (key r) = none := by
        rw [← Option.not_isSome_iff_eq_none, lookup_isSome]
        exact fun hmem => (List.nodup_append.1 h).2.2 _ hmem _ List.mem_cons_self rfl
      obtain ⟨t₁, ht₁⟩ := exists_insert hfree
      rw [List.foldlM_cons, ht₁]
      refine ih ?_
      rw [insert_rows ht₁, List.map_append, List.append_assoc]
      exact h

theorem lookup_insert (h : t.insert r = some t') : t'.lookup k = if key r = k then some r else t.lookup k := by
  have hfree : t.lookup (key r) = none := by
    rw [← Option.not_isSome_iff_eq_none, ← insert_eq_none, h]
    simp
  rw [lookup, insert_rows h, List.find?_append]
  by_cases hk : key r = k
  · subst hk
    rw [lookup] at hfree
    simp [hfree]
  · simp [hk, lookup]

theorem lookup_update {p : ρ → Bool} {f : ρ → ρ} {hf : ∀ r, key (f r) = key r} :
    (t.update p f hf).lookup k = (t.lookup k).map fun r => if p r then f r else r := by
  cases h : t.lookup k with
  | none =>
    rw [lookup_eq_none] at h
    refine lookup_eq_none.2 fun r hr => ?_
    obtain ⟨r₀, hr₀, rfl⟩ := List.mem_map.1 hr
    have := h r₀ hr₀
    by_cases hp : p r₀
    · simpa [hp, hf] using this
    · simpa [hp] using this
  | some r =>
    obtain ⟨hr, rfl⟩ := lookup_eq_some.1 h
    refine lookup_eq_some.2 ⟨List.mem_map.2 ⟨r, hr, rfl⟩, ?_⟩
    by_cases hp : p r
    · simp [hp, hf]
    · simp [hp]

omit [DecidableEq κ] in
theorem mem_delete {p : ρ → Bool} : r ∈ (t.delete p).rows ↔ r ∈ t.rows ∧ ¬ p r := by
  rw [delete, List.mem_filter, Bool.not_eq_true', Bool.not_eq_true]

/-- A `DELETE` of one key. -/
theorem lookup_delete (k' : κ) :
    (t.delete fun r => key r = k').lookup k = if k' = k then none else t.lookup k := by
  refine Option.ext fun r => ?_
  rw [lookup_eq_some, mem_delete, decide_eq_true_iff]
  by_cases hk : k' = k
  · subst hk
    rw [if_pos rfl]
    exact iff_of_false (fun h => h.1.2 h.2) (by simp)
  · rw [if_neg hk, lookup_eq_some]
    constructor
    · exact fun h => ⟨h.1.1, h.2⟩
    · rintro ⟨hr, rfl⟩
      exact ⟨⟨hr, Ne.symm hk⟩, rfl⟩

omit [DecidableEq κ] in
theorem nodup_rows (t : Table key) : t.rows.Nodup := List.Nodup.of_map key t.unique

omit [DecidableEq κ] in
/-- A row that is the only one of its kind. -/
theorem filter_eq_singleton {t : Table key} {row : ρ} {p : ρ → Bool} (hrow : row ∈ t.rows) (hp : p row = true)
    (hunique : ∀ x ∈ t.rows, p x = true → x = row) : t.rows.filter p = [row] := by
  have hnodup := t.nodup_rows.filter p
  refine List.perm_singleton.1 ((List.perm_ext_iff_of_nodup hnodup (List.nodup_singleton row)).2 fun x => ?_)
  rw [List.mem_filter, List.mem_singleton]
  constructor
  · exact fun h => hunique x h.1 h.2
  · rintro rfl
    exact ⟨hrow, hp⟩

omit [DecidableEq κ] in
theorem eq_of_key {r r' : ρ} (hr : r ∈ t.rows) (hr' : r' ∈ t.rows) (h : key r = key r') : r = r' :=
  List.inj_on_of_nodup_map t.unique hr hr' h

theorem put_of_mem (h : key r ∈ t.rows.map key) :
    (t.put r).rows = t.rows.map fun x => if key x = key r then r else x :=
  if_pos h

theorem put_of_not_mem (h : key r ∉ t.rows.map key) : (t.put r).rows = t.rows ++ [r] := if_neg h

theorem mem_put {x : ρ} : x ∈ (t.put r).rows ↔ x = r ∨ (x ∈ t.rows ∧ key x ≠ key r) := by
  by_cases h : key r ∈ t.rows.map key
  · rw [put_of_mem h, List.mem_map]
    constructor
    · rintro ⟨y, hy, rfl⟩
      by_cases hk : key y = key r
      · rw [if_pos hk]
        exact Or.inl rfl
      · rw [if_neg hk]
        exact Or.inr ⟨hy, hk⟩
    · rintro (rfl | ⟨hx, hk⟩)
      · obtain ⟨y, hy, hk⟩ := List.mem_map.1 h
        exact ⟨y, hy, if_pos hk⟩
      · exact ⟨x, hx, if_neg hk⟩
  · rw [put_of_not_mem h, List.mem_append, List.mem_singleton]
    constructor
    · rintro (hx | hx)
      · exact Or.inr ⟨hx, fun hk => h (hk ▸ List.mem_map_of_mem hx)⟩
      · exact Or.inl hx
    · rintro (hx | ⟨hx, -⟩)
      · exact Or.inr hx
      · exact Or.inl hx

theorem lookup_put : (t.put r).lookup k = if key r = k then some r else t.lookup k := by
  by_cases hk : key r = k
  · rw [if_pos hk]
    exact lookup_eq_some.2 ⟨mem_put.2 (Or.inl rfl), hk⟩
  · rw [if_neg hk]
    cases h : t.lookup k with
    | none =>
      refine lookup_eq_none.2 fun x hx => ?_
      rcases mem_put.1 hx with rfl | ⟨hx, -⟩
      · exact hk
      · exact lookup_eq_none.1 h x hx
    | some x =>
      obtain ⟨hx, hxk⟩ := lookup_eq_some.1 h
      exact lookup_eq_some.2 ⟨mem_put.2 (Or.inr ⟨hx, fun h' => hk (h' ▸ hxk)⟩), hxk⟩

theorem insert_eq_put (h : t.insert r = some t') : t' = t.put r := by
  refine ext ?_
  have hfree : key r ∉ t.rows.map key := by
    rw [← lookup_isSome, ← insert_eq_none, h]
    simp
  rw [insert_rows h, put_of_not_mem hfree]

/-- An `UPDATE` that meets one row. -/
theorem update_eq_put {p : ρ → Bool} {f : ρ → ρ} (hf : ∀ r, key (f r) = key r) (hr : r ∈ t.rows) (hp : p r = true)
    (hone : ∀ x ∈ t.rows, p x = true → x = r) : t.update p f hf = t.put (f r) := by
  refine ext ?_
  have hmem : key (f r) ∈ t.rows.map key := by
    rw [hf]
    exact List.mem_map_of_mem hr
  rw [put_of_mem hmem]
  refine List.map_congr_left fun x hx => ?_
  rw [hf]
  by_cases hk : key x = key r
  · obtain rfl := eq_of_key hx hr hk
    rw [if_pos hp, if_pos rfl]
  · have hpx : ¬ p x = true := fun hpx => hk (congrArg key (hone x hx hpx))
    rw [if_neg hpx, if_neg hk]

omit [DecidableEq κ] in
theorem rowcount_ne_zero {p : ρ → Bool} : t.rowcount p ≠ 0 ↔ ∃ r ∈ t.rows, p r := by
  rw [rowcount, Ne, List.length_eq_zero_iff, List.filter_eq_nil_iff]
  simp

theorem filter_insert {q : ρ → Bool} (h : t.insert r = some t') (hr : ¬ q r) : t'.rows.filter q = t.rows.filter q := by
  rw [insert_rows h, List.filter_append]
  simp [hr]

omit [DecidableEq κ] in
/-- An `UPDATE` that neither meets the rows of `q` nor makes rows of `q` leaves them as they are. -/
theorem filter_update {q p : ρ → Bool} {f : ρ → ρ} (hf : ∀ r, key (f r) = key r)
    (h : ∀ r ∈ t.rows, p r → ¬ q r ∧ ¬ q (f r)) : (t.update p f hf).rows.filter q = t.rows.filter q := by
  have hlist : ∀ rows : List ρ, (∀ r ∈ rows, p r → ¬ q r ∧ ¬ q (f r)) →
      (rows.map fun r => if p r then f r else r).filter q = rows.filter q := by
    intro rows
    induction rows with
    | nil => exact fun _ => rfl
    | cons r rows ih =>
      intro h
      have hrest := ih fun x hx => h x (List.mem_cons_of_mem _ hx)
      by_cases hp : p r
      · obtain ⟨h₁, h₂⟩ := h r List.mem_cons_self hp
        simp [hp, h₁, h₂, hrest]
      · simp [hp, List.filter_cons, hrest]
  exact hlist t.rows h

end Table
