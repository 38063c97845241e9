import Mathlib.Data.List.Induction

/-!
# Folds

What the steps of a loop do, and what the whole loop does.

* `Except.bind_eq_ok` takes a computation that can fail apart; `Except.foldlM_preserves` and `Except.foldlM_invariant`
  are about loops of such, `Except.filterMapM_ok_iff` and `Except.filterMapM_map` about loops that collect results.
* `Fold.preserves` is the invariant rule, and `Fold.of_last` the rule for what every single step establishes.
* `Fold.foldl_add` counts, `Fold.foldl_append` collects, and `Fold.foldl_key` looks at one key of a state that every
  step changes at one key; `Fold.foldl_distinct` is for keys that are distinct and steps that need an invariant.
-/

universe u

theorem Except.bind_eq_ok {ε : Type*} {α β : Type u} {x : Except ε α} {f : α → Except ε β} {b : β} :
    x >>= f = .ok b ↔ ∃ a, x = .ok a ∧ f a = .ok b := by
  cases x with
  | error e => simp [bind, Except.bind]
  | ok a => simp [bind, Except.bind]

/-- What no step changes, the loop does not change. -/
theorem Except.foldlM_preserves {ε α β : Type*} {σ : Type u} {f : σ → α → Except ε σ} {view : σ → β}
    (hstep : ∀ s a s', f s a = .ok s' → view s' = view s) {as : List α} {s t : σ} (h : as.foldlM f s = .ok t) :
    view t = view s := by
  induction as generalizing s with
  | nil =>
    obtain rfl := Except.ok.inj h
    rfl
  | cons a as ih =>
    rw [List.foldlM_cons] at h
    obtain ⟨s', hs', hrest⟩ := Except.bind_eq_ok.1 h
    rw [ih hrest, hstep s a s' hs']

/-- What every step that succeeds preserves holds behind a loop that succeeds. -/
theorem Except.foldlM_invariant {ε α : Type*} {σ : Type u} {f : σ → α → Except ε σ} {I : σ → Prop} {as : List α}
    {s t : σ} (hs : I s) (hstep : ∀ a ∈ as, ∀ s s', I s → f s a = .ok s' → I s') (h : as.foldlM f s = .ok t) : I t := by
  induction as generalizing s with
  | nil =>
    obtain rfl := Except.ok.inj h
    exact hs
  | cons a as ih =>
    rw [List.foldlM_cons] at h
    obtain ⟨s', hs', hrest⟩ := Except.bind_eq_ok.1 h
    exact ih (hstep a List.mem_cons_self s s' hs hs') (fun b hb => hstep b (List.mem_cons_of_mem _ hb)) hrest

/-- A loop that collects results fails just in case one of its rounds does. -/
theorem Except.filterMapM_ok_iff {ε α : Type*} {β : Type u} {f : α → Except ε (Option β)} {as : List α} :
    (∃ bs, as.filterMapM f = .ok bs) ↔ ∀ a ∈ as, ∃ b, f a = .ok b := by
  induction as with
  | nil => exact iff_of_true ⟨[], rfl⟩ fun a ha => absurd ha List.not_mem_nil
  | cons a as ih =>
    rw [List.filterMapM_cons, List.forall_mem_cons, ← ih]
    constructor
    · rintro ⟨bs, h⟩
      obtain ⟨b, hb, hrest⟩ := Except.bind_eq_ok.1 h
      refine ⟨⟨b, hb⟩, ?_⟩
      cases b with
      | none => exact ⟨bs, hrest⟩
      | some b =>
        obtain ⟨rest, hrest, -⟩ := Except.bind_eq_ok.1 hrest
        exact ⟨rest, hrest⟩
    · rintro ⟨⟨b, hb⟩, bs, hbs⟩
      cases b with
      | none => exact ⟨bs, Except.bind_eq_ok.2 ⟨none, hb, hbs⟩⟩
      | some b => exact ⟨b :: bs, Except.bind_eq_ok.2 ⟨some b, hb, Except.bind_eq_ok.2 ⟨bs, hbs, rfl⟩⟩⟩

/-- What a loop collects is what its rounds return, seen through `k`. -/
theorem Except.filterMapM_map {ε α γ : Type*} {β : Type u} {f : α → Except ε (Option β)} {as : List α} {bs : List β}
    (h : as.filterMapM f = .ok bs) {k : β → γ} {g : α → Option γ}
    (hg : ∀ a ∈ as, ∀ b, f a = .ok b → b.map k = g a) : bs.map k = as.filterMap g := by
  induction as generalizing bs with
  | nil =>
    obtain rfl := Except.ok.inj h
    rfl
  | cons a as ih =>
    rw [List.filterMapM_cons] at h
    obtain ⟨b, hb, hrest⟩ := Except.bind_eq_ok.1 h
    have hfirst := hg a List.mem_cons_self b hb
    have htail := fun a ha => hg a (List.mem_cons_of_mem _ ha)
    cases b with
    | none =>
      rw [List.filterMap_cons_none hfirst.symm]
      exact ih hrest htail
    | some b =>
      obtain ⟨rest, hcollected, heq⟩ := Except.bind_eq_ok.1 hrest
      obtain rfl := Except.ok.inj heq
      rw [List.filterMap_cons_some hfirst.symm, ← ih hcollected htail, List.map_cons]

namespace Fold

variable {σ α β : Type*} {f : σ → α → σ}

theorem preserves {I : σ → Prop} {as : List α} {s : σ} (hs : I s) (hstep : ∀ a ∈ as, ∀ s, I s → I (f s a)) :
    I (as.foldl f s) := by
  induction as generalizing s with
  | nil => exact hs
  | cons a as ih => exact ih (hstep a List.mem_cons_self s hs) fun b hb => hstep b (List.mem_cons_of_mem a hb)

/-- What every step establishes under an invariant holds behind a loop that is not empty. -/
theorem of_last (I J : σ → Prop) {as : List α} {s : σ} (hne : as ≠ []) (hs : I s)
    (hstep : ∀ a ∈ as, ∀ s, I s → I (f s a) ∧ J (f s a)) : J (as.foldl f s) := by
  obtain ⟨before, a, rfl⟩ := (List.eq_nil_or_concat as).resolve_left hne
  rw [List.concat_eq_append] at hstep ⊢
  have hbefore : I (before.foldl f s) :=
    preserves hs fun b hb s hs => (hstep b (List.mem_append_left _ hb) s hs).1
  rw [List.foldl_append]
  exact (hstep a (List.mem_append_right _ List.mem_cons_self) _ hbefore).2

/-- What every step adds, the loop adds once for every element. -/
theorem foldl_add (count : σ → Nat) (n : Nat) (hstep : ∀ s a, count (f s a) = count s + n) (as : List α) (s : σ) :
    count (as.foldl f s) = count s + n * as.length := by
  induction as generalizing s with
  | nil => rfl
  | cons a as ih =>
    rw [List.foldl_cons, ih, hstep, List.length_cons, Nat.mul_succ, Nat.add_assoc, Nat.add_comm n]

/-- What every step appends, the loop appends in turn. -/
theorem foldl_append (view : σ → List β) (extra : α → List β) (hstep : ∀ s a, view (f s a) = view s ++ extra a)
    (as : List α) (s : σ) : view (as.foldl f s) = view s ++ as.flatMap extra := by
  induction as generalizing s with
  | nil => exact (List.append_nil _).symm
  | cons a as ih => rw [List.foldl_cons, ih, hstep, List.flatMap_cons, List.append_assoc]

/-- A loop whose steps change a state at one key each, as long as they succeed. -/
theorem foldl_key {κ : Type*} [DecidableEq κ] (Good : σ → Prop) (lookup : σ → κ → β) (key : α → κ) (g : β → α → β)
    {as : List α} {s : σ} (h : Good (as.foldl f s)) (hgood : ∀ s a, Good (f s a) → Good s)
    (hstep : ∀ s a, Good (f s a) → ∀ k, lookup (f s a) k = if key a = k then g (lookup s k) a else lookup s k) :
    Good s ∧ ∀ k, lookup (as.foldl f s) k = (as.filter fun a => key a = k).foldl g (lookup s k) := by
  induction as generalizing s with
  | nil => exact ⟨h, fun k => rfl⟩
  | cons a as ih =>
    obtain ⟨hnext, hrest⟩ := ih h
    refine ⟨hgood s a hnext, fun k => ?_⟩
    rw [List.foldl_cons, hrest k, hstep s a hnext k]
    by_cases hk : key a = k
    · rw [if_pos hk, List.filter_cons_of_pos (by simpa using hk)]
      rfl
    · rw [if_neg hk, List.filter_cons_of_neg (by simpa using hk)]

/-- A loop over distinct keys, whose steps change a state at their own key. -/
theorem foldl_distinct {κ : Type*} (I : σ → Prop) (lookup : σ → κ → β) (key : α → κ) (g : α → β → β) {as : List α}
    {s : σ} (hs : I s)
    (hstep : ∀ a ∈ as, ∀ s, I s → I (f s a) ∧ lookup (f s a) (key a) = g a (lookup s (key a)) ∧
      ∀ k, k ≠ key a → lookup (f s a) k = lookup s k) (hkeys : (as.map key).Nodup) :
    I (as.foldl f s) ∧ (∀ a ∈ as, lookup (as.foldl f s) (key a) = g a (lookup s (key a))) ∧
      ∀ k, k ∉ as.map key → lookup (as.foldl f s) k = lookup s k := by
  induction as generalizing s with
  | nil => exact ⟨hs, by simp, fun k _ => rfl⟩
  | cons a as ih =>
    rw [List.map_cons, List.nodup_cons] at hkeys
    obtain ⟨hnext, hown, hothers⟩ := hstep a List.mem_cons_self s hs
    obtain ⟨hend, hmem, hrest⟩ := ih hnext (fun b hb => hstep b (List.mem_cons_of_mem _ hb)) hkeys.2
    refine ⟨hend, fun b hb => ?_, fun k hk => ?_⟩
    · rcases List.mem_cons.1 hb with rfl | hb
      · exact (hrest _ hkeys.1).trans hown
      · refine (hmem b hb).trans ?_
        rw [hothers _ fun hsame => hkeys.1 (hsame ▸ List.mem_map_of_mem hb)]
    · rw [List.map_cons, List.mem_cons, not_or] at hk
      exact (hrest k hk.2).trans (hothers k hk.1)

end Fold
