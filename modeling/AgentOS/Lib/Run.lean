import Mathlib.Data.List.Basic

/-!
# Runs of a transition function

A system is a function `next : σ → α → Option σ`: the state after action `a`, or `none` where `a` cannot be taken.
All nondeterminism (scheduling, failures, what the environment sends) sits in the action, so a run is a list of
actions and can be executed.

* `exec next s as` runs a list of actions; `exec_append` cuts a run in two.
* `Meets next ok s as`: every step of the run from `s` meets the condition `ok` on the state before it.
* `Since p q as`: some action meets `p`, and all after it meet `q`.
* `invariant` and `invariant_of_meets`: what every step preserves (every step that meets the condition) holds at
  the end of every run.
-/

namespace Run

variable {σ α : Type*}

/-- `q` since `p`: an action of the list meets `p`, and every action behind it meets `q`. -/
def Since (p q : α → Prop) (as : List α) : Prop := ∃ before a after, as = before ++ a :: after ∧ p a ∧ ∀ b ∈ after, q b

theorem not_since_nil {p q : α → Prop} : ¬ Since p q [] := by
  rintro ⟨before, a, after, h, -⟩
  exact absurd h.symm (by simp)

theorem since_cons {p q : α → Prop} {a : α} {as : List α} :
    Since p q (a :: as) ↔ Since p q as ∨ p a ∧ ∀ b ∈ as, q b := by
  constructor
  · rintro ⟨before, b, after, h, hp, hq⟩
    cases before with
    | nil =>
      obtain ⟨rfl, rfl⟩ := List.cons.inj h
      exact Or.inr ⟨hp, hq⟩
    | cons c before => exact Or.inl ⟨before, b, after, (List.cons.inj h).2, hp, hq⟩
  · rintro (⟨before, b, after, rfl, hp, hq⟩ | ⟨hp, hq⟩)
    · exact ⟨a :: before, b, after, rfl, hp, hq⟩
    · exact ⟨[], a, as, rfl, hp, hq⟩

theorem since_append_singleton {p q : α → Prop} {a : α} {as : List α} :
    Since p q (as ++ [a]) ↔ p a ∨ Since p q as ∧ q a := by
  induction as with
  | nil =>
    rw [List.nil_append, since_cons]
    simp [not_since_nil]
  | cons b as ih =>
    rw [List.cons_append, since_cons, since_cons, ih]
    constructor
    · rintro ((ha | ⟨hsince, ha⟩) | ⟨hb, hall⟩)
      · exact Or.inl ha
      · exact Or.inr ⟨Or.inl hsince, ha⟩
      · refine Or.inr ⟨Or.inr ⟨hb, fun c hc => hall c (List.mem_append_left _ hc)⟩, ?_⟩
        exact hall a (List.mem_append_right _ List.mem_cons_self)
    · rintro (ha | ⟨hsince | ⟨hb, hall⟩, ha⟩)
      · exact Or.inl (Or.inl ha)
      · exact Or.inl (Or.inr ⟨hsince, ha⟩)
      · refine Or.inr ⟨hb, fun c hc => ?_⟩
        rcases List.mem_append.1 hc with hc | hc
        · exact hall c hc
        · obtain rfl := List.mem_singleton.1 hc
          exact ha

theorem Since.imp {p q q' : α → Prop} (hq : ∀ a, q a → q' a) {as : List α} (h : Since p q as) : Since p q' as := by
  obtain ⟨before, a, after, has, hp, hafter⟩ := h
  exact ⟨before, a, after, has, hp, fun b hb => hq b (hafter b hb)⟩

variable (next : σ → α → Option σ)

/-- The state at the end of a run, or `none` if some action of the list cannot be taken. -/
def exec : σ → List α → Option σ
  | s, [] => some s
  | s, a :: as => (next s a).bind fun s' => exec s' as

/-- Every step of the run meets `ok` in the state it is taken from. -/
def Meets (ok : σ → α → Prop) : σ → List α → Prop
  | _, [] => True
  | s, a :: as => ok s a ∧ ∀ s', next s a = some s' → Meets ok s' as

variable {next}

@[simp] theorem exec_nil (s : σ) : exec next s [] = some s := rfl

theorem exec_cons {s : σ} {a : α} {as : List α} {t : σ} :
    exec next s (a :: as) = some t ↔ ∃ s', next s a = some s' ∧ exec next s' as = some t := by
  simp only [exec, Option.bind_eq_some_iff]

theorem exec_append {s : σ} {as bs : List α} {t : σ} :
    exec next s (as ++ bs) = some t ↔ ∃ s', exec next s as = some s' ∧ exec next s' bs = some t := by
  induction as generalizing s with
  | nil => simp
  | cons a as ih =>
    simp only [List.cons_append, exec_cons, ih]
    constructor
    · rintro ⟨s₁, h₁, s₂, h₂, h₃⟩
      exact ⟨s₂, ⟨s₁, h₁, h₂⟩, h₃⟩
    · rintro ⟨s₂, ⟨s₁, h₁, h₂⟩, h₃⟩
      exact ⟨s₁, h₁, s₂, h₂, h₃⟩

/-- Where every action can be taken, every run has an end. -/
theorem exists_exec (h : ∀ s a, ∃ s', next s a = some s') (s : σ) (as : List α) : ∃ t, exec next s as = some t := by
  induction as generalizing s with
  | nil => exact ⟨s, rfl⟩
  | cons a as ih =>
    obtain ⟨s', hs'⟩ := h s a
    obtain ⟨t, ht⟩ := ih s'
    exact ⟨t, exec_cons.2 ⟨s', hs', ht⟩⟩

/-- What every step meeting `ok` preserves holds at the end of every run whose steps all meet `ok`. -/
theorem invariant_of_meets {ok : σ → α → Prop} {I : σ → Prop}
    (hstep : ∀ s a s', I s → ok s a → next s a = some s' → I s') {s : σ} (hs : I s) {as : List α}
    (hok : Meets next ok s as) {t : σ} (ht : exec next s as = some t) : I t := by
  induction as generalizing s with
  | nil =>
    simp only [exec_nil, Option.some.injEq] at ht
    exact ht ▸ hs
  | cons a as ih =>
    obtain ⟨s', h₁, h₂⟩ := exec_cons.1 ht
    exact ih (hstep s a s' hs hok.1 h₁) (hok.2 s' h₁) h₂

theorem meets_and {ok ok' : σ → α → Prop} {s : σ} {as : List α} (h : Meets next ok s as) (h' : Meets next ok' s as) :
    Meets next (fun s a => ok s a ∧ ok' s a) s as := by
  induction as generalizing s with
  | nil => trivial
  | cons a as ih => exact ⟨⟨h.1, h'.1⟩, fun s' hs' => ih (h.2 s' hs') (h'.2 s' hs')⟩

theorem meets_append {ok : σ → α → Prop} {s : σ} {as bs : List α} :
    Meets next ok s (as ++ bs) ↔ Meets next ok s as ∧ ∀ u, exec next s as = some u → Meets next ok u bs := by
  induction as generalizing s with
  | nil =>
    constructor
    · intro h
      refine ⟨trivial, fun u hu => ?_⟩
      obtain rfl := Option.some.inj hu
      exact h
    · exact fun h => h.2 s rfl
  | cons a as ih =>
    constructor
    · rintro ⟨ha, hrest⟩
      refine ⟨⟨ha, fun s' hs' => (ih.1 (hrest s' hs')).1⟩, fun u hu => ?_⟩
      obtain ⟨s', hs', hu'⟩ := exec_cons.1 hu
      exact (ih.1 (hrest s' hs')).2 u hu'
    · rintro ⟨⟨ha, hrest⟩, hbs⟩
      refine ⟨ha, fun s' hs' => ih.2 ⟨hrest s' hs', fun u hu => ?_⟩⟩
      exact hbs u (exec_cons.2 ⟨s', hs', hu⟩)

/-- What holds of every step from a state of the invariant holds of every step of the run. -/
theorem meets_of_invariant {ok Q : σ → α → Prop} {I : σ → Prop}
    (hstep : ∀ s a s', I s → ok s a → next s a = some s' → I s') (hQ : ∀ s a, I s → ok s a → Q s a) {s : σ} (hs : I s)
    {as : List α} (hok : Meets next ok s as) : Meets next Q s as := by
  induction as generalizing s with
  | nil => trivial
  | cons a as ih => exact ⟨hQ s a hs hok.1, fun s' hs' => ih (hstep s a s' hs hok.1 hs') (hok.2 s' hs')⟩

theorem meets_cons {ok : σ → α → Prop} {s s' : σ} {a : α} {as : List α} (hnext : next s a = some s') (ha : ok s a)
    (has : Meets next ok s' as) : Meets next ok s (a :: as) := by
  refine ⟨ha, fun s'' h => ?_⟩
  obtain rfl := Option.some.inj (hnext.symm.trans h)
  exact has

/-- A condition that holds at the last step of every beginning of the run is met by the run. -/
theorem meets_of_prefixes {ok : σ → α → Prop} {s : σ} {as : List α}
    (h : ∀ as₁ a as₂ u, as = as₁ ++ a :: as₂ → exec next s as₁ = some u → ok u a) : Meets next ok s as := by
  induction as generalizing s with
  | nil => trivial
  | cons a as ih =>
    refine ⟨h [] a as s rfl rfl, fun s' hs' => ih fun as₁ b as₂ u has hu => ?_⟩
    exact h (a :: as₁) b as₂ u (by rw [has]; rfl) (exec_cons.2 ⟨s', hs', hu⟩)

/-- Where every step takes a state of `J` to the goal or to a state of `J` of smaller rank, and none leaves the goal, a
run that is longer than the rank ends in the goal. -/
theorem reaches_of_rank {ok : σ → α → Prop} {J goal : σ → Prop} {r : σ → Nat}
    (hstep : ∀ s a s', J s → ok s a → next s a = some s' → goal s' ∨ (J s' ∧ r s' < r s))
    (hgoal : ∀ s a s', goal s → ok s a → next s a = some s' → goal s') {s : σ} (hs : J s) {as : List α}
    (hok : Meets next ok s as) (hlong : r s < as.length) {t : σ} (ht : exec next s as = some t) : goal t := by
  induction as generalizing s with
  | nil => exact absurd hlong (Nat.not_lt_zero _)
  | cons a as ih =>
    obtain ⟨s', h₁, h₂⟩ := exec_cons.1 ht
    rcases hstep s a s' hs hok.1 h₁ with hreached | ⟨hs', hlt⟩
    · exact invariant_of_meets hgoal hreached (hok.2 s' h₁) h₂
    · refine ih hs' (hok.2 s' h₁) ?_ h₂
      rw [List.length_cons] at hlong
      omega

instance decidableMeets {ok : σ → α → Prop} [∀ s a, Decidable (ok s a)] :
    ∀ (s : σ) (as : List α), Decidable (Meets next ok s as)
  | _, [] => isTrue trivial
  | s, a :: as =>
    match hn : next s a with
    | none => decidable_of_iff (ok s a) ⟨fun h => ⟨h, fun s' h' => by cases h'.symm.trans hn⟩, fun h => h.1⟩
    | some s' =>
      have : Decidable (Meets next ok s' as) := decidableMeets s' as
      decidable_of_iff (ok s a ∧ Meets next ok s' as)
        ⟨fun h => ⟨h.1, fun s'' h' => Option.some.inj (h'.symm.trans hn) ▸ h.2⟩, fun h => ⟨h.1, h.2 s' hn⟩⟩

/-- A condition on the actions alone. -/
theorem meets_of_forall {ok : α → Prop} (s : σ) {as : List α} (h : ∀ a ∈ as, ok a) :
    Meets next (fun _ a => ok a) s as := by
  induction as generalizing s with
  | nil => trivial
  | cons a as ih => exact ⟨h a List.mem_cons_self, fun s' _ => ih s' fun b hb => h b (List.mem_cons_of_mem _ hb)⟩

theorem meets_true (s : σ) (as : List α) : Meets next (fun _ _ => True) s as := by
  induction as generalizing s with
  | nil => trivial
  | cons a as ih => exact ⟨trivial, fun s' _ => ih s'⟩

/-- What every step preserves holds at the end of every run. -/
theorem invariant {I : σ → Prop} (hstep : ∀ s a s', I s → next s a = some s' → I s') {s : σ} (hs : I s)
    {as : List α} {t : σ} (ht : exec next s as = some t) : I t :=
  invariant_of_meets (fun s a s' h _ => hstep s a s' h) hs (meets_true s as) ht

end Run
