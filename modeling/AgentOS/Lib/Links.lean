import Mathlib.Data.List.Nodup
import Mathlib.Data.List.Perm.Subperm

/-!
# Following links

`next a` is what `a` links to, where it links to anything, or an error.  A walk follows the links until there is none or
it comes to where it has been.

* `follow_ok_iff`: a walk fails just in case there is an error where the links lead.
* `mem_follow_iff`: otherwise it comes to where the links lead.
* `follow_rounds`: it ends.
* `follow_path`: a path without a repetition is followed to its end.
-/

namespace Links

variable {α ε : Type*} (next : α → Except ε (Option α))

/-- The links lead from `a` to `b`. -/
inductive Reaches (a : α) : α → Prop where
  | refl : Reaches a a
  | step {b c : α} : Reaches a b → next b = .ok (some c) → Reaches a c

/-- The links lead from `a` along a list and end there. -/
inductive Path : α → List α → Prop where
  | last {a : α} : next a = .ok none → Path a [a]
  | cons {a b : α} {bs : List α} : next a = .ok (some b) → Path b bs → Path a (a :: bs)

variable {next} {domain : List α}

/-- What the links lead to is in the domain. -/
def Inside (next : α → Except ε (Option α)) (domain : List α) : Prop := ∀ a b, next a = .ok (some b) → b ∈ domain

theorem Reaches.head {a b c : α} (hab : next a = .ok (some b)) (h : Reaches next b c) : Reaches next a c := by
  induction h with
  | refl => exact Reaches.refl.step hab
  | step _ hstep ih => exact ih.step hstep

theorem Path.unique {a : α} {xs ys : List α} (hx : Path next a xs) (hy : Path next a ys) : xs = ys := by
  induction hx generalizing ys with
  | last hlast =>
    cases hy with
    | last _ => rfl
    | cons hnext _ => cases hlast.symm.trans hnext
  | cons hnext _ ih =>
    cases hy with
    | last hlast => cases hlast.symm.trans hnext
    | cons hnext' hrest =>
      obtain rfl := Option.some.inj (Except.ok.inj (hnext.symm.trans hnext'))
      rw [ih hrest]

/-- From each of its elements the path goes on as it does. -/
theorem Path.of_mem {a x : α} {xs : List α} (h : Path next a xs) (hx : x ∈ xs) : ∃ ys, Path next x ys ∧ ys <:+ xs := by
  induction h with
  | last hlast =>
    obtain rfl := List.mem_singleton.1 hx
    exact ⟨_, Path.last hlast, List.suffix_rfl⟩
  | cons hnext hrest ih =>
    rcases List.mem_cons.1 hx with rfl | hx
    · exact ⟨_, Path.cons hnext hrest, List.suffix_rfl⟩
    · obtain ⟨ys, hys, hsuffix⟩ := ih hx
      exact ⟨ys, hys, hsuffix.trans (List.suffix_cons _ _)⟩

/-- A path that ends does not repeat itself. -/
theorem Path.nodup {a : α} {xs : List α} (h : Path next a xs) : xs.Nodup := by
  induction h with
  | last _ => exact List.nodup_singleton _
  | @cons a b bs hnext hrest ih =>
    refine List.nodup_cons.2 ⟨fun ha => ?_, ih⟩
    obtain ⟨ys, hys, hsuffix⟩ := hrest.of_mem ha
    have hlength := congrArg List.length ((Path.cons hnext hrest).unique hys)
    have := hsuffix.length_le
    rw [List.length_cons] at hlength
    omega

theorem Path.subset (hinside : Inside next domain) {a : α} (ha : a ∈ domain) {xs : List α} (h : Path next a xs) :
    xs ⊆ domain := by
  induction h with
  | last _ => exact List.cons_subset.2 ⟨ha, List.nil_subset _⟩
  | cons hnext _ ih => exact List.cons_subset.2 ⟨ha, ih (hinside _ _ hnext)⟩

/-- What a walk has seen leaves it enough rounds for the rest of the domain. -/
structure Enough (domain : List α) (rounds : Nat) (seen : List α) : Prop where
  nodup : seen.Nodup
  subset : seen ⊆ domain
  rounds : domain.length ≤ rounds + seen.length

theorem Enough.init {rounds : Nat} (h : domain.length ≤ rounds) : Enough domain rounds [] :=
  ⟨List.nodup_nil, List.nil_subset _, h⟩

theorem Enough.step {rounds : Nat} {seen : List α} (h : Enough domain (rounds + 1) seen) {a : α} (ha : a ∈ domain)
    (hnew : a ∉ seen) : Enough domain rounds (a :: seen) where
  nodup := List.nodup_cons.2 ⟨hnew, h.nodup⟩
  subset := List.cons_subset.2 ⟨ha, h.subset⟩
  rounds := by
    have := h.rounds
    rw [List.length_cons]
    omega

/-- Without a round left, everything has been seen. -/
theorem Enough.mem_seen {seen : List α} (h : Enough domain 0 seen) {a : α} (ha : a ∈ domain) : a ∈ seen := by
  by_contra hnew
  have hlength := ((List.nodup_cons.2 ⟨hnew, h.nodup⟩).subperm (List.cons_subset.2 ⟨ha, h.subset⟩)).length_le
  have := h.rounds
  rw [List.length_cons] at hlength
  omega

/-! ### Walks -/

variable [DecidableEq α]

variable (next) in
/-- A walk of at most `rounds` elements, none of them in `seen`. -/
def follow : Nat → List α → Option α → Except ε (List α)
  | 0, _, _ => .ok []
  | _ + 1, _, none => .ok []
  | rounds + 1, seen, some a =>
    if a ∈ seen then .ok []
    else match next a with
      | .error error => .error error
      | .ok b => (follow rounds (a :: seen) b).map (a :: ·)

/-- One round of a walk. -/
theorem follow_succ_ok {rounds : Nat} {seen xs : List α} {a : α}
    (h : follow next (rounds + 1) seen (some a) = .ok xs) : a ∈ seen ∧ xs = [] ∨
      a ∉ seen ∧ ∃ b rest, next a = .ok b ∧ follow next rounds (a :: seen) b = .ok rest ∧ xs = a :: rest := by
  rw [follow] at h
  split at h
  · rename_i hseen
    exact Or.inl ⟨hseen, (Except.ok.inj h).symm⟩
  · rename_i hnew
    cases hnext : next a with
    | error error =>
      rw [hnext] at h
      cases h
    | ok b =>
      rw [hnext] at h
      dsimp only at h
      cases hrest : follow next rounds (a :: seen) b with
      | error error =>
        rw [hrest] at h
        cases h
      | ok rest =>
        rw [hrest] at h
        exact Or.inr ⟨hnew, b, rest, rfl, hrest, (Except.ok.inj h).symm⟩

theorem follow_none (rounds : Nat) (seen : List α) : follow next rounds seen none = .ok [] := by
  cases rounds with
  | zero => rfl
  | succ rounds => rfl

/-- A walk does not repeat itself. -/
theorem follow_nodup {rounds : Nat} {seen xs : List α} {start : Option α} (h : follow next rounds seen start = .ok xs) :
    xs.Nodup ∧ ∀ x ∈ xs, x ∉ seen := by
  induction rounds generalizing seen start xs with
  | zero =>
    obtain rfl := Except.ok.inj h
    exact ⟨List.nodup_nil, fun x hx => absurd hx List.not_mem_nil⟩
  | succ rounds ih =>
    cases start with
    | none =>
      obtain rfl := Except.ok.inj h
      exact ⟨List.nodup_nil, fun x hx => absurd hx List.not_mem_nil⟩
    | some a =>
      rcases follow_succ_ok h with ⟨-, rfl⟩ | ⟨hnew, b, rest, -, hrest, rfl⟩
      · exact ⟨List.nodup_nil, fun x hx => absurd hx List.not_mem_nil⟩
      · obtain ⟨hnodup, hunseen⟩ := ih hrest
        refine ⟨List.nodup_cons.2 ⟨fun ha => hunseen a ha List.mem_cons_self, hnodup⟩, ?_⟩
        refine List.forall_mem_cons.2 ⟨hnew, fun x hx hseen => ?_⟩
        exact hunseen x hx (List.mem_cons_of_mem _ hseen)

/-- The links lead to every element of a walk. -/
theorem reaches_of_mem_follow {rounds : Nat} {seen xs : List α} {a : α}
    (h : follow next rounds seen (some a) = .ok xs) : ∀ x ∈ xs, Reaches next a x := by
  induction rounds generalizing seen a xs with
  | zero =>
    obtain rfl := Except.ok.inj h
    exact fun x hx => absurd hx List.not_mem_nil
  | succ rounds ih =>
    rcases follow_succ_ok h with ⟨-, rfl⟩ | ⟨-, b, rest, hnext, hrest, rfl⟩
    · exact fun x hx => absurd hx List.not_mem_nil
    · refine List.forall_mem_cons.2 ⟨Reaches.refl, fun x hx => ?_⟩
      cases b with
      | none =>
        rw [follow_none] at hrest
        obtain rfl := Except.ok.inj hrest
        exact absurd hx List.not_mem_nil
      | some b => exact (ih hrest x hx).head hnext

/-- A walk fails at most where the links lead. -/
theorem follow_ok (rounds : Nat) {seen : List α} {a : α} (h : ∀ b, Reaches next a b → ∃ r, next b = .ok r) :
    ∃ xs, follow next rounds seen (some a) = .ok xs := by
  induction rounds generalizing seen a with
  | zero => exact ⟨[], rfl⟩
  | succ rounds ih =>
    rw [follow]
    split
    · exact ⟨[], rfl⟩
    · obtain ⟨r, hr⟩ := h a Reaches.refl
      rw [hr]
      dsimp only
      cases r with
      | none => exact ⟨[a], by rw [follow_none]; rfl⟩
      | some b =>
        obtain ⟨xs, hxs⟩ := ih fun c hc => h c (hc.head hr)
        exact ⟨a :: xs, by rw [hxs]; rfl⟩

/-! ### Enough rounds -/

/-- A walk with enough rounds ends only where it has been, or where there is no link. -/
theorem follow_closed (hinside : Inside next domain) {rounds : Nat} {seen xs : List α} {a : α} (ha : a ∈ domain)
    (henough : Enough domain rounds seen) (h : follow next rounds seen (some a) = .ok xs) : (a ∈ xs ∨ a ∈ seen) ∧
      ∀ x ∈ xs, ∃ r, next x = .ok r ∧ ∀ b ∈ r, b ∈ xs ∨ b ∈ seen := by
  induction rounds generalizing seen a xs with
  | zero =>
    obtain rfl := Except.ok.inj h
    exact ⟨Or.inr (henough.mem_seen ha), fun x hx => absurd hx List.not_mem_nil⟩
  | succ rounds ih =>
    rcases follow_succ_ok h with ⟨hseen, rfl⟩ | ⟨hnew, r, rest, hnext, hrest, rfl⟩
    · exact ⟨Or.inr hseen, fun x hx => absurd hx List.not_mem_nil⟩
    · refine ⟨Or.inl List.mem_cons_self, List.forall_mem_cons.2 ?_⟩
      cases r with
      | none =>
        rw [follow_none] at hrest
        obtain rfl := Except.ok.inj hrest
        refine ⟨⟨none, hnext, ?_⟩, fun x hx => absurd hx List.not_mem_nil⟩
        rintro b ⟨⟩
      | some b =>
        obtain ⟨hb, hclosed⟩ := ih (hinside a b hnext) (henough.step ha hnew) hrest
        have hmove : ∀ c, c ∈ rest ∨ c ∈ a :: seen → c ∈ a :: rest ∨ c ∈ seen := by
          rintro c (hc | hc)
          · exact Or.inl (List.mem_cons_of_mem _ hc)
          · rcases List.mem_cons.1 hc with rfl | hc
            · exact Or.inl List.mem_cons_self
            · exact Or.inr hc
        constructor
        · refine ⟨some b, hnext, ?_⟩
          rintro c ⟨⟩
          exact hmove b hb
        · intro x hx
          obtain ⟨r, hr, hall⟩ := hclosed x hx
          exact ⟨r, hr, fun c hc => hmove c (hall c hc)⟩

/-- A walk comes to where the links lead. -/
theorem mem_follow_iff (hinside : Inside next domain) {rounds : Nat} {xs : List α} {a : α} (ha : a ∈ domain)
    (hrounds : domain.length ≤ rounds) (h : follow next rounds [] (some a) = .ok xs) {x : α} :
    x ∈ xs ↔ Reaches next a x := by
  refine ⟨reaches_of_mem_follow h x, fun hreaches => ?_⟩
  obtain ⟨hstart, hclosed⟩ := follow_closed hinside ha (Enough.init hrounds) h
  induction hreaches with
  | refl => exact hstart.resolve_right List.not_mem_nil
  | step _ hstep ih =>
    obtain ⟨r, hr, hall⟩ := hclosed _ ih
    obtain rfl := Except.ok.inj (hr.symm.trans hstep)
    exact (hall _ rfl).resolve_right List.not_mem_nil

theorem follow_ok_iff (hinside : Inside next domain) {rounds : Nat} {a : α} (ha : a ∈ domain)
    (hrounds : domain.length ≤ rounds) : (∃ xs, follow next rounds [] (some a) = .ok xs) ↔
      ∀ b, Reaches next a b → ∃ r, next b = .ok r := by
  refine ⟨?_, follow_ok rounds⟩
  rintro ⟨xs, h⟩ b hb
  obtain ⟨r, hr, -⟩ := (follow_closed hinside ha (Enough.init hrounds) h).2 b
    ((mem_follow_iff hinside ha hrounds h).2 hb)
  exact ⟨r, hr⟩

/-- More rounds do not make a walk longer. -/
theorem follow_rounds (hinside : Inside next domain) {rounds : Nat} {seen : List α} {start : Option α}
    (hstart : ∀ a ∈ start, a ∈ domain) (henough : Enough domain rounds seen) (more : Nat) :
    follow next (rounds + more) seen start = follow next rounds seen start := by
  induction rounds generalizing seen start with
  | zero =>
    cases start with
    | none => rw [follow_none, follow_none]
    | some a =>
      cases more with
      | zero => rfl
      | succ more => exact if_pos (henough.mem_seen (hstart a rfl))
  | succ rounds ih =>
    cases start with
    | none => rw [follow_none, follow_none]
    | some a =>
      rw [Nat.succ_add, follow, follow]
      split
      · rfl
      · rename_i hnew
        cases hnext : next a with
        | error error => rfl
        | ok b =>
          have hb : ∀ c ∈ b, c ∈ domain := fun c hc => hinside a c (hnext.trans (congrArg Except.ok hc))
          dsimp only
          rw [ih hb (henough.step (hstart a rfl) hnew)]

/-- A path that ends is followed to its end. -/
theorem follow_path (hinside : Inside next domain) {rounds : Nat} {a : α} (ha : a ∈ domain)
    (hrounds : domain.length ≤ rounds) {xs : List α} (h : Path next a xs) :
    follow next rounds [] (some a) = .ok xs := by
  have hfollow : ∀ rounds seen, xs.length ≤ rounds → (∀ x ∈ xs, x ∉ seen) →
      follow next rounds seen (some a) = .ok xs := by
    clear ha
    have hnodup := h.nodup
    induction h with
    | @last a hlast =>
      intro rounds seen hlength hnew
      obtain ⟨rounds, rfl⟩ := Nat.exists_eq_add_of_le' hlength
      rw [List.length_singleton, follow, if_neg (hnew a List.mem_cons_self), hlast]
      dsimp only
      rw [follow_none]
      rfl
    | @cons a b bs hnext _ ih =>
      intro rounds seen hlength hnew
      obtain ⟨rounds, rfl⟩ := Nat.exists_eq_add_of_le' hlength
      obtain ⟨ha, hbs⟩ := List.nodup_cons.1 hnodup
      have hrest : ∀ x ∈ bs, x ∉ a :: seen := by
        intro x hx hseen
        rcases List.mem_cons.1 hseen with rfl | hseen
        · exact ha hx
        · exact hnew x (List.mem_cons_of_mem _ hx) hseen
      rw [List.length_cons, ← Nat.add_assoc, follow, if_neg (hnew a List.mem_cons_self), hnext]
      dsimp only
      rw [ih hbs (rounds + bs.length) (a :: seen) (Nat.le_add_left _ _) hrest]
      rfl
  have hlength := (h.nodup.subperm (h.subset hinside ha)).length_le
  exact hfollow rounds [] (Nat.le_trans hlength hrounds) fun x _ => List.not_mem_nil

end Links
