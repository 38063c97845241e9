import Mathlib.Data.List.Flatten
import Mathlib.Data.List.TakeDrop

/-!
# Searches with a queue

A loop that takes the first entry of a queue, may report a result, and appends further entries, until the queue is empty
or enough is reported.  It takes the entries layer by layer (`run_eq`), and does not look at what does not matter
(`run_map`).
-/

namespace Queue

variable {E R : Type*}

section

variable (children : E → List E) (report : E → Option R)

/-- The loop with a bound on its rounds; `none` is a loop that is not done then. -/
def run (cap : Nat) : Nat → List E → List R → Option (List R)
  | _, [], found => some found
  | 0, _ :: _, found => if found.length < cap then none else some found
  | rounds + 1, e :: queue, found =>
    if found.length < cap then run cap rounds (queue ++ children e) (found ++ (report e).toList) else some found

/-- The entries that are appended for those that are appended …, `n` times. -/
def layer : Nat → List E → List E
  | 0, queue => queue
  | n + 1, queue => layer n (queue.flatMap children)

/-- The first `n` layers, one after the other. -/
def layers : Nat → List E → List E
  | 0, _ => []
  | n + 1, queue => queue ++ layers n (queue.flatMap children)

end

variable {children : E → List E} {report : E → Option R} {cap n : Nat}

theorem layer_succ (n : Nat) (queue : List E) :
    layer children (n + 1) queue = (layer children n queue).flatMap children := by
  induction n generalizing queue with
  | zero => rfl
  | succ n ih => exact ih (queue.flatMap children)

theorem layers_nil (n : Nat) : layers children n [] = [] := by
  induction n with
  | zero => rfl
  | succ n ih => exact ih

theorem mem_layers {queue : List E} {e : E} : e ∈ layers children n queue ↔ ∃ k < n, e ∈ layer children k queue := by
  induction n generalizing queue with
  | zero => exact iff_of_false List.not_mem_nil (by simp)
  | succ n ih =>
    rw [layers, List.mem_append, ih]
    constructor
    · rintro (h | ⟨k, hk, h⟩)
      · exact ⟨0, Nat.succ_pos n, h⟩
      · exact ⟨k + 1, Nat.succ_lt_succ hk, h⟩
    · rintro ⟨k, hk, h⟩
      cases k with
      | zero => exact Or.inl h
      | succ k => exact Or.inr ⟨k, Nat.lt_of_succ_lt_succ hk, h⟩

/-- What holds within the layers and between them. -/
theorem pairwise_layers {r : E → E → Prop} {queue : List E} (hlayer : ∀ k, (layer children k queue).Pairwise r)
    (hcross : ∀ j k, j < k → ∀ x ∈ layer children j queue, ∀ y ∈ layer children k queue, r x y) :
    (layers children n queue).Pairwise r := by
  induction n generalizing queue with
  | zero => exact List.Pairwise.nil
  | succ n ih =>
    rw [layers, List.pairwise_append]
    refine ⟨hlayer 0, ih (fun k => hlayer (k + 1)) fun j k hjk => hcross (j + 1) (k + 1) (Nat.succ_lt_succ hjk), ?_⟩
    intro x hx y hy
    obtain ⟨k, -, hk⟩ := mem_layers.1 hy
    exact hcross 0 (k + 1) (Nat.succ_pos k) x hx y hk

/-! ### The loop -/

variable (children report cap n) in
/-- The loop takes the entries of `n` layers, if there is none behind them. -/
private def TakesLayers : Prop := ∀ (queue : List E) (found : List R) (more : Nat), layer children n queue = [] →
  found.length ≤ cap → run children report cap ((layers children n queue).length + more) queue found =
    some ((found ++ (layers children n queue).filterMap report).take cap)

private theorem take_full {found more : List R} (hfound : found.length ≤ cap) (hfull : ¬ found.length < cap) :
    (found ++ more).take cap = found := by
  obtain rfl : found.length = cap := Nat.le_antisymm hfound (Nat.not_lt.1 hfull)
  exact List.take_left

/-- In the middle of a layer, `front` is left of it, and `back` is what has been appended. -/
private theorem run_front (h : TakesLayers children report cap n) (front back : List E) {found : List R}
    (hend : layer children n (back ++ front.flatMap children) = []) (hfound : found.length ≤ cap) (more : Nat) :
    run children report cap ((front ++ layers children n (back ++ front.flatMap children)).length + more) (front ++ back)
        found =
      some ((found ++ (front ++ layers children n (back ++ front.flatMap children)).filterMap report).take cap) := by
  induction front generalizing back found with
  | nil =>
    rw [List.flatMap_nil, List.append_nil] at hend ⊢
    exact h back found more hend hfound
  | cons e front ih =>
    have hback : back ++ (e :: front).flatMap children = back ++ children e ++ front.flatMap children := by
      rw [List.flatMap_cons, List.append_assoc]
    rw [hback] at hend ⊢
    rw [List.cons_append, List.length_cons, Nat.add_right_comm, List.cons_append, run]
    have hreport : ∀ es, (e :: es).filterMap report = (report e).toList ++ es.filterMap report := by
      intro es
      cases he : report e with
      | none => exact List.filterMap_cons_none he
      | some r => exact List.filterMap_cons_some he
    rw [hreport]
    split
    · rename_i hroom
      have hlength : (found ++ (report e).toList).length ≤ cap := by
        rw [List.length_append]
        cases report e with
        | none => exact hfound
        | some r => exact hroom
      have hrest := ih _ hend hlength
      rwa [List.append_assoc found, ← List.append_assoc front] at hrest
    · rename_i hfull
      rw [take_full hfound hfull]

private theorem takesLayers (n : Nat) : TakesLayers children report cap n := by
  induction n with
  | zero =>
    rintro queue found more rfl hfound
    rw [layers, List.filterMap_nil, List.append_nil, List.take_of_length_le hfound, run]
  | succ n ih =>
    intro queue found more hend hfound
    have hrun := run_front ih queue [] hend hfound more
    rwa [List.append_nil, List.nil_append] at hrun

/-- The loop ends, and reports what it finds layer by layer. -/
theorem run_eq {queue : List E} (hend : layer children n queue = []) (more : Nat) :
    run children report cap ((layers children n queue).length + more) queue [] =
      some (((layers children n queue).filterMap report).take cap) :=
  takesLayers n queue [] more hend (Nat.zero_le cap)

/-- A loop over the images of entries. -/
theorem run_map {E' R' : Type*} {children' : E' → List E'} {report' : E' → Option R'} (f : E → E') (g : R → R')
    (hchildren : ∀ e, children' (f e) = (children e).map f) (hreport : ∀ e, report' (f e) = (report e).map g)
    (cap rounds : Nat) (queue : List E) (found : List R) :
    run children' report' cap rounds (queue.map f) (found.map g) =
      (run children report cap rounds queue found).map (List.map g) := by
  induction rounds generalizing queue found with
  | zero =>
    cases queue with
    | nil => rfl
    | cons e queue =>
      rw [List.map_cons, run, run, List.length_map]
      split
      · rfl
      · rfl
  | succ rounds ih =>
    cases queue with
    | nil => rfl
    | cons e queue =>
      have hfound : found.map g ++ (report' (f e)).toList = (found ++ (report e).toList).map g := by
        rw [hreport, List.map_append]
        cases report e with
        | none => rfl
        | some r => rfl
      rw [List.map_cons, run, run, List.length_map, hchildren, ← List.map_append, hfound, ih]
      split
      · rfl
      · rfl

end Queue
