import Mathlib.Data.List.Basic

/-!
# Lawful traces

A trace is lawful when each of its entries is allowed by the entries before it.  A system that only appends to its trace
keeps it lawful by looking at what it appends (`lawful_append_singleton`).
-/

namespace Trace

variable {α : Type*} {allowed allowed' : List α → α → Prop} {trace : List α} {a : α}

/-- Every entry is allowed by those before it. -/
def Lawful (allowed : List α → α → Prop) (trace : List α) : Prop :=
  ∀ before a after, trace = before ++ a :: after → allowed before a

theorem lawful_nil : Lawful allowed ([] : List α) := by
  intro before a after h
  simp at h

theorem lawful_append_singleton : Lawful allowed (trace ++ [a]) ↔ Lawful allowed trace ∧ allowed trace a := by
  constructor
  · intro h
    refine ⟨fun before b after htrace => h before b (after ++ [a]) ?_, h trace a [] rfl⟩
    rw [htrace]
    simp
  · rintro ⟨htrace, ha⟩ before b after h
    rcases List.eq_nil_or_concat after with rfl | ⟨after, c, rfl⟩
    · obtain ⟨rfl, hb⟩ := List.append_inj' h rfl
      obtain rfl := List.singleton_inj.1 hb
      exact ha
    · rw [List.concat_eq_append, ← List.cons_append, ← List.append_assoc] at h
      exact htrace before b after (List.append_inj' h rfl).1

theorem Lawful.imp (h : Lawful allowed trace) (himp : ∀ before a, allowed before a → allowed' before a) :
    Lawful allowed' trace :=
  fun before a after htrace => himp before a (h before a after htrace)

end Trace
