import Azrath.GuardedRuns

/-!
# What has come about in a run

A condition that does not hold at the start and holds now has been brought about
by some transition, and no transition since has undone it.
-/

namespace RunCauses

open GuardedRuns

universe u v

variable {S : Type u} {A : Type v} {M : System S A} {s t : S} {history : List (S × A)}

/-- Some transition was a cause, by what came before it, and nothing since has
undone its effect. -/
def Since (cause : List (S × A) → S × A → Prop) (undone : S × A → Prop)
    (history : List (S × A)) : Prop :=
  ∃ before p after, history = before ++ p :: after ∧ cause before p ∧ ∀ q ∈ after, ¬ undone q

variable {cause : List (S × A) → S × A → Prop} {undone : S × A → Prop} {p : S × A}

theorem Since.now (caused : cause history p) : Since cause undone (history ++ [p]) :=
  ⟨history, p, [], rfl, caused, by simp⟩

theorem Since.still (since : Since cause undone history) (kept : ¬ undone p) :
    Since cause undone (history ++ [p]) := by
  obtain ⟨before, q, after, rfl, caused, quiet⟩ := since
  refine ⟨before, q, after ++ [p], by simp, caused, fun r hr => ?_⟩
  rcases List.mem_append.mp hr with old | new
  · exact quiet r old
  · rwa [List.mem_singleton.mp new]

/-- A condition holds after a step only if the step was a cause, or if it held
before and the step has not undone it. -/
theorem since_of_run (P : S → Prop) (fresh : ¬ P s)
    (step : ∀ past u a, Run M s past u → M.enabled u a → P (M.effect u a) →
      cause past (u, a) ∨ P u ∧ ¬ undone (u, a))
    (run : Run M s history t) (now : P t) : Since cause undone history := by
  induction run with
  | nil => exact absurd now fresh
  | snoc before h ih =>
    rcases step _ _ _ before h now with caused | ⟨old, kept⟩
    · exact .now caused
    · exact (ih old).still kept

end RunCauses
