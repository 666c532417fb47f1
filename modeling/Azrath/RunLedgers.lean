import Azrath.GuardedRuns
import Mathlib.Algebra.BigOperators.Group.List.Basic

/-!
# Books kept along a run

Every transition takes something in and gives something out, and what a state
has in stock accounts for the difference. Then the books of a whole run balance.
The stock may be a list, a multiset or a number: its sum need not commute.
-/

namespace RunLedgers

open GuardedRuns

universe u v w

variable {S : Type u} {A : Type v} {N : Type w} [AddMonoid N]
variable {M : System S A} {s t : S} {history : List (S × A)}

theorem sum_snoc (f : S × A → N) (history : List (S × A)) (p : S × A) :
    ((history ++ [p]).map f).sum = (history.map f).sum + f p := by
  simp

theorem balance (stock : S → N) (gain loss : S × A → N)
    (step : ∀ past u a, Run M s past u → M.enabled u a →
      stock u + gain (u, a) = loss (u, a) + stock (M.effect u a))
    (run : Run M s history t) :
    stock s + (history.map gain).sum = (history.map loss).sum + stock t := by
  induction run with
  | nil => simp
  | snoc before h ih =>
    rw [sum_snoc, sum_snoc, ← add_assoc, ih, add_assoc, step _ _ _ before h, ← add_assoc]

end RunLedgers
