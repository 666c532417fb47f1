import Azrath.GuardedRuns

/-!
# Leads-to along fair executions

An execution takes one enabled action after the other, for ever. It is fair to
an agent that does not stay able to act for ever without acting. Progress is
proved one helpful agent at a time and then chained.
-/

namespace FairExecutions

open GuardedRuns

universe u v

variable {S : Type u} {A : Type v} {M : System S A} {s : S}

structure Execution (M : System S A) (s : S) where
  state : Nat → S
  action : Nat → A
  start : state 0 = s
  enabled : ∀ n, M.enabled (state n) (action n)
  step : ∀ n, state (n + 1) = M.effect (state n) (action n)

/-- `mine` are the actions of one agent. -/
def WeaklyFair (σ : Execution M s) (mine : A → Prop) : Prop :=
  ∀ n, (∀ k, n ≤ k → ∃ a, mine a ∧ M.enabled (σ.state k) a) → ∃ k, n ≤ k ∧ mine (σ.action k)

/-- A list of actions, and then one action that changes nothing any more. -/
def Execution.ofActions (actions : List A) (rest : A) (legal : Legal M s actions)
    (able : M.enabled (final M s actions) rest)
    (still : M.effect (final M s actions) rest = final M s actions) : Execution M s where
  state n := final M s (actions.take n)
  action n := actions.getD n rest
  start := by cases actions <;> rfl
  enabled := by
    intro n
    induction actions generalizing s n with
    | nil => simpa using able
    | cons a later ih =>
      cases n with
      | zero => exact legal.1
      | succ n => exact ih legal.2 able still n
  step := by
    intro n
    induction actions generalizing s n with
    | nil => simpa using still.symm
    | cons a later ih =>
      cases n with
      | zero => cases later <;> rfl
      | succ n => exact ih legal.2 able still n

/-- It is fair to everyone who has nothing left to do. -/
theorem Execution.ofActions_fair {mine : A → Prop} {actions : List A} {rest : A}
    {legal : Legal M s actions}
    {able : M.enabled (final M s actions) rest}
    {still : M.effect (final M s actions) rest = final M s actions}
    (idle : ∀ a, mine a → ¬ M.enabled (final M s actions) a) :
    WeaklyFair (Execution.ofActions actions rest legal able still) mine := by
  intro n always
  obtain ⟨a, acts, h⟩ := always (max n actions.length) (Nat.le_max_left _ _)
  have all : actions.take (max n actions.length) = actions :=
    List.take_of_length_le (Nat.le_max_right _ _)
  simp only [Execution.ofActions, all] at h
  exact (idle a acts h).elim

def LeadsTo (σ : Execution M s) (P Q : S → Prop) : Prop :=
  ∀ n, P (σ.state n) → ∃ m, n ≤ m ∧ Q (σ.state m)

/-- Until `Q` holds, `P` stays and the agent can make `Q` hold. -/
structure Ensures (M : System S A) (mine : A → Prop) (P Q : S → Prop) : Prop where
  keeps : ∀ s a, P s → M.enabled s a → P (M.effect s a) ∨ Q (M.effect s a)
  able : ∀ s, P s → ∃ a, mine a ∧ M.enabled s a
  helps : ∀ s a, P s → mine a → M.enabled s a → Q (M.effect s a)

variable {σ : Execution M s} {P Q R : S → Prop} {mine : A → Prop}

theorem Ensures.leadsTo (ensures : Ensures M mine P Q) (fair : WeaklyFair σ mine) :
    LeadsTo σ P Q := by
  intro n start
  by_contra never
  have absent : ∀ k, n ≤ k → ¬ Q (σ.state k) := fun k hk h => never ⟨k, hk, h⟩
  have stays : ∀ k, n ≤ k → P (σ.state k) := by
    intro k hk
    induction k with
    | zero =>
      have first : n = 0 := by omega
      rwa [← first]
    | succ k ih =>
      by_cases last : n = k + 1
      · rwa [← last]
      · have next := ensures.keeps _ _ (ih (by omega)) (σ.enabled k)
        rw [← σ.step k] at next
        exact next.resolve_right (absent (k + 1) hk)
  obtain ⟨k, hk, acts⟩ := fair n (fun k hk => ensures.able _ (stays k hk))
  have reached := ensures.helps _ _ (stays k hk) acts (σ.enabled k)
  rw [← σ.step k] at reached
  exact absent (k + 1) (by omega) reached

theorem LeadsTo.trans (first : LeadsTo σ P Q) (second : LeadsTo σ Q R) : LeadsTo σ P R := by
  intro n start
  obtain ⟨m, hm, middle⟩ := first n start
  obtain ⟨k, hk, last⟩ := second m middle
  exact ⟨k, by omega, last⟩

theorem LeadsTo.or (left : LeadsTo σ P R) (right : LeadsTo σ Q R) :
    LeadsTo σ (fun t => P t ∨ Q t) R := by
  rintro n (start | start)
  · exact left n start
  · exact right n start

end FairExecutions
