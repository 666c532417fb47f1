import Mathlib.Tactic.Common

/-!
# Runs of guarded actions

A system is given by a guard and an effect for every action. A run keeps its
transitions in order, each with the state in which it was taken, so a property
of an interleaving is a property of that list. The rules below carry an
invariant along a run, along a run whose transitions satisfy a condition, or
along a run together with its history.
-/

namespace GuardedRuns

universe u v

structure System (S : Type u) (A : Type v) where
  enabled : S → A → Prop
  effect : S → A → S

variable {S : Type u} {A : Type v}

/-- Runs grow at their end. -/
inductive Run (M : System S A) (s : S) : List (S × A) → S → Prop where
  | nil : Run M s [] s
  | snoc {history : List (S × A)} {t : S} {a : A} : Run M s history t → M.enabled t a →
      Run M s (history ++ [(t, a)]) (M.effect t a)

variable {M : System S A} {s t u : S} {history later : List (S × A)}

theorem Run.single {a : A} (h : M.enabled s a) : Run M s [(s, a)] (M.effect s a) :=
  show Run M s ([] ++ [(s, a)]) _ from .snoc .nil h

theorem Run.append (first : Run M s history t) (second : Run M t later u) :
    Run M s (history ++ later) u := by
  induction second with
  | nil => simpa using first
  | snoc _ h ih =>
    rw [← List.append_assoc]
    exact .snoc ih h

/-- The induction rule for a property of the state and of the history so far. -/
theorem Run.history_invariant (J : List (S × A) → S → Prop) (start : J [] s)
    (keeps : ∀ past t a, Run M s past t → J past t → M.enabled t a →
      J (past ++ [(t, a)]) (M.effect t a))
    (run : Run M s history t) : J history t := by
  induction run with
  | nil => exact start
  | snoc before h ih => exact keeps _ _ _ before ih h

/-- An invariant need only be kept by the transitions the run really takes. -/
theorem Run.invariant_of (ok : S → A → Prop) (I : S → Prop)
    (keeps : ∀ t a, ok t a → I t → M.enabled t a → I (M.effect t a))
    (run : Run M s history t) (allowed : ∀ p ∈ history, ok p.1 p.2) (start : I s) : I t := by
  induction run with
  | nil => exact start
  | snoc before h ih =>
    have old := ih (fun p hp => allowed p (List.mem_append_left _ hp))
    exact keeps _ _ (allowed _ (List.mem_append_right _ (List.mem_singleton_self _))) old h

theorem Run.invariant (I : S → Prop)
    (keeps : ∀ t a, I t → M.enabled t a → I (M.effect t a))
    (run : Run M s history t) (start : I s) : I t :=
  run.invariant_of (fun _ _ => True) I (fun t a _ => keeps t a) (fun _ _ => trivial) start

/-- Cut a run at one of its transitions. -/
theorem Run.cut (run : Run M s history t) {before after : List (S × A)} {p : S × A}
    (split : history = before ++ p :: after) :
    Run M s before p.1 ∧ M.enabled p.1 p.2 ∧ Run M (M.effect p.1 p.2) after t := by
  induction run generalizing after with
  | nil => cases before <;> cases split
  | @snoc past v a first h ih =>
    rcases List.eq_nil_or_concat after with rfl | ⟨init, last, rfl⟩
    · obtain ⟨rfl, same⟩ := List.append_inj' split rfl
      cases same
      exact ⟨first, h, .nil⟩
    · rw [List.concat_eq_append, ← List.cons_append, ← List.append_assoc] at split
      obtain ⟨old, same⟩ := List.append_inj' split rfl
      cases same
      obtain ⟨front, enabled, back⟩ := ih old
      rw [List.concat_eq_append]
      exact ⟨front, enabled, back.snoc h⟩

theorem Run.split (run : Run M s history t) {p : S × A} (hp : p ∈ history) :
    ∃ before after, history = before ++ p :: after ∧ Run M s before p.1 ∧
      M.enabled p.1 p.2 ∧ Run M (M.effect p.1 p.2) after t := by
  obtain ⟨before, after, split⟩ := List.append_of_mem hp
  exact ⟨before, after, split, run.cut split⟩

/-- Actions that can be taken one after the other from `s`. -/
def Legal (M : System S A) : S → List A → Prop
  | _, [] => True
  | s, a :: rest => M.enabled s a ∧ Legal M (M.effect s a) rest

def final (M : System S A) : S → List A → S
  | s, [] => s
  | s, a :: rest => final M (M.effect s a) rest

def transitions (M : System S A) : S → List A → List (S × A)
  | _, [] => []
  | s, a :: rest => (s, a) :: transitions M (M.effect s a) rest

instance decidableLegal (M : System S A) [∀ s a, Decidable (M.enabled s a)] :
    ∀ (s : S) (actions : List A), Decidable (Legal M s actions)
  | _, [] => isTrue trivial
  | s, a :: rest =>
    have := decidableLegal M (M.effect s a) rest
    inferInstanceAs (Decidable (M.enabled s a ∧ Legal M (M.effect s a) rest))

/-- A concrete list of actions is replayed by computation. -/
theorem run_of_legal (actions : List A) (legal : Legal M s actions) :
    Run M s (transitions M s actions) (final M s actions) := by
  induction actions generalizing s with
  | nil => exact .nil
  | cons a rest ih => exact (Run.single legal.1).append (ih legal.2)

theorem transitions_actions (actions : List A) :
    (transitions M s actions).map Prod.snd = actions := by
  induction actions generalizing s with
  | nil => rfl
  | cons a rest ih => simp [transitions, ih]

theorem mem_of_mem_transitions {actions : List A} {p : S × A} (hp : p ∈ transitions M s actions) :
    p.2 ∈ actions := by
  rw [← transitions_actions (M := M) (s := s) actions]
  exact List.mem_map_of_mem hp

end GuardedRuns
