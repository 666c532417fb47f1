import Azrath.StutteringExecutions
import Azrath.ThreadLists

/-!
# One system seen as another

A simulation shows every step of one system as a step of another, along a view
of the states. Runs and executions are then carried over, and with them whatever
holds along those of the other system. Where a step shows nothing, the other
system lets time pass.
-/

namespace Simulations

open GuardedRuns FairExecutions StutteringExecutions

universe u v

structure Simulation {S S' : Type u} {A B : Type v} (M : System S A) (N : System S' B) where
  Inv : S → Prop
  view : S → S'
  label : S → A → B
  keeps : ∀ {s a}, Inv s → M.enabled s a → Inv (M.effect s a)
  able : ∀ {s a}, Inv s → M.enabled s a → N.enabled (view s) (label s a)
  step : ∀ {s a}, Inv s → M.enabled s a → view (M.effect s a) = N.effect (view s) (label s a)

section Simulated
variable {S S' : Type u} {A B : Type v} {M : System S A} {N : System S' B}
variable (sim : Simulation M N) {s t : S} {history : List (S × A)}

/-- What the other system sees of a history. -/
def Simulation.shown (history : List (S × A)) : List (S' × B) :=
  history.map fun p => (sim.view p.1, sim.label p.1 p.2)

theorem Simulation.invariant (inv : sim.Inv s) (run : Run M s history t) : sim.Inv t :=
  run.invariant sim.Inv (fun _ _ inv h => sim.keeps inv h) inv

theorem Simulation.run (inv : sim.Inv s) (run : Run M s history t) :
    Run N (sim.view s) (sim.shown history) (sim.view t) := by
  induction run with
  | nil => exact .nil
  | snoc before h ih =>
    have inv := sim.invariant inv before
    rw [Simulation.shown, List.map_append, sim.step inv h]
    exact ih.snoc (sim.able inv h)

theorem Simulation.invariant_at (σ : Execution M s) (inv : sim.Inv s) (n : Nat) :
    sim.Inv (σ.state n) := by
  induction n with
  | zero => rwa [σ.start]
  | succ n ih =>
    rw [σ.step n]
    exact sim.keeps ih (σ.enabled n)

/-- What the other system sees of an execution. -/
def Simulation.execution (σ : Execution M s) (inv : sim.Inv s) : Execution N (sim.view s) where
  state n := sim.view (σ.state n)
  action n := sim.label (σ.state n) (σ.action n)
  start := congrArg sim.view σ.start
  enabled n := sim.able (sim.invariant_at σ inv n) (σ.enabled n)
  step n := by rw [σ.step n, sim.step (sim.invariant_at σ inv n) (σ.enabled n)]

end Simulated

section Stuttering
variable {S : Type u} {A : Type v} {M : System S A} {s t : S}

/-- The transitions in which something happens. -/
def happened (history : List (S × Option A)) : List (S × A) :=
  history.filterMap fun p => p.2.map fun a => (p.1, a)

theorem happened_snoc (history : List (S × Option A)) (p : S × Option A) :
    happened (history ++ [p]) = happened history ++ (p.2.map fun a => (p.1, a)).toList :=
  ThreadLists.filterMap_snoc _ history p

variable {S' : Type u} {B : Type v} {N : System S' B}

/-- Time may pass in both systems at once. -/
def Simulation.stuttered (sim : Simulation M (stuttering N)) :
    Simulation (stuttering M) (stuttering N) where
  Inv := sim.Inv
  view := sim.view
  label s a := a.bind (sim.label s)
  keeps {s a} inv h := by
    cases a with
    | none => exact inv
    | some a => exact sim.keeps inv (h a rfl)
  able {s a} inv h := by
    cases a with
    | none => rintro b ⟨⟩
    | some a => exact sim.able inv (h a rfl)
  step {s a} inv h := by
    cases a with
    | none => rfl
    | some a => exact sim.step inv (h a rfl)

/-- An agent that some steps show is treated fairly with them. -/
theorem Simulation.weaklyFair (sim : Simulation M (stuttering N)) {σ : Execution (stuttering M) s}
    (inv : sim.Inv s) {mine : A → Prop} {shown : B → Prop} (fair : WeaklyFair σ (By mine))
    (shows : ∀ t a, mine a → ∃ b ∈ sim.label t a, shown b)
    (able : ∀ t b, shown b → N.enabled (sim.view t) b → ∃ a, mine a ∧ M.enabled t a) :
    WeaklyFair (sim.stuttered.execution σ inv) (By shown) := by
  intro n always
  obtain ⟨k, hk, a, acted, own⟩ := fair n (by
    intro k hk
    obtain ⟨_, ⟨b, rfl, own⟩, h⟩ := always k hk
    obtain ⟨a, mine, enabled⟩ := able (σ.state k) b own (h b rfl)
    exact ⟨some a, ⟨a, rfl, mine⟩, by rintro _ ⟨⟩; exact enabled⟩)
  obtain ⟨b, hb, own'⟩ := shows (σ.state k) a own
  exact ⟨k, hk, b, Option.mem_bind_iff.mpr ⟨a, acted, hb⟩, own'⟩

theorem Simulation.stronglyFair (sim : Simulation M (stuttering N))
    {σ : Execution (stuttering M) s} (inv : sim.Inv s) {mine : A → Prop} {shown : B → Prop}
    (fair : StronglyFair σ (By mine)) (shows : ∀ t a, mine a → ∃ b ∈ sim.label t a, shown b)
    (able : ∀ t b, shown b → N.enabled (sim.view t) b → ∃ a, mine a ∧ M.enabled t a) :
    StronglyFair (sim.stuttered.execution σ inv) (By shown) := by
  intro n often
  obtain ⟨k, hk, a, acted, own⟩ := fair n (by
    intro m hm
    obtain ⟨k, hk, _, ⟨b, rfl, own⟩, h⟩ := often m hm
    obtain ⟨a, mine, enabled⟩ := able (σ.state k) b own (h b rfl)
    exact ⟨k, hk, some a, ⟨a, rfl, mine⟩, by rintro _ ⟨⟩; exact enabled⟩)
  obtain ⟨b, hb, own'⟩ := shows (σ.state k) a own
  exact ⟨k, hk, b, Option.mem_bind_iff.mpr ⟨a, acted, hb⟩, own'⟩

/-- A run in which time passes is a run without it. -/
theorem run_happened {history : List (S × Option A)} (run : Run (stuttering M) s history t) :
    Run M s (happened history) t := by
  induction run with
  | nil => exact .nil
  | @snoc past u a before h ih =>
    rw [happened_snoc]
    cases a with
    | none =>
      rw [Option.map_none, Option.toList_none, List.append_nil]
      exact ih
    | some a => exact ih.snoc (h a rfl)

end Stuttering

end Simulations
