import Azrath.FairExecutions
import Mathlib.Data.Nat.Find
import Mathlib.Data.Nat.Init
import Mathlib.Order.WellFounded

/-!
# Executions in which time may pass

A program may come to rest for good, so an execution may also let time pass.
What it has done by some moment is a run of the original system, and every
invariant of runs holds at every moment. An agent whose step is possible again
and again, but not all the time, needs strong fairness to take it.
-/

namespace StutteringExecutions

open GuardedRuns FairExecutions

universe u v

variable {S : Type u} {A : Type v} {M : System S A} {s : S}

/-- The action `none` lets time pass. -/
def stuttering (M : System S A) : System S (Option A) where
  enabled s a := ∀ b ∈ a, M.enabled s b
  effect s a := a.elim s (M.effect s)

instance (M : System S A) [∀ s a, Decidable (M.enabled s a)] :
    ∀ s a, Decidable ((stuttering M).enabled s a)
  | _, none => isTrue (by rintro b ⟨⟩)
  | s, some a => decidable_of_iff (M.enabled s a) (by simp [stuttering])

/-- The transitions before a moment. -/
def past (σ : Execution (stuttering M) s) : Nat → List (S × A)
  | 0 => []
  | n + 1 => past σ n ++ (σ.action n).toList.map fun a => (σ.state n, a)

section Past
variable {σ : Execution (stuttering M) s}

theorem past_acted {n : Nat} {a : A} (acted : σ.action n = some a) :
    past σ (n + 1) = past σ n ++ [(σ.state n, a)] := by
  simp [past, acted]

theorem past_paused {n : Nat} (paused : σ.action n = none) : past σ (n + 1) = past σ n := by
  simp [past, paused]

theorem state_acted {n : Nat} {a : A} (acted : σ.action n = some a) :
    M.enabled (σ.state n) a ∧ σ.state (n + 1) = M.effect (σ.state n) a := by
  have able := σ.enabled n
  have step := σ.step n
  rw [acted] at able step
  exact ⟨able a rfl, step⟩

theorem state_paused {n : Nat} (paused : σ.action n = none) : σ.state (n + 1) = σ.state n := by
  have step := σ.step n
  rw [paused] at step
  exact step

variable (σ) in
theorem past_run (n : Nat) : Run M s (past σ n) (σ.state n) := by
  induction n with
  | zero =>
    rw [σ.start]
    exact .nil
  | succ n ih =>
    cases acted : σ.action n with
    | none =>
      rw [past_paused acted, state_paused acted]
      exact ih
    | some a =>
      rw [past_acted acted, (state_acted acted).2]
      exact ih.snoc (state_acted acted).1

variable (σ) in
/-- The past only grows. -/
theorem past_prefix {m n : Nat} (h : m ≤ n) : ∃ later, past σ n = past σ m ++ later := by
  induction n, h using Nat.le_induction with
  | base => exact ⟨[], by simp⟩
  | succ n _ ih =>
    obtain ⟨later, grown⟩ := ih
    exact ⟨later ++ (σ.action n).toList.map fun a => (σ.state n, a), by simp [past, grown]⟩

theorem mem_past {n : Nat} {p : S × A} (hp : p ∈ past σ n) :
    ∃ k, k < n ∧ σ.state k = p.1 ∧ σ.action k = some p.2 := by
  induction n with
  | zero => cases hp
  | succ n ih =>
    rcases List.mem_append.mp hp with old | new
    · obtain ⟨k, hk, found⟩ := ih old
      exact ⟨k, by omega, found⟩
    · obtain ⟨a, ha, rfl⟩ := List.mem_map.mp new
      exact ⟨n, by omega, rfl, Option.mem_toList.mp ha⟩

variable (σ) in
/-- What one action keeps holds from some moment on. -/
theorem stays_from (P : S → Prop) {n : Nat} (start : P (σ.state n))
    (keeps : ∀ k a, n ≤ k → σ.action k = some a → P (σ.state k) → P (σ.state (k + 1)))
    {k : Nat} (hk : n ≤ k) : P (σ.state k) := by
  induction k, hk using Nat.le_induction with
  | base => exact start
  | succ k hk ih =>
    cases acted : σ.action k with
    | none =>
      rw [state_paused acted]
      exact ih
    | some a => exact keeps k a hk acted ih

end Past

/-- A quantity that never grows again stays at last what it is. -/
theorem exists_settled (f : Nat → Nat) {n : Nat} (falls : ∀ k, n ≤ k → f (k + 1) ≤ f k) :
    ∃ m, n ≤ m ∧ ∀ k, m ≤ k → f k = f m := by
  obtain ⟨m, hm, least⟩ := (measure f).wf.has_min {k | n ≤ k} ⟨n, Nat.le_refl n⟩
  refine ⟨m, hm, fun k hk => ?_⟩
  have below : f k ≤ f m := by
    induction k, hk using Nat.le_induction with
    | base => exact Nat.le_refl _
    | succ k hk ih => exact Nat.le_trans (falls k (Nat.le_trans hm hk)) ih
  exact Nat.le_antisymm below (Nat.le_of_not_lt (least k (Nat.le_trans hm hk)))

/-! ## Agents -/

/-- The steps of an agent, among actions and pauses. -/
def By (mine : A → Prop) (a : Option A) : Prop := ∃ b ∈ a, mine b

/-- An agent that can act again and again acts at last. -/
def StronglyFair (σ : Execution M s) (mine : A → Prop) : Prop :=
  ∀ n, (∀ m, n ≤ m → ∃ k, m ≤ k ∧ ∃ a, mine a ∧ M.enabled (σ.state k) a) →
    ∃ k, n ≤ k ∧ mine (σ.action k)

theorem StronglyFair.weaklyFair {σ : Execution M s} {mine : A → Prop}
    (fair : StronglyFair σ mine) : WeaklyFair σ mine := by
  intro n always
  apply fair n
  intro m hm
  exact ⟨m, Nat.le_refl m, always m hm⟩

section Agents
variable {σ : Execution (stuttering M) s} {mine : A → Prop} {P : S → Prop} {n : Nat}

/-- While the agent does not act the property stays, so it stays for ever. -/
theorem stays_unless (start : P (σ.state n))
    (keeps : ∀ k a, n ≤ k → σ.action k = some a → P (σ.state k) → ¬ mine a →
      P (σ.state (k + 1)))
    (never : ∀ k a, n ≤ k → σ.action k = some a → P (σ.state k) → ¬ mine a)
    {k : Nat} (hk : n ≤ k) : P (σ.state k) :=
  stays_from σ P start (fun k a hk acted h => keeps k a hk acted h (never k a hk acted h)) hk

/-- The agent can act whenever the property holds, and nobody else ends it. -/
theorem acts_of_weaklyFair (fair : WeaklyFair σ (By mine)) (start : P (σ.state n))
    (keeps : ∀ k a, n ≤ k → σ.action k = some a → P (σ.state k) → ¬ mine a →
      P (σ.state (k + 1)))
    (able : ∀ k, n ≤ k → P (σ.state k) → ∃ a, mine a ∧ M.enabled (σ.state k) a) :
    ∃ k a, n ≤ k ∧ P (σ.state k) ∧ σ.action k = some a ∧ mine a := by
  by_contra none_acts
  have stays := fun k => stays_unless (k := k) start keeps
    fun k a hk acted h own => none_acts ⟨k, a, hk, h, acted, own⟩
  obtain ⟨k, hk, a, acted, own⟩ := fair n (by
    intro k hk
    obtain ⟨a, own, h⟩ := able k hk (stays k hk)
    exact ⟨some a, ⟨a, rfl, own⟩, by rintro b ⟨⟩; exact h⟩)
  exact none_acts ⟨k, a, hk, stays k hk, acted, own⟩

/-- The agent can act again and again as long as the property holds. -/
theorem acts_of_stronglyFair (fair : StronglyFair σ (By mine)) (start : P (σ.state n))
    (keeps : ∀ k a, n ≤ k → σ.action k = some a → P (σ.state k) → ¬ mine a →
      P (σ.state (k + 1)))
    (able : ∀ m, n ≤ m → ∃ k, m ≤ k ∧
      (P (σ.state k) → ∃ a, mine a ∧ M.enabled (σ.state k) a)) :
    ∃ k a, n ≤ k ∧ P (σ.state k) ∧ σ.action k = some a ∧ mine a := by
  by_contra none_acts
  have stays := fun k => stays_unless (k := k) start keeps
    fun k a hk acted h own => none_acts ⟨k, a, hk, h, acted, own⟩
  obtain ⟨k, hk, a, acted, own⟩ := fair n (by
    intro m hm
    obtain ⟨k, hk, possible⟩ := able m hm
    obtain ⟨a, own, h⟩ := possible (stays k (by omega))
    exact ⟨k, hk, some a, ⟨a, rfl, own⟩, by rintro b ⟨⟩; exact h⟩)
  exact none_acts ⟨k, a, hk, stays k hk, acted, own⟩

/-- The first time that the agent acts; till then the property stays. -/
theorem first_acts (start : P (σ.state n))
    (keeps : ∀ k a, n ≤ k → σ.action k = some a → P (σ.state k) → ¬ mine a →
      P (σ.state (k + 1)))
    (acts : ∃ k a, n ≤ k ∧ σ.action k = some a ∧ mine a) :
    ∃ k a, n ≤ k ∧ (∀ l, n ≤ l → l ≤ k → P (σ.state l)) ∧ σ.action k = some a ∧ mine a := by
  classical
  obtain ⟨a, hk, acted, own⟩ := Nat.find_spec acts
  refine ⟨Nat.find acts, a, hk, fun l hl last => ?_, acted, own⟩
  induction l, hl using Nat.le_induction with
  | base => exact start
  | succ l hl ih =>
    have before := ih (by omega)
    cases acted : σ.action l with
    | none =>
      rw [state_paused acted]
      exact before
    | some b =>
      exact keeps l b hl acted before fun own =>
        Nat.find_min acts (show l < _ by omega) ⟨b, hl, acted, own⟩

/-- While time passes nothing changes, so an agent's help is still to come. -/
theorem ensures_stuttering {Q : S → Prop} (ensures : Ensures M mine P Q) :
    Ensures (stuttering M) (By mine) P Q where
  keeps := by
    intro t a before h
    cases a with
    | none => exact Or.inl before
    | some a => exact ensures.keeps t a before (h a rfl)
  able := by
    intro t before
    obtain ⟨a, own, h⟩ := ensures.able t before
    exact ⟨some a, ⟨a, rfl, own⟩, by rintro b ⟨⟩; exact h⟩
  helps := by
    rintro t _ before ⟨a, rfl, own⟩ h
    exact ensures.helps t a before own (h a rfl)

end Agents

/-! ## Executions that come to rest -/

theorem legal_map {actions : List A} (legal : Legal M s actions) :
    Legal (stuttering M) s (actions.map some) := by
  induction actions generalizing s with
  | nil => trivial
  | cons a rest ih => exact ⟨by rintro b ⟨⟩; exact legal.1, ih legal.2⟩

theorem final_map (actions : List A) :
    final (stuttering M) s (actions.map some) = final M s actions := by
  induction actions generalizing s with
  | nil => rfl
  | cons a rest ih => exact ih

/-- A list of actions, and nothing after it. -/
def resting (actions : List A) (legal : Legal M s actions) : Execution (stuttering M) s :=
  Execution.ofActions (actions.map some) none (legal_map legal) (by rintro b ⟨⟩) rfl

section Resting
variable {actions : List A} {legal : Legal M s actions}

theorem resting_state (n : Nat) : (resting actions legal).state n = final M s (actions.take n) := by
  change final (stuttering M) s ((actions.map some).take n) = _
  rw [← List.map_take, final_map]

theorem resting_action (n : Nat) : (resting actions legal).action n = actions[n]? := by
  change (actions.map some).getD n none = _
  rw [List.getD_eq_getElem?_getD, List.getElem?_map]
  cases actions[n]? <;> rfl

theorem transitions_getElem? (actions : List A) (n : Nat) :
    (transitions M s actions)[n]? = actions[n]?.map fun a => (final M s (actions.take n), a) := by
  induction actions generalizing s n with
  | nil => rfl
  | cons a rest ih =>
    cases n with
    | zero => rfl
    | succ n => exact ih n

theorem past_resting (n : Nat) :
    past (resting actions legal) n = (transitions M s actions).take n := by
  induction n with
  | zero => rfl
  | succ n ih =>
    have action : (resting actions legal).action n = actions[n]? := resting_action n
    have state : (resting actions legal).state n = final M s (actions.take n) := resting_state n
    rw [List.take_add_one, transitions_getElem?, ← action, ← state, ← ih]
    cases acted : (resting actions legal).action n with
    | none => simp [past_paused acted]
    | some a => simp [past_acted acted]

/-- What holds of the listed actions holds of all there are. -/
theorem of_listed {P : Nat → A → Prop} (listed : ∀ n < actions.length, ∀ a ∈ actions[n]?, P n a)
    {n : Nat} {a : A} (acted : (resting actions legal).action n = some a) : P n a := by
  rw [resting_action] at acted
  exact listed n (List.getElem?_eq_some_iff.mp acted).1 a acted

theorem of_reached {P : S → Prop} (reached : ∀ n ≤ actions.length, P (final M s (actions.take n)))
    (n : Nat) : P ((resting actions legal).state n) := by
  rw [resting_state]
  by_cases before : n ≤ actions.length
  · exact reached n before
  · have last := reached actions.length (Nat.le_refl _)
    rw [List.take_of_length_le (Nat.le_refl _)] at last
    rw [List.take_of_length_le (by omega)]
    exact last

/-- It is fair to everyone who has nothing left to do. -/
theorem resting_stronglyFair {mine : A → Prop}
    (idle : ∀ a, mine a → ¬ M.enabled (final M s actions) a) :
    StronglyFair (resting actions legal) (By mine) := by
  intro n often
  obtain ⟨k, hk, _, ⟨a, rfl, own⟩, h⟩ := often (max n actions.length) (Nat.le_max_left _ _)
  rw [resting_state, List.take_of_length_le (by omega)] at h
  exact (idle a own (h a rfl)).elim

end Resting

end StutteringExecutions
