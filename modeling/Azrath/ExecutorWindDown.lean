import Azrath.ExecutorLiveness
import Mathlib.Data.Finset.Range
import Mathlib.Order.Filter.AtTopBot.Basic
import Mathlib.Order.Filter.Finite

/-!
# A pool that is given no more tasks comes to rest

Once `execute` is called no more, the queue and then `notified` fall to their
last value. A worker that comes out of its wait after that finds no
notification, and one that has timed out leaves. When all of them have left,
the counters are back where `Executor::new` put them, except that a worker lost
to a panic is counted for good.
-/

namespace ExecutorWindDown

open GuardedRuns FairExecutions StutteringExecutions ExecutorModel ExecutorAccounting
open ExecutorProgress ExecutorQueue ExecutorLiveness

universe u
variable {bits : Nat} {T : Type u} {inner : Inner bits} {s t : State T} {a : Action T}

/-- `wait_timeout` of worker `i` runs out. -/
def TimesOut (i : Nat) : Action T → Prop
  | .timeout j => j = i
  | _ => False

/-- Every worker has left, and no counter remembers any but the lost ones. -/
structure Gone (lost : Nat) (s : State T) : Prop where
  left : ∀ w ∈ s.threads, w.live = false
  shared : s.shared = { queue := [], workers := lost, idle := 0, notified := 0 }
  unlocked : s.lock = none

/-! ## What no step does any more -/

theorem notified_falls (closed : ¬ Executes a) (move : Move inner s a t) :
    t.shared.notified ≤ s.shared.notified := by
  cases move with
  | spawn _ _ _ _ | notify _ _ _ | notifyNobody _ _ _ | full _ _ _ => exact (closed trivial).elim
  | take _ _ => exact Nat.sub_le _ _
  | _ => exact Nat.le_refl _

theorem length_kept (closed : ¬ Executes a) (move : Move inner s a t) :
    t.threads.length = s.threads.length := by
  cases move with
  | spawn _ _ _ _ | notify _ _ _ | notifyNobody _ _ _ | full _ _ _ => exact (closed trivial).elim
  | submit _ => rfl
  | _ => exact List.length_set

theorem queue_falls (closed : ¬ Executes a) (move : Move inner s a t) :
    t.shared.queue.length ≤ s.shared.queue.length := by
  have moved := congrArg List.length (queue_move move)
  have unsubmitted : submitted? (s, a) = none := by
    cases a with
    | execute _ _ _ _ => exact (closed trivial).elim
    | _ => rfl
  rw [unsubmitted, List.length_append, List.length_append] at moved
  simp only [Option.toList_none, List.length_nil] at moved
  omega

/-- With every worker gone, only a new task can get the pool to do anything. -/
theorem enabled_of_left (left : ∀ w ∈ s.threads, w.live = false) (h : enabled s a) :
    (∃ fut caller, a = .submit fut caller) ∨ Executes a := by
  have none_there : ∀ {i : Nat} {w : Worker T}, s.threads[i]? = some w → w.live = true → False := by
    intro i w here live
    rw [left w (List.mem_of_getElem? here)] at live
    cases live
  cases a with
  | submit fut caller => exact Or.inl ⟨fut, caller, rfl⟩
  | execute fut caller spawned picked => exact Or.inr trivial
  | lock i =>
    rcases h.2 with start | back
    · exact (none_there start rfl).elim
    · exact (none_there back rfl).elim
  | turn i => exact (none_there h rfl).elim
  | finish i task | panic i task => exact (none_there h.1 rfl).elim
  | timeout i => exact (none_there h rfl).elim
  | wake i wait => exact (none_there h.2 rfl).elim
  | check i timed_out => exact (none_there h rfl).elim

section Fair
variable {σ : Execution (stuttering (pool T inner)) initial} {n : Nat}

/-- No call of `execute` goes through from `n` on. -/
def Closed (σ : Execution (stuttering (pool T inner)) initial) (n : Nat) : Prop :=
  ∀ k a, n ≤ k → σ.action k = some a → ¬ Executes a

/-- A quantity that falls with every step of a closed pool is settled at last. -/
theorem Closed.settles (closed : Closed σ n) (f : State T → Nat)
    (falls : ∀ {s t : State T} {a : Action T}, ¬ Executes a → Move inner s a t → f t ≤ f s) :
    ∃ m, n ≤ m ∧ ∀ k, m ≤ k → f (σ.state k) = f (σ.state m) := by
  apply exists_settled fun k => f (σ.state k)
  intro k hk
  cases acted : σ.action k with
  | none => exact Nat.le_of_eq (congrArg f (state_paused acted))
  | some a => exact falls (closed k a hk acted) (move_at acted)

/-- The queue is empty and `notified` changes no more. -/
structure Settled (σ : Execution (stuttering (pool T inner)) initial) (n : Nat) : Prop where
  closed : Closed σ n
  empty : ∀ k, n ≤ k → (σ.state k).shared.queue = []
  notified : ∀ k, n ≤ k → (σ.state (k + 1)).shared.notified = (σ.state k).shared.notified

theorem Closed.settled (closed : Closed σ n) (fair : FairPool σ) (enduring : Enduring σ) :
    ∃ m, n ≤ m ∧ Settled σ m := by
  obtain ⟨q, hq, queue⟩ := closed.settles (fun s => s.shared.queue.length) queue_falls
  obtain ⟨c, hc, notified⟩ := closed.settles (fun s => s.shared.notified) notified_falls
  have empty : (σ.state q).shared.queue = [] := by
    by_contra queued
    obtain ⟨k, i, task, hk, _, acted, popped⟩ := pop_follows fair enduring queued
    have moved := congrArg List.length (queue_move (move_at acted))
    simp only [popped, submitted?, Option.toList_none, List.append_nil, Option.toList_some,
      List.singleton_append, List.length_cons] at moved
    have := queue k hk
    have := queue (k + 1) (by omega)
    omega
  refine ⟨max q c, by omega, fun k a hk => closed k a (by omega), fun k hk => ?_, fun k hk => ?_⟩
  · apply List.eq_nil_of_length_eq_zero
    rw [queue k (by omega), empty]
    rfl
  · rw [notified (k + 1) (by omega), notified k (by omega)]

/-! ## One worker -/

section Settled
variable (settled : Settled σ n) (fair : FairPool σ) {k i : Nat} (hk : n ≤ k)
include settled fair hk

/-- A worker that comes to the queue finds it empty. -/
theorem rests_of_locked (here : (σ.state k).threads[i]? = some .locked) :
    ∃ l, k ≤ l ∧ (σ.state l).threads[i]? = some (.waiting .asleep) := by
  obtain ⟨l, _, hl, _, acted, rfl⟩ := takes_step fair here ⟨.turn i, rfl⟩
  exact ⟨l + 1, by omega, after_turn (move_at acted) (settled.empty l (by omega))⟩

theorem rests_of_outside {w : Worker T} (here : (σ.state k).threads[i]? = some w)
    (outside : w = .starting ∨ w = .relocking) :
    ∃ l, k ≤ l ∧ (σ.state l).threads[i]? = some (.waiting .asleep) := by
  have able : ∃ a, Next i w a := by rcases outside with rfl | rfl <;> exact ⟨.lock i, rfl⟩
  obtain ⟨l, a, hl, _, acted, next⟩ := takes_step fair here able
  obtain rfl : a = .lock i := by rcases outside with rfl | rfl <;> exact next
  obtain ⟨m, hm, asleep⟩ := rests_of_locked settled fair (by omega) (after_lock (move_at acted))
  exact ⟨m, by omega, asleep⟩

/-- A woken worker finds no notification, and leaves if it has timed out. -/
theorem woken_leaves {timed_out : Bool}
    (here : (σ.state k).threads[i]? = some (.woken timed_out)) :
    ∃ l, k ≤ l ∧ (σ.state l).threads[i]? =
      some (if timed_out then .exited else .waiting .asleep) := by
  obtain ⟨l, _, hl, _, acted, rfl⟩ := takes_step fair here ⟨.check i timed_out, rfl⟩
  have same := settled.notified l (by omega)
  have uncalled : (σ.state l).shared.notified = 0 := by
    by_contra called
    have taken := (after_check_called (move_at acted) (Nat.pos_of_ne_zero called)).2
    omega
  exact ⟨l + 1, by omega, (after_check_uncalled (move_at acted) uncalled).1⟩

theorem outstanding_leaves {wait : Wait} (here : (σ.state k).threads[i]? = some (.waiting wait))
    (awake : wait ≠ .asleep) :
    ∃ l, k ≤ l ∧ (σ.state l).threads[i]? =
      some (if wait = .timedOut then .exited else .waiting .asleep) := by
  have able : ∀ a, Next i (.waiting wait : Worker T) a ↔ a = .wake i wait := by
    intro a
    cases wait with
    | asleep => exact absurd rfl awake
    | picked => exact Iff.rfl
    | timedOut => exact Iff.rfl
  obtain ⟨l, a, hl, _, acted, next⟩ := takes_step fair here ⟨_, (able _).mpr rfl⟩
  obtain rfl := (able a).mp next
  obtain ⟨m, hm, left⟩ := woken_leaves settled fair (by omega) (after_wake (move_at acted))
  exact ⟨m, by omega, by simpa using left⟩

/-- Worker `i` is asleep or gone. -/
def Rests (s : State T) (i : Nat) : Prop :=
  ∃ w, s.threads[i]? = some w ∧ (w = .waiting .asleep ∨ w.live = false)

omit settled fair hk in
theorem Rests.asleep (asleep : ∃ l, k ≤ l ∧ (σ.state l).threads[i]? = some (.waiting .asleep)) :
    ∃ l, k ≤ l ∧ Rests (σ.state l) i := by
  obtain ⟨l, hl, here⟩ := asleep
  exact ⟨l, hl, _, here, Or.inl rfl⟩

omit settled fair hk in
theorem Rests.leaving {p : Prop} [Decidable p] (leaves : ∃ l, k ≤ l ∧
      (σ.state l).threads[i]? = some (if p then .exited else .waiting .asleep)) :
    ∃ l, k ≤ l ∧ Rests (σ.state l) i := by
  obtain ⟨l, hl, here⟩ := leaves
  refine ⟨l, hl, _, here, ?_⟩
  by_cases left : p
  · exact Or.inr (by rw [if_pos left]; rfl)
  · exact Or.inl (if_neg left)

/-- Every worker goes to sleep again or is gone. -/
theorem rests {w : Worker T} (here : (σ.state k).threads[i]? = some w) :
    ∃ l, k ≤ l ∧ Rests (σ.state l) i := by
  cases w with
  | starting => exact Rests.asleep (rests_of_outside settled fair hk here (Or.inl rfl))
  | relocking => exact Rests.asleep (rests_of_outside settled fair hk here (Or.inr rfl))
  | locked => exact Rests.asleep (rests_of_locked settled fair hk here)
  | polling task =>
    obtain ⟨l, a, hl, _, acted, next⟩ := takes_step fair here ⟨.finish i task, Or.inl rfl⟩
    rcases next with rfl | rfl
    · obtain ⟨m, hm, rested⟩ := Rests.asleep (rests_of_outside settled fair (by omega)
        (after_finish (move_at acted)) (Or.inr rfl))
      exact ⟨m, by omega, rested⟩
    · exact ⟨l + 1, by omega, _, after_panic (move_at acted), Or.inr rfl⟩
  | waiting wait =>
    by_cases asleep : wait = .asleep
    · exact ⟨k, Nat.le_refl k, _, here, Or.inl (by rw [asleep])⟩
    · exact Rests.leaving (outstanding_leaves settled fair hk here asleep)
  | woken timed_out => exact Rests.leaving (woken_leaves settled fair hk here)
  | exited => exact ⟨k, Nat.le_refl k, _, here, Or.inr rfl⟩
  | panicked => exact ⟨k, Nat.le_refl k, _, here, Or.inr rfl⟩

/-- Worker `i` has left its loop, by returning or by a panic. -/
def Left (s : State T) (i : Nat) : Prop := ∃ w, s.threads[i]? = some w ∧ w.live = false

variable (times_out : ∀ i, StronglyFair σ (By (TimesOut i)))
include times_out

/-- A worker that sleeps again and again times out, and then leaves. -/
theorem leaves {w : Worker T} (here : (σ.state k).threads[i]? = some w) :
    ∃ l, k ≤ l ∧ Left (σ.state l) i := by
  by_contra never
  have present : ∀ l, k ≤ l → i < (σ.state l).threads.length := by
    intro l hl
    refine stays_from σ (fun s => i < s.threads.length)
      (List.getElem?_eq_some_iff.mp here).1 ?_ hl
    intro l a hl acted before
    rw [length_kept (settled.closed l a (by omega) acted) (move_at acted)]
    exact before
  have sleeps : ∀ l, k ≤ l → ∃ m, l ≤ m ∧ (σ.state m).threads[i]? = some (.waiting .asleep) := by
    intro l hl
    obtain ⟨m, hm, w, there, rfl | gone⟩ := rests settled fair (k := l) (by omega)
      (List.getElem?_eq_getElem (present l hl))
    · exact ⟨m, hm, there⟩
    · exact (never ⟨m, by omega, w, there, gone⟩).elim
  obtain ⟨l, hl, a, acted, mine⟩ := times_out i k (by
    intro l hl
    obtain ⟨m, hm, asleep⟩ := sleeps l hl
    exact ⟨m, hm, some (.timeout i), ⟨_, rfl, rfl⟩, by rintro b ⟨⟩; exact asleep⟩)
  cases a with
  | timeout j =>
    obtain rfl : j = i := mine
    obtain ⟨m, hm, left⟩ := outstanding_leaves settled fair (by omega)
      (after_timeout (move_at acted)) (by rintro ⟨⟩)
    exact never ⟨m, by omega, _, left, rfl⟩
  | _ => cases mine

end Settled

theorem stays_left {k l i : Nat} (left : Left (σ.state k) i) (h : k ≤ l) :
    Left (σ.state l) i := by
  obtain ⟨w, here, gone⟩ := left
  refine ⟨w, ?_, gone⟩
  refine stays_from σ (fun s => s.threads[i]? = some w) here ?_ h
  intro m a _ acted there
  apply kept_of_other there (by rintro rfl; cases gone) _ (move_at acted)
  intro mine
  obtain ⟨v, also, next⟩ := next_of_own (state_acted acted).1 mine
  cases there.symm.trans also
  cases w with
  | exited => exact next
  | panicked => exact next
  | _ => cases gone

theorem all_leave (settled : Settled σ n) (fair : FairPool σ)
    (times_out : ∀ i, StronglyFair σ (By (TimesOut i))) :
    ∃ m, n ≤ m ∧ ∀ k, m ≤ k → ∀ w ∈ (σ.state k).threads, w.live = false := by
  have same : ∀ k, n ≤ k → (σ.state k).threads.length = (σ.state n).threads.length := by
    intro k hk
    refine stays_from σ (fun s => s.threads.length = (σ.state n).threads.length) rfl ?_ hk
    intro l a hl acted before
    rw [length_kept (settled.closed l a hl acted) (move_at acted)]
    exact before
  have each : ∀ i ∈ Finset.range (σ.state n).threads.length,
      ∀ᶠ k in Filter.atTop, Left (σ.state k) i := by
    intro i hi
    have present := List.getElem?_eq_getElem (Finset.mem_range.mp hi)
    obtain ⟨m, hm, left⟩ := leaves settled fair (Nat.le_refl n) times_out present
    exact Filter.eventually_atTop.mpr ⟨m, fun k hk => stays_left left hk⟩
  obtain ⟨m, all⟩ := Filter.eventually_atTop.mp ((Filter.eventually_all_finset _).mpr each)
  refine ⟨max n m, by omega, fun k hk w hw => ?_⟩
  obtain ⟨i, here⟩ := List.mem_iff_getElem?.mp hw
  have bound := (List.getElem?_eq_some_iff.mp here).1
  rw [same k (by omega)] at bound
  obtain ⟨v, there, gone⟩ := all k (by omega) i (Finset.mem_range.mpr bound)
  rwa [Option.some.inj (here.symm.trans there)]

/-! ## The whole pool -/

theorem count_left {p : Worker T → Bool} (left : ∀ w ∈ s.threads, w.live = false)
    (hp : p .exited = false ∧ p .panicked = false) : s.count p = 0 := by
  apply ThreadLists.countP_eq_zero_iff.mpr
  intro w hw
  have gone := left w hw
  cases w with
  | exited => exact hp.1
  | panicked => exact hp.2
  | _ => cases gone

theorem gone_of_left {lost : Nat} (inv : Accounted inner s) (staffed : Staffed lost s)
    (left : ∀ w ∈ s.threads, w.live = false) (empty : s.shared.queue = [])
    (unlocked : s.lock = none) : Gone lost s := by
  have waiting := inv.waiting
  have counted := staffed.counted
  rw [count_left left ⟨rfl, rfl⟩, count_left left ⟨rfl, rfl⟩] at waiting
  rw [count_left left ⟨rfl, rfl⟩] at counted
  refine ⟨left, ?_, unlocked⟩
  cases counters : s.shared with
  | mk queue workers idle notified =>
    rw [counters] at waiting counted empty
    simp only at waiting counted empty
    rw [Shared.mk.injEq]
    exact ⟨empty, by omega, by omega, by omega⟩

/-- In a fair execution in which every polled task ends, workers time out, no
spawn fails and fewer tasks panic than the pool may have workers, a pool that no
call of `execute` reaches any more is done with what it was given and comes to
rest: from some moment on nothing happens and every worker has left. The pool is
then as empty as a new one, but for the workers it has lost. -/
theorem pool_winds_down (σ : Execution (stuttering (pool T inner)) initial) (fair : FairPool σ)
    (times_out : ∀ i, StronglyFair σ (By (TimesOut i))) (enduring : Enduring σ)
    {n : Nat} (closed : Closed σ n) :
    ∃ m, n ≤ m ∧ ∀ k, m ≤ k →
      σ.action k = none ∧ Gone ((past σ k).countP panics) (σ.state k) ∧
      ((past σ k).filterMap submitted?).Perm
        ((past σ k).filterMap finished? ++ (past σ k).filterMap panicked?) := by
  obtain ⟨q, hq, settled⟩ := closed.settled fair enduring
  obtain ⟨m, hm, left⟩ := all_leave settled fair times_out
  have rest : ∀ k, m ≤ k → σ.action k = none := by
    intro k hk
    cases acted : σ.action k with
    | none => rfl
    | some a =>
      rcases enabled_of_left (left k hk) (state_acted acted).1 with ⟨fut, caller, rfl⟩ | executes
      · -- a task that has taken the lock would be queued
        obtain ⟨l, spawned, picked, hl, queued⟩ :=
          executes_follows fair.execute (held_of_submit acted)
        exact (closed l _ (by omega) queued trivial).elim
      · exact (closed k a (by omega) acted executes).elim
  have still : ∀ k, m ≤ k → σ.state k = σ.state m := by
    intro k hk
    induction k, hk using Nat.le_induction with
    | base => rfl
    | succ k hk ih => rw [state_paused (rest k hk), ih]
  obtain ⟨u, hu, unlocked⟩ := unlocks fair m
  rw [still u hu] at unlocked
  refine ⟨m, by omega, fun k hk => ⟨rest k hk, ?_⟩⟩
  have gone : Gone ((past σ k).countP panics) (σ.state k) := by
    apply gone_of_left (accounted_run (past_run σ k)) (enduring.staffed k) (left k hk)
      (settled.empty k (by omega))
    rw [still k hk]
    exact unlocked
  have taken := popped_perm (past_run σ k)
  rw [inHand_nil (count_left gone.left ⟨rfl, rfl⟩), List.append_nil] at taken
  refine ⟨gone, ?_⟩
  rw [submitted_eq (past_run σ k), settled.empty k (by omega), List.append_nil]
  exact taken

end Fair

/-- After its task the second worker waits until it times out. -/
def oneShift : List (Action Nat) :=
  oneSurvivor ++ [.timeout 1, .wake 1 .timedOut, .check 1 true]

theorem pool_winds_down_duo :
    let σ : Execution (stuttering (pool Nat duo)) initial := resting oneShift (by decide)
    ∃ m, 7 ≤ m ∧ ∀ k, m ≤ k →
      σ.action k = none ∧ Gone ((past σ k).countP panics) (σ.state k) ∧
      ((past σ k).filterMap submitted?).Perm
        ((past σ k).filterMap finished? ++ (past σ k).filterMap panicked?) := by
  intro σ
  have both : (final (pool Nat duo) initial oneShift).threads = [.panicked, .exited] := by decide
  apply pool_winds_down σ
  · apply fairPool_of_idle
    constructor
    · intro w hw i a next
      rw [both, List.mem_pair] at hw
      rcases hw with rfl | rfl <;> exact next
    · rintro fut caller ⟨⟩
  · intro i
    apply resting_stronglyFair
    intro a mine h
    cases a with
    | timeout j =>
      have asleep := List.mem_of_getElem? h
      rw [both, List.mem_pair] at asleep
      rcases asleep with same | same <;> cases same
    | _ => cases mine
  · exact enduring_of_actions (by decide) (by decide)
  · intro k a hk acted
    exact of_listed (P := fun n a => 7 ≤ n → ¬ Executes a) (by decide) acted hk

end ExecutorWindDown
