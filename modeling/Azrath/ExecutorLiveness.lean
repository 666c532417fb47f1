import Azrath.ExecutorQueue
import Azrath.StutteringExecutions

/-!
# Every task given to the pool is completed

The scheduler and the mutex are fair to every worker, whoever calls `execute`
goes on, and a task that is polled returns at last. Nothing is assumed about
timeouts and spurious wake-ups. As long as a task is queued some thread is on
its way to the queue, and each of its steps brings it closer to a pop.
-/

namespace ExecutorLiveness

open GuardedRuns FairExecutions StutteringExecutions ExecutorModel ExecutorAccounting
open ExecutorProgress ExecutorQueue

universe u
variable {bits : Nat} {T : Type u} {inner : Inner bits} {s t : State T} {a : Action T}

/-- The steps worker `i` takes by itself: no spurious wake-up and no timeout. -/
def Own (i : Nat) : Action T → Prop
  | .lock j | .turn j | .finish j _ | .panic j _ | .check j _ => j = i
  | .wake j wait => j = i ∧ wait ≠ .asleep
  | _ => False

def Executes : Action T → Prop
  | .execute _ _ _ _ => True
  | _ => False

instance : DecidablePred (Executes : Action T → Prop)
  | .execute _ _ _ _ => isTrue trivial
  | .submit _ _ | .lock _ | .turn _ | .finish _ _ | .panic _ _ | .timeout _ | .wake _ _
  | .check _ _ => isFalse not_false

/-- What worker `i` does next, unless it sleeps or is gone. -/
def Next (i : Nat) : Worker T → Action T → Prop
  | .starting, a | .relocking, a => a = .lock i
  | .locked, a => a = .turn i
  | .polling task, a => a = .finish i task ∨ a = .panic i task
  | .waiting .asleep, _ | .exited, _ | .panicked, _ => False
  | .waiting wait, a => a = .wake i wait
  | .woken timed_out, a => a = .check i timed_out

theorem own_of_next {i : Nat} {w : Worker T} (next : Next i w a) : Own i a := by
  rcases w with _ | _ | _ | _ | ⟨_ | _ | _⟩ | _ | _ | _ <;> simp only [Next] at next
  case polling => rcases next with rfl | rfl <;> rfl
  all_goals
    subst next
    simp [Own]

theorem next_of_own {i : Nat} (h : enabled s a) (own : Own i a) :
    ∃ w, s.threads[i]? = some w ∧ Next i w a := by
  cases a with
  | lock j =>
    cases own
    rcases h.2 with start | back
    · exact ⟨_, start, rfl⟩
    · exact ⟨_, back, rfl⟩
  | turn j =>
    cases own
    exact ⟨_, h, rfl⟩
  | finish j task =>
    cases own
    exact ⟨_, h.1, Or.inl rfl⟩
  | panic j task =>
    cases own
    exact ⟨_, h.1, Or.inr rfl⟩
  | wake j wait =>
    obtain ⟨rfl, awake⟩ := own
    refine ⟨_, h.2, ?_⟩
    cases wait with
    | asleep => exact absurd rfl awake
    | picked => rfl
    | timedOut => rfl
  | check j timed_out =>
    cases own
    exact ⟨_, h, rfl⟩
  | _ => cases own

/-- Whoever holds the lock or finds it free can take its next step. -/
theorem own_enabled {i : Nat} {w : Worker T} (here : s.threads[i]? = some w)
    (next : Next i w a) (free : w.holding = false → s.lock = none) : enabled s a := by
  rcases w with _ | _ | task | _ | ⟨_ | _ | _⟩ | timed_out | _ | _ <;> simp only [Next] at next
  case polling =>
    have outside : s.lock.bind Holder.caller ≠ some i := by
      rw [free rfl]
      rintro ⟨⟩
    rcases next with rfl | rfl <;> exact ⟨here, outside⟩
  all_goals subst next
  · exact ⟨free rfl, Or.inl here⟩
  · exact here
  · exact ⟨free rfl, Or.inr here⟩
  · exact ⟨free rfl, here⟩
  · exact ⟨free rfl, here⟩
  · exact here

/-- A worker that does not sleep is moved by nobody else. -/
theorem kept_of_other {i : Nat} {w : Worker T} (here : s.threads[i]? = some w)
    (awake : w ≠ .waiting .asleep) (other : ¬ Own i a) (move : Move inner s a t) :
    t.threads[i]? = some w := by
  have kept : ∀ {j : Nat} (w' : Worker T), j ≠ i → (s.threads.set j w')[i]? = some w := by
    intro j w' apart
    rw [List.getElem?_set_ne apart]
    exact here
  have apart : ∀ {j : Nat}, s.threads[j]? = some (.waiting .asleep) → j ≠ i := by
    rintro j asleep rfl
    exact awake (Option.some.inj (here.symm.trans asleep))
  cases move with
  | submit free | notifyNobody held some_idle _ | full held none_idle no_room => exact here
  | spawn spawned held none_idle room =>
    have bound := (List.getElem?_eq_some_iff.mp here).1
    cases spawned with
    | false => exact here
    | true => exact (List.getElem?_append_left bound).trans here
  | notify held some_idle asleep => exact kept _ (apart asleep)
  | timeout asleep => exact kept _ (apart asleep)
  | @wake j wait free there =>
    refine kept _ ?_
    rintro rfl
    by_cases asleep : wait = .asleep
    · subst asleep
      exact apart there rfl
    · exact other ⟨rfl, asleep⟩
  | lock free there outside | pop there front | rest there empty | finish there | panic there
  | take there called | leave there uncalled | again there uncalled => exact kept _ other

/-- A call of `execute` keeps the lock until it is through. -/
theorem held_of_other {fut : T} {caller : Option Nat} (inv : Accounted inner s)
    (held : s.lock = some (.execute fut caller)) (other : ¬ Executes a)
    (move : Move inner s a t) : t.lock = some (.execute fut caller) := by
  have outside : ∀ {i : Nat} {w : Worker T}, s.threads[i]? = some w → w.holding = true → False := by
    intro i w here holds
    have one := inv.loops_eq here holds
    rw [held, loops_execute] at one
    omega
  cases move with
  | spawn spawned held none_idle room | notify held some_idle asleep
  | notifyNobody held some_idle awake | full held none_idle no_room => exact (other trivial).elim
  | submit free | lock free here outside | wake free here =>
    rw [free] at held
    cases held
  | pop here front | rest here empty | take here called | leave here uncalled
  | again here uncalled => exact (outside here rfl).elim
  | finish here | panic here | timeout here => exact held

theorem unlocked_of_executes {fut : T} {caller picked : Option Nat} {spawned : Bool}
    (move : Move inner s (.execute fut caller spawned picked) t) :
    s.lock = some (.execute fut caller) ∧ t.lock = none := by
  cases move with
  | spawn _ held _ _ | notify held _ _ | notifyNobody held _ _ | full held _ _ => exact ⟨held, rfl⟩

/-! ## Where a step takes a worker -/

section After
variable {i : Nat}

theorem after_lock (move : Move inner s (.lock i) t) : t.threads[i]? = some .locked := by
  cases move with
  | lock _ here _ => simp [(List.getElem?_eq_some_iff.mp here).1]

theorem after_finish {task : T} (move : Move inner s (.finish i task) t) :
    t.threads[i]? = some .relocking := by
  cases move with
  | finish here => simp [(List.getElem?_eq_some_iff.mp here).1]

theorem after_panic {task : T} (move : Move inner s (.panic i task) t) :
    t.threads[i]? = some .panicked := by
  cases move with
  | panic here => simp [(List.getElem?_eq_some_iff.mp here).1]

theorem after_timeout (move : Move inner s (.timeout i) t) :
    t.threads[i]? = some (.waiting .timedOut) := by
  cases move with
  | timeout here => simp [(List.getElem?_eq_some_iff.mp here).1]

theorem after_wake {wait : Wait} (move : Move inner s (.wake i wait) t) :
    t.threads[i]? = some (.woken (wait = .timedOut)) := by
  cases move with
  | wake _ here => simp [(List.getElem?_eq_some_iff.mp here).1]

theorem after_turn (move : Move inner s (.turn i) t) (empty : s.shared.queue = []) :
    t.threads[i]? = some (.waiting .asleep) := by
  cases move with
  | pop _ front =>
    rw [empty] at front
    cases front
  | rest here _ => simp [(List.getElem?_eq_some_iff.mp here).1]

theorem after_check_called {timed_out : Bool} (move : Move inner s (.check i timed_out) t)
    (called : 0 < s.shared.notified) :
    t.threads[i]? = some .locked ∧ t.shared.notified + 1 = s.shared.notified := by
  cases move with
  | take here _ =>
    have bound := (List.getElem?_eq_some_iff.mp here).1
    exact ⟨by simp [bound], by simp only; omega⟩
  | leave _ uncalled => omega
  | again _ uncalled => omega

theorem after_check_uncalled {timed_out : Bool} (move : Move inner s (.check i timed_out) t)
    (uncalled : s.shared.notified = 0) :
    t.threads[i]? = some (if timed_out then .exited else .waiting .asleep) ∧ t.lock = none := by
  cases move with
  | take _ called => omega
  | leave here _ =>
    have bound := (List.getElem?_eq_some_iff.mp here).1
    exact ⟨by simp [bound], rfl⟩
  | again here _ =>
    have bound := (List.getElem?_eq_some_iff.mp here).1
    exact ⟨by simp [bound], rfl⟩

end After

/-! ## A pool that loses workers -/

/-- So many workers have panicked, and there is still one that will come to the
queue when it has to. -/
structure Staffed (lost : Nat) (s : State T) : Prop where
  counted : s.shared.workers = s.count Worker.live + lost
  attended : s.shared.queue ≠ [] → 0 < s.shared.notified + s.count attending

/-- With nobody idle the workers that are left are at the queue or called to it. -/
theorem attended_of_busy {lost : Nat} (inv : Accounted inner s)
    (counted : s.shared.workers = s.count Worker.live + lost) (few : lost < s.shared.workers)
    (none_idle : s.shared.idle = 0) : 0 < s.shared.notified + s.count attending := by
  have parts := live_eq s
  have busy := attending_eq s
  have waiting := inv.waiting
  omega

theorem Staffed.move {lost : Nat} (staffed : Staffed lost s) (served : Served inner s)
    (inv : Accounted inner s) (few : lost + (panics (s, a)).toNat < inner.max_workers)
    (spawns : spawnFails inner (s, a) = false) (move : Move inner s a t) :
    Staffed (lost + (panics (s, a)).toNat) t := by
  have counted := inv.workers_move move
  have inv' := inv.move move
  have served' := served.move inv spawns move
  rw [spawns] at counted
  obtain ⟨workers, attended⟩ := staffed
  have counted' : t.shared.workers = t.count Worker.live + (lost + (panics (s, a)).toNat) := by
    simp only [Bool.toNat_false] at counted
    omega
  refine ⟨counted', fun queued => ?_⟩
  -- with room or with an idle worker the queue has somebody who is not running
  by_cases room : 0 < t.shared.idle ∨ t.shared.workers < inner.max_workers
  · have enough := served'.queued room
    have busy := attending_eq t
    have some_task := List.length_pos_iff.mpr queued
    omega
  · have bound := inv'.workers_le
    exact attended_of_busy inv' counted' (by omega) (by omega)

/-! ## Fair executions -/

/-- A worker that can go on again and again does so, and a call of `execute`
that has the lock goes through. That the task a worker polls ends at last is part
of it: its end is one of the worker's own steps. -/
structure FairPool (σ : Execution (stuttering (pool T inner)) initial) : Prop where
  worker : ∀ i, StronglyFair σ (By (Own i))
  execute : WeaklyFair σ (By Executes)

/-- No spawn fails, and fewer tasks panic than the pool may have workers. -/
structure Enduring (σ : Execution (stuttering (pool T inner)) initial) : Prop where
  spawns : ∀ n a, σ.action n = some a → spawnFails inner (σ.state n, a) = false
  few : ∀ n, (past σ n).countP panics < inner.max_workers

section Fair
variable {σ : Execution (stuttering (pool T inner)) initial} {n : Nat}

theorem move_at (acted : σ.action n = some a) : Move inner (σ.state n) a (σ.state (n + 1)) := by
  obtain ⟨h, step⟩ := state_acted acted
  rw [step]
  exact effect_move (accounted_run (past_run σ n)) h

theorem Enduring.served (enduring : Enduring σ) (n : Nat) : Served inner (σ.state n) := by
  apply served_run (past_run σ n)
  intro p hp
  obtain ⟨k, _, here, acted⟩ := mem_past hp
  rw [show p = (σ.state k, p.2) by rw [here]]
  exact enduring.spawns k p.2 acted

theorem Enduring.staffed (enduring : Enduring σ) (n : Nat) :
    Staffed ((past σ n).countP panics) (σ.state n) := by
  induction n with
  | zero =>
    rw [σ.start]
    exact ⟨rfl, fun queued => absurd rfl queued⟩
  | succ n ih =>
    cases acted : σ.action n with
    | none =>
      rw [past_paused acted, state_paused acted]
      exact ih
    | some a =>
      have few := enduring.few (n + 1)
      rw [past_acted acted, ThreadLists.countP_snoc] at few ⊢
      exact ih.move (enduring.served n) (accounted_run (past_run σ n)) few
        (enduring.spawns n a acted) (move_at acted)

/-- A call of `execute` that has the lock goes through. -/
theorem executes_follows (fair : WeaklyFair σ (By Executes)) {fut : T} {caller : Option Nat}
    (held : (σ.state n).lock = some (.execute fut caller)) :
    ∃ k spawned picked, n ≤ k ∧ σ.action k = some (.execute fut caller spawned picked) := by
  obtain ⟨k, b, hk, holds, acted, mine⟩ := acts_of_weaklyFair
    (P := fun s => s.lock = some (.execute fut caller)) fair held
    (fun k b _ acted holds other =>
      held_of_other (accounted_run (past_run σ k)) holds other (move_at acted))
    (by
      intro k _ holds
      obtain ⟨picked, pick⟩ := exists_pick (σ.state k)
      exact ⟨.execute fut caller true picked, trivial, holds, pick⟩)
  cases b with
  | execute fut' caller' spawned picked =>
    have same := (unlocked_of_executes (move_at acted)).1
    rw [holds] at same
    cases same
    exact ⟨k, spawned, picked, hk, acted⟩
  | _ => cases mine

theorem held_of_submit {fut : T} {caller : Option Nat}
    (acted : σ.action n = some (.submit fut caller)) :
    (σ.state (n + 1)).lock = some (.execute fut caller) := by
  have move := move_at acted
  generalize σ.state (n + 1) = u at move
  cases move
  rfl

section Steps
variable (fair : FairPool σ)
include fair

/-- A worker takes its next step if the lock is free again and again. -/
theorem takes_step_of {i : Nat} {w : Worker T} (here : (σ.state n).threads[i]? = some w)
    (able : ∃ a, Next i w a)
    (free : ∀ m, n ≤ m → ∃ k, m ≤ k ∧ (w.holding = false → (σ.state k).lock = none)) :
    ∃ k a, n ≤ k ∧ (σ.state k).threads[i]? = some w ∧ σ.action k = some a ∧ Next i w a := by
  obtain ⟨a, next⟩ := able
  have awake : w ≠ .waiting .asleep := by
    rintro rfl
    exact next
  obtain ⟨k, b, hk, there, acted, mine⟩ := acts_of_stronglyFair
    (P := fun s => s.threads[i]? = some w) (fair.worker i) here
    (fun k b _ acted there other => kept_of_other there awake other (move_at acted))
    (by
      intro m hm
      obtain ⟨k, hk, unlocked⟩ := free m hm
      exact ⟨k, hk, fun there => ⟨a, own_of_next next, own_enabled there next unlocked⟩⟩)
  obtain ⟨w', also, next'⟩ := next_of_own (state_acted acted).1 mine
  cases there.symm.trans also
  exact ⟨k, b, hk, there, acted, next'⟩

theorem unlocks_locked {i : Nat} (here : (σ.state n).threads[i]? = some .locked) :
    ∃ k, n ≤ k ∧ (σ.state k).lock = none := by
  obtain ⟨k, _, hk, _, acted, rfl⟩ := takes_step_of fair here ⟨.turn i, rfl⟩
    (fun m _ => ⟨m, Nat.le_refl m, by rintro ⟨⟩⟩)
  refine ⟨k + 1, by omega, ?_⟩
  rw [(state_acted acted).2]
  exact turn_unlocks inner _ i

theorem unlocks (n : Nat) : ∃ k, n ≤ k ∧ (σ.state k).lock = none := by
  cases held : (σ.state n).lock with
  | none => exact ⟨n, Nat.le_refl n, held⟩
  | some holder =>
    cases holder with
    | execute fut caller =>
      obtain ⟨k, spawned, picked, hk, acted⟩ := executes_follows fair.execute held
      exact ⟨k + 1, by omega, (unlocked_of_executes (move_at acted)).2⟩
    | worker i =>
      obtain ⟨w, here, holds⟩ := inside_run (past_run σ n) i held
      cases w with
      | locked => exact unlocks_locked fair here
      | woken timed_out =>
        obtain ⟨k, _, hk, _, acted, rfl⟩ := takes_step_of fair here ⟨.check i timed_out, rfl⟩
          (fun m _ => ⟨m, Nat.le_refl m, by rintro ⟨⟩⟩)
        by_cases uncalled : (σ.state k).shared.notified = 0
        · exact ⟨k + 1, by omega, (after_check_uncalled (move_at acted) uncalled).2⟩
        · -- it has found a notification and keeps the lock for the pop
          have locked := (after_check_called (move_at acted) (by omega)).1
          obtain ⟨m, hm, unlocked⟩ := unlocks_locked fair locked
          exact ⟨m, by omega, unlocked⟩
      | _ => cases holds

theorem takes_step {i : Nat} {w : Worker T} (here : (σ.state n).threads[i]? = some w)
    (able : ∃ a, Next i w a) :
    ∃ k a, n ≤ k ∧ (σ.state k).threads[i]? = some w ∧ σ.action k = some a ∧ Next i w a := by
  apply takes_step_of fair here able
  intro m hm
  obtain ⟨k, hk, unlocked⟩ := unlocks fair m
  exact ⟨k, hk, fun _ => unlocked⟩

/-- A worker goes to the head of its loop at `n` or later. -/
def Visited (σ : Execution (stuttering (pool T inner)) initial) (n : Nat) : Prop :=
  ∃ k i, n ≤ k ∧ σ.action k = some (.turn i)

omit fair in
theorem Visited.mono {m : Nat} (h : m ≤ n) : Visited σ n → Visited σ m := by
  rintro ⟨k, i, hk, acted⟩
  exact ⟨k, i, by omega, acted⟩

theorem visited_of_locked {i : Nat} (here : (σ.state n).threads[i]? = some .locked) :
    Visited σ n := by
  obtain ⟨k, _, hk, _, acted, rfl⟩ := takes_step fair here ⟨.turn i, rfl⟩
  exact ⟨k, i, hk, acted⟩

theorem visited_of_outside {i : Nat} {w : Worker T} (here : (σ.state n).threads[i]? = some w)
    (outside : w = .starting ∨ w = .relocking) : Visited σ n := by
  have able : ∃ a, Next i w a := by rcases outside with rfl | rfl <;> exact ⟨.lock i, rfl⟩
  obtain ⟨k, a, hk, _, acted, next⟩ := takes_step fair here able
  obtain rfl : a = .lock i := by rcases outside with rfl | rfl <;> exact next
  exact (visited_of_locked fair (after_lock (move_at acted))).mono (by omega)

/-- A worker that leaves its wait takes a notification to the queue. -/
theorem visited_of_woken {i : Nat} {timed_out : Bool}
    (here : (σ.state n).threads[i]? = some (.woken timed_out))
    (called : ∀ k, n ≤ k → 0 < (σ.state k).shared.notified) : Visited σ n := by
  obtain ⟨k, _, hk, _, acted, rfl⟩ := takes_step fair here ⟨.check i timed_out, rfl⟩
  have locked := (after_check_called (move_at acted) (called k hk)).1
  exact (visited_of_locked fair locked).mono (by omega)

theorem visited_of_outstanding {i : Nat} {w : Worker T}
    (here : (σ.state n).threads[i]? = some w) (awake : w.outstanding = true)
    (called : ∀ k, n ≤ k → 0 < (σ.state k).shared.notified) : Visited σ n := by
  obtain ⟨wait, rfl, next⟩ : ∃ wait, w = .waiting wait ∧ ∀ a, Next i w a ↔ a = .wake i wait := by
    rcases w with _ | _ | _ | _ | ⟨_ | _ | _⟩ | _ | _ | _ <;> cases awake <;>
      exact ⟨_, rfl, fun a => Iff.rfl⟩
  obtain ⟨k, a, hk, _, acted, step⟩ := takes_step fair here ⟨_, (next _).mpr rfl⟩
  obtain rfl := (next a).mp step
  have woken := after_wake (move_at acted)
  exact (visited_of_woken fair woken fun l hl => called l (by omega)).mono (by omega)

/-- With a notification that nobody takes some worker comes to the queue. -/
theorem visited_of_called (enduring : Enduring σ)
    (called : ∀ k, n ≤ k → 0 < (σ.state k).shared.notified) : Visited σ n := by
  have := called n (Nat.le_refl n)
  have := (enduring.served n).called
  have ready : 0 < (σ.state n).count Worker.outstanding ∨ 0 < (σ.state n).count Worker.isWoken := by
    omega
  rcases ready with picked | woken
  · obtain ⟨w, hw, awake⟩ := List.countP_pos_iff.mp picked
    obtain ⟨i, here⟩ := List.mem_iff_getElem?.mp hw
    exact visited_of_outstanding fair here awake called
  · obtain ⟨w, hw, awake⟩ := List.countP_pos_iff.mp woken
    obtain ⟨i, here⟩ := List.mem_iff_getElem?.mp hw
    cases w with
    | woken timed_out => exact visited_of_woken fair here called
    | _ => cases awake

end Steps

/-! ## Somebody comes to the queue -/

/-- Without a pop no worker starts to poll a task. -/
theorem polling_falls (unturned : ∀ i, a ≠ .turn i) (move : Move inner s a t) :
    t.count Worker.isPolling ≤ s.count Worker.isPolling := by
  have falls : ∀ {i : Nat} {old new : Worker T}, s.threads[i]? = some old →
      new.isPolling = false →
        (s.threads.set i new).countP Worker.isPolling ≤ s.threads.countP Worker.isPolling := by
    intro i old new here idle
    have moved := ThreadLists.countP_set Worker.isPolling here new
    rw [idle, Bool.toNat_false] at moved
    omega
  cases move with
  | submit _ | notifyNobody _ _ _ | full _ _ _ => exact Nat.le_refl _
  | spawn spawned _ _ _ =>
    cases spawned with
    | false => exact Nat.le_refl _
    | true => exact Nat.le_of_eq (ThreadLists.countP_snoc Worker.isPolling s.threads .starting)
  | notify _ _ here | timeout here | finish here | panic here | take here _ | leave here _
  | again here _ | lock _ here _ | wake _ here => exact falls here rfl
  | pop _ _ | rest _ _ => exact (unturned _ rfl).elim

/-- A panicked worker polls no task any more. -/
theorem polling_lost {i : Nat} {task : T} (move : Move inner s (.panic i task) t) :
    t.count Worker.isPolling < s.count Worker.isPolling := by
  cases move with
  | panic here =>
    have moved := ThreadLists.countP_set Worker.isPolling here .panicked
    simp only [Worker.isPolling, Bool.toNat_true, Bool.toNat_false] at moved
    simp only [State.count]
    omega

/-- A notification is taken only on the way to the queue. -/
theorem notified_kept (untaken : ∀ i : Nat, t.threads[i]? ≠ some .locked)
    (move : Move inner s a t) : s.shared.notified ≤ t.shared.notified := by
  cases move with
  | @take i _ here called =>
    have bound := (List.getElem?_eq_some_iff.mp here).1
    exact (untaken i (by simp [bound])).elim
  | notify _ _ _ | notifyNobody _ _ _ => exact Nat.le_succ _
  | _ => exact Nat.le_refl _

/-- As long as tasks are queued some worker comes to the queue: the last
notification brings one, and so does the last task that is still polled. -/
theorem visited_of_queued (fair : FairPool σ) (enduring : Enduring σ)
    (queued : ∀ k, n ≤ k → (σ.state k).shared.queue ≠ []) : Visited σ n := by
  by_contra unvisited
  have absent : ∀ k, n ≤ k → ∀ i, σ.action k ≠ some (.turn i) :=
    fun k hk i acted => unvisited ⟨k, i, hk, acted⟩
  have unlocked : ∀ k, n ≤ k → ∀ i : Nat, (σ.state k).threads[i]? ≠ some .locked :=
    fun k hk i here => unvisited ((visited_of_locked fair here).mono hk)
  have uncalled : ∀ k, n ≤ k → (σ.state k).shared.notified = 0 := by
    intro k hk
    by_contra called
    have lasting : ∀ l, k ≤ l → 0 < (σ.state l).shared.notified := by
      intro l hl
      refine stays_from σ (fun s => 0 < s.shared.notified) (Nat.pos_of_ne_zero called) ?_ hl
      intro l a hl acted before
      exact Nat.lt_of_lt_of_le before
        (notified_kept (unlocked (l + 1) (by omega)) (move_at acted))
    exact unvisited ((visited_of_called fair enduring lasting).mono hk)
  -- so only workers that poll are left to come back
  have polls : ∀ k, n ≤ k → ∃ (i : Nat) (task : T),
      (σ.state k).threads[i]? = some (.polling task) := by
    intro k hk
    have attended := (enduring.staffed k).attended (queued k hk)
    rw [uncalled k hk, Nat.zero_add] at attended
    obtain ⟨w, hw, on_way⟩ := List.countP_pos_iff.mp attended
    obtain ⟨i, here⟩ := List.mem_iff_getElem?.mp hw
    cases w with
    | polling task => exact ⟨i, task, here⟩
    | locked => exact (unlocked k hk i here).elim
    | starting =>
      exact (unvisited ((visited_of_outside fair here (Or.inl rfl)).mono hk)).elim
    | relocking =>
      exact (unvisited ((visited_of_outside fair here (Or.inr rfl)).mono hk)).elim
    | _ => cases on_way
  obtain ⟨m, hm, settled⟩ :=
    exists_settled (fun k => (σ.state k).count Worker.isPolling) (n := n) (by
      intro k hk
      cases acted : σ.action k with
      | none =>
        exact Nat.le_of_eq (congrArg (fun s => s.count Worker.isPolling) (state_paused acted))
      | some a =>
        exact polling_falls (fun i same => absent k hk i (by rw [acted, same])) (move_at acted))
  obtain ⟨i, task, here⟩ := polls m hm
  obtain ⟨k, a, hk, _, acted, next⟩ := takes_step fair here ⟨.finish i task, Or.inl rfl⟩
  rcases next with rfl | rfl
  · have back := after_finish (move_at acted)
    exact unvisited ((visited_of_outside fair back (Or.inr rfl)).mono (by omega))
  · have lost := polling_lost (move_at acted)
    have := settled k hk
    have := settled (k + 1) (by omega)
    omega

/-! ## One pop after the other -/

/-- The number of tasks popped before a moment. -/
def pops (σ : Execution (stuttering (pool T inner)) initial) (n : Nat) : Nat :=
  ((past σ n).filterMap popped?).length

theorem pops_acted (acted : σ.action n = some a) :
    pops σ (n + 1) = pops σ n + (popped? (σ.state n, a)).toList.length := by
  rw [pops, past_acted acted, ThreadLists.filterMap_snoc, List.length_append, pops]

theorem pops_paused (paused : σ.action n = none) : pops σ (n + 1) = pops σ n := by
  rw [pops, past_paused paused, pops]

/-- The next pop after `n` is at `k`. -/
def NextPop (σ : Execution (stuttering (pool T inner)) initial) (n k : Nat) (i : Nat) (task : T) :
    Prop :=
  n ≤ k ∧ pops σ k = pops σ n ∧ σ.action k = some (.turn i) ∧
    popped? (σ.state k, .turn i) = some task

/-- Until the next pop the queue only grows. -/
theorem queued_until (queued : (σ.state n).shared.queue ≠ [])
    (none_popped : ∀ k i task, ¬ NextPop σ n k i task) {k : Nat} (hk : n ≤ k) :
    pops σ k = pops σ n ∧ (σ.state k).shared.queue ≠ [] := by
  induction k, hk using Nat.le_induction with
  | base => exact ⟨rfl, queued⟩
  | succ k hk ih =>
    obtain ⟨counted, waiting⟩ := ih
    cases acted : σ.action k with
    | none =>
      rw [pops_paused acted, state_paused acted]
      exact ⟨counted, waiting⟩
    | some a =>
      have unpopped : popped? (σ.state k, a) = none := by
        cases popped : popped? (σ.state k, a) with
        | none => rfl
        | some task =>
          cases a with
          | turn i => exact (none_popped k i task ⟨hk, counted, acted, popped⟩).elim
          | _ => cases popped
      have moved := queue_move (move_at acted)
      rw [unpopped] at moved
      constructor
      · rw [pops_acted acted, unpopped, counted]
        rfl
      · intro empty
        rw [empty] at moved
        simp [waiting] at moved

theorem pop_follows (fair : FairPool σ) (enduring : Enduring σ)
    (queued : (σ.state n).shared.queue ≠ []) : ∃ k i task, NextPop σ n k i task := by
  by_contra none_popped
  push Not at none_popped
  have stays := fun k (hk : n ≤ k) => queued_until queued none_popped hk
  obtain ⟨k, i, hk, acted⟩ := visited_of_queued fair enduring fun k hk => (stays k hk).2
  obtain ⟨task, rest, front⟩ := List.exists_cons_of_ne_nil (stays k hk).2
  exact none_popped k i task ⟨hk, (stays k hk).1, acted, by simp [popped?, front]⟩

theorem submitted_acted (acted : σ.action n = some a) :
    (past σ (n + 1)).filterMap submitted? =
      (past σ n).filterMap submitted? ++ (submitted? (σ.state n, a)).toList := by
  rw [past_acted acted, ThreadLists.filterMap_snoc]

theorem queued_of_fewer (fewer : pops σ n < ((past σ n).filterMap submitted?).length) :
    (σ.state n).shared.queue ≠ [] := by
  intro empty
  have split := congrArg List.length (submitted_eq (past_run σ n))
  rw [empty, List.append_nil] at split
  rw [pops] at fewer
  omega

/-- While fewer tasks are popped than were submitted, the next pop is not far. -/
theorem pop_reached (fair : FairPool σ) (enduring : Enduring σ) {place ahead : Nat}
    (enough : ∀ k, n ≤ k → place < ((past σ k).filterMap submitted?).length)
    (count : pops σ n + ahead = place) :
    ∃ k i task, n ≤ k ∧ pops σ k = place ∧ σ.action k = some (.turn i) ∧
      popped? (σ.state k, .turn i) = some task := by
  induction ahead generalizing n with
  | zero =>
    have queued := queued_of_fewer (Nat.lt_of_le_of_lt (by omega) (enough n (Nat.le_refl n)))
    obtain ⟨k, i, task, hk, same, acted, popped⟩ := pop_follows fair enduring queued
    exact ⟨k, i, task, hk, by omega, acted, popped⟩
  | succ ahead ih =>
    have queued := queued_of_fewer (Nat.lt_of_le_of_lt (by omega) (enough n (Nat.le_refl n)))
    obtain ⟨k, i, task, hk, same, acted, popped⟩ := pop_follows fair enduring queued
    have counted : pops σ (k + 1) = pops σ k + 1 := by
      rw [pops_acted acted, popped, Option.toList_some, List.length_singleton]
    obtain ⟨l, j, next, hl, found⟩ := ih (n := k + 1) (fun l hl => enough l (by omega)) (by omega)
    exact ⟨l, j, next, by omega, found⟩

/-! ## One task -/

/-- What `execute` queued at `n` is popped at `j`, in its turn. -/
def PoppedAt (σ : Execution (stuttering (pool T inner)) initial) (n : Nat) (fut : T) (j i : Nat) :
    Prop :=
  n < j ∧ σ.action j = some (.turn i) ∧ popped? (σ.state j, .turn i) = some fut ∧
    ((past σ j).filterMap popped?).length = ((past σ n).filterMap submitted?).length

/-- What `execute` queued at `n` is popped in its turn by a worker that then has
it in hand until it has polled it to the end. -/
def Completed (σ : Execution (stuttering (pool T inner)) initial) (n : Nat) (fut : T) : Prop :=
  ∃ j k i a, n < j ∧ j < k ∧
    σ.action j = some (.turn i) ∧ popped? (σ.state j, .turn i) = some fut ∧
    ((past σ j).filterMap popped?).length = ((past σ n).filterMap submitted?).length ∧
    (∀ l, j < l → l ≤ k → Owns (σ.state l) i fut) ∧ σ.action k = some a ∧ Ends i fut a

/-- A worker that has popped a task polls it to the end. -/
theorem finishes (fair : FairPool σ) {i : Nat} {task : T} (owns : Owns (σ.state n) i task) :
    ∃ k a, n ≤ k ∧ (∀ l, n ≤ l → l ≤ k → Owns (σ.state l) i task) ∧
      σ.action k = some a ∧ Ends i task a := by
  obtain ⟨m, b, hm, _, stepped, step⟩ := takes_step fair owns ⟨.finish i task, Or.inl rfl⟩
  obtain ⟨k, a, hk, stays, acted, own⟩ := first_acts (P := fun s => Owns s i task) owns
    (fun k a _ acted owns other => kept_of_other owns (by rintro ⟨⟩) other (move_at acted))
    ⟨m, b, hm, stepped, own_of_next step⟩
  obtain ⟨w, there, next⟩ := next_of_own (state_acted acted).1 own
  cases (stays k hk (Nat.le_refl k)).symm.trans there
  exact ⟨k, a, hk, stays, acted, next⟩

/-- What `execute` queues is popped in its turn. -/
theorem popped_of_execute (fair : FairPool σ) (enduring : Enduring σ) {fut : T}
    {caller picked : Option Nat} {spawned : Bool}
    (acted : σ.action n = some (.execute fut caller spawned picked)) :
    ∃ j i, PoppedAt σ n fut j i := by
  have place : (past σ (n + 1)).filterMap submitted? =
      (past σ n).filterMap submitted? ++ [fut] := submitted_acted acted
  have later : ∀ k, n + 1 ≤ k → ∃ more, (past σ k).filterMap submitted? =
      (past σ n).filterMap submitted? ++ fut :: more := by
    intro k hk
    obtain ⟨more, grown⟩ := past_prefix σ hk
    exact ⟨more.filterMap submitted?, by rw [grown, List.filterMap_append, place]; simp⟩
  have behind : pops σ (n + 1) ≤ ((past σ n).filterMap submitted?).length := by
    have counted := pops_acted acted
    have split := congrArg List.length (submitted_eq (past_run σ n))
    rw [List.length_append] at split
    simp only [popped?, Option.toList_none, List.length_nil, pops] at counted ⊢
    omega
  obtain ⟨ahead, count⟩ := Nat.exists_eq_add_of_le behind
  obtain ⟨j, i, task, hj, reached, turn, popped⟩ :=
    pop_reached fair enduring (n := n + 1)
      (fun k hk => by obtain ⟨more, all⟩ := later k hk; simp [all]) count.symm
  -- the pop at this place takes this very task
  obtain rfl : task = fut := by
    obtain ⟨more, all⟩ := later (j + 1) (by omega)
    have split := submitted_eq (past_run σ (j + 1))
    rw [all, past_acted turn, ThreadLists.filterMap_snoc, popped, List.append_assoc] at split
    exact (List.cons.inj (List.append_inj split reached.symm).2).1.symm
  exact ⟨j, i, by omega, turn, popped, reached⟩

theorem owns_of_turn {i : Nat} {task : T} (turn : σ.action n = some (.turn i))
    (popped : popped? (σ.state n, .turn i) = some task) : Owns (σ.state (n + 1)) i task := by
  obtain ⟨h, step⟩ := state_acted turn
  rw [step]
  exact (pop_owns h popped : Owns (effect inner (σ.state n) (.turn i)) i task)

theorem completed_of_execute (fair : FairPool σ) (enduring : Enduring σ) {fut : T}
    {caller picked : Option Nat} {spawned : Bool}
    (acted : σ.action n = some (.execute fut caller spawned picked)) : Completed σ n fut := by
  obtain ⟨j, i, hj, turn, popped, reached⟩ := popped_of_execute fair enduring acted
  obtain ⟨k, b, hk, kept, last, ends⟩ := finishes fair (owns_of_turn turn popped)
  exact ⟨j, k, i, b, by omega, by omega, turn, popped, reached, fun l hl => kept l (by omega),
    last, ends⟩

/-- In a fair execution in which every polled task ends, no spawn fails and
fewer tasks panic than the pool may have workers, every call of `execute` that
takes the lock queues its task, and the task is popped and polled, in the order
of the calls, until it ends. -/
theorem every_task_completes (σ : Execution (stuttering (pool T inner)) initial)
    (fair : FairPool σ) (enduring : Enduring σ) {n : Nat} {fut : T} {caller : Option Nat}
    (called : σ.action n = some (.submit fut caller)) :
    ∃ m spawned picked, n < m ∧ σ.action m = some (.execute fut caller spawned picked) ∧
      Completed σ m fut := by
  obtain ⟨m, spawned, picked, hm, acted⟩ :=
    executes_follows fair.execute (held_of_submit called)
  exact ⟨m, spawned, picked, by omega, acted, completed_of_execute fair enduring acted⟩

end Fair

/-! ## A pool that comes to rest -/

/-- No worker has a step to take and nobody is in `execute`. -/
def Idle (s : State T) : Prop :=
  (∀ w ∈ s.threads, ∀ i a, ¬ Next i w a) ∧ ∀ fut caller, s.lock ≠ some (.execute fut caller)

section Resting
variable {actions : List (Action T)} {legal : Legal (pool T inner) initial actions}

theorem fairPool_of_idle (idle : Idle (final (pool T inner) initial actions)) :
    FairPool (resting actions legal) := by
  constructor
  · intro i
    apply resting_stronglyFair
    intro a own h
    obtain ⟨w, here, next⟩ := next_of_own h own
    exact idle.1 w (List.mem_of_getElem? here) i a next
  · apply StronglyFair.weaklyFair
    apply resting_stronglyFair
    intro a own h
    cases a with
    | execute fut caller spawned picked => exact idle.2 fut caller h.1
    | _ => cases own

theorem enduring_of_actions
    (spawns : ∀ n < actions.length, ∀ a ∈ actions[n]?,
      spawnFails inner (final (pool T inner) initial (actions.take n), a) = false)
    (few : (transitions (pool T inner) initial actions).countP panics < inner.max_workers) :
    Enduring (resting actions legal) := by
  constructor
  · intro n a acted
    rw [resting_state]
    exact of_listed spawns acted
  · intro n
    rw [past_resting]
    exact Nat.lt_of_le_of_lt ((List.take_sublist n _).countP_le) few

end Resting

/-- The first worker is lost to the first task, the second worker waits after
the second task. -/
def oneSurvivor : List (Action Nat) :=
  [.submit 0 none, .execute 0 none true none, .lock 0, .turn 0, .panic 0 0,
    .submit 1 none, .execute 1 none true none, .lock 1, .turn 1, .finish 1 1, .lock 1, .turn 1]

theorem every_task_completes_duo :
    let σ : Execution (stuttering (pool Nat duo)) initial := resting oneSurvivor (by decide)
    ∃ m spawned picked, 5 < m ∧ σ.action m = some (.execute 1 none spawned picked) ∧
      Completed σ m 1 := by
  intro σ
  apply every_task_completes σ
  · apply fairPool_of_idle
    constructor
    · have both : (final (pool Nat duo) initial oneSurvivor).threads =
          [.panicked, .waiting .asleep] := by decide
      intro w hw i a next
      rw [both, List.mem_pair] at hw
      rcases hw with rfl | rfl <;> exact next
    · rintro fut caller ⟨⟩
  · exact enduring_of_actions (by decide) (by decide)
  · rfl

end ExecutorLiveness
