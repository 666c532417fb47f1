import Azrath.ExecutorModel

/-!
# Counters of the thread pool

`idle` and `notified` split the threads that wait for work, and `workers`
bounds the live threads. From these facts no counter can wrap, so no critical
section panics; `Move` lists what an action can then do.
-/

namespace ExecutorAccounting

open GuardedRuns ExecutorModel

universe u
variable {bits : Nat} {T : Type u} {inner : Inner bits} {s t : State T} {a : Action T}

/-- What one action does when no counter wraps. -/
inductive Move (inner : Inner bits) (s : State T) : Action T → State T → Prop where
  | submit {fut : T} {caller : Option Nat} (free : s.lock = none) :
      Move inner s (.submit fut caller) { s with lock := some (.execute fut caller) }
  | spawn {fut : T} {caller picked : Option Nat} (spawned : Bool)
      (held : s.lock = some (.execute fut caller)) (none_idle : s.shared.idle = 0)
      (room : s.shared.workers < inner.max_workers) :
      Move inner s (.execute fut caller spawned picked)
        { s with
          shared := { s.shared with
            queue := s.shared.queue ++ [fut]
            workers := s.shared.workers + 1 }
          lock := none
          threads := if spawned then s.threads ++ [.starting] else s.threads }
  | notify {fut : T} {caller : Option Nat} {spawned : Bool} {i : Nat}
      (held : s.lock = some (.execute fut caller)) (some_idle : 0 < s.shared.idle)
      (asleep : s.threads[i]? = some (.waiting .asleep)) :
      Move inner s (.execute fut caller spawned (some i))
        { s with
          shared := { s.shared with
            queue := s.shared.queue ++ [fut]
            idle := s.shared.idle - 1
            notified := s.shared.notified + 1 }
          lock := none
          threads := s.threads.set i (.waiting .picked) }
  | notifyNobody {fut : T} {caller : Option Nat} {spawned : Bool}
      (held : s.lock = some (.execute fut caller)) (some_idle : 0 < s.shared.idle)
      (awake : s.count Worker.isAsleep = 0) :
      Move inner s (.execute fut caller spawned none)
        { s with
          shared := { s.shared with
            queue := s.shared.queue ++ [fut]
            idle := s.shared.idle - 1
            notified := s.shared.notified + 1 }
          lock := none }
  | full {fut : T} {caller picked : Option Nat} {spawned : Bool}
      (held : s.lock = some (.execute fut caller)) (none_idle : s.shared.idle = 0)
      (no_room : s.shared.workers = inner.max_workers) :
      Move inner s (.execute fut caller spawned picked)
        { s with
          shared := { s.shared with queue := s.shared.queue ++ [fut] }
          lock := none }
  | lock {i : Nat} {w : Worker T} (free : s.lock = none) (here : s.threads[i]? = some w)
      (outside : w = .starting ∨ w = .relocking) :
      Move inner s (.lock i)
        { s with lock := some (.worker i), threads := s.threads.set i .locked }
  | pop {i : Nat} {task : T} {queue : List T} (here : s.threads[i]? = some .locked)
      (front : s.shared.queue = task :: queue) :
      Move inner s (.turn i)
        { s with
          shared := { s.shared with queue }
          lock := none
          threads := s.threads.set i (.polling task) }
  | rest {i : Nat} (here : s.threads[i]? = some .locked) (empty : s.shared.queue = []) :
      Move inner s (.turn i)
        { s with
          shared := { s.shared with idle := s.shared.idle + 1 }
          lock := none
          threads := s.threads.set i (.waiting .asleep) }
  | finish {i : Nat} {task : T} (here : s.threads[i]? = some (.polling task)) :
      Move inner s (.finish i task) { s with threads := s.threads.set i .relocking }
  | panic {i : Nat} {task : T} (here : s.threads[i]? = some (.polling task)) :
      Move inner s (.panic i task) { s with threads := s.threads.set i .panicked }
  | timeout {i : Nat} (here : s.threads[i]? = some (.waiting .asleep)) :
      Move inner s (.timeout i) { s with threads := s.threads.set i (.waiting .timedOut) }
  | wake {i : Nat} {wait : Wait} (free : s.lock = none)
      (here : s.threads[i]? = some (.waiting wait)) :
      Move inner s (.wake i wait)
        { s with
          lock := some (.worker i)
          threads := s.threads.set i (.woken (wait = .timedOut)) }
  | take {i : Nat} {timed_out : Bool} (here : s.threads[i]? = some (.woken timed_out))
      (called : 0 < s.shared.notified) :
      Move inner s (.check i timed_out)
        { s with
          shared := { s.shared with notified := s.shared.notified - 1 }
          threads := s.threads.set i .locked }
  | leave {i : Nat} (here : s.threads[i]? = some (.woken true))
      (uncalled : s.shared.notified = 0) :
      Move inner s (.check i true)
        { s with
          shared := { s.shared with
            workers := s.shared.workers - 1
            idle := s.shared.idle - 1 }
          lock := none
          threads := s.threads.set i .exited }
  | again {i : Nat} (here : s.threads[i]? = some (.woken false))
      (uncalled : s.shared.notified = 0) :
      Move inner s (.check i false)
        { s with lock := none, threads := s.threads.set i (.waiting .asleep) }

/-- The number of worker loops that hold the lock. -/
def loops : Option (Holder T) → Nat
  | some (.worker _) => 1
  | _ => 0

@[simp] theorem loops_none : loops (none : Option (Holder T)) = 0 := rfl

@[simp] theorem loops_execute (fut : T) (caller : Option Nat) :
    loops (some (.execute fut caller)) = 0 := rfl

/-- A thread that has left `wait_timeout` but not its critical section is still
counted by `idle` or `notified`. -/
structure Accounted (inner : Inner bits) (s : State T) : Prop where
  healthy : s.poisoned = false
  holder : s.count Worker.holding = loops s.lock
  waiting : s.shared.idle + s.shared.notified = s.count Worker.inWait + s.count Worker.isWoken
  live_le : s.count Worker.live ≤ s.shared.workers
  workers_le : s.shared.workers ≤ inner.max_workers

theorem accounted_initial : Accounted inner (initial : State T) := by
  constructor <;> simp [initial, State.count]

section Sections
variable (inv : Accounted inner s)
include inv

/-- The waiting threads and one more that runs the loop fit into `max_workers`. -/
theorem Accounted.idle_lt (h : 0 < s.count Worker.isLocked) :
    s.shared.idle + 1 < 2 ^ bits := by
  have parts := live_eq s
  have width := inner.max_workers.isLt
  have := inv.waiting
  have := inv.live_le
  have := inv.workers_le
  omega

theorem Accounted.notified_lt (h : 0 < s.shared.idle) :
    s.shared.notified + 1 < 2 ^ bits := by
  have parts := live_eq s
  have width := inner.max_workers.isLt
  have := inv.waiting
  have := inv.live_le
  have := inv.workers_le
  omega

/-- A woken thread that finds no notification is counted by `idle`. -/
theorem Accounted.idle_pos (h : 0 < s.count Worker.isWoken) (uncalled : s.shared.notified = 0) :
    0 < s.shared.idle := by
  have := inv.waiting
  omega

theorem Accounted.workers_pos (h : 0 < s.count Worker.isWoken) : 0 < s.shared.workers := by
  have parts := live_eq s
  have := inv.live_le
  omega

theorem execute_move {fut : T} {caller picked : Option Nat} {spawned : Bool}
    (held : s.lock = some (.execute fut caller)) (pick : s.CanPick picked) :
    Move inner s (.execute fut caller spawned picked)
      (effect inner s (.execute fut caller spawned picked)) := by
  have bound := inv.workers_le
  by_cases none_idle : s.shared.idle = 0
  · by_cases no_room : s.shared.workers = inner.max_workers
    · simp only [effect, Shared.execute_full none_idle no_room, Dispatch.threads]
      exact .full held none_idle no_room
    · have room : s.shared.workers < inner.max_workers := by omega
      simp only [effect, Shared.execute_spawn none_idle room, Dispatch.threads]
      exact .spawn spawned held none_idle room
  · have some_idle : 0 < s.shared.idle := by omega
    simp only [effect, Shared.execute_notify some_idle (inv.notified_lt some_idle),
      Dispatch.threads]
    cases picked with
    | none => exact .notifyNobody held some_idle pick
    | some i => exact .notify held some_idle pick

theorem turn_move {i : Nat} (here : s.threads[i]? = some .locked) :
    Move inner s (.turn i) (effect inner s (.turn i)) := by
  have locked := ThreadLists.countP_pos_of_get (p := Worker.isLocked) here rfl
  cases front : s.shared.queue with
  | nil =>
    have section_eq : s.shared.turn bits =
        some ({ s.shared with idle := s.shared.idle + 1 }, .waiting .asleep) := by
      simp [Shared.turn, front, checkedAdd, inv.idle_lt locked]
    simp only [effect, section_eq, State.resume]
    exact .rest here front
  | cons task queue =>
    have section_eq : s.shared.turn bits = some ({ s.shared with queue }, .polling task) := by
      simp [Shared.turn, front]
    simp only [effect, section_eq, State.resume]
    exact .pop here front

theorem check_move {i : Nat} {timed_out : Bool}
    (here : s.threads[i]? = some (.woken timed_out)) :
    Move inner s (.check i timed_out) (effect inner s (.check i timed_out)) := by
  have woken := ThreadLists.countP_pos_of_get (p := Worker.isWoken) here rfl
  by_cases uncalled : s.shared.notified = 0
  · have idle := inv.idle_pos woken uncalled
    have workers := inv.workers_pos woken
    cases timed_out with
    | true =>
      have section_eq : s.shared.check true =
          some ({ s.shared with
            workers := s.shared.workers - 1
            idle := s.shared.idle - 1 }, .exited) := by
        simp [Shared.check, uncalled, checkedSub, idle, workers]
      simp only [effect, section_eq, State.resume]
      exact .leave here uncalled
    | false =>
      have section_eq : s.shared.check false = some (s.shared, .waiting .asleep) := by
        simp [Shared.check, uncalled]
      simp only [effect, section_eq, State.resume]
      exact .again here uncalled
  · have called : 0 < s.shared.notified := by omega
    have section_eq : s.shared.check timed_out =
        some ({ s.shared with notified := s.shared.notified - 1 }, .locked) := by
      simp [Shared.check, uncalled, checkedSub, called]
    simp only [effect, section_eq, State.resume]
    exact .take here called

/-- The one place where guards and effects are unfolded. -/
theorem effect_move (h : enabled s a) : Move inner s a (effect inner s a) := by
  have healthy : ¬ s.poisoned = true := by simp [inv.healthy]
  cases a with
  | submit fut caller =>
    simp only [effect, if_neg healthy]
    exact .submit h.1
  | execute fut caller spawned picked => exact execute_move inv h.1 h.2
  | lock i =>
    simp only [effect, State.acquire, if_neg healthy]
    rcases h.2 with start | back
    · exact .lock h.1 start (Or.inl rfl)
    · exact .lock h.1 back (Or.inr rfl)
  | turn i => exact turn_move inv h
  | finish i task => exact .finish h.1
  | panic i task => exact .panic h.1
  | timeout i => exact .timeout h
  | wake i wait =>
    simp only [effect, State.acquire, if_neg healthy]
    exact .wake h.1 h.2
  | check i timed_out => exact check_move inv h

end Sections

theorem loops_le_one (lock : Option (Holder T)) : loops lock ≤ 1 := by
  unfold loops
  split <;> omega

/-- While no worker has the lock, none is at the head of its loop or just awake. -/
theorem Accounted.outside (inv : Accounted inner s) (no_loop : loops s.lock = 0) :
    s.count Worker.isLocked = 0 ∧ s.count Worker.isWoken = 0 := by
  have holder := inv.holder
  rw [holding_eq, no_loop] at holder
  omega

/-- A thread that holds the lock is the only one. -/
theorem Accounted.loops_eq (inv : Accounted inner s) {i : Nat} {w : Worker T}
    (here : s.threads[i]? = some w) (holds : w.holding = true) : loops s.lock = 1 := by
  have := ThreadLists.countP_pos_of_get (p := Worker.holding) here holds
  have := inv.holder
  have := loops_le_one s.lock
  unfold State.count at *
  omega

/-- The counters and the lock may change together with one thread as long as
the balance of that thread accounts for it. -/
theorem Accounted.rewrite (inv : Accounted inner s) {i : Nat} {old : Worker T}
    (here : s.threads[i]? = some old) (new : Worker T) (shared : Shared T)
    (lock : Option (Holder T))
    (holder : loops lock + old.holding.toNat = loops s.lock + new.holding.toNat)
    (waiting : shared.idle + shared.notified + (old.inWait.toNat + old.isWoken.toNat) =
      s.shared.idle + s.shared.notified + (new.inWait.toNat + new.isWoken.toNat))
    (live_le : s.shared.workers + new.live.toNat ≤ shared.workers + old.live.toNat)
    (workers_le : shared.workers ≤ s.shared.workers) :
    Accounted inner { s with shared, lock, threads := s.threads.set i new } := by
  have change := fun p => ThreadLists.countP_set p here new
  constructor
  · exact inv.healthy
  · have := change Worker.holding
    have := inv.holder
    simp only [State.count] at *
    omega
  · have := change Worker.inWait
    have := change Worker.isWoken
    have := inv.waiting
    simp only [State.count] at *
    omega
  · have := change Worker.live
    have := inv.live_le
    simp only [State.count] at *
    omega
  · exact Nat.le_trans workers_le inv.workers_le

theorem Accounted.spawned (inv : Accounted inner s) (spawned : Bool) (queue : List T)
    (unheld : loops s.lock = 0) (room : s.shared.workers < inner.max_workers) :
    Accounted inner { s with
      shared := { s.shared with queue, workers := s.shared.workers + 1 }
      lock := none
      threads := if spawned then s.threads ++ [.starting] else s.threads } := by
  obtain ⟨healthy, holder, waiting, live_le, workers_le⟩ := inv
  simp only [State.count] at holder waiting live_le
  cases spawned with
  | false => exact ⟨healthy, by simpa [State.count, unheld] using holder, waiting,
      by simp [State.count]; omega, room⟩
  | true =>
    refine ⟨healthy, ?_, ?_, ?_, room⟩
    · simpa [State.count, unheld] using holder
    · simpa [State.count] using waiting
    · simpa [State.count] using live_le

theorem Accounted.move (inv : Accounted inner s) (move : Move inner s a t) :
    Accounted inner t := by
  cases move with
  | submit free =>
    exact ⟨inv.healthy, by simpa [State.count, free] using inv.holder, inv.waiting, inv.live_le,
      inv.workers_le⟩
  | spawn spawned held none_idle room => exact inv.spawned spawned _ (by simp [held]) room
  | notify held some_idle asleep =>
    exact inv.rewrite asleep _ _ _ (by simp [held]) (by simp; omega) (by simp) (by simp)
  | notifyNobody held some_idle awake =>
    have waiting := inv.waiting
    refine ⟨inv.healthy, by simpa [State.count, held] using inv.holder, ?_, inv.live_le,
      inv.workers_le⟩
    simp only [State.count] at *
    omega
  | full held none_idle no_room =>
    exact ⟨inv.healthy, by simpa [State.count, held] using inv.holder, inv.waiting, inv.live_le,
      inv.workers_le⟩
  | lock free here outside =>
    rcases outside with rfl | rfl <;>
      exact inv.rewrite here _ _ _ (by simp [free, loops]) (by simp) (by simp) (by simp)
  | pop here front =>
    exact inv.rewrite here _ _ _ (by simp [inv.loops_eq here rfl]) (by simp) (by simp) (by simp)
  | rest here empty =>
    exact inv.rewrite here _ _ _ (by simp [inv.loops_eq here rfl]) (by simp; omega) (by simp)
      (by simp)
  | finish here => exact inv.rewrite here _ _ _ (by simp) (by simp) (by simp) (by simp)
  | panic here => exact inv.rewrite here _ _ _ (by simp) (by simp) (by simp) (by simp)
  | timeout here => exact inv.rewrite here _ _ _ (by simp) (by simp) (by simp) (by simp)
  | wake free here =>
    exact inv.rewrite here _ _ _ (by simp [free, loops]) (by simp) (by simp) (by simp)
  | take here called =>
    exact inv.rewrite here _ _ _ (by simp) (by simp; omega) (by simp) (by simp)
  | leave here uncalled =>
    have woken := ThreadLists.countP_pos_of_get (p := Worker.isWoken) here rfl
    have := inv.idle_pos woken uncalled
    have := inv.workers_pos woken
    exact inv.rewrite here _ _ _ (by simp [inv.loops_eq here rfl]) (by simp; omega)
      (by simp; omega) (by simp)
  | again here uncalled =>
    exact inv.rewrite here _ _ _ (by simp [inv.loops_eq here rfl]) (by simp) (by simp) (by simp)

theorem accounted_run {history : List (State T × Action T)}
    (run : Run (pool T inner) initial history s) : Accounted inner s :=
  run.invariant (Accounted inner) (fun _ _ inv h => inv.move (effect_move inv h))
    accounted_initial

/-- No critical section of a reachable state does arithmetic that wraps. -/
theorem Accounted.execute_isSome (inv : Accounted inner s) (fut : T) :
    (s.shared.execute inner fut).isSome = true := by
  have bound := inv.workers_le
  by_cases none_idle : s.shared.idle = 0
  · by_cases no_room : s.shared.workers = inner.max_workers
    · simp [Shared.execute_full none_idle no_room]
    · simp [Shared.execute_spawn none_idle (by omega : s.shared.workers < inner.max_workers)]
  · have some_idle : 0 < s.shared.idle := by omega
    simp [Shared.execute_notify some_idle (inv.notified_lt some_idle)]

theorem Accounted.turn_isSome (inv : Accounted inner s) {i : Nat}
    (here : s.threads[i]? = some .locked) : (s.shared.turn bits).isSome = true := by
  have locked := ThreadLists.countP_pos_of_get (p := Worker.isLocked) here rfl
  unfold Shared.turn
  split
  · rfl
  · simp [checkedAdd, inv.idle_lt locked]

theorem Accounted.check_isSome (inv : Accounted inner s) {i : Nat} {timed_out : Bool}
    (here : s.threads[i]? = some (.woken timed_out)) :
    (s.shared.check timed_out).isSome = true := by
  have woken := ThreadLists.countP_pos_of_get (p := Worker.isWoken) here rfl
  unfold Shared.check
  split
  · rename_i called
    simp [checkedSub, Nat.pos_of_ne_zero called]
  · rename_i uncalled
    have uncalled : s.shared.notified = 0 := by omega
    split
    · simp [checkedSub, inv.idle_pos woken uncalled, inv.workers_pos woken]
    · rfl

/-- In every reachable state the counters describe the threads, and no update
of a counter can wrap, whatever spawns fail and whatever tasks panic. -/
theorem counters_consistent {history : List (State T × Action T)}
    (run : Run (pool T inner) initial history s) :
    (s.lock = none → s.shared.idle + s.shared.notified = s.count Worker.inWait ∧
      s.count Worker.live ≤ s.shared.workers ∧ s.shared.workers ≤ inner.max_workers) ∧
    (∀ fut, (s.shared.execute inner fut).isSome = true) ∧
    (∀ i : Nat, s.threads[i]? = some .locked → (s.shared.turn bits).isSome = true) ∧
    (∀ (i : Nat) timed_out, s.threads[i]? = some (.woken timed_out) →
      (s.shared.check timed_out).isSome = true) ∧
    s.poisoned = false ∧ s.count Worker.isPolling ≤ inner.max_workers := by
  have inv := accounted_run run
  have live_le := inv.live_le
  have workers_le := inv.workers_le
  refine ⟨?_, inv.execute_isSome, fun i => inv.turn_isSome, fun i _ => inv.check_isSome,
    inv.healthy, ?_⟩
  · intro free
    have waiting := inv.waiting
    have outside := inv.outside (by rw [free, loops_none])
    exact ⟨by omega, live_le, workers_le⟩
  · have polling : s.count Worker.isPolling ≤ s.count Worker.live :=
      List.countP_mono_left fun w _ h => by cases w <;> simp at h ⊢
    omega

theorem spawnFails_of_dispatch {fut : T} {caller picked : Option Nat} {spawned : Bool}
    {shared : Shared T} {dispatch : Dispatch}
    (h : s.shared.execute inner fut = some (shared, dispatch)) :
    spawnFails inner (s, .execute fut caller spawned picked) =
      (!spawned && decide (dispatch = .spawn)) := by
  cases spawned <;> simp [spawnFails, h]

section Dispatched
variable {fut : T} {caller picked : Option Nat} {spawned : Bool}

theorem spawnFails_spawn (none_idle : s.shared.idle = 0)
    (room : s.shared.workers < inner.max_workers) :
    spawnFails inner (s, .execute fut caller spawned picked) = !spawned := by
  rw [spawnFails_of_dispatch (Shared.execute_spawn none_idle room fut)]
  simp

theorem Accounted.spawnFails_notify (inv : Accounted inner s) (some_idle : 0 < s.shared.idle) :
    spawnFails inner (s, .execute fut caller spawned picked) = false := by
  rw [spawnFails_of_dispatch (Shared.execute_notify some_idle (inv.notified_lt some_idle) fut)]
  simp

theorem spawnFails_full (none_idle : s.shared.idle = 0)
    (no_room : s.shared.workers = inner.max_workers) :
    spawnFails inner (s, .execute fut caller spawned picked) = false := by
  rw [spawnFails_of_dispatch (Shared.execute_full none_idle no_room fut)]
  simp

end Dispatched

/-- `workers` follows the live threads, except that nobody gives back the unit
of a thread that panicked or that never came to be. -/
theorem Accounted.workers_move (inv : Accounted inner s) (move : Move inner s a t) :
    t.shared.workers + s.count Worker.live =
      s.shared.workers + t.count Worker.live +
        (panics (s, a)).toNat + (spawnFails inner (s, a)).toNat := by
  unfold State.count
  cases move with
  | spawn spawned held none_idle room =>
    rw [spawnFails_spawn none_idle room]
    cases spawned <;> simp [panics] <;> omega
  | notify held some_idle asleep =>
    rw [inv.spawnFails_notify some_idle]
    simp only [panics, Bool.toNat_false]
    rw [ThreadLists.countP_set_same asleep] <;> rfl
  | notifyNobody held some_idle awake =>
    rw [inv.spawnFails_notify some_idle]
    simp [panics]
  | full held none_idle no_room =>
    rw [spawnFails_full none_idle no_room]
    simp [panics]
  | submit free => simp [panics, spawnFails]
  | lock free here outside =>
    rcases outside with rfl | rfl <;> simp only [panics, spawnFails, Bool.toNat_false] <;>
      rw [ThreadLists.countP_set_same here] <;> rfl
  | pop here front | rest here empty | finish here | timeout here | wake free here
  | take here called | again here uncalled =>
    simp only [panics, spawnFails, Bool.toNat_false]
    rw [ThreadLists.countP_set_same here] <;> rfl
  | panic here =>
    have change := ThreadLists.countP_set Worker.live here .panicked
    simp [panics, spawnFails] at change ⊢
    omega
  | leave here uncalled =>
    have change := ThreadLists.countP_set Worker.live here .exited
    have := inv.workers_pos (ThreadLists.countP_pos_of_get (p := Worker.isWoken) here rfl)
    simp [panics, spawnFails] at change ⊢
    omega

theorem workers_eq {history : List (State T × Action T)}
    (run : Run (pool T inner) initial history s) :
    s.shared.workers =
      s.count Worker.live + history.countP panics + history.countP (spawnFails inner) := by
  refine run.history_invariant (fun past t => t.shared.workers =
    t.count Worker.live + past.countP panics + past.countP (spawnFails inner)) rfl ?_
  intro past t a before ih h
  have inv := accounted_run before
  have change := inv.workers_move (effect_move inv h)
  have := ThreadLists.countP_snoc panics past (t, a)
  have := ThreadLists.countP_snoc (spawnFails inner) past (t, a)
  change _ = (effect inner t a).count Worker.live + _ + _
  change (effect inner t a).shared.workers = _
  omega

/-- The pool counts its threads right, and a task given to it while a worker is
missing and none is idle gets a worker started. -/
def Replenished (inner : Inner bits) (s : State T) : Prop :=
  s.shared.workers = s.count Worker.live ∧
  ∀ fut caller picked, s.shared.idle = 0 → s.count Worker.live < inner.max_workers →
    (effect inner (effect inner s (.submit fut caller))
      (.execute fut caller true picked)).threads = s.threads ++ [.starting]

theorem Accounted.starts_worker (inv : Accounted inner s) {fut : T}
    {caller picked : Option Nat} (none_idle : s.shared.idle = 0)
    (room : s.shared.workers < inner.max_workers) :
    (effect inner (effect inner s (.submit fut caller))
      (.execute fut caller true picked)).threads = s.threads ++ [.starting] := by
  have healthy : ¬ s.poisoned = true := by simp [inv.healthy]
  simp [effect, if_neg healthy, Shared.execute_spawn none_idle room, Dispatch.threads]

/-- Exactly the runs without a panicking task keep the capacity of the pool. -/
theorem replenished_iff_no_panic {history : List (State T × Action T)}
    (run : Run (pool T inner) initial history s)
    (spawns : ∀ p ∈ history, spawnFails inner p = false) :
    Replenished inner s ↔ ∀ p ∈ history, panics p = false := by
  have total := workers_eq run
  rw [← ThreadLists.countP_eq_zero_iff] at spawns ⊢
  constructor
  · rintro ⟨counted, _⟩
    omega
  · intro none_lost
    constructor
    · omega
    · intro fut caller picked none_idle room
      exact (accounted_run run).starts_worker none_idle (by omega)

/-- One worker at most, the default `keep_alive`. -/
def solo : Inner 64 where
  keep_alive := 6 * 10 ^ 9
  max_workers := ⟨1, by decide⟩

/-- A task is given to the pool, its worker starts, and the task panics. -/
def panicking : List (Action Nat) :=
  [.submit 0 none, .execute 0 none true none, .lock 0, .turn 0, .panic 0 0]

theorem replenished_iff_no_panic_solo :
    Replenished solo (final (pool Nat solo) initial (panicking.take 4)) ↔
      ∀ p ∈ transitions (pool Nat solo) initial (panicking.take 4), panics p = false :=
  replenished_iff_no_panic (run_of_legal _ (by decide)) (by decide)

/-- After the panic the only worker is gone, its unit in `workers` is not, and
the next task is queued without a worker. -/
theorem panic_takes_capacity :
    let s := final (pool Nat solo) initial panicking
    Run (pool Nat solo) initial (transitions (pool Nat solo) initial panicking) s ∧
      (∀ p ∈ transitions (pool Nat solo) initial panicking, spawnFails solo p = false) ∧
      s.lock = none ∧ s.shared.idle = 0 ∧ s.count Worker.live < solo.max_workers ∧
      s.shared.workers ≠ s.count Worker.live ∧
      (effect solo (effect solo s (.submit 1 none)) (.execute 1 none true none)).threads =
        s.threads := by
  exact ⟨run_of_legal _ (by decide), by decide, by decide, by decide, by decide, by decide,
    by decide⟩

/-- The failing call itself raises `workers` and leaves the other counters. -/
theorem Accounted.failed_spawn (inv : Accounted inner s) (h : enabled s a)
    (fails : spawnFails inner (s, a) = true) :
    (effect inner s a).shared.workers = s.shared.workers + 1 ∧
      (effect inner s a).shared.idle = s.shared.idle ∧
      (effect inner s a).shared.notified = s.shared.notified := by
  have move := effect_move inv h
  generalize effect inner s a = t at move
  cases move with
  | spawn spawned held none_idle room => exact ⟨rfl, rfl, rfl⟩
  | notify held some_idle asleep => cases (inv.spawnFails_notify some_idle).symm.trans fails
  | notifyNobody held some_idle awake => cases (inv.spawnFails_notify some_idle).symm.trans fails
  | full held none_idle no_room => cases (spawnFails_full none_idle no_room).symm.trans fails
  | _ => cases fails

/-- No failed spawn has left a trace: not in the counters at the time, not in
`workers` now, and not in what `execute` does for the next task. -/
def Restored (inner : Inner bits) (history : List (State T × Action T)) (s : State T) : Prop :=
  (∀ p ∈ history, spawnFails inner p = true →
    (effect inner p.1 p.2).shared.workers = p.1.shared.workers ∧
      (effect inner p.1 p.2).shared.idle = p.1.shared.idle ∧
      (effect inner p.1 p.2).shared.notified = p.1.shared.notified) ∧
  s.shared.workers = s.count Worker.live ∧
  ∀ fut, s.shared.idle = 0 → s.count Worker.live < inner.max_workers →
    (s.shared.execute inner fut).map Prod.snd = some .spawn

/-- Every failed spawn keeps a unit of `workers`, so among the runs without a
panicking task exactly those without a failed spawn are as they should be. -/
theorem restored_iff_spawns_succeed {history : List (State T × Action T)}
    (run : Run (pool T inner) initial history s) :
    (∀ p ∈ history, spawnFails inner p = true →
      (effect inner p.1 p.2).shared.workers = p.1.shared.workers + 1 ∧
        (effect inner p.1 p.2).shared.idle = p.1.shared.idle ∧
        (effect inner p.1 p.2).shared.notified = p.1.shared.notified) ∧
    ((∀ p ∈ history, panics p = false) →
      (Restored inner history s ↔ ∀ p ∈ history, spawnFails inner p = false)) := by
  constructor
  · intro p hp fails
    obtain ⟨before, after, _, first, h, _⟩ := run.split hp
    exact (accounted_run first).failed_spawn h fails
  · intro calm
    have total := workers_eq run
    rw [← ThreadLists.countP_eq_zero_iff] at calm
    constructor
    · rintro ⟨_, counted, _⟩
      rw [← ThreadLists.countP_eq_zero_iff]
      omega
    · intro spawns
      have spawned := ThreadLists.countP_eq_zero_iff.mpr spawns
      refine ⟨fun p hp fails => ?_, by omega, fun fut none_idle room => ?_⟩
      · cases (spawns p hp).symm.trans fails
      · rw [Shared.execute_spawn none_idle (by omega) fut]
        rfl

/-- A task is given to the pool, and no thread can be had for it. -/
def unspawned : List (Action Nat) := [.submit 0 none, .execute 0 none false none]

theorem restored_iff_spawns_succeed_solo :
    Restored solo (transitions (pool Nat solo) initial unspawned)
        (final (pool Nat solo) initial unspawned) ↔
      ∀ p ∈ transitions (pool Nat solo) initial unspawned, spawnFails solo p = false :=
  (restored_iff_spawns_succeed (run_of_legal unspawned (by decide))).2 (by decide)

/-- The pool counts a worker it does not have, and spawns none for the next
task. -/
theorem failed_spawn_takes_capacity :
    let s := final (pool Nat solo) initial unspawned
    Run (pool Nat solo) initial (transitions (pool Nat solo) initial unspawned) s ∧
      (∀ p ∈ transitions (pool Nat solo) initial unspawned, panics p = false) ∧
      s.lock = none ∧ s.shared.workers ≠ (initial : State Nat).shared.workers ∧
      s.shared.workers ≠ s.count Worker.live ∧ s.shared.idle = 0 ∧
      s.count Worker.live < solo.max_workers ∧
      (s.shared.execute solo 1).map Prod.snd = some .nothing := by
  exact ⟨run_of_legal _ (by decide), by decide, by decide, by decide, by decide, by decide,
    by decide, by decide⟩

/-- The first task ends, and its worker waits. -/
def settling : List (Action Nat) :=
  [.submit 0 none, .execute 0 none true none, .lock 0, .turn 0, .finish 0 0, .lock 0, .turn 0]

theorem counters_consistent_solo :
    let s := final (pool Nat solo) initial settling
    s.shared.idle = 1 ∧ s.shared.notified = 0 ∧ s.shared.workers = 1 ∧
      s.count Worker.inWait = 1 ∧ s.count Worker.live = 1 ∧
      (s.shared.idle + s.shared.notified = s.count Worker.inWait ∧
        s.count Worker.live ≤ s.shared.workers ∧ s.shared.workers ≤ solo.max_workers) ∧
      (s.shared.execute solo 1).isSome = true ∧ s.poisoned = false := by
  intro s
  obtain ⟨counted, queues, _, _, sound, _⟩ :=
    counters_consistent (run_of_legal (M := pool Nat solo) settling (by decide))
  exact ⟨by decide, by decide, by decide, by decide, by decide, counted (by decide), queues 1,
    sound⟩

end ExecutorAccounting
