import Azrath.ExecutorAccounting

/-!
# Every queued task has a thread that will take it

While the pool could still use an idle thread or a new one, each queued task is
matched by a notification or by a starting thread, and each notification by a
thread that has been picked or has timed out. When the pool is exhausted, a
busy thread returns to the queue.
-/

namespace ExecutorProgress

open GuardedRuns ExecutorModel ExecutorAccounting

universe u
variable {bits : Nat} {T : Type u} {inner : Inner bits} {s t : State T} {a : Action T}

/-- A thread at the head of its loop takes the next task; a woken one has not
looked at `notified` yet. -/
structure Served (inner : Inner bits) (s : State T) : Prop where
  queued : 0 < s.shared.idle ∨ s.shared.workers < inner.max_workers →
    s.shared.queue.length ≤
      s.shared.notified + s.count Worker.isStarting + s.count Worker.isLocked
  called : s.shared.notified ≤ s.count Worker.outstanding + s.count Worker.isWoken

theorem served_initial : Served inner (initial : State T) := by
  constructor <;> simp [initial]

/-- One thread is rewritten, perhaps together with the counters: it may take
work over only from the queue or from `notified`, and a wake-up only with it. -/
theorem Served.rewrite (served : Served inner s) {i : Nat} {old : Worker T}
    (here : s.threads[i]? = some old) (new : Worker T) (shared : Shared T)
    (lock : Option (Holder T))
    (queued : shared.queue.length = 0 ∨
      ((0 < shared.idle ∨ shared.workers < inner.max_workers) →
        0 < s.shared.idle ∨ s.shared.workers < inner.max_workers) ∧
      shared.queue.length + s.shared.notified + (old.isStarting.toNat + old.isLocked.toNat) ≤
        s.shared.queue.length + shared.notified + (new.isStarting.toNat + new.isLocked.toNat))
    (called : shared.notified = 0 ∨
      shared.notified + (old.outstanding.toNat + old.isWoken.toNat) ≤
        s.shared.notified + (new.outstanding.toNat + new.isWoken.toNat)) :
    Served inner { s with shared, lock, threads := s.threads.set i new } := by
  have change := fun p => ThreadLists.countP_set p here new
  constructor
  · intro capacity
    have := change Worker.isStarting
    have := change Worker.isLocked
    rcases queued with none_queued | ⟨before, moved⟩
    · simp only [none_queued, Nat.zero_le]
    · have := served.queued (before capacity)
      simp only [State.count] at *
      omega
  · have := change Worker.outstanding
    have := change Worker.isWoken
    have := served.called
    simp only [State.count] at *
    omega

theorem Served.move (served : Served inner s) (inv : Accounted inner s)
    (spawns : spawnFails inner (s, a) = false) (move : Move inner s a t) :
    Served inner t := by
  cases move with
  | submit free => exact ⟨served.queued, served.called⟩
  | spawn spawned held none_idle room =>
    rw [spawnFails_spawn none_idle room, Bool.not_eq_false'] at spawns
    subst spawns
    have before := served.queued (Or.inr room)
    have called := served.called
    constructor <;> simp [State.count] at * <;> omega
  | notify held some_idle asleep =>
    exact served.rewrite asleep _ _ _ (Or.inr ⟨fun _ => Or.inl some_idle, by simp; omega⟩)
      (Or.inr (by simp))
  | notifyNobody held some_idle awake =>
    -- nobody is asleep, so every waiting thread has its wake-up already
    have before := served.queued (Or.inl some_idle)
    have waiting := inv.waiting
    have outside := inv.outside (by rw [held, loops_execute])
    rw [inWait_eq, awake] at waiting
    constructor <;> simp [State.count] at * <;> omega
  | full held none_idle no_room =>
    refine ⟨fun capacity => ?_, served.called⟩
    simp only at capacity
    omega
  | lock free here outside =>
    rcases outside with rfl | rfl <;>
      exact served.rewrite here _ _ _ (Or.inr ⟨id, by simp⟩) (Or.inr (by simp))
  | pop here front =>
    have moved := congrArg List.length front
    rw [List.length_cons] at moved
    refine served.rewrite here _ _ _ (Or.inr ⟨id, ?_⟩) (Or.inr (by simp))
    simp only [moved, Worker.isStarting, Worker.isLocked, Bool.toNat_true, Bool.toNat_false]
    omega
  | rest here empty =>
    exact served.rewrite here _ _ _ (Or.inl (by simp [empty])) (Or.inr (by simp))
  | finish here | panic here | timeout here =>
    exact served.rewrite here _ _ _ (Or.inr ⟨id, by simp⟩) (Or.inr (by simp))
  | @wake i wait free here =>
    cases wait <;> exact served.rewrite here _ _ _ (Or.inr ⟨id, by simp⟩) (Or.inr (by simp))
  | take here called =>
    exact served.rewrite here _ _ _ (Or.inr ⟨id, by simp; omega⟩) (Or.inr (by simp; omega))
  | leave here uncalled =>
    have woken := ThreadLists.countP_pos_of_get (p := Worker.isWoken) here rfl
    have idle := inv.idle_pos woken uncalled
    exact served.rewrite here _ _ _ (Or.inr ⟨fun _ => Or.inl idle, by simp⟩) (Or.inl uncalled)
  | again here uncalled =>
    exact served.rewrite here _ _ _ (Or.inr ⟨id, by simp⟩) (Or.inl uncalled)

theorem served_run {history : List (State T × Action T)}
    (run : Run (pool T inner) initial history s)
    (spawns : ∀ p ∈ history, spawnFails inner p = false) : Served inner s := by
  refine (run.invariant_of (fun t a => spawnFails inner (t, a) = false)
    (fun t => Accounted inner t ∧ Served inner t) ?_ spawns
    ⟨accounted_initial, served_initial⟩).2
  rintro t a succeeds ⟨inv, served⟩ h
  have move := effect_move inv h
  exact ⟨inv.move move, served.move inv succeeds move⟩

/-- With the lock free, a task waits behind a running one only in a pool that is
full and has no idle thread, and a notification has its own wake-up. -/
theorem queued_task_served {history : List (State T × Action T)}
    (run : Run (pool T inner) initial history s)
    (spawns : ∀ p ∈ history, spawnFails inner p = false) (free : s.lock = none) :
    (0 < s.shared.idle ∨ s.shared.workers < inner.max_workers →
      s.shared.queue.length ≤ s.shared.notified + s.count Worker.isStarting) ∧
    s.shared.notified ≤ s.count Worker.outstanding := by
  obtain ⟨queued, called⟩ := served_run run spawns
  have outside := (accounted_run run).outside (by rw [free, loops_none])
  exact ⟨fun h => by have := queued h; omega, by omega⟩

/-- The first worker waits, and is picked for the second task. -/
def handedOver : List (Action Nat) :=
  [.submit 0 none, .execute 0 none true none, .lock 0, .turn 0, .finish 0 0, .lock 0, .turn 0,
    .submit 1 none, .execute 1 none true (some 0)]

/-- At most two workers. -/
def duo : Inner 64 where
  keep_alive := 6 * 10 ^ 9
  max_workers := 2

/-- Both workers wait, and one of them is picked for the third task. -/
def oneOfTwo : List (Action Nat) :=
  [.submit 0 none, .execute 0 none true none, .submit 1 none, .execute 1 none true none,
    .lock 0, .turn 0, .finish 0 0, .lock 1, .turn 1, .finish 1 1, .lock 0, .turn 0, .lock 1,
    .turn 1, .submit 2 none, .execute 2 none true (some 1)]

/-- One thread is idle, and the queued task has its notification. -/
theorem queued_task_served_duo :
    let s := final (pool Nat duo) initial oneOfTwo
    s.shared.queue = [2] ∧ s.shared.idle = 1 ∧ s.shared.notified = 1 ∧
      s.shared.queue.length ≤ s.shared.notified + s.count Worker.isStarting ∧
      s.shared.notified ≤ s.count Worker.outstanding := by
  intro s
  obtain ⟨covered, called⟩ :=
    queued_task_served (run_of_legal (M := pool Nat duo) oneOfTwo (by decide)) (by decide)
      (by decide)
  exact ⟨by decide, by decide, by decide, covered (Or.inl (by decide)), called⟩

/-! ## What becomes of the tasks -/

def submitted? (p : State T × Action T) : Option T :=
  match p.2 with
  | .execute fut _ _ _ => some fut
  | _ => none

def popped? (p : State T × Action T) : Option T :=
  match p.2 with
  | .turn _ => p.1.shared.queue.head?
  | _ => none

def finished? (p : State T × Action T) : Option T :=
  match p.2 with
  | .finish _ task => some task
  | _ => none

def panicked? (p : State T × Action T) : Option T :=
  match p.2 with
  | .panic _ task => some task
  | _ => none

theorem queue_move (move : Move inner s a t) :
    s.shared.queue ++ (submitted? (s, a)).toList = (popped? (s, a)).toList ++ t.shared.queue := by
  cases move with
  | pop here front => simp [submitted?, popped?, front]
  | rest here empty => simp [submitted?, popped?, empty]
  | _ => simp [submitted?, popped?]

/-- The queue is first in, first out, over every run. -/
theorem submitted_eq {history : List (State T × Action T)}
    (run : Run (pool T inner) initial history s) :
    history.filterMap submitted? = history.filterMap popped? ++ s.shared.queue := by
  refine run.history_invariant (fun past t =>
    past.filterMap submitted? = past.filterMap popped? ++ t.shared.queue) rfl ?_
  intro past t a before ih h
  have step := queue_move (effect_move (accounted_run before) h)
  rw [ThreadLists.filterMap_snoc, ThreadLists.filterMap_snoc, ih, List.append_assoc, step,
    List.append_assoc]
  rfl

/-- What a worker polls: at most the one task it popped. -/
def inHand (s : State T) : List T := s.threads.filterMap Worker.task?

theorem inHand_move (move : Move inner s a t) :
    ((popped? (s, a)).toList ++ inHand s).Perm
      ((finished? (s, a)).toList ++ (panicked? (s, a)).toList ++ inHand t) := by
  have rewritten := fun {i : Nat} {old : Worker T} (here : s.threads[i]? = some old) new =>
    (ThreadLists.filterMap_set_perm Worker.task? here new).symm
  unfold inHand
  cases move with
  | @spawn fut caller picked spawned held none_idle room =>
    cases spawned <;> simp [popped?, finished?, panicked?, List.filterMap_cons]
  | submit free | notifyNobody held some_idle awake | full held none_idle no_room => exact .refl _
  | @pop i task queue here front =>
    simpa [popped?, finished?, panicked?, front] using rewritten here (.polling task)
  | rest here empty =>
    simpa [popped?, finished?, panicked?, empty] using rewritten here (.waiting .asleep)
  | notify held some_idle asleep => exact rewritten asleep (.waiting .picked)
  | lock free here outside => rcases outside with rfl | rfl <;> exact rewritten here .locked
  | finish here => simpa [popped?, finished?, panicked?] using rewritten here .relocking
  | panic here => simpa [popped?, finished?, panicked?] using rewritten here .panicked
  | timeout here => exact rewritten here (.waiting .timedOut)
  | @wake i wait free here => exact rewritten here (.woken (wait = .timedOut))
  | take here called => exact rewritten here .locked
  | leave here uncalled => exact rewritten here .exited
  | again here uncalled => exact rewritten here (.waiting .asleep)

/-- A popped task is finished, has panicked or is in the hands of one worker,
and is none of these twice. -/
theorem popped_perm {history : List (State T × Action T)}
    (run : Run (pool T inner) initial history s) :
    (history.filterMap popped?).Perm
      (history.filterMap finished? ++ history.filterMap panicked? ++ inHand s) := by
  refine run.history_invariant (fun past t => (past.filterMap popped?).Perm
    (past.filterMap finished? ++ past.filterMap panicked? ++ inHand t))
    (by simp [inHand, initial]) ?_
  intro past t a before ih h
  have step := inHand_move (effect_move (accounted_run before) h)
  rw [ThreadLists.filterMap_snoc, ThreadLists.filterMap_snoc, ThreadLists.filterMap_snoc]
  apply (ih.append_right _).trans
  rw [List.append_assoc]
  apply (List.Perm.append_left _ (List.perm_append_comm.trans step)).trans
  simp only [List.append_assoc]
  apply List.Perm.append_left
  simp only [← List.append_assoc]
  exact (List.perm_append_comm.append_right _).append_right _

/-! ## No task is stranded -/

/-- The threads that look at the queue again before they wait. -/
@[simp] def attending : Worker T → Bool
  | .starting | .locked | .polling _ | .relocking => true
  | _ => false

theorem attending_eq (s : State T) : s.count attending =
    s.count Worker.isStarting + s.count Worker.isLocked + s.count Worker.running := by
  unfold State.count
  induction s.threads with
  | nil => rfl
  | cons w rest ih =>
    cases w <;> simp [List.countP_cons] <;> omega

/-- A queued task has a thread that will look for it. -/
structure Attended (s : State T) : Prop where
  counted : s.shared.workers = s.count Worker.live
  attended : s.shared.queue ≠ [] → 0 < s.shared.notified + s.count attending

theorem attended_initial : Attended (initial : State T) :=
  ⟨rfl, fun h => absurd rfl h⟩

theorem Attended.move (attended : Attended s) (inv : Accounted inner s)
    (some_worker : 0 < inner.max_workers.val) (calm : panics (s, a) = false)
    (spawns : spawnFails inner (s, a) = false) (move : Move inner s a t) : Attended t := by
  have counted := inv.workers_move move
  rw [calm, spawns] at counted
  obtain ⟨workers, attended⟩ := attended
  refine ⟨by simp at counted; omega, fun queued => ?_⟩
  have change := fun {i : Nat} {old : Worker T} (here : s.threads[i]? = some old) new =>
    ThreadLists.countP_set attending here new
  unfold State.count at *
  cases move with
  | submit free => exact attended queued
  | spawn spawned held none_idle room =>
    rw [spawnFails_spawn none_idle room, Bool.not_eq_false'] at spawns
    subst spawns
    have grown := ThreadLists.countP_snoc attending s.threads .starting
    simp only [attending, Bool.toNat_true, if_true] at grown ⊢
    omega
  | notify held some_idle asleep => simp only; omega
  | notifyNobody held some_idle awake => simp only; omega
  | full held none_idle no_room =>
    -- nobody is started for this task, so somebody must be at work already
    have parts := live_eq s
    have busy := attending_eq s
    have waiting := inv.waiting
    have outside := inv.outside (by rw [held, loops_execute])
    unfold State.count at *
    simp only
    omega
  | lock free here outside =>
    have before := attended queued
    rcases outside with rfl | rfl <;> rwa [ThreadLists.countP_set_same here] <;> rfl
  | @pop i task queue here front =>
    have := ThreadLists.countP_pos_of_get (p := attending) here rfl
    have moved := change here (.polling task)
    simp only [attending] at moved ⊢
    omega
  | rest here empty => exact absurd empty queued
  | panic here => cases calm
  | finish here | timeout here | wake free here | again here uncalled | leave here uncalled =>
    -- the thread attends to the queue as much as before
    have before := attended queued
    rwa [ThreadLists.countP_set_same here]
    rfl
  | take here called =>
    have moved := change here .locked
    simp only [attending, Bool.toNat_false, Bool.toNat_true] at moved ⊢
    omega

theorem attended_run {history : List (State T × Action T)}
    (run : Run (pool T inner) initial history s) (some_worker : 0 < inner.max_workers.val)
    (spawns : ∀ p ∈ history, spawnFails inner p = false)
    (calm : ∀ p ∈ history, panics p = false) : Attended s := by
  refine (run.invariant_of
    (fun t a => spawnFails inner (t, a) = false ∧ panics (t, a) = false)
    (fun t => Accounted inner t ∧ Attended t) ?_ (fun p hp => ⟨spawns p hp, calm p hp⟩)
    ⟨accounted_initial, attended_initial⟩).2
  rintro t a ⟨succeeds, peaceful⟩ ⟨inv, attended⟩ h
  have move := effect_move inv h
  exact ⟨inv.move move, attended.move inv some_worker peaceful succeeds move⟩

/-- The queue is empty, or a thread is bound to pop from it. -/
def Bound (s : State T) : Prop :=
  s.shared.queue ≠ [] → 0 < s.count Worker.isStarting ∨ 0 < s.count Worker.running ∨
    (0 < s.count Worker.inWait ∧ 0 < s.shared.notified)

/-- A pool at rest has finished every task it was ever given. -/
def Drained (history : List (State T × Action T)) (s : State T) : Prop :=
  s.count Worker.isStarting = 0 → s.count Worker.running = 0 → s.shared.notified = 0 →
    s.shared.queue = [] ∧
      (history.filterMap submitted?).Perm (history.filterMap finished?)

theorem Attended.bound (attended : Attended s) (inv : Accounted inner s)
    (free : s.lock = none) : Bound s := by
  intro queued
  have before := attended.attended queued
  have busy := attending_eq s
  have waiting := inv.waiting
  have outside := inv.outside (by rw [free, loops_none])
  omega

theorem inHand_nil (none_running : s.count Worker.running = 0) : inHand s = [] := by
  apply List.filterMap_eq_nil_iff.mpr
  intro w hw
  have idle := List.countP_eq_zero.mp none_running w hw
  cases w <;> simp at idle ⊢

theorem drained_of_bound {history : List (State T × Action T)}
    (run : Run (pool T inner) initial history s) (calm : ∀ p ∈ history, panics p = false)
    (bound : Bound s) : Drained history s := by
  intro none_starting none_running none_notified
  have empty : s.shared.queue = [] := by
    by_contra queued
    have := bound queued
    omega
  have no_panic : history.filterMap panicked? = [] := by
    apply List.filterMap_eq_nil_iff.mpr
    intro p hp
    have := calm p hp
    obtain ⟨t, a⟩ := p
    cases a <;> simp [panics, panicked?] at this ⊢
  have taken := popped_perm run
  rw [no_panic, inHand_nil none_running, List.append_nil, List.append_nil] at taken
  refine ⟨empty, ?_⟩
  rw [submitted_eq run, empty, List.append_nil]
  exact taken

/-- The default of `max_workers` is never 0. -/
theorem new_max_workers_pos {num_cpus : Nat} {max_workers : Option (Usize bits)}
    {keep_alive : Option Nat} (cpus : 0 < num_cpus)
    (new : Executor.new num_cpus max_workers keep_alive = some inner) :
    0 < inner.max_workers.val ↔ ∀ m, max_workers = some m → 0 < m.val := by
  unfold Executor.new at new
  cases max_workers with
  | some m =>
    simp only [Option.some.injEq] at new
    subst new
    simp
  | none =>
    simp only [Option.dite_none_right_eq_some, Option.some.injEq] at new
    obtain ⟨fits, rfl⟩ := new
    simp only [reduceCtorEq, false_implies, implies_true, iff_true]
    omega

/-- Without room for a first worker the task stays in the queue for good. -/
theorem workerless_run (none_allowed : inner.max_workers.val = 0) (fut : T) :
    Run (pool T inner) initial
      (transitions (pool T inner) initial [.submit fut none, .execute fut none true none])
      { initial with shared := { (initial : State T).shared with queue := [fut] } } := by
  have full : (initial : State T).shared.execute inner fut =
      some ({ (initial : State T).shared with queue := [fut] }, .nothing) :=
    Shared.execute_full rfl none_allowed.symm fut
  have queued : effect inner (effect inner (initial : State T) (.submit fut none))
      (.execute fut none true none) =
        { initial with shared := { (initial : State T).shared with queue := [fut] } } := by
    simp only [effect, initial, Bool.false_eq_true, if_false] at full ⊢
    rw [full]
    rfl
  rw [← queued]
  exact run_of_legal _ ⟨⟨rfl, by simp [State.MayCall]⟩, ⟨rfl, rfl⟩, trivial⟩

/-- No task is stranded exactly in the pools that may have a worker at all. -/
theorem no_task_stranded_iff {num_cpus : Nat} {max_workers : Option (Usize bits)}
    {keep_alive : Option Nat} (cpus : 0 < num_cpus)
    (new : Executor.new num_cpus max_workers keep_alive = some inner) (fut : T) :
    (∀ history (s : State T), Run (pool T inner) initial history s →
      (∀ p ∈ history, spawnFails inner p = false) → (∀ p ∈ history, panics p = false) →
      s.lock = none → Bound s ∧ Drained history s) ↔
    ∀ m, max_workers = some m → 0 < m.val := by
  rw [← new_max_workers_pos cpus new]
  constructor
  · intro served
    by_contra none_allowed
    have none_allowed : inner.max_workers.val = 0 := by omega
    have stuck := (served _ _ (workerless_run none_allowed fut) ?_ ?_ rfl).1 (by simp)
    · simp [initial, State.count] at stuck
    · simp [transitions, spawnFails]
    · simp [transitions, panics]
  · intro some_worker history s run spawns calm free
    have bound := (attended_run run some_worker spawns calm).bound (accounted_run run) free
    exact ⟨bound, drained_of_bound run calm bound⟩

theorem no_task_stranded_iff_solo :
    (∀ history (s : State Nat), Run (pool Nat solo) initial history s →
      (∀ p ∈ history, spawnFails solo p = false) → (∀ p ∈ history, panics p = false) →
      s.lock = none → Bound s ∧ Drained history s) ↔
    ∀ m, (some solo.max_workers) = some m → 0 < m.val :=
  no_task_stranded_iff (by decide : 0 < 8)
    (rfl : Executor.new 8 (some solo.max_workers) none = some solo) 0

/-- `Executor::new(Some(0), None)` accepts a task that nobody will ever run. -/
theorem no_workers_strand_task :
    ∃ inner : Inner 64, Executor.new 8 (some 0) none = some inner ∧
      ∃ history s, Run (pool Nat inner) initial history s ∧
        (∀ p ∈ history, spawnFails inner p = false) ∧ (∀ p ∈ history, panics p = false) ∧
        s.lock = none ∧ ¬ Bound s ∧ ¬ Drained history s :=
  ⟨⟨6 * 10 ^ 9, 0⟩, rfl,
    transitions (pool Nat ⟨6 * 10 ^ 9, 0⟩) initial [.submit 0 none, .execute 0 none true none],
    final (pool Nat ⟨6 * 10 ^ 9, 0⟩) initial [.submit 0 none, .execute 0 none true none],
    run_of_legal _ (by decide), by decide, by decide, by decide, by
      simp only [Bound]; decide, by simp only [Drained]; decide⟩

end ExecutorProgress
