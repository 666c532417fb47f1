import Azrath.GuardedRuns
import Azrath.ThreadLists
import Mathlib.Algebra.Group.Nat.Defs

/-!
# The thread pool of `executor.rs`

`Executor::execute` and `Inner::run`, cut where a thread takes or releases the
mutex around `Shared`. One action is one critical section, or one thing a
thread does without the lock: finish or panic in a task, time out in the
condvar. `keep_alive` bounds no wait from below, since the standard library
promises only "roughly" that long, so a timeout is possible at any moment.

`Condvar::notify_one` picks a thread that is asleep in `wait_timeout`, if there
is one. A thread that was picked, that timed out or that wakes spuriously
returns only after it has taken the mutex again.
-/

namespace ExecutorModel

open GuardedRuns

universe u
variable {bits : Nat} {T : Type u}

/-- `usize` on a platform of the given width. -/
abbrev Usize (bits : Nat) := Fin (2 ^ bits)

/-- `x += 1` on a `usize`; `none` is the overflow panic of a checked build. -/
def checkedAdd (bits x : Nat) : Option Nat :=
  if x + 1 < 2 ^ bits then some (x + 1) else none

/-- `x -= 1` on a `usize`; `none` is the overflow panic of a checked build. -/
def checkedSub (x : Nat) : Option Nat :=
  if 0 < x then some (x - 1) else none

/-- The constants of the pool, the duration in nanoseconds. -/
structure Inner (bits : Nat) where
  keep_alive : Nat
  max_workers : Usize bits

/-- `Executor::new`; `none` is the overflow of `num_cpus::get() * 15`. -/
def Executor.new (num_cpus : Nat) (max_workers : Option (Usize bits))
    (keep_alive : Option Nat) : Option (Inner bits) :=
  let keep_alive := keep_alive.getD (6 * 10 ^ 9)
  match max_workers with
  | some max_workers => some { keep_alive, max_workers }
  | none =>
    if h : num_cpus * 15 < 2 ^ bits then some { keep_alive, max_workers := ⟨num_cpus * 15, h⟩ }
    else none

structure Shared (T : Type u) where
  queue : List T
  workers : Nat
  idle : Nat
  notified : Nat

/-- What `execute` goes on to do with the queued future. -/
inductive Dispatch where
  | spawn
  | notify
  | nothing
  deriving DecidableEq

/-- Where a thread is inside `Condvar::wait_timeout`. -/
inductive Wait where
  | asleep
  | picked
  | timedOut
  deriving DecidableEq

/-- Where a worker thread is in `Inner::run`. -/
inductive Worker (T : Type u) where
  | starting
  | locked
  | polling (task : T)
  | relocking
  | waiting (wait : Wait)
  | woken (timed_out : Bool)
  | exited
  | panicked
  deriving DecidableEq

namespace Shared

/-- `Executor::execute` between `lock` and the end of the closure. -/
def execute (inner : Inner bits) (shared : Shared T) (fut : T) :
    Option (Shared T × Dispatch) :=
  let shared := { shared with queue := shared.queue ++ [fut] }
  if shared.idle = 0 ∧ shared.workers ≠ inner.max_workers.val then
    (checkedAdd bits shared.workers).map fun workers => ({ shared with workers }, .spawn)
  else if 0 < shared.idle then
    (checkedSub shared.idle).bind fun idle =>
      (checkedAdd bits shared.notified).map fun notified =>
        ({ shared with idle, notified }, .notify)
  else some (shared, .nothing)

/-- `Inner::run` from the head of the pop loop until it gives up the lock. -/
def turn (bits : Nat) (shared : Shared T) : Option (Shared T × Worker T) :=
  match shared.queue with
  | task :: queue => some ({ shared with queue }, .polling task)
  | [] => (checkedAdd bits shared.idle).map fun idle => ({ shared with idle }, .waiting .asleep)

/-- `Inner::run` from the return of `wait_timeout`: back to `'alive`, out of it,
or into the next wait. -/
def check (shared : Shared T) (timed_out : Bool) : Option (Shared T × Worker T) :=
  if shared.notified ≠ 0 then
    (checkedSub shared.notified).map fun notified => ({ shared with notified }, .locked)
  else if timed_out then
    (checkedSub shared.workers).bind fun workers =>
      (checkedSub shared.idle).map fun idle => ({ shared with workers, idle }, .exited)
  else some (shared, .waiting .asleep)

/-- What a panic in `execute` leaves behind: the future is queued, and a thread
that was to be notified is no longer counted as idle. -/
def executePanicked (shared : Shared T) (fut : T) : Shared T :=
  { shared with queue := shared.queue ++ [fut], idle := shared.idle - 1 }

/-- What a panic after the time-out leaves behind: `workers` goes first. -/
def checkPanicked (shared : Shared T) : Shared T :=
  { shared with workers := shared.workers - 1 }

variable {inner : Inner bits} {shared : Shared T}

theorem execute_spawn (none_idle : shared.idle = 0) (room : shared.workers < inner.max_workers)
    (fut : T) : shared.execute inner fut =
      some ({ shared with queue := shared.queue ++ [fut], workers := shared.workers + 1 },
        .spawn) := by
  have fits : shared.workers + 1 < 2 ^ bits := by
    have := inner.max_workers.isLt
    omega
  simp [execute, none_idle, Nat.ne_of_lt room, checkedAdd, fits]

theorem execute_full (none_idle : shared.idle = 0)
    (no_room : shared.workers = inner.max_workers) (fut : T) :
    shared.execute inner fut =
      some ({ shared with queue := shared.queue ++ [fut] }, .nothing) := by
  simp [execute, none_idle, no_room]

theorem execute_notify (some_idle : 0 < shared.idle) (fits : shared.notified + 1 < 2 ^ bits)
    (fut : T) : shared.execute inner fut =
      some ({ shared with
        queue := shared.queue ++ [fut]
        idle := shared.idle - 1
        notified := shared.notified + 1 }, .notify) := by
  simp [execute, Nat.ne_of_gt some_idle, checkedAdd, checkedSub, some_idle, fits]

end Shared

/-- Who holds the mutex: a call of `execute`, from a task of the worker
`caller` or from some other thread, or the loop of a worker. -/
inductive Holder (T : Type u) where
  | execute (fut : T) (caller : Option Nat)
  | worker (i : Nat)
  deriving DecidableEq

def Holder.caller : Holder T → Option Nat
  | .execute _ caller => caller
  | .worker _ => none

/-- Threads are numbered in the order in which they were spawned. -/
structure State (T : Type u) where
  shared : Shared T
  lock : Option (Holder T)
  poisoned : Bool
  threads : List (Worker T)

def initial : State T where
  shared := { queue := [], workers := 0, idle := 0, notified := 0 }
  lock := none
  poisoned := false
  threads := []

/-- `submit` takes the lock for `execute`; `spawned` is the outcome of
`spawn_worker` and `picked` the choice of `notify_one`, where they are called.
`lock` and `wake` take the lock for a worker. -/
inductive Action (T : Type u) where
  | submit (fut : T) (caller : Option Nat)
  | execute (fut : T) (caller : Option Nat) (spawned : Bool) (picked : Option Nat)
  | lock (i : Nat)
  | turn (i : Nat)
  | finish (i : Nat) (task : T)
  | panic (i : Nat) (task : T)
  | timeout (i : Nat)
  | wake (i : Nat) (wait : Wait)
  | check (i : Nat) (timed_out : Bool)

namespace Worker

@[simp] def live : Worker T → Bool
  | .exited | .panicked => false
  | _ => true

@[simp] def isStarting : Worker T → Bool
  | .starting => true
  | _ => false

@[simp] def isLocked : Worker T → Bool
  | .locked => true
  | _ => false

@[simp] def isPolling : Worker T → Bool
  | .polling _ => true
  | _ => false

/-- From the pop until the lock is taken again. -/
@[simp] def running : Worker T → Bool
  | .polling _ | .relocking => true
  | _ => false

@[simp] def inWait : Worker T → Bool
  | .waiting _ => true
  | _ => false

@[simp] def isAsleep : Worker T → Bool
  | .waiting .asleep => true
  | _ => false

/-- Picked or timed out, and the lock not taken again yet. -/
@[simp] def outstanding : Worker T → Bool
  | .waiting .picked | .waiting .timedOut => true
  | _ => false

@[simp] def isWoken : Worker T → Bool
  | .woken _ => true
  | _ => false

@[simp] def holding (w : Worker T) : Bool := w.isLocked || w.isWoken

@[simp] def task? : Worker T → Option T
  | .polling task => some task
  | _ => none

end Worker

namespace State

def count (s : State T) (p : Worker T → Bool) : Nat := s.threads.countP p

/-- A call of `execute` from inside a task is made by a worker that polls it. -/
def MayCall (s : State T) (caller : Option Nat) : Prop :=
  ∀ i ∈ caller, (s.threads[i]?).any Worker.isPolling = true

/-- `notify_one` picks nobody only when nobody is asleep. -/
def CanPick (s : State T) : Option Nat → Prop
  | some i => s.threads[i]? = some (.waiting .asleep)
  | none => s.count Worker.isAsleep = 0

instance (s : State T) (caller : Option Nat) : Decidable (s.MayCall caller) :=
  inferInstanceAs (Decidable (∀ i ∈ caller, _))

instance [DecidableEq T] (s : State T) : ∀ picked, Decidable (s.CanPick picked)
  | some i => inferInstanceAs (Decidable (s.threads[i]? = some (.waiting .asleep)))
  | none => inferInstanceAs (Decidable (s.count Worker.isAsleep = 0))

/-- `lock()` and the end of `wait_timeout` fail on a poisoned mutex, and `run`
then returns the error. -/
def acquire (s : State T) (i : Nat) (next : Worker T) : State T :=
  if s.poisoned then { s with threads := s.threads.set i .exited }
  else { s with lock := some (.worker i), threads := s.threads.set i next }

/-- A worker leaves a critical section, keeps the lock into the next one, or
unwinds out of it with the lock poisoned and `panicked` behind the lock. -/
def resume (s : State T) (i : Nat) (panicked : Shared T) :
    Option (Shared T × Worker T) → State T
  | some (shared, next) =>
    { s with
      shared
      lock := if next.holding then s.lock else none
      threads := s.threads.set i next }
  | none =>
    { s with
      shared := panicked
      poisoned := true
      lock := none
      threads := s.threads.set i .panicked }

end State

def Dispatch.threads (threads : List (Worker T)) (spawned : Bool) (picked : Option Nat) :
    Dispatch → List (Worker T)
  | .spawn => if spawned then threads ++ [.starting] else threads
  | .notify => picked.elim threads fun i => threads.set i (.waiting .picked)
  | .nothing => threads

def enabled (s : State T) : Action T → Prop
  | .submit _ caller => s.lock = none ∧ s.MayCall caller
  | .execute fut caller _ picked => s.lock = some (.execute fut caller) ∧ s.CanPick picked
  | .lock i =>
    s.lock = none ∧ (s.threads[i]? = some .starting ∨ s.threads[i]? = some .relocking)
  | .turn i => s.threads[i]? = some .locked
  | .finish i task | .panic i task =>
    s.threads[i]? = some (.polling task) ∧ s.lock.bind Holder.caller ≠ some i
  | .timeout i => s.threads[i]? = some (.waiting .asleep)
  | .wake i wait => s.lock = none ∧ s.threads[i]? = some (.waiting wait)
  | .check i timed_out => s.threads[i]? = some (.woken timed_out)

instance [DecidableEq T] (s : State T) : ∀ a, Decidable (enabled s a)
  | .submit _ caller => inferInstanceAs (Decidable (s.lock = none ∧ s.MayCall caller))
  | .execute fut caller _ picked =>
    inferInstanceAs (Decidable (s.lock = some (.execute fut caller) ∧ s.CanPick picked))
  | .lock i => inferInstanceAs (Decidable (s.lock = none ∧
      (s.threads[i]? = some .starting ∨ s.threads[i]? = some .relocking)))
  | .turn i => inferInstanceAs (Decidable (s.threads[i]? = some .locked))
  | .finish i task | .panic i task => inferInstanceAs (Decidable
      (s.threads[i]? = some (.polling task) ∧ s.lock.bind Holder.caller ≠ some i))
  | .timeout i => inferInstanceAs (Decidable (s.threads[i]? = some (.waiting .asleep)))
  | .wake i wait =>
    inferInstanceAs (Decidable (s.lock = none ∧ s.threads[i]? = some (.waiting wait)))
  | .check i timed_out => inferInstanceAs (Decidable (s.threads[i]? = some (.woken timed_out)))

def effect (inner : Inner bits) (s : State T) : Action T → State T
  | .submit fut caller =>
    if s.poisoned then s else { s with lock := some (.execute fut caller) }
  | .execute fut caller spawned picked =>
    match s.shared.execute inner fut with
    | some (shared, dispatch) =>
      { s with shared, lock := none, threads := dispatch.threads s.threads spawned picked }
    | none =>
      { s with
        shared := s.shared.executePanicked fut
        poisoned := true
        lock := none
        threads := caller.elim s.threads fun i => s.threads.set i .panicked }
  | .lock i => s.acquire i .locked
  | .turn i => s.resume i s.shared (s.shared.turn bits)
  | .finish i _ => { s with threads := s.threads.set i .relocking }
  | .panic i _ => { s with threads := s.threads.set i .panicked }
  | .timeout i => { s with threads := s.threads.set i (.waiting .timedOut) }
  | .wake i wait => s.acquire i (.woken (wait = .timedOut))
  | .check i timed_out => s.resume i s.shared.checkPanicked (s.shared.check timed_out)

def pool (T : Type u) (inner : Inner bits) : System (State T) (Action T) where
  enabled := enabled
  effect := effect inner

instance [DecidableEq T] (inner : Inner bits) (s : State T) (a : Action T) :
    Decidable ((pool T inner).enabled s a) := inferInstanceAs (Decidable (enabled s a))

/-- The transition calls `spawn_worker` and gets an error from it. -/
def spawnFails (inner : Inner bits) (p : State T × Action T) : Bool :=
  match p.2 with
  | .execute fut _ false _ => (p.1.shared.execute inner fut).any fun r => r.2 = .spawn
  | _ => false

def panics (p : State T × Action T) : Bool :=
  match p.2 with
  | .panic _ _ => true
  | _ => false

/-- Every thread that is neither exited nor panicked is in exactly one place. -/
theorem live_eq (s : State T) : s.count Worker.live =
    s.count Worker.isStarting + s.count Worker.isLocked + s.count Worker.running +
      s.count Worker.inWait + s.count Worker.isWoken := by
  unfold State.count
  induction s.threads with
  | nil => rfl
  | cons w rest ih =>
    cases w <;> simp [List.countP_cons] <;> omega

theorem holding_eq (s : State T) :
    s.count Worker.holding = s.count Worker.isLocked + s.count Worker.isWoken := by
  unfold State.count
  induction s.threads with
  | nil => rfl
  | cons w rest ih =>
    cases w <;> simp [List.countP_cons] <;> omega

theorem inWait_eq (s : State T) :
    s.count Worker.inWait = s.count Worker.isAsleep + s.count Worker.outstanding := by
  unfold State.count
  induction s.threads with
  | nil => rfl
  | cons w rest ih =>
    rcases w with _ | _ | _ | _ | ⟨_ | _ | _⟩ | _ | _ | _ <;> simp [List.countP_cons] <;> omega

end ExecutorModel
