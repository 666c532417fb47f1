import Azrath.ExecutorBlocking
import Azrath.ReactorLiveness

/-!
# The pool and the event loop

The threads of the pool, their parkers and the event loop as one system. A task
calls `poll_io` inside a poll, with a waker of its thread's parker, and the event
loop wakes that parker. Either part, seen alone, runs as it does by itself.

Nothing in the crate puts the two together: the server hands its connections to
`tokio::spawn`, and only tests make an `Executor`. This is what a caller gets who
runs tasks over `TcpStream`s on the pool, the two meeting through `Waker` alone.
-/

namespace RuntimeModel

open GuardedRuns FairExecutions StutteringExecutions Simulations
open ExecutorBlocking (OfThread Executing Unparks FairThreads)
open ExecutorParkers (parkedPool parkerOf poolOf)
open ReactorLiveness (Loops Deregisters FairReactor)
open ReactorModel (Waker reactor)

universe u
variable {bits : Nat} {T E W R : Type u} {inner : ExecutorModel.Inner bits}
variable [Waker W (Option Nat)]

structure State (bits : Nat) (T E W R : Type u) where
  threads : ExecutorParkers.State T E
  net : ReactorModel.State bits W R

def initial : State bits T E W R where
  threads := ExecutorParkers.initial
  net := ReactorModel.initial

/-- A step of the pool or of a parker, or one in `net.rs`. -/
inductive Action (bits : Nat) (T W R : Type u) where
  | thread (a : ExecutorParkers.Action T)
  | net (a : ReactorModel.Action bits W R)

/-- The step as it is for the threads. A waker's task is the thread whose parker
made it; a waker without one is none of the pool's. -/
def Action.thread? : Action bits T W R → Option (ExecutorParkers.Action T)
  | .thread a => some a
  | .net (.wake waker _) => (Waker.task waker).map fun i => .parker i .wake
  | .net _ => none

def Action.net? : Action bits T W R → Option (ReactorModel.Action bits W R)
  | .thread _ => none
  | .net a => some a

/-- The waker in the context of a call of `poll_io` that is under way. -/
def context? : ReactorModel.Call W R → Option W
  | .checking cx | .registering cx | .rechecking cx | .attempting cx | .clearing cx => some cx
  | .idle | .pending _ | .ready _ => none

def InPollIo (s : ReactorModel.State bits W R) (i : Nat) : Prop :=
  ∃ c d, (context? (s.calls c d)).bind Waker.task = some i

/-- Thread `i` is in code of its future, and not inside `execute`. -/
def Polls (s : ExecutorParkers.State T E) (i : Nat) : Prop :=
  (s.parkers i).pc = .polling ∧ s.pool.lock.bind ExecutorModel.Holder.caller ≠ some i

/-- A task calls `poll_io` from a poll, one call at a time, and does nothing else
before the call is over. -/
def allowed (s : State bits T E W R) : Action bits T W R → Prop
  | .net (.start _ _ cx) => ∀ i ∈ Waker.task cx, Polls s.threads i ∧ ¬ InPollIo s.net i
  | .net (.check _ _ cx) | .net (.store _ _ cx) | .net (.recheck _ _ cx)
  | .net (.attempt _ _ cx _) | .net (.clear_trigger _ _ cx) =>
    ∀ i ∈ Waker.task cx, Polls s.threads i
  | .thread (.parker i (.polled _)) | .thread (.pool (.panic i _))
  | .thread (.pool (.submit _ (some i))) => ¬ InPollIo s.net i
  | _ => True

def enabled (s : State bits T E W R) (a : Action bits T W R) : Prop :=
  (∀ b ∈ a.thread?, ExecutorParkers.enabled s.threads b) ∧
    (∀ b ∈ a.net?, ReactorModel.enabled s.net b) ∧ allowed s a

def effect (inner : ExecutorModel.Inner bits) (s : State bits T E W R) (a : Action bits T W R) :
    State bits T E W R where
  threads := (stuttering (parkedPool T E inner)).effect s.threads a.thread?
  net := (stuttering (reactor bits R)).effect s.net a.net?

def runtime (T E W R : Type u) [Waker W (Option Nat)] (inner : ExecutorModel.Inner bits) :
    System (State bits T E W R) (Action bits T W R) where
  enabled := enabled
  effect := effect inner

variable {s : State bits T E W R} {a : Action bits T W R} {i : Nat}

/-! ## Both parts seen alone -/

def toThreads (T E W R : Type u) [Waker W (Option Nat)] (inner : ExecutorModel.Inner bits) :
    Simulation (runtime T E W R inner) (stuttering (parkedPool T E inner)) where
  Inv _ := True
  view := State.threads
  label _ a := a.thread?
  keeps _ _ := trivial
  able _ h := h.1
  step _ _ := rfl

def toNet (T E W R : Type u) [Waker W (Option Nat)] (inner : ExecutorModel.Inner bits) :
    Simulation (runtime T E W R inner) (stuttering (reactor (W := W) bits R)) where
  Inv _ := True
  view := State.net
  label _ a := a.net?
  keeps _ _ := trivial
  able _ h := h.2.1
  step _ _ := rfl

section Executions
variable (σ : Execution (stuttering (runtime T E W R inner)) initial)

def threadsOf : Execution (stuttering (parkedPool T E inner)) ExecutorParkers.initial :=
  (toThreads T E W R inner).stuttered.execution σ trivial

def netOf : Execution (stuttering (reactor (W := W) bits R)) ReactorModel.initial :=
  (toNet T E W R inner).stuttered.execution σ trivial

end Executions

/-! ## Fairness -/

/-- A step among those of the threads. -/
def Of (mine : ExecutorParkers.Action T → Prop) : Action bits T W R → Prop
  | .thread b => mine b
  | .net _ => False

def OfNet (mine : ReactorModel.Action bits W R → Prop) : Action bits T W R → Prop
  | .thread _ => False
  | .net b => mine b

/-- The swap of the flag that call `j` of `wake` owes thread `i`. -/
def Swaps (i j : Nat) : ExecutorParkers.Action T → Prop
  | .pool _ => False
  | .parker k c => k = i ∧ c = .swapFalse j

structure FairRuntime (σ : Execution (stuttering (runtime T E W R inner)) initial) : Prop where
  thread : ∀ i, StronglyFair σ (By (Of (OfThread i)))
  execute : WeaklyFair σ (By (Of Executing))
  swaps : ∀ i j, WeaklyFair σ (By (Of (Swaps i j)))
  unparks : ∀ i j, WeaklyFair σ (By (Of (Unparks i j)))
  reactor : StronglyFair σ (By (OfNet Loops))
  drops : WeaklyFair σ (By (OfNet Deregisters))

section Fair
variable {σ : Execution (stuttering (runtime T E W R inner)) initial}
variable {mine : ExecutorParkers.Action T → Prop} {ours : ReactorModel.Action bits W R → Prop}

theorem shows_thread (own : Of mine a) : ∃ b ∈ a.thread?, mine b := by
  cases a with
  | thread b => exact ⟨b, rfl, own⟩
  | net b => cases own

theorem able_thread (free : ∀ b, mine b → allowed s (.thread b)) {b : ExecutorParkers.Action T}
    (own : mine b) (h : ExecutorParkers.enabled s.threads b) :
    ∃ a, Of mine a ∧ (runtime T E W R inner).enabled s a :=
  ⟨.thread b, own, by rintro _ ⟨⟩; exact h, by rintro _ ⟨⟩, free b own⟩

omit [Waker W (Option Nat)] in
theorem shows_net (own : OfNet ours a) : ∃ b ∈ a.net?, ours b := by
  cases a with
  | thread b => cases own
  | net b => exact ⟨b, rfl, own⟩

/-- What the event loop does to a thread it can do at any time. -/
theorem able_shown {b : ReactorModel.Action bits W R} {c : ExecutorParkers.Action T}
    (shows : (Action.net b : Action bits T W R).thread? = some c) :
    ExecutorParkers.enabled s.threads c := by
  cases b with
  | wake waker rest =>
    obtain ⟨i, _, rfl⟩ := Option.map_eq_some_iff.mp shows
    exact ⟨by rintro _ ⟨⟩, by rintro _ ⟨⟩; trivial, trivial⟩
  | _ => cases shows

theorem able_net (free : ∀ b, ours b → allowed s (.net b)) {b : ReactorModel.Action bits W R}
    (own : ours b) (h : ReactorModel.enabled s.net b) :
    ∃ a, OfNet ours a ∧ (runtime T E W R inner).enabled s a :=
  ⟨.net b, own, fun _ shows => able_shown shows, by rintro _ ⟨⟩; exact h, free b own⟩

/-- Fairness to steps that `allowed` does not hold up. -/
theorem weaklyFair_threads (fair : WeaklyFair σ (By (Of mine)))
    (free : ∀ (s : State bits T E W R) b, mine b → allowed s (.thread b)) :
    WeaklyFair (threadsOf σ) (By mine) :=
  (toThreads T E W R inner).weaklyFair trivial fair (fun _ _ => shows_thread)
    fun t _ => able_thread (free t)

theorem FairRuntime.threads (fair : FairRuntime σ) : FairThreads (threadsOf σ) := by
  refine ⟨fun i => ?_, weaklyFair_threads fair.execute ?_,
    fun i j => weaklyFair_threads (fair.unparks i j) ?_⟩
  · refine (toThreads T E W R inner).stronglyFair trivial (fair.thread i)
      (fun _ _ => shows_thread) fun t _ => able_thread ?_
    intro b own
    cases b with
    | pool b =>
      cases b with
      | submit fut caller => exact own.1.elim
      | panic j task => exact (own.2 task (by rw [show j = i from own.1])).elim
      | _ => trivial
    | parker j c =>
      cases c with
      | polled r => exact own.2.elim
      | _ => trivial
  · intro t b own
    cases b with
    | pool b =>
      cases b with
      | execute fut caller spawned picked => trivial
      | _ => cases own
    | parker j c => cases own
  · intro t b own
    cases b with
    | pool b => cases own
    | parker k c =>
      cases c with
      | unpark l => trivial
      | _ => cases own.2

theorem FairRuntime.net (fair : FairRuntime σ) : FairReactor (netOf σ) := by
  refine ⟨?_, ?_⟩
  · refine (toNet T E W R inner).stronglyFair trivial fair.reactor
      (fun _ _ => shows_net) fun t _ => able_net ?_
    intro b own
    cases b with
    | lookup event rest | take c event rest d | trigger c event rest d | wake waker rest
    | done => trivial
    | _ => cases own
  · refine (toNet T E W R inner).weaklyFair trivial fair.drops
      (fun _ _ => shows_net) fun t _ => able_net ?_
    intro b own
    cases b with
    | deregister c k => trivial
    | _ => cases own

/-- A call of `wake` that has begun comes to its swap. -/
theorem FairRuntime.swap (fair : FairRuntime σ) (i j : Nat) :
    WeaklyFair (parkerOf (threadsOf σ) i) (By fun c => c = .swapFalse j) := by
  have swaps : WeaklyFair (threadsOf σ) (By (Swaps i j)) := by
    refine weaklyFair_threads (fair.swaps i j) fun t b own => ?_
    cases b with
    | pool b => cases own
    | parker k c =>
      obtain ⟨rfl, rfl⟩ := own
      trivial
  refine (ExecutorParkers.toParker T E inner i).weaklyFair trivial swaps ?_ ?_
  · intro t a own
    cases a with
    | pool b => cases own
    | parker k c =>
      obtain ⟨rfl, rfl⟩ := own
      have step : ExecutorParkers.stepOf k t.pool (.parker k (.swapFalse j)) =
          some (.swapFalse j) := (ExecutorParkers.stepOf_of_step rfl).trans (if_pos rfl)
      exact ⟨_, step, rfl⟩
  · rintro t _ rfl h
    exact ⟨.parker i (.swapFalse j), ⟨rfl, rfl⟩, by rintro _ ⟨⟩, by rintro _ ⟨⟩; exact h, trivial⟩

end Fair

end RuntimeModel
