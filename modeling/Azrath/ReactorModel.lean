import Azrath.GuardedRuns
import Azrath.ThreadLists
import Mathlib.Algebra.Group.Nat.Defs
import Mathlib.Logic.Function.Basic

/-!
# The reactor of `net.rs`

`Reactor::register`, `TcpStream::poll_io`, the drop of a `TcpStream` and the
event loop, cut at every lock section and at every atomic access. Streams are
numbered by their calls of `register`, and an `Arc<Source>` is the number of
the stream it was made for. The interest lock is held while the reactor goes
from the read to the write direction of one event.

Every section under a lock is free of panics as long as the wakers' own code
is, so no mutex is poisoned here.
-/

namespace ReactorModel

open GuardedRuns

universe u v
variable {bits : Nat} {W : Type u} {K : Type v} {R : Type u}

/-- `std::task::Waker`: `will_wake` may be false for wakers of one task, but is
never true for wakers of two. -/
class Waker (W : Type u) (K : outParam (Type v)) where
  task : W → K
  will_wake : W → W → Bool
  clone : W → W
  will_wake_task : ∀ w w', will_wake w w' = true → task w = task w'
  clone_task : ∀ w, task (clone w) = task w

/-- Wakers that are just the number of their task. -/
instance : Waker Nat Nat where
  task w := w
  will_wake w w' := w == w'
  clone w := w
  will_wake_task := by simp
  clone_task _ := rfl

abbrev Token (bits : Nat) := Fin (2 ^ bits)

def Token.zero : Token bits := ⟨0, Nat.two_pow_pos bits⟩

/-- `AtomicUsize::fetch_add` wraps around. -/
def Token.next (token : Token bits) : Token bits :=
  ⟨(token.val + 1) % 2 ^ bits, Nat.mod_lt _ (Nat.two_pow_pos bits)⟩

theorem Token.next_val {token : Token bits} (fits : token.val + 1 < 2 ^ bits) :
    token.next.val = token.val + 1 := Nat.mod_eq_of_lt fits

/-- The indices `direction::READ` and `direction::WRITE`. -/
inductive Direction where
  | read
  | write
  deriving DecidableEq

/-- `edge` says when the readiness came about, in the time of `State.clock`. -/
structure Event (bits : Nat) where
  token : Token bits
  is_readable : Bool
  is_writable : Bool
  edge : Direction → Nat

def Event.ready (event : Event bits) : Direction → Bool
  | .read => event.is_readable
  | .write => event.is_writable

structure Source (bits : Nat) (W : Type u) where
  interest : Direction → Option W
  triggered : Direction → Bool
  token : Token bits

namespace Source

def new (token : Token bits) : Source bits W where
  interest _ := none
  triggered _ := false
  token := token

/-- The lock section of `poll_ready`. -/
def register [Waker W K] (source : Source bits W) (d : Direction) (cx : W) : Source bits W :=
  match source.interest d with
  | some existing =>
    if Waker.will_wake existing cx then source
    else { source with interest := Function.update source.interest d (some (Waker.clone cx)) }
  | none => { source with interest := Function.update source.interest d (some (Waker.clone cx)) }

def clear_trigger (source : Source bits W) (d : Direction) : Source bits W :=
  { source with triggered := Function.update source.triggered d false }

/-- `interest[d].take()`, if the event is ready for the direction. -/
def take (source : Source bits W) (event : Event bits) (d : Direction) : Source bits W :=
  if event.ready d then { source with interest := Function.update source.interest d none }
  else source

/-- The waker that `take` hands over. -/
def taken (source : Source bits W) (event : Event bits) (d : Direction) : List W :=
  if event.ready d then (source.interest d).toList else []

/-- `triggered[d].store(true)`, if the event is ready for the direction. -/
def trigger (source : Source bits W) (event : Event bits) (d : Direction) : Source bits W :=
  if event.ready d then { source with triggered := Function.update source.triggered d true }
  else source

@[simp] theorem register_token [Waker W K] (source : Source bits W) (d : Direction) (cx : W) :
    (source.register d cx).token = source.token := by
  unfold register
  cases source.interest d with
  | none => rfl
  | some existing => by_cases same : Waker.will_wake existing cx = true <;> simp [same]

@[simp] theorem register_triggered [Waker W K] (source : Source bits W) (d : Direction) (cx : W) :
    (source.register d cx).triggered = source.triggered := by
  unfold register
  cases source.interest d with
  | none => rfl
  | some existing => by_cases same : Waker.will_wake existing cx = true <;> simp [same]

@[simp] theorem take_token (source : Source bits W) (event : Event bits) (d : Direction) :
    (source.take event d).token = source.token := by
  cases ready : event.ready d <;> simp [take, ready]

@[simp] theorem take_triggered (source : Source bits W) (event : Event bits) (d : Direction) :
    (source.take event d).triggered = source.triggered := by
  cases ready : event.ready d <;> simp [take, ready]

@[simp] theorem trigger_token (source : Source bits W) (event : Event bits) (d : Direction) :
    (source.trigger event d).token = source.token := by
  cases ready : event.ready d <;> simp [trigger, ready]

@[simp] theorem trigger_interest (source : Source bits W) (event : Event bits) (d : Direction) :
    (source.trigger event d).interest = source.interest := by
  cases ready : event.ready d <;> simp [trigger, ready]

theorem take_of_ready {source : Source bits W} {event : Event bits} {d : Direction}
    (ready : event.ready d = true) : (source.take event d).interest d = none := by
  simp [take, ready]

theorem trigger_of_ready {source : Source bits W} {event : Event bits} {d : Direction}
    (ready : event.ready d = true) : (source.trigger event d).triggered d = true := by
  simp [trigger, ready]

/-- The other direction is left alone, and so is one that is not ready. -/
theorem take_other {source : Source bits W} {event : Event bits} {d d' : Direction}
    (other : ¬ (d' = d ∧ event.ready d = true)) :
    (source.take event d').interest d = source.interest d := by
  cases ready : event.ready d' with
  | false => simp [take, ready]
  | true =>
    have apart : d ≠ d' := by
      rintro rfl
      exact other ⟨rfl, ready⟩
    simp [take, ready, apart]

theorem trigger_other {source : Source bits W} {event : Event bits} {d d' : Direction}
    (other : ¬ (d' = d ∧ event.ready d = true)) :
    (source.trigger event d').triggered d = source.triggered d := by
  cases ready : event.ready d' with
  | false => simp [trigger, ready]
  | true =>
    have apart : d ≠ d' := by
      rintro rfl
      exact other ⟨rfl, ready⟩
    simp [trigger, ready, apart]

end Source

/-- How far the registration of a stream has come, and its drop. -/
inductive Stage (bits : Nat) where
  | started
  | nonblocking
  | allocated (token : Token bits)
  | registered (token : Token bits)
  | live (token : Token bits)
  | failed
  | removed (token : Token bits)
  | dropped (token : Token bits)
  deriving DecidableEq

namespace Stage

@[simp] def token? : Stage bits → Option (Token bits)
  | .allocated token | .registered token | .live token | .removed token | .dropped token =>
    some token
  | _ => none

/-- Before its `fetch_add`. -/
@[simp] def early : Stage bits → Bool
  | .started | .nonblocking => true
  | _ => false

/-- The token under which the source was put into the map. -/
@[simp] def inserted? : Stage bits → Option (Token bits)
  | .live token | .removed token | .dropped token => some token
  | _ => none

@[simp] def live? : Stage bits → Option (Token bits)
  | .live token => some token
  | _ => none

@[simp] def gone? : Stage bits → Option (Token bits)
  | .removed token | .dropped token => some token
  | _ => none

/-- The token under which the selector has known the socket. -/
@[simp] def known? : Stage bits → Option (Token bits)
  | .registered token | .live token | .removed token | .dropped token => some token
  | _ => none

end Stage

/-- Where a call of `poll_io` is; a call that is over keeps its result. -/
inductive Call (W R : Type u) where
  | idle
  | checking (cx : W)
  | registering (cx : W)
  | rechecking (cx : W)
  | attempting (cx : W)
  | clearing (cx : W)
  | pending (cx : W)
  | ready (val : R)
  deriving DecidableEq

@[simp] def Call.finished : Call W R → Bool
  | .idle | .pending _ | .ready _ => true
  | _ => false

/-- `match f()`: would-have-blocked goes on to clear the flag. -/
def Call.attempted (cx : W) : Option R → Call W R
  | some val => .ready val
  | none => .clearing cx

/-- Where the reactor thread is: in the selector, at the head of the loop over
the rest of a batch, or at one direction of an event, with the waker still to be
taken or the flag still to be stored. -/
inductive Pc (bits : Nat) where
  | polling
  | batch (rest : List (Event bits))
  | found (c : Nat) (event : Event bits) (rest : List (Event bits)) (d : Direction)
    (taken : Bool)

/-- `lock` is the stream whose drop holds the lock of `sources`. `clock` counts
the attempts that would have blocked, `blocked` keeps the time of the last one. -/
structure State (bits : Nat) (W R : Type u) where
  token : Token bits
  sources : Token bits → Option Nat
  lock : Option Nat
  streams : List (Stage bits)
  heap : Nat → Source bits W
  calls : Nat → Direction → Call W R
  reactor : Pc bits
  wakers : List W
  clock : Nat
  blocked : Nat → Direction → Nat

def initial : State bits W R where
  token := Token.zero
  sources _ := none
  lock := none
  streams := []
  heap _ := Source.new Token.zero
  calls _ _ := .idle
  reactor := .polling
  wakers := []
  clock := 0
  blocked _ _ := 0

/-- `attempt` runs the operation; `none` is `WouldBlock`. An action repeats what
the thread that takes it holds in its local variables. -/
inductive Action (bits : Nat) (W R : Type u) where
  | register
  | set_nonblocking (c : Nat) (ok : Bool)
  | fetch_add (c : Nat)
  | registry_register (c : Nat) (token : Token bits) (ok : Bool)
  | insert (c : Nat) (token : Token bits)
  | remove (c : Nat) (token : Token bits)
  | deregister (c : Nat) (token : Token bits)
  | poll (events : List (Event bits))
  | pollError
  | lookup (event : Event bits) (rest : List (Event bits))
  | take (c : Nat) (event : Event bits) (rest : List (Event bits)) (d : Direction)
  | trigger (c : Nat) (event : Event bits) (rest : List (Event bits)) (d : Direction)
  | wake (waker : W) (rest : List W)
  | done
  | start (c : Nat) (d : Direction) (cx : W)
  | check (c : Nat) (d : Direction) (cx : W)
  | store (c : Nat) (d : Direction) (cx : W)
  | recheck (c : Nat) (d : Direction) (cx : W)
  | attempt (c : Nat) (d : Direction) (cx : W) (val : Option R)
  | clear_trigger (c : Nat) (d : Direction) (cx : W)

namespace State

/-- The reactor holds the interest lock of this source: from the first take to
the last store. -/
def interestLocked (s : State bits W R) (c : Nat) : Prop :=
  match s.reactor with
  | .found c' _ _ d taken => c' = c ∧ (d = .write ∨ taken = true)
  | _ => False

/-- What a stream shows of its stage. -/
def stage (s : State bits W R) (seen? : Stage bits → Option (Token bits)) (c : Nat) :
    Option (Token bits) :=
  (s.streams[c]?).bind seen?

/-- What the selector may report: a socket it has known, an edge of the past. -/
def CanReport (s : State bits W R) (event : Event bits) : Prop :=
  (∃ c, s.stage Stage.known? c = some event.token) ∧ ∀ d, event.edge d ≤ s.clock

def setStage (s : State bits W R) (c : Nat) (stage : Stage bits) : State bits W R :=
  { s with streams := s.streams.set c stage }

def setSource (s : State bits W R) (c : Nat) (source : Source bits W) : State bits W R :=
  { s with heap := Function.update s.heap c source }

def setCall (s : State bits W R) (c : Nat) (d : Direction) (call : Call W R) :
    State bits W R :=
  { s with calls := Function.update s.calls c (Function.update (s.calls c) d call) }

end State

def enabled (s : State bits W R) : Action bits W R → Prop
  | .register => True
  | .set_nonblocking c _ => s.streams[c]? = some .started
  | .fetch_add c => s.streams[c]? = some .nonblocking
  | .registry_register c token _ => s.streams[c]? = some (.allocated token)
  | .insert c token => s.lock = none ∧ s.streams[c]? = some (.registered token)
  | .remove c token => s.lock = none ∧ s.streams[c]? = some (.live token) ∧
      ∀ d, (s.calls c d).finished = true
  | .deregister c token => s.streams[c]? = some (.removed token)
  | .poll events => s.reactor = .polling ∧ ∀ event ∈ events, s.CanReport event
  | .pollError => s.reactor = .polling
  | .lookup event rest => s.lock = none ∧ s.reactor = .batch (event :: rest)
  | .take c event rest d => s.reactor = .found c event rest d false
  | .trigger c event rest d => s.reactor = .found c event rest d true
  | .wake waker rest => s.reactor = .batch [] ∧ s.wakers = waker :: rest
  | .done => s.reactor = .batch [] ∧ s.wakers = []
  | .start c d _ => (∃ token, s.streams[c]? = some (.live token)) ∧ (s.calls c d).finished = true
  | .check c d cx => s.calls c d = .checking cx
  | .store c d cx => s.calls c d = .registering cx ∧ ¬ s.interestLocked c
  | .recheck c d cx => s.calls c d = .rechecking cx
  | .attempt c d cx _ => s.calls c d = .attempting cx
  | .clear_trigger c d cx => s.calls c d = .clearing cx

/-- The loop goes on with the write direction, then with the next event. -/
def Pc.after (c : Nat) (event : Event bits) (rest : List (Event bits)) : Direction → Pc bits
  | .read => .found c event rest .write false
  | .write => .batch rest

def effect [Waker W K] (s : State bits W R) : Action bits W R → State bits W R
  | .register => { s with streams := s.streams ++ [.started] }
  | .set_nonblocking c ok => s.setStage c (if ok then .nonblocking else .failed)
  | .fetch_add c => { s.setStage c (.allocated s.token) with token := s.token.next }
  | .registry_register c token ok => s.setStage c (if ok then .registered token else .failed)
  | .insert c token =>
    { (s.setStage c (.live token)).setSource c (Source.new token) with
      sources := Function.update s.sources token (some c) }
  | .remove c token =>
    { s.setStage c (.removed token) with
      sources := Function.update s.sources (s.heap c).token none
      lock := some c }
  | .deregister c token => { s.setStage c (.dropped token) with lock := none }
  | .poll events => { s with reactor := .batch events }
  | .pollError => s
  | .lookup event rest =>
    { s with
      reactor :=
        match s.sources event.token with
        | some c => .found c event rest .read false
        | none => .batch rest }
  | .take c event rest d =>
    { s.setSource c ((s.heap c).take event d) with
      wakers := s.wakers ++ (s.heap c).taken event d
      reactor := .found c event rest d true }
  | .trigger c event rest d =>
    { s.setSource c ((s.heap c).trigger event d) with reactor := Pc.after c event rest d }
  | .wake _ rest => { s with wakers := rest }
  | .done => { s with reactor := .polling }
  | .start c d cx => s.setCall c d (.checking cx)
  | .check c d cx =>
    s.setCall c d (if (s.heap c).triggered d then .attempting cx else .registering cx)
  | .store c d cx =>
    (s.setSource c ((s.heap c).register d cx)).setCall c d (.rechecking cx)
  | .recheck c d cx =>
    s.setCall c d (if (s.heap c).triggered d then .attempting cx else .pending cx)
  | .attempt c d cx val =>
    { s.setCall c d (Call.attempted cx val) with
      clock := if val.isNone then s.clock + 1 else s.clock
      blocked :=
        if val.isNone then
          Function.update s.blocked c (Function.update (s.blocked c) d (s.clock + 1))
        else s.blocked }
  | .clear_trigger c d cx =>
    (s.setSource c ((s.heap c).clear_trigger d)).setCall c d (.pending cx)

/-- The action is a step of this stream's `register`. -/
def Action.registers (c : Nat) : Action bits W R → Prop
  | .set_nonblocking c' _ | .fetch_add c' | .registry_register c' _ _ | .insert c' _ => c' = c
  | _ => False

/-- The action is a step of the reactor with this event. -/
def Action.handles (event : Event bits) : Action bits W R → Prop
  | .lookup event' _ | .take _ event' _ _ | .trigger _ event' _ _ => event' = event
  | _ => False

/-- One source is written; whatever of it is kept is kept for every source. -/
theorem update_kept {β : Type*} (view : Source bits W → β) {heap : Nat → Source bits W}
    {c c' : Nat} {source : Source bits W} (kept : c' = c → view source = view (heap c)) :
    view (Function.update heap c' source c) = view (heap c) := by
  by_cases same : c' = c
  · subst same
    rw [Function.update_self, kept rfl]
  · rw [Function.update_of_ne (Ne.symm same)]

def reactor [Waker W K] (bits : Nat) (R : Type u) :
    System (State bits W R) (Action bits W R) where
  enabled := enabled
  effect := effect

end ReactorModel
