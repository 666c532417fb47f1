import Azrath.ErrorTypes
import Azrath.ReactorModel
import Mathlib.Data.List.Forall2

/-!
# The accept loop of `server.rs`

`Server::serve` takes one connection after the other. What the system answers in
a turn of the loop is given from outside, and so is what the other threads do
with the reactor before the next registration. The builder `http` is configured
when the loop begins.
-/

namespace ServerAccepting

open ErrorTypes GuardedRuns ReactorModel

universe u v
variable {bits : Nat} {W R : Type u} {K : Type v} [Waker W K]
variable {T Addr S H E L : Type u}

class Clone (α : Type u) where
  clone : α → α

/-- `TcpStream` of `net.rs`; its `Arc<Source>` is the number of the stream. -/
structure TcpStream (T : Type u) where
  sys : T
  source : Nat

/-- What one turn of the loop meets. -/
structure Turn (bits : Nat) (W R T Addr E : Type u) where
  accept : Except (IoError E) (T × Addr)
  others : State bits W R → State bits W R
  set_nonblocking : Except (IoError E) Unit
  registry_register : Except (IoError E) Unit
  /-- The mutex of `sources` is poisoned. -/
  poisoned : Bool

/-- `Reactor::register`, one step of the reactor's model after the other. -/
def register (s : State bits W R) (sys : T) (turn : Turn bits W R T Addr E) :
    State bits W R × Except (ReactorError E) (TcpStream T) :=
  let c := s.streams.length
  let s := effect s .register
  match turn.set_nonblocking with
  | .error err => (effect s (.set_nonblocking c false), .error (.registration err))
  | .ok () =>
    let s := effect s (.set_nonblocking c true)
    let token := s.token
    let s := effect s (.fetch_add c)
    match turn.registry_register with
    | .error err => (effect s (.registry_register c token false), .error (.registration err))
    | .ok () =>
      let s := effect s (.registry_register c token true)
      if turn.poisoned then (s, .error .lockPoisoned)
      else (effect s (.insert c token), .ok { sys, source := c })

structure ConnectionInfo (Addr : Type u) where
  peer_addr : Option Addr

/-- What is handed to `tokio::spawn`. -/
structure Task (T Addr S H : Type u) where
  builder : H
  conn : TcpStream T
  service : S
  info : ConnectionInfo Addr

inductive Exit (E : Type u) where
  | panicked (message : String)
  | returned (err : IoError E)

/-- The tasks that have been spawned, and how the loop was left if it was. -/
structure Served (T Addr S H E : Type u) where
  tasks : List (Task T Addr S H)
  exit : Option (Exit E)

variable [Clone S] [Clone H]

/-- `boxed` makes the error of the reactor the payload of an `io::Error`. -/
def acceptLoop (boxed : ReactorError E → E) (http : H) (service : S) (s : State bits W R) :
    List (Turn bits W R T Addr E) → Served T Addr S H E
  | [] => ⟨[], none⟩
  | turn :: rest =>
    match turn.accept with
    | .ok (stream, addr) =>
      match register (turn.others s) stream turn with
      | (_, .error err) => ⟨[], some (.returned ⟨.other, boxed err⟩)⟩
      | (s, .ok conn) =>
        let served := acceptLoop boxed http service s rest
        let info := { peer_addr := some addr }
        { served with tasks := ⟨Clone.clone http, conn, Clone.clone service, info⟩ :: served.tasks }
    | .error err =>
      if err.kind = .wouldBlock then acceptLoop boxed http service s rest
      else ⟨[], some (.returned err)⟩

/-- `Server::serve`; `reactor` is what `Reactor::new` returns. -/
def serve (boxed : ReactorError E → E) (listener : Option L)
    (reactor : Except (ReactorError E) (State bits W R)) (http : H) (service : S)
    (turns : List (Turn bits W R T Addr E)) : Served T Addr S H E :=
  match listener with
  | none => ⟨[], some (.panicked "server not bound")⟩
  | some _ =>
    match reactor with
    | .error err => ⟨[], some (.returned ⟨.other, boxed err⟩)⟩
    | .ok s => acceptLoop boxed http service s turns

namespace Turn

/-- What comes of a registration in this turn. -/
def registration (turn : Turn bits W R T Addr E) : Except (ReactorError E) Unit :=
  match turn.set_nonblocking, turn.registry_register with
  | .error err, _ => .error (.registration err)
  | .ok (), .error err => .error (.registration err)
  | .ok (), .ok () => if turn.poisoned then .error .lockPoisoned else .ok ()

/-- The connection that is accepted and registered. -/
def accepted (turn : Turn bits W R T Addr E) : Option (T × Addr) :=
  match turn.accept, turn.registration with
  | .ok conn, .ok () => some conn
  | _, _ => none

/-- The error that the loop does not survive. -/
def failure (boxed : ReactorError E → E) (turn : Turn bits W R T Addr E) : Option (IoError E) :=
  match turn.accept, turn.registration with
  | .ok _, .ok () => none
  | .ok _, .error err => some ⟨.other, boxed err⟩
  | .error err, _ => if err.kind = .wouldBlock then none else some err

end Turn

variable {turn : Turn bits W R T Addr E}

theorem register_registration (s : State bits W R) (sys : T) (turn : Turn bits W R T Addr E) :
    (register s sys turn).2 = turn.registration.map fun _ => ⟨sys, s.streams.length⟩ := by
  unfold register Turn.registration
  cases turn.set_nonblocking with
  | error err => rfl
  | ok =>
    cases turn.registry_register with
    | error err => rfl
    | ok => cases turn.poisoned <;> rfl

/-- A registration is a run of the reactor's model, in which only this stream moves. -/
theorem register_run {s : State bits W R} (unlocked : s.lock = none) (sys : T)
    (turn : Turn bits W R T Addr E) :
    ∃ history, Run (reactor bits R) s history (register s sys turn).1 ∧
      ∀ p ∈ history, p.2 = .register ∨ p.2.registers s.streams.length := by
  have replay : ∀ actions : List (Action bits W R), Legal (reactor bits R) s actions →
      (∀ a ∈ actions, a = .register ∨ a.registers s.streams.length) →
      ∃ history, Run (reactor bits R) s history (final (reactor bits R) s actions) ∧
        ∀ p ∈ history, p.2 = .register ∨ p.2.registers s.streams.length :=
    fun actions legal own =>
      ⟨_, run_of_legal actions legal, fun p hp => own _ (mem_of_mem_transitions hp)⟩
  unfold register
  cases turn.set_nonblocking with
  | error err =>
    refine replay [.register, .set_nonblocking s.streams.length false] ?_ ?_
    · simp [Legal, reactor, enabled, effect]
    · simp [Action.registers]
  | ok =>
    cases turn.registry_register with
    | error err =>
      refine replay [.register, .set_nonblocking s.streams.length true,
        .fetch_add s.streams.length, .registry_register s.streams.length s.token false] ?_ ?_
      · simp [Legal, reactor, enabled, effect, State.setStage]
      · simp [Action.registers]
    | ok =>
      cases turn.poisoned with
      | true =>
        refine replay [.register, .set_nonblocking s.streams.length true,
          .fetch_add s.streams.length, .registry_register s.streams.length s.token true] ?_ ?_
        · simp [Legal, reactor, enabled, effect, State.setStage]
        · simp [Action.registers]
      | false =>
        refine replay [.register, .set_nonblocking s.streams.length true,
          .fetch_add s.streams.length, .registry_register s.streams.length s.token true,
          .insert s.streams.length s.token] ?_ ?_
        · simp [Legal, reactor, enabled, effect, State.setStage, unlocked]
        · simp [Action.registers]

/-- The task of one connection. -/
structure Spawned (http : H) (service : S) (task : Task T Addr S H) (conn : T × Addr) : Prop where
  builder : task.builder = Clone.clone http
  stream : task.conn.sys = conn.1
  service : task.service = Clone.clone service
  peer_addr : task.info.peer_addr = some conn.2

/-- The loop goes on after this turn. -/
def Turn.goes (boxed : ReactorError E → E) (turn : Turn bits W R T Addr E) : Bool :=
  (turn.failure boxed).isNone

theorem acceptLoop_exact (boxed : ReactorError E → E) (http : H) (service : S)
    (s : State bits W R) (turns : List (Turn bits W R T Addr E)) :
    List.Forall₂ (Spawned http service) (acceptLoop boxed http service s turns).tasks
        ((turns.takeWhile (Turn.goes boxed)).filterMap Turn.accepted) ∧
      (acceptLoop boxed http service s turns).exit =
        ((turns.dropWhile (Turn.goes boxed)).head?.bind (Turn.failure boxed)).map .returned := by
  induction turns generalizing s with
  | nil => exact ⟨.nil, rfl⟩
  | cons turn rest ih =>
    cases accept : turn.accept with
    | error err =>
      by_cases again : err.kind = .wouldBlock
      · have goes : turn.failure boxed = none := by simp [Turn.failure, accept, again]
        have nobody : turn.accepted = none := by simp [Turn.accepted, accept]
        simpa [acceptLoop, accept, again, Turn.goes, goes, nobody] using ih s
      · have stops : turn.failure boxed = some err := by simp [Turn.failure, accept, again]
        simp [acceptLoop, accept, again, Turn.goes, stops]
    | ok conn =>
      obtain ⟨stream, addr⟩ := conn
      have outcome := register_registration (turn.others s) stream turn
      cases registration : turn.registration with
      | error err =>
        have stops : turn.failure boxed = some ⟨.other, boxed err⟩ := by
          simp [Turn.failure, accept, registration]
        obtain ⟨s', failed⟩ : ∃ s', register (turn.others s) stream turn = (s', .error err) :=
          ⟨_, Prod.ext rfl (outcome.trans (by rw [registration]; rfl))⟩
        simp [acceptLoop, accept, failed, Turn.goes, stops]
      | ok =>
        have goes : turn.failure boxed = none := by simp [Turn.failure, accept, registration]
        have taken : turn.accepted = some (stream, addr) := by
          simp [Turn.accepted, accept, registration]
        obtain ⟨s', source, done⟩ : ∃ s' source,
            register (turn.others s) stream turn = (s', .ok ⟨stream, source⟩) :=
          ⟨_, _, Prod.ext rfl (outcome.trans (by rw [registration]; rfl))⟩
        have spawned : Spawned http service
            ⟨Clone.clone http, ⟨stream, source⟩, Clone.clone service, ⟨some addr⟩⟩ (stream, addr) :=
          ⟨rfl, rfl, rfl, rfl⟩
        simpa [acceptLoop, accept, done, Turn.goes, goes, taken, spawned] using ih s'

/-- The loop spawns one task for each connection that is registered, in their
order, up to the first error that is not `WouldBlock` and the first registration
that fails; either ends it. -/
theorem serve_exact (boxed : ReactorError E → E) (listener : L) (s : State bits W R) (http : H)
    (service : S) (turns : List (Turn bits W R T Addr E)) :
    let served := serve boxed (some listener) (.ok s) http service turns
    List.Forall₂ (Spawned http service) served.tasks
        ((turns.takeWhile (Turn.goes boxed)).filterMap Turn.accepted) ∧
      served.exit =
        ((turns.dropWhile (Turn.goes boxed)).head?.bind (Turn.failure boxed)).map .returned :=
  acceptLoop_exact boxed http service s turns

/-! ## A connection that fails -/

instance : Clone Nat := ⟨id⟩

def nothing (_ : ReactorError Nat) : Nat := 0

def connection (stream addr : Nat) : Turn 4 Nat Nat Nat Nat Nat where
  accept := .ok (stream, addr)
  others := id
  set_nonblocking := .ok ()
  registry_register := .ok ()
  poisoned := false

/-- The client has gone away before it was accepted. -/
def aborted : Turn 4 Nat Nat Nat Nat Nat :=
  { connection 0 0 with accept := .error ⟨.unnamed 103, 103⟩ }

def unregistered (stream addr : Nat) : Turn 4 Nat Nat Nat Nat Nat :=
  { connection stream addr with registry_register := .error ⟨.unnamed 24, 24⟩ }

/-- Either failure ends the server, and nobody serves the next connection. -/
theorem failure_stops_server :
    let served (turns : List (Turn 4 Nat Nat Nat Nat Nat)) : Served Nat Nat Nat Nat Nat :=
      serve nothing (some ()) (.ok initial) 1 2 turns
    (connection 5 80).accepted = some (5, 80) ∧
      (served [connection 5 80]).tasks.map (fun task => task.conn.sys) = [5] ∧
      (served [connection 5 80]).exit.isNone ∧
      (served [aborted, connection 5 80]).tasks.length = 0 ∧
      (served [aborted, connection 5 80]).exit.isSome ∧
      (served [unregistered 4 79, connection 5 80]).tasks.length = 0 ∧
      (served [unregistered 4 79, connection 5 80]).exit.isSome := by
  intro served
  exact ⟨rfl, rfl, rfl, rfl, rfl, rfl, rfl⟩

end ServerAccepting
