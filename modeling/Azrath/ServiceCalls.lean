import Azrath.BodyForwarding
import Azrath.RunLedgers
import Azrath.ServerAccepting
import Azrath.ThreadLists
import Mathlib.Algebra.Order.Group.Multiset

/-!
# The calls of the user's service

hyper hands every request of a connection to the `HyperService` of its task and
polls the future that it gets for it, in any order, late or never. The user's
service is called when the future is polled.
-/

namespace ServiceCalls

open GuardedRuns ServerAccepting BodyForwarding

universe u v
variable {bits : Nat} {W R : Type u} {K : Type v} {T Addr S H E L P B : Type u}

/-- `#[derive(Clone)]`. -/
instance : Clone (ConnectionInfo Addr) := ⟨fun info => ⟨info.peer_addr⟩⟩

/-- `hyper::Request`. -/
structure Request (P B : Type u) where
  parts : P
  body : B

structure HyperService (S Addr : Type u) where
  service : S
  info : ConnectionInfo Addr

structure Lazy (S P B Addr : Type u) where
  service : S
  request : Option (Request P B)
  info : ConnectionInfo Addr

/-- What `Service::call` is called with. -/
structure ServiceCall (S P B Addr : Type u) where
  service : S
  request : Request P (Body B)
  info : ConnectionInfo Addr

def HyperService.call [Clone S] (self : HyperService S Addr) (req : Request P B) :
    Lazy S P B Addr where
  service := Clone.clone self.service
  request := some req
  info := Clone.clone self.info

/-- Up to the call of the service, whose response is returned as it is. `none`
is the panic of `unwrap`. -/
def Lazy.poll (self : Lazy S P B Addr) : Lazy S P B Addr × Option (ServiceCall S P B Addr) :=
  match self.request with
  | none => (self, none)
  | some req => ({ self with request := none },
      some ⟨self.service, ⟨req.parts, ⟨req.body⟩⟩, Clone.clone self.info⟩)

/-- The call that a future will make. -/
def due (future : Option (Lazy S P B Addr)) : Option (ServiceCall S P B Addr) :=
  future.bind fun future => future.poll.2

/-- A future that has called the service does not call it again. -/
theorem due_polled (future : Lazy S P B Addr) : due (some future.poll.1) = none := by
  cases request : future.request with
  | none => simp [due, Lazy.poll, request]
  | some req => simp [due, Lazy.poll, request]

/-- The call that a request on this connection asks for. -/
def HyperService.asks [Clone S] (self : HyperService S Addr) (req : Request P B) :
    ServiceCall S P B Addr :=
  ⟨Clone.clone self.service, ⟨req.parts, ⟨req.body⟩⟩, self.info⟩

theorem due_called [Clone S] (conn : Option (HyperService S Addr)) (req : Request P B) :
    due (conn.map (·.call req)) = conn.map (·.asks req) := by
  cases conn <;> rfl

/-- A future that hyper has dropped is gone. -/
structure State (S P B Addr : Type u) where
  connections : List (HyperService S Addr)
  futures : List (Option (Lazy S P B Addr))

def initial : State S P B Addr := ⟨[], []⟩

inductive Action (T Addr S H P B : Type u) where
  | accept (conn : T × Addr) (task : Task T Addr S H)
  | call (i : Nat) (req : Request P B)
  | poll (j : Nat)
  | drop (j : Nat)

/-- `http` and `service` are what the accept loop clones for each connection. -/
def serving [Clone S] [Clone H] (http : H) (service : S) :
    System (State S P B Addr) (Action T Addr S H P B) where
  enabled s
    | .accept conn task => Spawned http service task conn
    | .call i _ => i < s.connections.length
    | .poll j | .drop j => ∃ future, s.futures[j]? = some (some future)
  effect s
    | .accept _ task => { s with connections := s.connections ++ [⟨task.service, task.info⟩] }
    | .call i req => { s with futures := s.futures ++ [s.connections[i]?.map (·.call req)] }
    | .poll j =>
      { s with futures := s.futures.set j ((s.futures[j]?).join.map fun future => future.poll.1) }
    | .drop j => { s with futures := s.futures.set j none }

variable [Clone S] [Clone H] {http : H} {service : S} {s : State S P B Addr}
variable {a : Action T Addr S H P B}
variable {history : List (State S P B Addr × Action T Addr S H P B)}

def accepted? (p : State S P B Addr × Action T Addr S H P B) : Option (T × Addr) :=
  match p.2 with
  | .accept conn _ => some conn
  | _ => none

def waiting (s : State S P B Addr) : Multiset (ServiceCall S P B Addr) := s.futures.filterMap due

/-- What a request handed over by hyper asks for, by the connection it came on. -/
def requested (p : State S P B Addr × Action T Addr S H P B) :
    Multiset (ServiceCall S P B Addr) :=
  match p.2 with
  | .call i req => (p.1.connections[i]?.map (·.asks req)).toList
  | _ => 0

/-- What the service is called with. -/
def called (p : State S P B Addr × Action T Addr S H P B) : Multiset (ServiceCall S P B Addr) :=
  match p.2 with
  | .poll j => (due (p.1.futures[j]?).join).toList
  | _ => 0

/-- What is dropped before the service was called. -/
def cancelled (p : State S P B Addr × Action T Addr S H P B) :
    Multiset (ServiceCall S P B Addr) :=
  match p.2 with
  | .drop j => (due (p.1.futures[j]?).join).toList
  | _ => 0

theorem waiting_step (h : (serving http service).enabled s a) :
    waiting s + requested (s, a) =
      (called (s, a) + cancelled (s, a)) + waiting ((serving http service).effect s a) := by
  -- an entry that is rewritten with one that is not due gives up what was due
  have emptied : ∀ {j : Nat} {future new : Option (Lazy S P B Addr)},
      s.futures[j]? = some future → due new = none →
        waiting s = ((due future).toList : Multiset (ServiceCall S P B Addr)) +
          ((s.futures.set j new).filterMap due : List (ServiceCall S P B Addr)) := by
    intro j future new here none_due
    have moved := ThreadLists.filterMap_set_perm due here new
    rw [none_due, Option.toList_none, List.nil_append] at moved
    rw [Multiset.coe_add]
    exact Multiset.coe_eq_coe.mpr moved.symm
  cases a with
  | accept conn task => simp [requested, called, cancelled, waiting, serving]
  | call i req =>
    simp only [requested, called, cancelled, waiting, serving, zero_add]
    rw [ThreadLists.filterMap_snoc, due_called, Multiset.coe_add]
  | poll j =>
    obtain ⟨future, here⟩ := h
    simp only [requested, called, cancelled, serving, here, add_zero, Option.join_some,
      Option.map_some]
    exact emptied here (due_polled future)
  | drop j =>
    obtain ⟨future, here⟩ := h
    simp only [requested, called, cancelled, serving, here, zero_add, add_zero, Option.join_some]
    exact emptied here rfl

/-- Every connection serves with its own clone of the service and its own
address. -/
theorem connections_run (run : Run (serving http service) initial history s) :
    s.connections = (history.filterMap accepted?).map fun conn =>
      ⟨Clone.clone service, ⟨some conn.2⟩⟩ := by
  refine run.history_invariant (fun past t => t.connections =
    (past.filterMap accepted?).map fun conn => ⟨Clone.clone service, ⟨some conn.2⟩⟩) rfl ?_
  intro past t a _ ih h
  rw [ThreadLists.filterMap_snoc, List.map_append, ← ih]
  cases a with
  | accept conn task =>
    obtain ⟨_, _, clone, peer_addr⟩ := h
    obtain ⟨_, _, _, ⟨address⟩⟩ := task
    cases clone
    cases peer_addr
    rfl
  | call i req | poll j | drop j => exact (List.append_nil _).symm

theorem accepts_run {tasks : List (Task T Addr S H)} {conns : List (T × Addr)}
    (spawned : List.Forall₂ (Spawned http service) tasks conns)
    (connections : List (HyperService S Addr)) :
    ∃ history, Run (serving http service : System (State S P B Addr) _) ⟨connections, []⟩ history
        ⟨connections ++ tasks.map fun task => ⟨task.service, task.info⟩, []⟩ ∧
      history.filterMap accepted? = conns := by
  induction spawned generalizing connections with
  | nil =>
    rw [List.map_nil, List.append_nil]
    exact ⟨[], .nil, rfl⟩
  | @cons task conn tasks conns own _ ih =>
    obtain ⟨later, run, same⟩ := ih (connections ++ [⟨task.service, task.info⟩])
    rw [List.append_assoc, List.singleton_append] at run
    have accept : (serving http service : System (State S P B Addr) _).enabled ⟨connections, []⟩
        (.accept conn task) := own
    exact ⟨_ :: later, (Run.single accept).append run, congrArg (conn :: ·) same⟩

/-- The accept loop spawns its tasks by such steps, one for each connection that
is registered. -/
theorem serve_run [ReactorModel.Waker W K] (boxed : ErrorTypes.ReactorError E → E) (listener : L)
    (reactor : ReactorModel.State bits W R) (turns : List (Turn bits W R T Addr E)) :
    ∃ history, Run (serving http service : System (State S P B Addr) _) initial history
        ⟨(serve boxed (some listener) (.ok reactor) http service turns).tasks.map fun task =>
          ⟨task.service, task.info⟩, []⟩ ∧
      history.filterMap accepted? =
        (turns.takeWhile (Turn.goes boxed)).filterMap Turn.accepted :=
  accepts_run (acceptLoop_exact boxed http service reactor turns).1 []

/-- In every order in which hyper hands over requests, polls the futures and
drops them, the calls of the service are the requests handed over less those
that were dropped and those that still wait: none is made twice, and each has the
clone of the service and the address of the connection that its request came on.
The connections are those that `serve` spawns its tasks for, whatever its
listener gives. -/
theorem requests_conserved [ReactorModel.Waker W K]
    (run : Run (serving http service) initial history s) :
    s.connections = ((history.filterMap accepted?).map fun conn =>
      ⟨Clone.clone service, ⟨some conn.2⟩⟩) ∧
    (history.map requested).sum =
      (history.map called).sum + (history.map cancelled).sum + waiting s ∧
    ∀ (boxed : ErrorTypes.ReactorError E → E) (listener : L)
      (reactor : ReactorModel.State bits W R) (turns : List (Turn bits W R T Addr E)),
      ∃ history, Run (serving http service : System (State S P B Addr) _) initial history
          ⟨(serve boxed (some listener) (.ok reactor) http service turns).tasks.map fun task =>
            ⟨task.service, task.info⟩, []⟩ ∧
        history.filterMap accepted? =
          (turns.takeWhile (Turn.goes boxed)).filterMap Turn.accepted := by
  have books := RunLedgers.balance waiting requested (fun p => called p + cancelled p)
    (fun _ _ _ _ h => waiting_step h) run
  have empty : waiting (initial : State S P B Addr) = 0 := rfl
  rw [empty, zero_add, List.sum_map_add] at books
  exact ⟨connections_run run, books, serve_run⟩

/-- Two connections are accepted. The request of the second is handled first, a
request of the first is dropped, and hyper polls a future once too often. -/
def crossed : List (Action Nat Nat Nat Nat Nat Nat) :=
  [.accept (5, 80) ⟨1, ⟨5, 0⟩, 2, ⟨some 80⟩⟩, .accept (6, 81) ⟨1, ⟨6, 1⟩, 2, ⟨some 81⟩⟩,
    .call 0 ⟨10, 100⟩, .call 1 ⟨11, 101⟩, .call 0 ⟨12, 102⟩, .poll 1, .poll 1, .drop 2]

theorem crossed_legal :
    Legal (serving 1 2 : System (State Nat Nat Nat Nat) _) initial crossed :=
  ⟨⟨rfl, rfl, rfl, rfl⟩, ⟨rfl, rfl, rfl, rfl⟩, show 0 < 2 by decide, show 1 < 2 by decide,
    show 0 < 2 by decide, ⟨_, rfl⟩, ⟨_, rfl⟩, ⟨_, rfl⟩, trivial⟩

theorem requests_conserved_crossed :
    let history := transitions (serving 1 2 : System (State Nat Nat Nat Nat) _) initial crossed
    (history.map requested).sum = (history.map called).sum + (history.map cancelled).sum +
        waiting (final (serving 1 2) initial crossed) ∧
      (history.map called).sum = {⟨2, ⟨11, ⟨101⟩⟩, ⟨some 81⟩⟩} ∧
      waiting (final (serving 1 2) initial crossed) = {⟨2, ⟨10, ⟨100⟩⟩, ⟨some 80⟩⟩} ∧
      ∃ history, Run (serving 1 2 : System (State Nat Nat Nat Nat) _) initial history
          ⟨(serve nothing (some ()) (.ok ReactorModel.initial) 1 2
            [connection 5 80, connection 6 81]).tasks.map fun task => ⟨task.service, task.info⟩,
            []⟩ ∧
        history.filterMap accepted? = [(5, 80), (6, 81)] := by
  intro history
  have run := run_of_legal crossed crossed_legal
  obtain ⟨_, books, served⟩ :=
    @requests_conserved 4 Nat Nat Nat Nat Nat Nat Nat Nat Unit Nat Nat _ _ _ _ _ _ _ run
  exact ⟨books, rfl, rfl, served nothing () ReactorModel.initial _⟩

end ServiceCalls
