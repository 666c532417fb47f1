import Azrath.FairExecutions

/-!
# `Parker::block_on` and `Parker::wake`

The thread that made the parker calls `block_on` again and again; any number of
`wake` calls run beside it, late ones included. Every access to `parked` and to
the park token of the thread is one action. The token is not the parker's own:
other code may set it at any time, and code on the same thread may use it up
inside a poll or between two calls, as a nested parker does.
-/

namespace ParkerModel

open GuardedRuns

universe u
variable {V E : Type u}

inductive Poll (V : Type u) where
  | pending
  | ready (res : V)
  deriving DecidableEq

/-- Where the thread is in `block_on`; `E` is the crate's error. -/
inductive Pc (V E : Type u) where
  | outside
  | entered
  | looping
  | polling
  | swapping
  | parking
  | returning (result : Except E V)

/-- Where a call of `wake` is: before its swap, between swap and unpark, over. -/
inductive WakeCall where
  | called
  | unparking
  | done
  deriving DecidableEq

structure State (V E : Type u) where
  parked : Bool
  token : Bool
  pc : Pc V E
  wakes : List WakeCall

/-- `Parker::new`, on a thread whose token may be set. -/
def initial (token : Bool) : State V E where
  parked := true
  token := token
  pc := .outside
  wakes := []

/-- `resume` returns from `park` with the token, `spurious` without it; `unwind`
is a panic of the polled future; `unparked` and `consume` are the token's other
users. -/
inductive Action (V : Type u) where
  | enter
  | store
  | poll
  | polled (r : Poll V)
  | unwind
  | swap
  | resume
  | spurious
  | ret
  | wake
  | swapFalse (i : Nat)
  | unpark (i : Nat)
  | unparked
  | consume

def enabled (s : State V E) : Action V → Prop
  | .enter => s.pc = .outside
  | .store => s.pc = .entered
  | .poll => s.pc = .looping
  | .polled _ | .unwind => s.pc = .polling
  | .swap => s.pc = .swapping
  | .resume => s.pc = .parking ∧ s.token = true
  | .spurious => s.pc = .parking
  | .ret => ∃ result, s.pc = .returning result
  | .wake | .unparked => True
  | .swapFalse i => s.wakes[i]? = some .called
  | .unpark i => s.wakes[i]? = some .unparking
  | .consume => s.pc = .outside ∨ s.pc = .polling

/-- `match fut.as_mut().poll(&mut cx)`. -/
def afterPoll : Poll V → Pc V E
  | .ready res => .returning (.ok res)
  | .pending => .swapping

def effect (s : State V E) : Action V → State V E
  | .enter => { s with pc := .entered }
  | .store => { s with parked := true, pc := .looping }
  | .poll => { s with pc := .polling }
  | .polled r => { s with pc := afterPoll r }
  | .unwind => { s with pc := .outside }
  | .swap => { s with parked := true, pc := if s.parked then .parking else .looping }
  | .resume => { s with token := false, pc := .swapping }
  | .spurious => { s with pc := .swapping }
  | .ret => { s with pc := .outside }
  | .wake => { s with wakes := s.wakes ++ [.called] }
  | .swapFalse i =>
    { s with parked := false, wakes := s.wakes.set i (if s.parked then .unparking else .done) }
  | .unpark i => { s with token := true, wakes := s.wakes.set i .done }
  | .unparked => { s with token := true }
  | .consume => { s with token := false }

def parker (V E : Type u) : System (State V E) (Action V) where
  enabled := enabled
  effect := effect

/-- The steps the thread takes on its own; a spurious return is not one. -/
def ofThread : Action V → Prop
  | .store | .poll | .swap | .resume | .ret => True
  | _ => False

/-- The unpark that one call of `wake` still owes. -/
def ofWake (i : Nat) : Action V → Prop
  | .unpark j => j = i
  | _ => False

/-- A wake has swapped the flag since the latest poll began. -/
def woken (history : List (State V E × Action V)) : Bool :=
  history.foldl (fun before p =>
    match p.2 with
    | .poll => false
    | .swapFalse _ => true
    | _ => before) false

/-- What the polls of the latest call have returned. -/
def results (history : List (State V E × Action V)) : List (Poll V) :=
  history.foldl (fun before p =>
    match p.2 with
    | .enter => []
    | .polled r => before ++ [r]
    | _ => before) []

end ParkerModel
