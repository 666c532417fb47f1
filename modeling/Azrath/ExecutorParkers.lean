import Azrath.ExecutorQueue
import Azrath.ParkerReturning
import Azrath.Simulations

/-!
# The pool with the parkers of its threads

`Inner::run` makes one parker for its thread and polls every task inside
`block_on` of it. The pool sees nothing of a call but its beginning and its end,
the parker nothing of the queue. Either part, seen alone, runs as it does by
itself. A thread is in `block_on` exactly while it has a task in hand, so what
the polls return decides when a task is finished.
-/

namespace ExecutorParkers

open GuardedRuns FairExecutions StutteringExecutions Simulations
open ExecutorAccounting ExecutorProgress ExecutorQueue ParkerReturning
open ParkerModel (parker)

universe u
variable {bits : Nat} {T E : Type u} {inner : ExecutorModel.Inner bits}

/-- The parkers of all threads, of those still to come too. -/
structure State (T E : Type u) where
  pool : ExecutorModel.State T
  parkers : Nat → ParkerModel.State PUnit.{u + 1} E

def initial : State T E where
  pool := ExecutorModel.initial
  parkers _ := ParkerModel.initial false

/-- A step in `executor.rs` outside `block_on`, or one of a thread's parker. -/
inductive Action (T : Type u) where
  | pool (a : ExecutorModel.Action T)
  | parker (i : Nat) (b : ParkerModel.Action PUnit.{u + 1})

def Action.pool? : Action T → Option (ExecutorModel.Action T)
  | .pool a => some a
  | .parker _ _ => none

/-- What a step is for the parker of the thread that takes it. The worker calls
`block_on` with the task that it pops; a task ends when this call does. -/
def parkerStep (pool : ExecutorModel.State T) :
    Action T → Option (Nat × ParkerModel.Action PUnit.{u + 1})
  | .pool (.turn i) => pool.shared.queue.head?.map fun _ => (i, .enter)
  | .pool (.finish i _) => some (i, .ret)
  | .pool (.panic i _) => some (i, .unwind)
  | .pool _ => none
  | .parker i b => some (i, b)

/-- The step as it is for parker `i`. -/
def stepOf (i : Nat) (pool : ExecutorModel.State T) (a : Action T) :
    Option (ParkerModel.Action PUnit.{u + 1}) :=
  (parkerStep pool a).bind fun p => if p.1 = i then some p.2 else none

/-- The thread is in code of its future: in `poll`, or where `block_on` drops it
before it returns. -/
def InFuture (s : ParkerModel.State PUnit.{u + 1} E) : Prop :=
  match s.pc with
  | .polling | .returning _ => True
  | _ => False

/-- A task calls `execute` from its own code, and the poll does not return
before the call does. `enter`, `ret` and `unwind` are steps of the pool. -/
def allowed (s : State T E) : Action T → Prop
  | .pool (.submit _ caller) => ∀ i ∈ caller, InFuture (s.parkers i)
  | .pool _ => True
  | .parker _ .enter | .parker _ .ret | .parker _ .unwind => False
  | .parker i (.polled _) => s.pool.lock.bind ExecutorModel.Holder.caller ≠ some i
  | .parker _ _ => True

def enabled (s : State T E) (a : Action T) : Prop :=
  (∀ b ∈ a.pool?, ExecutorModel.enabled s.pool b) ∧
    (∀ p ∈ parkerStep s.pool a, ParkerModel.enabled (s.parkers p.1) p.2) ∧ allowed s a

def effect (inner : ExecutorModel.Inner bits) (s : State T E) (a : Action T) : State T E where
  pool := (stuttering (ExecutorModel.pool T inner)).effect s.pool a.pool?
  parkers i := (stuttering (parker PUnit E)).effect (s.parkers i) (stepOf i s.pool a)

def parkedPool (T E : Type u) (inner : ExecutorModel.Inner bits) :
    System (State T E) (Action T) where
  enabled := enabled
  effect := effect inner

deriving instance DecidableEq for ParkerModel.Pc

instance {V : Type u} [DecidableEq V] [DecidableEq E] (s : ParkerModel.State V E) :
    ∀ b, Decidable (ParkerModel.enabled s b)
  | .enter => inferInstanceAs (Decidable (s.pc = .outside))
  | .store => inferInstanceAs (Decidable (s.pc = .entered))
  | .poll => inferInstanceAs (Decidable (s.pc = .looping))
  | .polled _ | .unwind => inferInstanceAs (Decidable (s.pc = .polling))
  | .swap => inferInstanceAs (Decidable (s.pc = .swapping))
  | .resume => inferInstanceAs (Decidable (s.pc = .parking ∧ s.token = true))
  | .spurious => inferInstanceAs (Decidable (s.pc = .parking))
  | .ret =>
    match returning : s.pc with
    | .returning result => isTrue ⟨result, returning⟩
    | .outside | .entered | .looping | .polling | .swapping | .parking =>
      isFalse (by rintro ⟨result, other⟩; cases returning.symm.trans other)
  | .wake | .unparked => isTrue trivial
  | .swapFalse i => inferInstanceAs (Decidable (s.wakes[i]? = some .called))
  | .unpark i => inferInstanceAs (Decidable (s.wakes[i]? = some .unparking))
  | .consume => inferInstanceAs (Decidable (s.pc = .outside ∨ s.pc = .polling))

instance (s : ParkerModel.State PUnit.{u + 1} E) : Decidable (InFuture s) :=
  match place : s.pc with
  | .polling | .returning _ => isTrue (by rw [InFuture, place]; trivial)
  | .outside | .entered | .looping | .swapping | .parking =>
    isFalse (by rw [InFuture, place]; exact not_false)

instance (s : State T E) : ∀ a, Decidable (allowed s a)
  | .pool (.submit _ caller) => inferInstanceAs (Decidable (∀ i ∈ caller, InFuture (s.parkers i)))
  | .pool (.execute _ _ _ _) | .pool (.lock _) | .pool (.turn _) | .pool (.finish _ _)
  | .pool (.panic _ _) | .pool (.timeout _) | .pool (.wake _ _) | .pool (.check _ _) =>
    isTrue trivial
  | .parker _ .enter | .parker _ .ret | .parker _ .unwind => isFalse not_false
  | .parker i (.polled _) =>
    inferInstanceAs (Decidable (s.pool.lock.bind ExecutorModel.Holder.caller ≠ some i))
  | .parker _ .store | .parker _ .poll | .parker _ .swap | .parker _ .resume
  | .parker _ .spurious | .parker _ .wake | .parker _ (.swapFalse _) | .parker _ (.unpark _)
  | .parker _ .unparked | .parker _ .consume => isTrue trivial

instance [DecidableEq T] [DecidableEq E] (s : State T E) (a : Action T) :
    Decidable (enabled s a) := inferInstanceAs (Decidable (_ ∧ _ ∧ _))

instance [DecidableEq T] [DecidableEq E] (inner : ExecutorModel.Inner bits) (s : State T E)
    (a : Action T) : Decidable ((parkedPool T E inner).enabled s a) :=
  inferInstanceAs (Decidable (enabled s a))

variable {s : State T E} {a : Action T} {i : Nat}

theorem stepOf_enabled (h : enabled s a) {b : ParkerModel.Action PUnit.{u + 1}}
    (step : stepOf i s.pool a = some b) : ParkerModel.enabled (s.parkers i) b := by
  obtain ⟨⟨j, b'⟩, hp, here⟩ := Option.bind_eq_some_iff.mp step
  by_cases same : j = i
  · subst same
    rw [if_pos rfl] at here
    cases here
    exact h.2.1 _ hp
  · rw [if_neg same] at here
    cases here

/-! ## Both parts seen alone -/

def toPool (T E : Type u) (inner : ExecutorModel.Inner bits) :
    Simulation (parkedPool T E inner) (stuttering (ExecutorModel.pool T inner)) where
  Inv _ := True
  view := State.pool
  label _ a := a.pool?
  keeps _ _ := trivial
  able _ h := h.1
  step _ _ := rfl

def toParker (T E : Type u) (inner : ExecutorModel.Inner bits) (i : Nat) :
    Simulation (parkedPool T E inner) (stuttering (parker PUnit.{u + 1} E)) where
  Inv _ := True
  view s := s.parkers i
  label s a := stepOf i s.pool a
  keeps _ _ := trivial
  able _ h _ step := stepOf_enabled h step
  step _ _ := rfl

/-! ## A thread is in `block_on` exactly while it has a task in hand -/

def taskAt (s : ExecutorModel.State T) (i : Nat) : Option T :=
  (s.threads[i]?).bind ExecutorModel.Worker.task?

/-- A call of `execute` that a task makes leaves the task where it is. -/
structure Matched (s : State T E) : Prop where
  outside : ∀ i, (s.parkers i).pc = .outside ↔ taskAt s.pool i = none
  calling : ∀ i, s.pool.lock.bind ExecutorModel.Holder.caller = some i → InFuture (s.parkers i)

theorem stepOf_of_step {pool : ExecutorModel.State T} {j : Nat}
    {b : ParkerModel.Action PUnit.{u + 1}} (step : parkerStep pool a = some (j, b)) :
    stepOf i pool a = if i = j then some b else none := by
  rw [stepOf, step]
  by_cases same : i = j
  · subst same
    rfl
  · rw [if_neg same]
    exact if_neg (Ne.symm same)

theorem stepOf_of_none {pool : ExecutorModel.State T} (step : parkerStep pool a = none) :
    stepOf i pool a = none := by
  rw [stepOf, step]
  rfl

theorem stepOf_cases {p : ExecutorModel.State T} {c : ParkerModel.Action PUnit.{u + 1}}
    (step : stepOf i p a = some c) :
    a = .parker i c ∨ (c = .enter ∧ a = .pool (.turn i)) ∨
      ∃ task, (c = .ret ∧ a = .pool (.finish i task)) ∨
        (c = .unwind ∧ a = .pool (.panic i task)) := by
  obtain ⟨⟨j, c'⟩, hp, here⟩ := Option.bind_eq_some_iff.mp step
  obtain ⟨rfl, rfl⟩ : j = i ∧ c' = c := by
    by_cases same : j = i
    · rw [if_pos same] at here
      exact ⟨same, Option.some.inj here⟩
    · rw [if_neg same] at here
      cases here
  cases a with
  | parker k c' =>
    cases hp
    exact Or.inl rfl
  | pool b =>
    cases b with
    | turn k =>
      obtain ⟨_, _, same⟩ := Option.map_eq_some_iff.mp hp
      cases same
      exact Or.inr (Or.inl ⟨rfl, rfl⟩)
    | finish k task =>
      cases hp
      exact Or.inr (Or.inr ⟨task, Or.inl ⟨rfl, rfl⟩⟩)
    | panic k task =>
      cases hp
      exact Or.inr (Or.inr ⟨task, Or.inr ⟨rfl, rfl⟩⟩)
    | _ => cases hp

section Moves
variable {p q : ExecutorModel.State T} {b : ExecutorModel.Action T}

/-- A worker takes a task in hand as it enters `block_on` and lets go of it as it
leaves. -/
theorem task_move (move : Move inner p b q) (i : Nat) :
    (stepOf i p (.pool b) = none ∧ taskAt q i = taskAt p i) ∨
      (stepOf i p (.pool b) = some .enter ∧ taskAt q i ≠ none) ∨
      ∃ c, stepOf i p (.pool b) = some c ∧ EndsCall c ∧ taskAt q i = none := by
  cases move with
  | submit free | notifyNobody held some_idle awake | full held none_idle no_room =>
    exact Or.inl ⟨rfl, rfl⟩
  | spawn spawned held none_idle room =>
    refine Or.inl ⟨rfl, ?_⟩
    cases spawned with
    | false => rfl
    | true => exact ThreadLists.bind_snoc _ _ rfl i
  | notify held some_idle here | timeout here | wake free here | take here called
  | leave here uncalled | again here uncalled =>
    refine Or.inl ⟨rfl, ThreadLists.bind_set_same _ here ?_ i⟩
    rfl
  | lock free here outside =>
    refine Or.inl ⟨rfl, ThreadLists.bind_set_same _ here ?_ i⟩
    rcases outside with rfl | rfl <;> rfl
  | rest here empty =>
    refine Or.inl ⟨stepOf_of_none ?_, ThreadLists.bind_set_same _ here ?_ i⟩
    · rw [parkerStep, empty]
      rfl
    · rfl
  | @pop j task queue here front =>
    have step : parkerStep p (.pool (.turn j)) = some (j, .enter) := by
      rw [parkerStep, front]
      rfl
    have moved := ThreadLists.bind_set ExecutorModel.Worker.task? here (.polling task) i
    by_cases same : i = j
    · rw [if_pos same] at moved
      refine Or.inr (Or.inl ⟨by rw [stepOf_of_step step, if_pos same], ?_⟩)
      exact fun none => by cases moved.symm.trans none
    · rw [if_neg same] at moved
      exact Or.inl ⟨by rw [stepOf_of_step step, if_neg same], moved⟩
  | @finish j task here =>
    have moved := ThreadLists.bind_set ExecutorModel.Worker.task? here .relocking i
    by_cases same : i = j
    · rw [if_pos same] at moved
      exact Or.inr (Or.inr ⟨.ret, by rw [stepOf_of_step rfl, if_pos same], Or.inl rfl, moved⟩)
    · rw [if_neg same] at moved
      exact Or.inl ⟨by rw [stepOf_of_step rfl, if_neg same], moved⟩
  | @panic j task here =>
    have moved := ThreadLists.bind_set ExecutorModel.Worker.task? here .panicked i
    by_cases same : i = j
    · rw [if_pos same] at moved
      exact Or.inr (Or.inr ⟨.unwind, by rw [stepOf_of_step rfl, if_pos same], Or.inr rfl, moved⟩)
    · rw [if_neg same] at moved
      exact Or.inl ⟨by rw [stepOf_of_step rfl, if_neg same], moved⟩

/-- A call of `execute` that a task has made neither ends nor begins `block_on`. -/
theorem caller_move (h : ExecutorModel.enabled p b) (move : Move inner p b q)
    (calls : q.lock.bind ExecutorModel.Holder.caller = some i) :
    (∃ fut, b = .submit fut (some i)) ∨
      (p.lock.bind ExecutorModel.Holder.caller = some i ∧ stepOf i p (.pool b) = none) := by
  cases move with
  | @submit fut caller free =>
    obtain rfl : caller = some i := calls
    exact Or.inl ⟨fut, rfl⟩
  | spawn _ _ _ _ | notify _ _ _ | notifyNobody _ _ _ | full _ _ _ | lock _ _ _ | pop _ _
  | rest _ _ | wake _ _ | leave _ _ | again _ _ => cases calls
  | timeout _ | take _ _ => exact Or.inr ⟨calls, rfl⟩
  | @finish j task here | @panic j task here =>
    refine Or.inr ⟨calls, ?_⟩
    rw [stepOf_of_step rfl, if_neg]
    rintro rfl
    exact h.2 calls

end Moves

/-- Of its own a thread comes out of its future's code only as a poll returns. -/
theorem inFuture_step {s : ParkerModel.State PUnit.{u + 1} E}
    {b : ParkerModel.Action PUnit.{u + 1}} (inside : InFuture s) (h : ParkerModel.enabled s b)
    (unpolled : ∀ r, b ≠ .polled r) (open_still : ¬ EndsCall b) :
    InFuture (ParkerModel.effect s b) := by
  have other : ∀ {pc : ParkerModel.Pc PUnit E}, s.pc = pc → ¬ InFuture { s with pc } → False := by
    rintro pc rfl outside
    exact outside inside
  cases b with
  | enter | store | poll | swap | spurious => exact (other h fun no => no).elim
  | resume => exact (other h.1 fun no => no).elim
  | polled r => exact (unpolled r rfl).elim
  | unwind => exact (open_still (Or.inr rfl)).elim
  | ret => exact (open_still (Or.inl rfl)).elim
  | wake | swapFalse j | unpark j | unparked | consume => exact inside

theorem Matched.parker_step (matched : Matched s) {j : Nat}
    {b : ParkerModel.Action PUnit.{u + 1}} (h : enabled s (.parker j b)) :
    Matched (effect inner s (.parker j b)) := by
  have unended : ¬ EndsCall b := by
    rintro (rfl | rfl) <;> exact h.2.2
  have step : ∀ i, stepOf i s.pool (.parker j b) = none ∨
      (i = j ∧ stepOf i s.pool (.parker j b) = some b) := by
    intro i
    rw [stepOf_of_step rfl]
    by_cases same : i = j
    · exact Or.inr ⟨same, if_pos same⟩
    · exact Or.inl (if_neg same)
  constructor
  · intro i
    change ((stuttering (parker PUnit E)).effect (s.parkers i) _).pc = _ ↔ taskAt s.pool i = none
    rcases step i with unseen | ⟨rfl, seen⟩
    · rw [unseen]
      exact matched.outside i
    · rw [seen]
      rcases call_step (stepOf_enabled h seen) with rfl | ⟨ends, _⟩ | same
      · exact h.2.2.elim
      · exact (unended ends).elim
      · exact same.trans (matched.outside i)
  · intro i calls
    have inside := matched.calling i calls
    change InFuture ((stuttering (parker PUnit E)).effect (s.parkers i) _)
    rcases step i with unseen | ⟨rfl, seen⟩
    · rw [unseen]
      exact inside
    · rw [seen]
      refine inFuture_step inside (stepOf_enabled h seen) ?_ unended
      rintro r rfl
      exact h.2.2 calls

theorem Matched.pool_step (matched : Matched s) (inv : Accounted inner s.pool)
    {b : ExecutorModel.Action T} (h : enabled s (.pool b)) :
    Matched (effect inner s (.pool b)) := by
  have able : ExecutorModel.enabled s.pool b := h.1 b rfl
  have move := effect_move inv able
  constructor
  · intro i
    change ((stuttering (parker PUnit E)).effect (s.parkers i) _).pc = _ ↔
      taskAt (ExecutorModel.effect inner s.pool b) i = none
    rcases task_move move i with ⟨unseen, same⟩ | ⟨seen, taken⟩ | ⟨c, seen, ends, left⟩
    · rw [unseen, same]
      exact matched.outside i
    · rw [seen]
      exact iff_of_false (by rintro ⟨⟩) taken
    · rw [seen]
      refine iff_of_true ?_ left
      rcases ends with rfl | rfl <;> rfl
  · intro i calls
    change InFuture ((stuttering (parker PUnit E)).effect (s.parkers i) _)
    rcases caller_move able move calls with ⟨fut, rfl⟩ | ⟨held, unseen⟩
    · exact h.2.2 i rfl
    · rw [unseen]
      exact matched.calling i held

theorem Matched.step (matched : Matched s) (inv : Accounted inner s.pool) (h : enabled s a) :
    Matched (effect inner s a) := by
  cases a with
  | parker j b => exact matched.parker_step h
  | pool b => exact matched.pool_step inv h

/-! ## Runs -/

/-- The task that thread `i` is in a call for, and what the polls of it have
returned. -/
def inCall (i : Nat) (history : List (State T E × Action T)) :
    Option (T × List (ParkerModel.Poll PUnit.{u + 1})) :=
  history.foldl (fun before p =>
    match stepOf i p.1.pool p.2 with
    | some .enter => p.1.pool.shared.queue.head?.map fun task => (task, [])
    | some (.polled r) => before.map fun call => (call.1, call.2 ++ [r])
    | some .ret | some .unwind => none
    | _ => before) none

theorem inCall_snoc {history : List (State T E × Action T)} :
    inCall i (history ++ [(s, a)]) =
      match stepOf i s.pool a with
      | some .enter => s.pool.shared.queue.head?.map fun task => (task, [])
      | some (.polled r) => (inCall i history).map fun call => (call.1, call.2 ++ [r])
      | some .ret | some .unwind => none
      | _ => inCall i history := by
  rw [inCall, List.foldl_append]
  rfl

/-- The history of parker `i`. -/
def pastOf (inner : ExecutorModel.Inner bits) (i : Nat) (history : List (State T E × Action T)) :=
  happened ((toParker T E inner i).shown history)

theorem pastOf_snoc {history : List (State T E × Action T)} :
    pastOf inner i (history ++ [(s, a)]) = pastOf inner i history ++
      ((stepOf i s.pool a).map fun b => (s.parkers i, b)).toList := by
  rw [pastOf, Simulation.shown, List.map_append]
  exact happened_snoc _ _

section Runs
variable {history : List (State T E × Action T)}

theorem accounted_of_run (run : Run (parkedPool T E inner) initial history s) :
    Accounted inner s.pool :=
  accounted_run (run_happened ((toPool T E inner).run trivial run))

theorem matched_of_run (run : Run (parkedPool T E inner) initial history s) : Matched s := by
  refine run.history_invariant (fun _ t => Matched t)
    ⟨fun i => iff_of_true rfl rfl, by rintro i ⟨⟩⟩ ?_
  intro past t a before ih h
  exact ih.step (accounted_of_run before) h

/-- A step that neither begins nor ends a call of thread `i` leaves its task
alone. -/
theorem task_kept (inv : Accounted inner s.pool) (h : enabled s a)
    (within : ∀ b ∈ stepOf i s.pool a, b ≠ .enter ∧ ¬ EndsCall b) :
    taskAt (effect inner s a).pool i = taskAt s.pool i := by
  cases a with
  | parker j b => rfl
  | pool b =>
    rcases task_move (effect_move inv (h.1 b rfl)) i with
      ⟨_, same⟩ | ⟨seen, _⟩ | ⟨c, seen, ends, _⟩
    · exact same
    · exact ((within _ seen).1 rfl).elim
    · exact ((within c seen).2 ends).elim

theorem inCall_run (run : Run (parkedPool T E inner) initial history s) (i : Nat) :
    (inCall i history).map Prod.fst = taskAt s.pool i ∧
      ∀ call ∈ inCall i history, call.2 = ParkerModel.results (pastOf inner i history) := by
  refine run.history_invariant (fun past t => (inCall i past).map Prod.fst = taskAt t.pool i ∧
    ∀ call ∈ inCall i past, call.2 = ParkerModel.results (pastOf inner i past))
    ⟨rfl, by rintro call ⟨⟩⟩ ?_
  intro past t a before ⟨task, polls⟩ h
  have inv := accounted_of_run before
  have gone := ((matched_of_run before).step inv h).outside i
  have kept := task_kept inv h (i := i)
  rw [inCall_snoc, pastOf_snoc]
  change Option.map _ _ = taskAt (effect inner t a).pool i ∧ _
  change ((stuttering (parker PUnit E)).effect (t.parkers i) _).pc = _ ↔ _ at gone
  cases step : stepOf i t.pool a with
  | none =>
    rw [step] at kept
    rw [kept (by rintro b ⟨⟩)]
    exact ⟨task, by simpa using polls⟩
  | some b =>
    rw [step] at gone kept
    rw [Option.map_some, Option.toList_some, ParkerWakeups.results_snoc]
    cases b with
    | enter =>
      rcases stepOf_cases step with rfl | ⟨_, rfl⟩ | ⟨_, ⟨other, _⟩ | ⟨other, _⟩⟩
      · exact h.2.2.elim
      · cases front : t.pool.shared.queue with
        | nil =>
          rw [stepOf, parkerStep, front] at step
          cases step
        | cons task rest =>
          have owns : Owns (ExecutorModel.effect inner t.pool (.turn i)) i task :=
            pop_owns (h.1 _ rfl) (congrArg List.head? front)
          have held : taskAt (effect inner t (.pool (.turn i))).pool i = some task :=
            congrArg (fun w => w.bind ExecutorModel.Worker.task?) owns
          rw [held]
          exact ⟨rfl, by rintro call ⟨⟩; rfl⟩
      · cases other
      · cases other
    | ret | unwind => exact ⟨(gone.mp rfl).symm, by rintro call ⟨⟩⟩
    | polled r =>
      rw [kept (by rintro b ⟨⟩; exact ⟨by rintro ⟨⟩, by rintro (no | no) <;> cases no⟩)]
      refine ⟨by rw [Option.map_map]; exact task, fun call appended => ?_⟩
      obtain ⟨earlier, found, rfl⟩ := Option.map_eq_some_iff.mp appended
      rw [polls earlier found]
    | _ =>
      rw [kept (by rintro b ⟨⟩; exact ⟨by rintro ⟨⟩, by rintro (no | no) <;> cases no⟩)]
      exact ⟨task, polls⟩

/-- In every run, however the threads, the tasks, the wakes and the park tokens
interleave, a thread is in `block_on` exactly while it has a task in hand. It
begins a poll of the task only if every poll since the pop was pending, and the
task is finished only after its last poll, and only this one, was ready. -/
theorem tasks_polled_until_ready (run : Run (parkedPool T E inner) initial history s) (i : Nat) :
    ((s.parkers i).pc = .outside ↔ taskAt s.pool i = none) ∧
    (inCall i history).map Prod.fst = taskAt s.pool i ∧
    (enabled s (.parker i .poll) →
      ∃ task k, inCall i history = some (task, List.replicate k .pending)) ∧
    ∀ task, enabled s (.pool (.finish i task)) →
      ∃ k, inCall i history = some (task, List.replicate k .pending ++ [.ready ⟨⟩]) := by
  have matched := (matched_of_run run).outside i
  obtain ⟨inHand, polls⟩ := inCall_run run i
  have fits : ParkerWakeups.Fits (ParkerModel.results (pastOf inner i history)) (s.parkers i).pc :=
    ParkerWakeups.fits_run (run_happened ((toParker T E inner i).run trivial run))
  have called : (s.parkers i).pc ≠ .outside → ∃ task, taskAt s.pool i = some task ∧
      inCall i history = some (task, ParkerModel.results (pastOf inner i history)) := by
    intro inside
    cases found : inCall i history with
    | none =>
      rw [found] at inHand
      exact (inside (matched.mpr inHand.symm)).elim
    | some call =>
      rw [found] at inHand
      exact ⟨call.1, inHand.symm, by rw [← polls call found]⟩
  refine ⟨matched, inHand, ?_, ?_⟩
  · intro h
    have looping : (s.parkers i).pc = .looping := h.2.1 (i, .poll) rfl
    rw [looping] at fits called
    obtain ⟨task, _, found⟩ := called (by rintro ⟨⟩)
    exact ⟨task, _, by rw [found, ← List.eq_replicate_of_mem fits]⟩
  · intro task h
    obtain ⟨result, returning⟩ := h.2.1 (i, .ret) rfl
    rw [returning] at fits called
    obtain ⟨other, held, found⟩ := called (by rintro ⟨⟩)
    obtain ⟨res, k, _, ready⟩ := fits
    rw [taskAt, (h.1 _ rfl).1] at held
    cases held
    exact ⟨k, by rw [found, ready]⟩

end Runs

/-- A task gives the pool another one and is pending then. A wake brings the
worker back to it, and it is polled to its end before the other task is. -/
def handsOn : List (Action Nat) :=
  [.pool (.submit 0 none), .pool (.execute 0 none true none), .pool (.lock 0), .pool (.turn 0),
    .parker 0 .store, .parker 0 .poll, .pool (.submit 1 (some 0)),
    .pool (.execute 1 (some 0) true none), .parker 0 (.polled .pending), .parker 0 .swap,
    .parker 0 .wake, .parker 0 (.swapFalse 0), .parker 0 (.unpark 0), .parker 0 .resume,
    .parker 0 .swap, .parker 0 .poll, .parker 0 (.polled (.ready ⟨⟩)), .pool (.finish 0 0),
    .pool (.lock 0), .pool (.turn 0), .parker 0 .store, .parker 0 .poll,
    .parker 0 (.polled (.ready ⟨⟩)), .pool (.finish 0 1), .pool (.lock 0), .pool (.turn 0)]

theorem handsOn_legal : Legal (parkedPool Nat Nat solo) initial handsOn := by decide

theorem tasks_polled_until_ready_handsOn :
    ∃ k, inCall 0 (transitions (parkedPool Nat Nat solo) initial (handsOn.take 17)) =
      some (0, List.replicate k .pending ++ [.ready ⟨⟩]) :=
  (tasks_polled_until_ready (run_of_legal (M := parkedPool Nat Nat solo) (handsOn.take 17)
    (by decide)) 0).2.2.2 0 (by decide)

/-! ## Executions -/

section Executions
variable (σ : Execution (stuttering (parkedPool T E inner)) initial)

def poolOf : Execution (stuttering (ExecutorModel.pool T inner)) ExecutorModel.initial :=
  (toPool T E inner).stuttered.execution σ trivial

def parkerOf (i : Nat) :
    Execution (stuttering (parker PUnit.{u + 1} E)) (ParkerModel.initial false) :=
  (toParker T E inner i).stuttered.execution σ trivial

theorem matched_at (n : Nat) : Matched (σ.state n) := matched_of_run (past_run σ n)

end Executions

end ExecutorParkers
