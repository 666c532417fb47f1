import Azrath.ExecutorLiveness
import Azrath.ExecutorParkers

/-!
# A worker blocks on the task that it pops

That a popped task is polled to its end need not be assumed of the pool. It
follows from what the futures promise: each poll comes to an end, a pending one
has its thread woken, and no future is pending for ever. Fairness to a thread
and to the wakes is then fairness to the pool and to every parker.
-/

namespace ExecutorBlocking

open GuardedRuns FairExecutions StutteringExecutions
open ExecutorAccounting ExecutorProgress ExecutorQueue ExecutorLiveness
open ExecutorModel (spawnFails panics)
open ParkerModel (parker ofThread ofWake)
open ParkerReturning ExecutorParkers

universe u
variable {bits : Nat} {T E : Type u} {inner : ExecutorModel.Inner bits}
variable {s : State T E} {a : Action T} {i : Nat}

/-! ## What fairness to a thread is in either part -/

/-- The steps thread `i` takes by itself. When the polls of its future return or
panic is for the future to decide. -/
def OfThread (i : Nat) : Action T → Prop
  | .pool b => Own i b ∧ ∀ task, b ≠ .panic i task
  | .parker j c => j = i ∧ ofThread c

def Executing : Action T → Prop
  | .pool b => Executes b
  | .parker _ _ => False

/-- The unpark that call `j` of `wake` owes thread `i`. -/
def Unparks (i j : Nat) : Action T → Prop
  | .pool _ => False
  | .parker k c => k = i ∧ ofWake j c

structure FairThreads (σ : Execution (stuttering (parkedPool T E inner)) initial) : Prop where
  thread : ∀ i, StronglyFair σ (By (OfThread i))
  execute : WeaklyFair σ (By Executing)
  wakes : ∀ i j, WeaklyFair σ (By (Unparks i j))

section Able
variable {b : ExecutorModel.Action T} {c : ParkerModel.Action PUnit.{u + 1}}

theorem polling_of_inside (matched : Matched s) (inside : (s.parkers i).pc ≠ .outside) :
    ∃ task, s.pool.threads[i]? = some (.polling task) := by
  have inHand : taskAt s.pool i ≠ none := fun none => inside ((matched.outside i).mpr none)
  obtain ⟨task, found⟩ := Option.ne_none_iff_exists'.mp inHand
  obtain ⟨w, here, shows⟩ := Option.bind_eq_some_iff.mp found
  cases w with
  | polling => exact ⟨_, here⟩
  | _ => cases shows

theorem inside_of_mine (mine : ofThread c) (h : ParkerModel.enabled (s.parkers i) c) :
    (s.parkers i).pc ≠ .outside := by
  intro outside
  cases c with
  | store | poll | swap => cases outside.symm.trans h
  | resume => cases outside.symm.trans h.1
  | ret =>
    obtain ⟨result, returning⟩ := h
    cases outside.symm.trans returning
  | _ => exact mine

/-- With no task in hand nothing but the pool holds a thread up. -/
theorem able_of_own (matched : Matched s) (h : ExecutorModel.enabled s.pool b) (own : Own i b)
    (idle : taskAt s.pool i = none) : OfThread i (.pool b) ∧ enabled s (.pool b) := by
  have able : ∀ b' ∈ (Action.pool b).pool?, ExecutorModel.enabled s.pool b' := by
    rintro _ ⟨⟩
    exact h
  cases b with
  | lock j | wake j wait | check j timed_out =>
    exact ⟨⟨own, by rintro task ⟨⟩⟩, able, by rintro p ⟨⟩, trivial⟩
  | turn j =>
    obtain rfl : j = i := own
    refine ⟨⟨rfl, by rintro task ⟨⟩⟩, able, ?_, trivial⟩
    intro p hp
    obtain ⟨_, _, rfl⟩ := Option.map_eq_some_iff.mp hp
    exact (matched.outside j).mpr idle
  | finish j task | panic j task =>
    obtain rfl : j = i := own
    rw [taskAt, h.1] at idle
    cases idle
  | _ => cases own

/-- A thread that its parker lets go on can go on, unless its own call of
`execute` holds the lock. -/
theorem able_of_mine (matched : Matched s) (mine : ofThread c)
    (h : ParkerModel.enabled (s.parkers i) c)
    (free : s.pool.lock.bind ExecutorModel.Holder.caller ≠ some i) :
    ∃ a, OfThread i a ∧ enabled s a := by
  have able : ∀ p ∈ parkerStep s.pool (.parker i c), ParkerModel.enabled (s.parkers p.1) p.2 := by
    rintro _ ⟨⟩
    exact h
  cases c with
  | store | poll | swap | resume =>
    exact ⟨.parker i _, ⟨rfl, mine⟩, by rintro b ⟨⟩, able, trivial⟩
  | ret =>
    obtain ⟨task, here⟩ := polling_of_inside matched (inside_of_mine mine h)
    refine ⟨.pool (.finish i task), ⟨rfl, by rintro other ⟨⟩⟩, ?_, able, trivial⟩
    rintro _ ⟨⟩
    exact ⟨here, free⟩
  | _ => cases mine

/-- A call ends only when the pool has its task finish or panic. -/
theorem stepOf_ends (h : enabled s a) (step : stepOf i s.pool a = some c) (ends : EndsCall c) :
    ∃ task, (c = .ret ∧ a = .pool (.finish i task)) ∨
      (c = .unwind ∧ a = .pool (.panic i task)) := by
  rcases stepOf_cases step with rfl | ⟨rfl, _⟩ | found
  · rcases ends with rfl | rfl <;> exact h.2.2.elim
  · rcases ends with entered | entered <;> cases entered
  · exact found

end Able

section Fair
variable {σ : Execution (stuttering (parkedPool T E inner)) initial} {n : Nat}

theorem pool_acted {b : ExecutorModel.Action T} (acted : σ.action n = some (.pool b)) :
    (poolOf σ).action n = some b :=
  congrArg (fun a => a.bind Action.pool?) acted

theorem of_pool_acted {b : ExecutorModel.Action T} (acted : (poolOf σ).action n = some b) :
    σ.action n = some (.pool b) := by
  obtain ⟨a, acted, seen⟩ := Option.bind_eq_some_iff.mp
    (acted : (σ.action n).bind Action.pool? = some b)
  cases a with
  | pool b' =>
    cases seen
    exact acted
  | parker j c => cases seen

theorem parker_acted (acted : σ.action n = some a) (i : Nat) :
    (parkerOf σ i).action n = stepOf i (σ.state n).pool a :=
  congrArg (fun a => a.bind (stepOf i (σ.state n).pool)) acted

theorem of_parker_acted {c : ParkerModel.Action PUnit.{u + 1}}
    (acted : (parkerOf σ i).action n = some c) :
    ∃ a, σ.action n = some a ∧ stepOf i (σ.state n).pool a = some c :=
  Option.bind_eq_some_iff.mp acted

theorem FairThreads.executes (fair : FairThreads σ) : WeaklyFair (poolOf σ) (By Executes) := by
  refine (toPool T E inner).weaklyFair trivial fair.execute ?_ ?_
  · intro t a own
    cases a with
    | pool b => exact ⟨b, rfl, own⟩
    | parker j c => cases own
  · intro t b own h
    refine ⟨.pool b, own, by rintro _ ⟨⟩; exact h, ?_⟩
    cases b with
    | execute fut caller spawned picked => exact ⟨by rintro p ⟨⟩, trivial⟩
    | _ => cases own

/-- A call of `execute` holds a thread up only so long. -/
theorem FairThreads.unblocked (fair : FairThreads σ) (n i : Nat) :
    ∃ k, n ≤ k ∧ (σ.state k).pool.lock.bind ExecutorModel.Holder.caller ≠ some i := by
  by_cases calls : (σ.state n).pool.lock.bind ExecutorModel.Holder.caller = some i
  · obtain ⟨holder, held, caller⟩ := Option.bind_eq_some_iff.mp calls
    cases holder with
    | worker j => cases caller
    | execute fut own =>
      obtain ⟨k, spawned, picked, hk, acted⟩ := executes_follows fair.executes (σ := poolOf σ) held
      refine ⟨k + 1, by omega, ?_⟩
      rw [show (σ.state (k + 1)).pool.lock = none from (unlocked_of_executes (move_at acted)).2]
      rintro ⟨⟩
  · exact ⟨n, Nat.le_refl n, calls⟩

/-- Inside a call the steps of the thread are what its parker asks for. -/
theorem FairThreads.parker (fair : FairThreads σ) (i : Nat) : FairParker (parkerOf σ i) := by
  constructor
  · intro n always
    have able : ∀ m, n ≤ m → ∃ k, m ≤ k ∧ ∃ a, By (OfThread i) a ∧
        (stuttering (parkedPool T E inner)).enabled (σ.state k) a := by
      intro m hm
      obtain ⟨k, hk, free⟩ := fair.unblocked m i
      obtain ⟨_, ⟨c, rfl, mine⟩, h⟩ := always k (by omega)
      obtain ⟨a, own, enabled⟩ := able_of_mine (matched_at σ k) mine (h c rfl) free
      exact ⟨k, hk, some a, ⟨a, rfl, own⟩, by rintro _ ⟨⟩; exact enabled⟩
    obtain ⟨k, hk, a, acted, own⟩ := fair.thread i n able
    have step := parker_acted acted i
    cases a with
    | parker j c =>
      obtain ⟨rfl, mine⟩ := own
      rw [stepOf_of_step rfl, if_pos rfl] at step
      exact ⟨k, hk, c, step, mine⟩
    | pool b =>
      -- in a call the worker polls, and it is not a panic
      obtain ⟨_, ⟨c, rfl, mine⟩, h⟩ := always k hk
      obtain ⟨task, here⟩ := polling_of_inside (matched_at σ k) (inside_of_mine mine (h c rfl))
      obtain ⟨w, there, next⟩ := next_of_own ((state_acted acted).1.1 b rfl) own.1
      cases here.symm.trans there
      rcases next with rfl | rfl
      · rw [stepOf_of_step rfl, if_pos rfl] at step
        exact ⟨k, hk, .ret, step, trivial⟩
      · exact (own.2 task rfl).elim
  · intro j
    refine (toParker T E inner i).weaklyFair trivial (fair.wakes i j) ?_ ?_
    · intro t a own
      cases a with
      | pool b => cases own
      | parker k c =>
        obtain ⟨rfl, owed⟩ := own
        have step : stepOf k t.pool (.parker k c) = some c :=
          (stepOf_of_step rfl).trans (if_pos rfl)
        exact ⟨c, step, owed⟩
    · intro t c owed h
      refine ⟨.parker i c, ⟨rfl, owed⟩, by rintro b ⟨⟩, by rintro _ ⟨⟩; exact h, ?_⟩
      cases c with
      | unpark k => trivial
      | _ => cases owed

/-- Outside a call the worker goes on by itself, and every call is over some
day. -/
theorem FairThreads.worker (fair : FairThreads σ) (promises : ∀ i, Promises (parkerOf σ i))
    (i : Nat) : StronglyFair (poolOf σ) (By (Own i)) := by
  intro n often
  by_contra never
  obtain ⟨k, hk, _, ⟨b, rfl, own⟩, h⟩ := often n (Nat.le_refl n)
  obtain ⟨w, here, next⟩ := next_of_own (h b rfl) own
  have awake : w ≠ .waiting .asleep := by
    rintro rfl
    exact next
  have stays : ∀ l, k ≤ l → (σ.state l).pool.threads[i]? = some w := fun l hl =>
    stays_from (poolOf σ) (fun p => p.threads[i]? = some w) here
      (fun m a hm acted there => kept_of_other there awake
        (fun own => never ⟨m, by omega, a, acted, own⟩) (move_at acted)) hl
  have shown : ∀ l, k ≤ l → taskAt (σ.state l).pool i = w.task? := by
    intro l hl
    rw [taskAt, stays l hl]
    rfl
  cases inHand : w.task? with
  | some task =>
    have inside : ((parkerOf σ i).state k).pc ≠ .outside := by
      intro outside
      have none := (shown k (Nat.le_refl k)).symm.trans (((matched_at σ k).outside i).mp outside)
      cases inHand.symm.trans none
    obtain ⟨m, c, hm, shows, ends⟩ := call_over rfl (ParkerWakeups.signalled_initial false)
      (fair.parker i) (promises i) inside
    obtain ⟨a, acted, step⟩ := of_parker_acted shows
    obtain ⟨task, ⟨_, rfl⟩ | ⟨_, rfl⟩⟩ := stepOf_ends (state_acted acted).1 step ends
    · exact never ⟨m, by omega, _, pool_acted acted, rfl⟩
    · exact never ⟨m, by omega, _, pool_acted acted, rfl⟩
  | none =>
    obtain ⟨l, hl, a, acted, own⟩ := fair.thread i k (by
      intro m hm
      obtain ⟨l, hl, _, ⟨b, rfl, own⟩, h⟩ := often m (by omega)
      obtain ⟨mine, able⟩ := able_of_own (matched_at σ l) (h b rfl) own
        ((shown l (by omega)).trans inHand)
      exact ⟨l, hl, some (.pool b), ⟨_, rfl, mine⟩, by rintro _ ⟨⟩; exact able⟩)
    cases a with
    | pool b => exact never ⟨l, by omega, b, pool_acted acted, own.1⟩
    | parker j c =>
      obtain ⟨rfl, mine⟩ := own
      have able := (state_acted acted).1.2.1 (j, c) rfl
      exact inside_of_mine mine able
        (((matched_at σ l).outside j).mpr ((shown l (by omega)).trans inHand))

theorem FairThreads.fairPool (fair : FairThreads σ) (promises : ∀ i, Promises (parkerOf σ i)) :
    FairPool (poolOf σ) :=
  ⟨fair.worker promises, fair.executes⟩

/-! ## One task -/

/-- The call of `block_on` that thread `i` begins at `n` ends with `fut`: it
panics, or one poll of it is ready, the only one, and the call returns. -/
def BlocksOn (σ : Execution (stuttering (parkedPool T E inner)) initial) (n i : Nat) (fut : T) :
    Prop :=
  ∃ m, n < m ∧ Pending (parkerOf σ i) n m ∧ (σ.action m = some (.pool (.panic i fut)) ∨
    ∃ l, σ.action m = some (.parker i (.polled (.ready ⟨⟩))) ∧ m < l ∧
      Pending (parkerOf σ i) m l ∧ σ.action l = some (.pool (.finish i fut)))

/-- Until its call ends a worker has the same task in hand. -/
theorem owns_during {fut : T} (owns : Owns (σ.state (n + 1)).pool i fut) {m : Nat}
    (open_still : ∀ k c, n < k → k < m → (parkerOf σ i).action k = some c → ¬ EndsCall c)
    {k : Nat} (hk : n < k) (last : k ≤ m) : Owns (σ.state k).pool i fut := by
  induction k, hk using Nat.le_induction with
  | base => exact owns
  | succ k hk ih =>
    have before : Owns ((poolOf σ).state k) i fut := ih (by omega)
    change Owns ((poolOf σ).state (k + 1)) i fut
    cases acted : (poolOf σ).action k with
    | none =>
      rw [state_paused acted]
      exact before
    | some b =>
      refine kept_of_other before (by rintro ⟨⟩) (fun own => ?_) (move_at acted)
      have shows := parker_acted (of_pool_acted acted) i
      obtain ⟨w, there, next⟩ := next_of_own (state_acted acted).1 own
      cases (Eq.symm before).trans there
      rcases next with rfl | rfl
      · rw [stepOf_of_step rfl, if_pos rfl] at shows
        exact open_still k .ret hk (by omega) shows (Or.inl rfl)
      · rw [stepOf_of_step rfl, if_pos rfl] at shows
        exact open_still k .unwind hk (by omega) shows (Or.inr rfl)

theorem unended_of_pending {m : Nat} (pending : Pending (parkerOf σ i) n m) (k : Nat)
    (c : ParkerModel.Action PUnit.{u + 1}) (hk : n < k) (last : k < m)
    (acted : (parkerOf σ i).action k = some c) : ¬ EndsCall c := by
  obtain ⟨unreturned, unclosed⟩ := pending k c hk last acted
  rintro (rfl | rfl)
  · exact unreturned rfl
  · exact unclosed (Or.inr rfl)

/-- The worker that pops a task blocks on it to its end. -/
theorem blocksOn_of_turn (fair : FairThreads σ) (promises : Promises (parkerOf σ i)) {fut : T}
    (turn : (poolOf σ).action n = some (.turn i))
    (popped : popped? ((poolOf σ).state n, .turn i) = some fut) : BlocksOn σ n i fut := by
  have entered : (parkerOf σ i).action n = some .enter := by
    rw [parker_acted (of_pool_acted turn) i]
    have step : parkerStep (σ.state n).pool (.pool (.turn i)) = some (i, .enter) :=
      congrArg (Option.map fun _ => (i, ParkerModel.Action.enter)) popped
    exact (stepOf_of_step step).trans (if_pos rfl)
  have owns : Owns (σ.state (n + 1)).pool i fut := owns_of_turn turn popped
  obtain ⟨m, hm, pending, unwound | ⟨res, l, ready, hl, pending', _, returned⟩⟩ :=
    call_ends (ParkerWakeups.signalled_initial false) (fair.parker i) promises entered
  · have inHand := owns_during owns (unended_of_pending pending) hm (Nat.le_refl m)
    obtain ⟨a, acted, step⟩ := of_parker_acted unwound
    obtain ⟨h, _⟩ := state_acted acted
    obtain ⟨task, ⟨other, _⟩ | ⟨_, rfl⟩⟩ := stepOf_ends h step (Or.inr rfl)
    · cases other
    · cases (Eq.symm inHand).trans (h.1 _ rfl).1
      exact ⟨m, hm, pending, Or.inl acted⟩
  · have unended : ∀ k c, n < k → k < l → (parkerOf σ i).action k = some c → ¬ EndsCall c := by
      intro k c hk last acted
      rcases Nat.lt_trichotomy k m with before | rfl | after
      · exact unended_of_pending pending k c hk before acted
      · cases ready.symm.trans acted
        rintro (other | other) <;> cases other
      · exact unended_of_pending pending' k c after last acted
    have inHand := owns_during owns unended (by omega : n < l) (Nat.le_refl l)
    obtain ⟨a, acted, step⟩ := of_parker_acted returned
    obtain ⟨h, _⟩ := state_acted acted
    obtain ⟨task, ⟨_, rfl⟩ | ⟨other, _⟩⟩ := stepOf_ends h step (Or.inl rfl)
    · cases (Eq.symm inHand).trans (h.1 _ rfl).1
      obtain ⟨b, polled, step⟩ := of_parker_acted ready
      rcases stepOf_cases step with rfl | ⟨other, _⟩ | ⟨_, ⟨other, _⟩ | ⟨other, _⟩⟩
      · exact ⟨m, hm, pending, Or.inr ⟨l, polled, hl, pending', acted⟩⟩
      all_goals cases other
    · cases other

/-- The task that `execute` has queued is popped in its turn and blocked on. -/
theorem blocked_of_execute (fair : FairThreads σ) (promises : ∀ i, Promises (parkerOf σ i))
    (enduring : Enduring (poolOf σ)) {fut : T} {caller : Option Nat} {spawned : Bool}
    {picked : Option Nat}
    (acted : (poolOf σ).action n = some (.execute fut caller spawned picked)) :
    ∃ j i, PoppedAt (poolOf σ) n fut j i ∧ BlocksOn σ j i fut := by
  obtain ⟨j, i, inTurn⟩ := popped_of_execute (fair.fairPool promises) enduring acted
  have ⟨_, turn, popped, _⟩ := inTurn
  exact ⟨j, i, inTurn, blocksOn_of_turn fair (promises i) turn popped⟩

/-- In a fair execution in which the futures keep their promises, no spawn fails
and fewer tasks panic than the pool may have workers, every call of `execute`
that takes the lock queues its task, and in its turn a worker pops it and blocks
on it until it is ready or panics. -/
theorem tasks_blocked_on (σ : Execution (stuttering (parkedPool T E inner)) initial)
    (fair : FairThreads σ) (promises : ∀ i, Promises (parkerOf σ i))
    (enduring : Enduring (poolOf σ)) {fut : T} {caller : Option Nat}
    (called : σ.action n = some (.pool (.submit fut caller))) :
    ∃ m spawned picked j i, n < m ∧
      σ.action m = some (.pool (.execute fut caller spawned picked)) ∧
      PoppedAt (poolOf σ) m fut j i ∧ BlocksOn σ j i fut := by
  obtain ⟨m, spawned, picked, hm, acted⟩ :=
    executes_follows fair.executes (held_of_submit (pool_acted called))
  obtain ⟨j, i, blocked⟩ := blocked_of_execute fair promises enduring acted
  exact ⟨m, spawned, picked, j, i, by omega, of_pool_acted acted, blocked⟩

end Fair

/-! ## A pool that comes to rest with its parkers -/

section Idle
variable {j : Nat}

theorem idle_thread (idle : Idle s.pool) (outside : ∀ i, (s.parkers i).pc = .outside)
    (own : OfThread i a) (h : enabled s a) : False := by
  cases a with
  | pool b =>
    obtain ⟨w, here, next⟩ := next_of_own (h.1 b rfl) own.1
    exact idle.1 w (List.mem_of_getElem? here) i b next
  | parker k c => exact inside_of_mine own.2 (h.2.1 (k, c) rfl) (outside k)

theorem idle_executing (idle : Idle s.pool) (own : Executing a) (h : enabled s a) : False := by
  cases a with
  | pool b =>
    cases b with
    | execute fut caller spawned picked => exact idle.2 fut caller (h.1 _ rfl).1
    | _ => cases own
  | parker k c => cases own

theorem idle_unparks (unowing : ∀ i j : Nat, (s.parkers i).wakes[j]? ≠ some .unparking)
    (own : Unparks i j a) (h : enabled s a) : False := by
  cases a with
  | pool b => cases own
  | parker k c =>
    obtain ⟨_, owed⟩ := own
    cases c with
    | unpark l => exact unowing k l (h.2.1 (k, .unpark l) rfl)
    | _ => cases owed

end Idle

section Resting
variable {actions : List (Action T)} {legal : Legal (parkedPool T E inner) initial actions}

theorem fairThreads_of_idle (idle : Idle (final (parkedPool T E inner) initial actions).pool)
    (outside : ∀ i, ((final (parkedPool T E inner) initial actions).parkers i).pc = .outside)
    (unowing : ∀ i j : Nat,
      ((final (parkedPool T E inner) initial actions).parkers i).wakes[j]? ≠ some .unparking) :
    FairThreads (resting actions legal) where
  thread _ := resting_stronglyFair fun _ => idle_thread idle outside
  execute := (resting_stronglyFair fun _ => idle_executing idle).weaklyFair
  wakes _ _ := (resting_stronglyFair fun _ => idle_unparks unowing).weaklyFair

end Resting

theorem handsOn_threads :
    (final (parkedPool Nat Nat solo) initial handsOn).pool.threads = [.waiting .asleep] := by decide

theorem handsOn_outside (i : Nat) :
    ((final (parkedPool Nat Nat solo) initial handsOn).parkers i).pc = .outside := by
  have matched := matched_at (resting handsOn handsOn_legal) handsOn.length
  rw [resting_state, List.take_length] at matched
  apply (matched.outside i).mpr
  rw [taskAt, handsOn_threads]
  cases i <;> rfl

theorem handsOn_fair : FairThreads (resting handsOn handsOn_legal) := by
  apply fairThreads_of_idle
  · constructor
    · intro w hw i a next
      rw [handsOn_threads, List.mem_singleton] at hw
      subst hw
      exact next
    · rintro fut caller ⟨⟩
  · exact handsOn_outside
  · intro i j owed
    cases i with
    | zero =>
      have done : ([.done] : List ParkerModel.WakeCall)[j]? = some .unparking := owed
      cases j <;> simp at done
    | succ i => cases j <;> cases owed

theorem handsOn_pending {i n : Nat}
    (pended : (parkerOf (resting handsOn handsOn_legal) i).action n = some (.polled .pending)) :
    i = 0 ∧ n = 8 := by
  obtain ⟨a, acted, step⟩ := of_parker_acted pended
  rcases stepOf_cases step with rfl | ⟨other, _⟩ | ⟨_, ⟨other, _⟩ | ⟨other, _⟩⟩
  · match n with
    | 8 =>
      cases acted
      exact ⟨rfl, rfl⟩
    | 0 | 1 | 2 | 3 | 4 | 5 | 6 | 7 | 9 | 10 | 11 | 12 | 13 | 14 | 15 | 16 | 17 | 18 | 19 | 20
    | 21 | 22 | 23 | 24 | 25 | _ + 26 => cases acted
  all_goals cases other

theorem handsOn_promises (i : Nat) : Promises (parkerOf (resting handsOn handsOn_legal) i) where
  answers n := answers_of_outside (m := handsOn.length) (by
    intro k hk
    change (((resting handsOn handsOn_legal).state k).parkers i).pc = _
    rw [resting_state, List.take_of_length_le hk]
    exact handsOn_outside i)
  wakes := by
    intro m n hm _ _ pended
    obtain ⟨rfl, rfl⟩ := handsOn_pending pended
    exact ⟨11, 0, by omega, rfl⟩
  settles := by
    intro always
    obtain ⟨k, hk, pended⟩ := always 9
    have eighth := (handsOn_pending pended).2
    omega

theorem handsOn_enduring : Enduring (poolOf (resting handsOn handsOn_legal)) := by
  constructor
  · intro n a acted
    have spawns : ∀ b ∈ (Action.pool a).pool?,
        spawnFails solo (((resting handsOn handsOn_legal).state n).pool, b) = false := by
      rw [resting_state]
      exact of_listed (P := fun n a => ∀ b ∈ a.pool?, spawnFails solo
        ((final (parkedPool Nat Nat solo) initial (handsOn.take n)).pool, b) = false) (by decide)
        (of_pool_acted acted)
    exact spawns a rfl
  · intro n
    have calm : (past (poolOf (resting handsOn handsOn_legal)) n).countP panics = 0 := by
      apply ThreadLists.countP_eq_zero_iff.mpr
      intro p hp
      obtain ⟨k, _, _, acted⟩ := mem_past hp
      exact of_listed
        (P := fun _ a => ∀ b ∈ a.pool?, panics (ExecutorModel.initial, b) = false) (by decide)
        (of_pool_acted acted) p.2 rfl
    rw [calm]
    decide

theorem tasks_blocked_on_handsOn :
    let σ : Execution (stuttering (parkedPool Nat Nat solo)) initial :=
      resting handsOn handsOn_legal
    ∃ m spawned picked j i, 6 < m ∧
      σ.action m = some (.pool (.execute 1 (some 0) spawned picked)) ∧
      PoppedAt (poolOf σ) m 1 j i ∧ BlocksOn σ j i 1 :=
  tasks_blocked_on _ handsOn_fair handsOn_promises handsOn_enduring rfl

end ExecutorBlocking
