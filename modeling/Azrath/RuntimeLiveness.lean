import Azrath.RuntimeModel

/-!
# Tasks that wait for streams

Of a stream that it waits for a task promises no more than that `mio` will
report it. The wake-up, the unpark and the next poll follow, so a task whose
polls end and that is not pending for ever is polled to its end.
-/

namespace RuntimeLiveness

open GuardedRuns FairExecutions StutteringExecutions RuntimeModel
open ExecutorBlocking ExecutorLiveness ParkerReturning
open ExecutorAccounting (solo)
open ExecutorModel (panics spawnFails)
open ExecutorParkers (parkedPool parkerOf poolOf stepOf stepOf_of_step)
open ReactorLiveness (Upcoming woken_or_disturbed)
open ReactorModel (Token Waker reactor)
open ReactorReadiness (writable)
open ReactorWakers (Holds)

universe u
variable {bits : Nat} {T E W R : Type u} {inner : ExecutorModel.Inner bits}
variable [Waker W (Option Nat)] {i j n : Nat}

/-! ## Steps of the parts -/

/-- A call of `wake` stays where it is until its own swap. -/
theorem called_kept {V : Type u} {s : ParkerModel.State V E} {a : ParkerModel.Action V}
    (h : ParkerModel.enabled s a) (called : s.wakes[j]? = some .called) (other : a ≠ .swapFalse j) :
    (ParkerModel.effect s a).wakes[j]? = some .called := by
  cases a with
  | wake =>
    have bound := (List.getElem?_eq_some_iff.mp called).1
    exact (List.getElem?_append_left bound).trans called
  | swapFalse l =>
    exact (List.getElem?_set_ne fun same => other (congrArg _ same)).trans called
  | unpark l =>
    refine (List.getElem?_set_ne ?_).trans called
    rintro rfl
    cases called.symm.trans h
  | _ => exact called

section Steps
variable {σ : Execution (stuttering (runtime T E W R inner)) initial}

theorem of_net_acted {b : ReactorModel.Action bits W R} (acted : (netOf σ).action n = some b) :
    σ.action n = some (.net b) := by
  obtain ⟨a, acted, seen⟩ := Option.bind_eq_some_iff.mp
    (acted : (σ.action n).bind Action.net? = some b)
  cases a with
  | thread c => cases seen
  | net c =>
    cases seen
    exact acted

/-- All that the threads see of the event loop is that a parker is woken. -/
theorem of_thread_acted {b : ExecutorParkers.Action T} (acted : (threadsOf σ).action n = some b) :
    σ.action n = some (.thread b) ∨ ∃ i, b = .parker i .wake := by
  obtain ⟨a, acted, seen⟩ := Option.bind_eq_some_iff.mp
    (acted : (σ.action n).bind Action.thread? = some b)
  cases a with
  | thread c =>
    cases seen
    exact Or.inl acted
  | net c =>
    cases c with
    | wake waker rest =>
      obtain ⟨i, _, rfl⟩ := Option.map_eq_some_iff.mp seen
      exact Or.inr ⟨i, rfl⟩
    | _ => cases seen

theorem of_pool_acted {b : ExecutorModel.Action T}
    (acted : (poolOf (threadsOf σ)).action n = some b) : σ.action n = some (.thread (.pool b)) := by
  rcases of_thread_acted (ExecutorBlocking.of_pool_acted acted) with own | ⟨_, other⟩
  · exact own
  · cases other

variable (σ) in
/-- The parker of thread `i`. -/
def parkerIn (i : Nat) := parkerOf (threadsOf σ) i

theorem parker_woken {waker : W} {rest : List W}
    (acted : σ.action n = some (.net (.wake waker rest))) (mine : Waker.task waker = some i) :
    (parkerIn σ i).action n = some .wake := by
  have seen : (threadsOf σ).action n = some (.parker i .wake) := by
    change (σ.action n).bind Action.thread? = _
    rw [acted]
    exact congrArg (Option.map fun i => ExecutorParkers.Action.parker i .wake) mine
  exact (parker_acted seen i).trans ((stepOf_of_step rfl).trans (if_pos rfl))

/-- A wake of the event loop lets the flag of the parker fall. -/
theorem swap_follows (fair : FairRuntime σ) (woken : (parkerIn σ i).action n = some .wake) :
    ∃ k j, n < k ∧ (parkerIn σ i).action k = some (.swapFalse j) := by
  let j := ((parkerIn σ i).state n).wakes.length
  have called : ((parkerIn σ i).state (n + 1)).wakes[j]? = some .called := by
    rw [(state_acted woken).2]
    exact List.getElem?_concat_length
  obtain ⟨k, _, hk, _, acted, rfl⟩ := acts_of_weaklyFair
    (P := fun t : ParkerModel.State PUnit E => t.wakes[j]? = some .called) (fair.swap i j) called
    (fun k a _ acted before other => by
      obtain ⟨h, step⟩ := state_acted acted
      rw [step]
      exact called_kept h before other)
    (fun k _ before => ⟨.swapFalse j, rfl, before⟩)
  exact ⟨k, j, hk, acted⟩

end Steps

/-! ## What a task promises -/

section Promises
variable (σ : Execution (stuttering (runtime T E W R inner)) initial)

/-- The event loop wakes thread `i`. -/
def Wakes (i n : Nat) : Prop :=
  ∃ waker rest, σ.action n = some (.net (.wake waker rest)) ∧ Waker.task waker = some i

/-- The stream is dropped, or another task takes its slot. -/
def Disturbed (i c : Nat) (token : ReactorModel.Token bits) (d : ReactorModel.Direction) (n : Nat) :
    Prop :=
  σ.action n = some (.net (.remove c token)) ∨
    ∃ cx, σ.action n = some (.net (.store c d cx)) ∧ Waker.task cx ≠ some i

/-- During the poll from `m` to `n` the thread gets a waker into the slot of a
live stream, `mio` reports the stream then, and nobody disturbs it before the
thread is woken. -/
def AwaitsStream (i m n : Nat) : Prop :=
  ∃ k c d cx token, m < k ∧ k ≤ n ∧ Waker.task cx = some i ∧
    (σ.state k).net.streams[c]? = some (.live token) ∧ Holds (σ.state k).net c d cx ∧
    (∃ l event, k ≤ l ∧ event.token = token ∧ event.ready d = true ∧
      Upcoming event (σ.state l).net.reactor) ∧
    ∀ l, k ≤ l → Disturbed σ i c token d l → ∃ l', k ≤ l' ∧ l' < l ∧ Wakes σ i l'

/-- As `Promises`, but that a task is woken which waits for a stream is not part
of it. -/
structure IoPromises (i : Nat) : Prop where
  answers : ∀ n, ((parkerIn σ i).state n).pc = .polling →
    ∃ m a, n ≤ m ∧ (parkerIn σ i).action m = some a ∧ EndsPoll a
  waits : ∀ m n, m < n → (parkerIn σ i).action m = some .poll →
    (∀ k, m < k → k ≤ n → ((parkerIn σ i).state k).pc = .polling) →
    (parkerIn σ i).action n = some (.polled .pending) →
    AwaitsStream σ i m n ∨ ∃ k j, m < k ∧ (parkerIn σ i).action k = some (.swapFalse j)
  settles : (∀ l, ∃ k, l ≤ k ∧ (parkerIn σ i).action k = some (.polled .pending)) →
    ∀ l, ∃ k a, l ≤ k ∧ (parkerIn σ i).action k = some a ∧ Closes a

end Promises

section Served
variable {σ : Execution (stuttering (runtime T E W R inner)) initial}

/-- The event loop wakes the thread that awaits a stream. -/
theorem woken_of_awaits (fair : FairRuntime σ)
    (few : ∀ n, (σ.state n).net.streams.length < 2 ^ bits) {m : Nat}
    (awaits : AwaitsStream σ i m n) : ∃ l, m < l ∧ Wakes σ i l := by
  obtain ⟨k, c, d, cx, token, hk, _, mine, live, holds, ⟨l, event, hl, here, ready, upcoming⟩,
    undisturbed⟩ := awaits
  obtain ⟨r, _, _, _, ⟨j, l', waker, hj, hl', _, _, ⟨rest, woke⟩, same, _⟩ |
      ⟨l', hl', _, disturbs⟩⟩ :=
    woken_or_disturbed (σ := netOf σ) fair.net few live holds here ready hl upcoming
  · exact ⟨l', by omega, waker, rest, of_net_acted woke, same.trans mine⟩
  · have taken : Disturbed σ i c token d l' := by
      rcases disturbs with removed | ⟨cx', stored, other⟩
      · exact Or.inl (of_net_acted removed)
      · exact Or.inr ⟨cx', of_net_acted stored, fun same => other (same.trans mine.symm)⟩
    obtain ⟨l'', hl'', _, woken⟩ := undisturbed l' hl' taken
    exact ⟨l'', by omega, woken⟩

/-- So it is polled again, whatever it waits for. -/
theorem IoPromises.promises (io : IoPromises σ i) (fair : FairRuntime σ)
    (few : ∀ n, (σ.state n).net.streams.length < 2 ^ bits) : Promises (parkerIn σ i) where
  answers := io.answers
  settles := io.settles
  wakes := by
    intro m n hm begins polling pended
    rcases io.waits m n hm begins polling pended with awaits | woken
    · obtain ⟨l, hl, waker, rest, acted, mine⟩ := woken_of_awaits fair few awaits
      obtain ⟨k, j, hk, swapped⟩ := swap_follows fair (parker_woken acted mine)
      exact ⟨k, j, by omega, swapped⟩
    · exact woken

/-- In a fair execution with fewer registrations than tokens, in which each task
is woken for itself or waits for streams that are reported, no task is pending
for ever, no spawn fails and fewer tasks panic than the pool may have workers,
every call of `execute` that takes the lock queues its task, and in its turn a
worker pops it and blocks on it until it is ready or panics. -/
theorem tasks_served (σ : Execution (stuttering (runtime T E W R inner)) initial)
    (fair : FairRuntime σ) (few : ∀ n, (σ.state n).net.streams.length < 2 ^ bits)
    (io : ∀ i, IoPromises σ i) (enduring : Enduring (poolOf (threadsOf σ))) {fut : T}
    {caller : Option Nat} (called : σ.action n = some (.thread (.pool (.submit fut caller)))) :
    ∃ m spawned picked j i, n < m ∧
      σ.action m = some (.thread (.pool (.execute fut caller spawned picked))) ∧
      PoppedAt (poolOf (threadsOf σ)) m fut j i ∧ BlocksOn (threadsOf σ) j i fut := by
  have submitted : (threadsOf σ).action n = some (.pool (.submit fut caller)) :=
    congrArg (fun a => a.bind Action.thread?) called
  obtain ⟨m, spawned, picked, hm, acted⟩ :=
    executes_follows fair.threads.executes (held_of_submit (pool_acted submitted))
  obtain ⟨j, i, blocked⟩ :=
    blocked_of_execute fair.threads (fun i => (io i).promises fair few) enduring acted
  exact ⟨m, spawned, picked, j, i, by omega, of_pool_acted acted, blocked⟩

end Served

/-! ## A task that waits for a stream once -/

section Legal
variable {s : State bits T E W R}

theorem legal_thread {b : ExecutorParkers.Action T} {rest : List (Action bits T W R)}
    (h : ExecutorParkers.enabled s.threads b) (free : allowed s (.thread b))
    (later : Legal (runtime T E W R inner) (effect inner s (.thread b)) rest) :
    Legal (runtime T E W R inner) s (.thread b :: rest) :=
  ⟨⟨by rintro _ ⟨⟩; exact h, by rintro _ ⟨⟩, free⟩, later⟩

theorem legal_net {b : ReactorModel.Action bits W R} {rest : List (Action bits T W R)}
    (h : ReactorModel.enabled s.net b) (free : allowed s (.net b))
    (later : Legal (runtime T E W R inner) (effect inner s (.net b)) rest) :
    Legal (runtime T E W R inner) s (.net b :: rest) :=
  ⟨⟨fun _ shows => able_shown shows, by rintro _ ⟨⟩; exact h, free⟩, later⟩

end Legal

/-- Wakers that are just the thread of their parker. -/
instance : Waker (Option Nat) (Option Nat) where
  task w := w
  will_wake w w' := w == w'
  clone w := w
  will_wake_task := by simp
  clone_task _ := rfl

/-- A stream is registered, a task waits for it to become writable, and it does. -/
def served : List (Action 64 Nat (Option Nat) Nat) :=
  [.net .register, .net (.set_nonblocking 0 true), .net (.fetch_add 0),
    .net (.registry_register 0 Token.zero true), .net (.insert 0 Token.zero),
    .thread (.pool (.submit 0 none)), .thread (.pool (.execute 0 none true none)),
    .thread (.pool (.lock 0)), .thread (.pool (.turn 0)), .thread (.parker 0 .store),
    .thread (.parker 0 .poll), .net (.start 0 .write (some 0)), .net (.check 0 .write (some 0)),
    .net (.store 0 .write (some 0)), .net (.recheck 0 .write (some 0)),
    .thread (.parker 0 (.polled .pending)), .thread (.parker 0 .swap),
    .net (.poll [writable 0]), .net (.lookup (writable 0) []),
    .net (.take 0 (writable 0) [] .read), .net (.trigger 0 (writable 0) [] .read),
    .net (.take 0 (writable 0) [] .write), .net (.trigger 0 (writable 0) [] .write),
    .net (.wake (some 0) []), .net .done, .thread (.parker 0 (.swapFalse 0)),
    .thread (.parker 0 (.unpark 0)), .thread (.parker 0 .resume), .thread (.parker 0 .swap),
    .thread (.parker 0 .poll), .net (.start 0 .write (some 0)), .net (.check 0 .write (some 0)),
    .net (.attempt 0 .write (some 0) (some 3)), .thread (.parker 0 (.polled (.ready ⟨⟩))),
    .thread (.pool (.finish 0 0)), .thread (.pool (.lock 0)), .thread (.pool (.turn 0))]

theorem served_legal : Legal (runtime Nat Nat (Option Nat) Nat solo) initial served := by
  have polls : ∀ {s : ExecutorParkers.State Nat Nat}, (s.parkers 0).pc = .polling →
      s.pool.lock = none → ∀ i ∈ Waker.task (some 0 : Option Nat), Polls s i := by
    rintro s polling free _ ⟨⟩
    exact ⟨polling, by rw [free]; rintro ⟨⟩⟩
  refine legal_net trivial trivial <| legal_net rfl trivial <| legal_net rfl trivial <|
    legal_net rfl trivial <| legal_net ⟨rfl, rfl⟩ trivial <|
    legal_thread (by decide) trivial <| legal_thread (by decide) trivial <|
    legal_thread (by decide) trivial <| legal_thread (by decide) trivial <|
    legal_thread (by decide) trivial <| legal_thread (by decide) trivial <|
    legal_net ⟨⟨_, rfl⟩, rfl⟩ (fun i hi => ⟨polls rfl rfl i hi, ?_⟩) <|
    legal_net rfl (polls rfl rfl) <| legal_net ⟨rfl, id⟩ (polls rfl rfl) <|
    legal_net rfl (polls rfl rfl) <| legal_thread (by decide) ?_ <|
    legal_thread (by decide) trivial <| legal_net ⟨rfl, ?_⟩ trivial <|
    legal_net ⟨rfl, rfl⟩ trivial <| legal_net rfl trivial <| legal_net rfl trivial <|
    legal_net rfl trivial <| legal_net rfl trivial <| legal_net ⟨rfl, rfl⟩ trivial <|
    legal_net ⟨rfl, rfl⟩ trivial <| legal_thread (by decide) trivial <|
    legal_thread (by decide) trivial <| legal_thread (by decide) trivial <|
    legal_thread (by decide) trivial <| legal_thread (by decide) trivial <|
    legal_net ⟨⟨_, rfl⟩, rfl⟩ (fun i hi => ⟨polls rfl rfl i hi, ?_⟩) <|
    legal_net rfl (polls rfl rfl) <| legal_net rfl (polls rfl rfl) <|
    legal_thread (by decide) ?_ <| legal_thread (by decide) trivial <|
    legal_thread (by decide) trivial <| legal_thread (by decide) trivial trivial
  · rintro ⟨_ | c, _ | _, busy⟩ <;> cases busy
  · rintro ⟨_ | c, _ | _, busy⟩ <;> cases busy
  · intro event listed
    obtain rfl := List.mem_singleton.mp listed
    exact ⟨⟨0, rfl⟩, fun _ => Nat.zero_le _⟩
  · rintro ⟨_ | c, _ | _, busy⟩ <;> cases busy
  · rintro ⟨_ | c, _ | _, busy⟩ <;> cases busy

theorem served_threads :
    (final (runtime Nat Nat (Option Nat) Nat solo) initial served).threads.pool.threads =
      [.waiting .asleep] := by decide

theorem served_idle :
    Idle (final (runtime Nat Nat (Option Nat) Nat solo) initial served).threads.pool := by
  constructor
  · intro w hw i a next
    rw [served_threads, List.mem_singleton] at hw
    subst hw
    exact next
  · rintro fut caller ⟨⟩

theorem served_outside (i : Nat) :
    ((final (runtime Nat Nat (Option Nat) Nat solo) initial served).threads.parkers i).pc =
      .outside := by
  have matched := ExecutorParkers.matched_at (threadsOf (resting served served_legal)) served.length
  change ExecutorParkers.Matched ((resting served served_legal).state served.length).threads
    at matched
  rw [resting_state, List.take_length] at matched
  apply (matched.outside i).mpr
  rw [ExecutorParkers.taskAt, served_threads]
  cases i <;> rfl

/-- Every call of `wake` is over. -/
theorem served_woken {i j : Nat} {call : ParkerModel.WakeCall}
    (made : ((final (runtime Nat Nat (Option Nat) Nat solo) initial served).threads.parkers
      i).wakes[j]? = some call) : call = .done := by
  cases i with
  | zero =>
    have only : ([.done] : List ParkerModel.WakeCall)[j]? = some call := made
    exact List.mem_singleton.mp (List.mem_of_getElem? only)
  | succ i => cases j <;> cases made

theorem served_fair : FairRuntime (resting served served_legal) where
  thread i := resting_stronglyFair fun a own h => by
    cases a with
    | thread b => exact idle_thread served_idle served_outside own (h.1 b rfl)
    | net b => cases own
  execute := (resting_stronglyFair fun a own h => by
    cases a with
    | thread b => exact idle_executing served_idle own (h.1 b rfl)
    | net b => cases own).weaklyFair
  swaps i j := (resting_stronglyFair fun a own h => by
    cases a with
    | thread b =>
      cases b with
      | pool b => cases own
      | parker k c =>
        obtain ⟨rfl, rfl⟩ := own
        cases served_woken ((h.1 _ rfl).2.1 (k, .swapFalse j) rfl)
    | net b => cases own).weaklyFair
  unparks i j := (resting_stronglyFair fun a own h => by
    cases a with
    | thread b =>
      exact idle_unparks (fun _ _ owed => by cases served_woken owed) own (h.1 b rfl)
    | net b => cases own).weaklyFair
  reactor := resting_stronglyFair fun a own h => by
    cases a with
    | thread b => cases own
    | net b =>
      have able := h.2.1 b rfl
      cases b with
      | lookup event rest => cases able.2
      | take c event rest d => cases able
      | trigger c event rest d => cases able
      | wake waker rest => cases able.1
      | done => cases able.1
      | _ => exact own
  drops := (resting_stronglyFair fun a own h => by
    cases a with
    | thread b => cases own
    | net b =>
      have able := h.2.1 b rfl
      cases b with
      | deregister c k =>
        have only : (final (runtime Nat Nat (Option Nat) Nat solo) initial served).net.streams =
            [.live Token.zero] := rfl
        have removed := List.mem_of_getElem? able
        rw [only, List.mem_singleton] at removed
        cases removed
      | _ => exact own).weaklyFair

/-- The thread whose poll is pending. -/
def pends? : Action 64 Nat (Option Nat) Nat → Option Nat
  | .thread (.parker i (.polled .pending)) => some i
  | _ => none

theorem served_pending {i n : Nat}
    (pended : (parkerIn (resting served served_legal) i).action n = some (.polled .pending)) :
    i = 0 ∧ n = 15 := by
  obtain ⟨b, shows, step⟩ := of_parker_acted pended
  rcases ExecutorParkers.stepOf_cases step with rfl | ⟨other, _⟩ | ⟨_, ⟨other, _⟩ | ⟨other, _⟩⟩
  · rcases of_thread_acted shows with acted | ⟨_, other⟩
    · exact of_listed (P := fun n a => ∀ j ∈ pends? a, j = 0 ∧ n = 15) (by decide) acted i rfl
    · cases other
  all_goals cases other

theorem served_promises (i : Nat) : IoPromises (resting served served_legal) i where
  answers n := answers_of_outside (m := served.length) (by
    intro k hk
    change (((resting served served_legal).state k).threads.parkers i).pc = _
    rw [resting_state, List.take_of_length_le hk]
    exact served_outside i)
  waits := by
    intro m n hm polls _ pended
    obtain ⟨rfl, rfl⟩ := served_pending pended
    refine Or.inl ⟨14, 0, .write, some 0, Token.zero, ?_, by omega, rfl, rfl, ⟨some 0, rfl, rfl⟩,
      ⟨18, writable 0, by omega, rfl, rfl, List.mem_cons_self⟩, ?_⟩
    · rcases Nat.lt_or_ge m 14 with before | after
      · exact before
      · obtain rfl : m = 14 := by omega
        cases polls
    · rintro l _ (removed | ⟨cx, stored, other⟩)
      · rw [resting_action] at removed
        simpa [served] using List.mem_of_getElem? removed
      · rw [resting_action] at stored
        have own : cx = some 0 := by simpa [served] using List.mem_of_getElem? stored
        exact (other own).elim
  settles := by
    intro always
    obtain ⟨k, hk, pended⟩ := always 16
    have only := (served_pending pended).2
    omega

theorem served_enduring : Enduring (poolOf (threadsOf (resting served served_legal))) := by
  constructor
  · intro n b acted
    have spawns : ∀ c ∈ (Action.thread (.pool b) : Action 64 Nat (Option Nat) Nat).thread?,
        ∀ b ∈ c.pool?,
          spawnFails solo (((resting served served_legal).state n).threads.pool, b) = false := by
      rw [resting_state]
      exact of_listed (P := fun n a => ∀ c ∈ a.thread?, ∀ b ∈ c.pool?, spawnFails solo
        ((final (runtime Nat Nat (Option Nat) Nat solo) initial (served.take n)).threads.pool,
          b) = false) (by decide) (of_pool_acted acted)
    exact spawns _ rfl b rfl
  · intro n
    have calm : (past (poolOf (threadsOf (resting served served_legal))) n).countP panics = 0 := by
      apply ThreadLists.countP_eq_zero_iff.mpr
      intro p hp
      obtain ⟨k, _, _, acted⟩ := mem_past hp
      exact of_listed
        (P := fun _ a => ∀ c ∈ a.thread?, ∀ b ∈ c.pool?,
          panics (ExecutorModel.initial, b) = false) (by decide)
        (of_pool_acted acted) _ rfl p.2 rfl
    rw [calm]
    decide

theorem tasks_served_served :
    let σ : Execution (stuttering (runtime Nat Nat (Option Nat) Nat solo)) initial :=
      resting served served_legal
    ∃ m spawned picked j i, 5 < m ∧
      σ.action m = some (.thread (.pool (.execute 0 none spawned picked))) ∧
      PoppedAt (poolOf (threadsOf σ)) m 0 j i ∧ BlocksOn (threadsOf σ) j i 0 :=
  tasks_served _ served_fair
    (of_reached (P := fun s : State 64 Nat Nat (Option Nat) Nat => s.net.streams.length < 2 ^ 64)
      (by decide)) served_promises served_enduring rfl

end RuntimeLiveness
