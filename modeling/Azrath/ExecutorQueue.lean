import Azrath.ExecutorProgress

/-!
# The order of the tasks and the lock around the queue

Tasks are popped in the order in which they were given to `execute`, the worker
that popped one polls it until it finishes or panics, and meanwhile its loop does
not hold the lock. Whoever holds the lock gives it up by steps of its own.
-/

namespace ExecutorQueue

open GuardedRuns ExecutorModel ExecutorAccounting ExecutorProgress

universe u
variable {bits : Nat} {T : Type u} {inner : Inner bits} {s t : State T} {a : Action T}
variable {history : List (State T × Action T)}

/-- The worker has the task in hand. -/
def Owns (s : State T) (i : Nat) (task : T) : Prop := s.threads[i]? = some (.polling task)

/-- The worker is done with the task, one way or the other. -/
def Ends (i : Nat) (task : T) (a : Action T) : Prop := a = .finish i task ∨ a = .panic i task

/-- The worker has had the task in hand ever since, or until it was done with it. -/
def Owned (i : Nat) (task : T) (after : List (State T × Action T)) (s : State T) : Prop :=
  ((∀ r ∈ after, Owns r.1 i task) ∧ Owns s i task) ∨
    ∃ mid q last, after = mid ++ q :: last ∧ (∀ r ∈ mid, Owns r.1 i task) ∧
      Owns q.1 i task ∧ Ends i task q.2

/-- Only the worker itself puts a task out of its hands. -/
theorem owns_step {i : Nat} {task : T} (owns : Owns s i task) (move : Move inner s a t) :
    Owns t i task ∨ Ends i task a := by
  have apart : ∀ {j : Nat} {w : Worker T}, s.threads[j]? = some w → w ≠ .polling task → j ≠ i := by
    rintro j w here other rfl
    exact other (Option.some.inj (here.symm.trans owns))
  have kept : ∀ {j : Nat} (w : Worker T), j ≠ i →
      (s.threads.set j w)[i]? = some (.polling task) := by
    intro j w other
    rw [List.getElem?_set_ne other]
    exact owns
  cases move with
  | submit free | notifyNobody held some_idle awake | full held none_idle no_room =>
    exact Or.inl owns
  | spawn spawned held none_idle room =>
    have bound := (List.getElem?_eq_some_iff.mp owns).1
    cases spawned with
    | false => exact Or.inl owns
    | true => exact Or.inl ((List.getElem?_append_left bound).trans owns)
  | notify held some_idle asleep => exact Or.inl (kept _ (apart asleep (by simp)))
  | lock free here outside =>
    refine Or.inl (kept _ (apart here ?_))
    rcases outside with rfl | rfl <;> simp
  | @finish j task' here =>
    by_cases same : j = i
    · subst same
      cases here.symm.trans owns
      exact Or.inr (Or.inl rfl)
    · exact Or.inl (kept _ same)
  | @panic j task' here =>
    by_cases same : j = i
    · subst same
      cases here.symm.trans owns
      exact Or.inr (Or.inr rfl)
    · exact Or.inl (kept _ same)
  | pop here front | rest here empty | timeout here | wake free here | take here called
  | leave here uncalled | again here uncalled =>
    exact Or.inl (kept _ (apart here (by simp)))

theorem pop_owns {i : Nat} {task : T} (h : enabled s (.turn i))
    (popped : popped? (s, .turn i) = some task) :
    Owns (effect inner s (.turn i)) i task := by
  have bound := (List.getElem?_eq_some_iff.mp h).1
  cases front : s.shared.queue with
  | nil => simp [popped?, front] at popped
  | cons first rest =>
    obtain rfl : first = task := by simpa [popped?, front] using popped
    simp [Owns, effect, State.resume, Shared.turn, front, bound]

theorem owned_run {i : Nat} {task : T} (inv : Accounted inner s) (owns : Owns s i task)
    (run : Run (pool T inner) s history t) : Owned i task history t := by
  have both : Accounted inner t ∧ Owned i task history t := by
    refine run.history_invariant (fun past u => Accounted inner u ∧ Owned i task past u)
      ⟨inv, Or.inl ⟨by simp, owns⟩⟩ ?_
    rintro past u a _ ⟨inv, owned⟩ h
    have move := effect_move inv h
    refine ⟨inv.move move, ?_⟩
    rcases owned with ⟨sofar, owns⟩ | ⟨mid, q, last, rfl, sofar, owned, ends⟩
    · rcases owns_step owns move with still | ends
      · refine Or.inl ⟨?_, still⟩
        intro r hr
        rcases List.mem_append.mp hr with old | new
        · exact sofar r old
        · rw [List.mem_singleton.mp new]
          exact owns
      · exact Or.inr ⟨past, _, [], rfl, sofar, owns, ends⟩
    · exact Or.inr ⟨mid, q, last ++ [(u, a)], by simp, sofar, owned, ends⟩
  exact both.2

/-! ## Who holds the lock -/

/-- A worker that holds the lock is in its critical section. -/
def Inside (s : State T) : Prop :=
  ∀ i, s.lock = some (.worker i) → ∃ w, s.threads[i]? = some w ∧ w.holding = true

theorem Inside.move (inside : Inside s) (move : Move inner s a t) : Inside t := by
  have kept : ∀ {j : Nat} {w w' : Worker T}, s.threads[j]? = some w → w.holding = false →
      ∀ i, s.lock = some (.worker i) →
        ∃ v, (s.threads.set j w')[i]? = some v ∧ v.holding = true := by
    intro j w w' here out i held
    obtain ⟨v, there, holding⟩ := inside i held
    have other : j ≠ i := by
      rintro rfl
      cases here.symm.trans there
      cases out.symm.trans holding
    exact ⟨v, by rwa [List.getElem?_set_ne other], holding⟩
  have own : ∀ {i : Nat} {w w' : Worker T}, s.threads[i]? = some w → w'.holding = true →
      ∃ v, (s.threads.set i w')[i]? = some v ∧ v.holding = true := by
    intro i w w' here holds
    exact ⟨w', by simp [(List.getElem?_eq_some_iff.mp here).1], holds⟩
  intro i held
  cases move with
  | finish here | panic here | timeout here => exact kept here rfl i held
  | lock free here outside =>
    cases held
    exact own here rfl
  | wake free here =>
    cases held
    exact own here rfl
  | @take j timed_out here called =>
    obtain ⟨v, there, holding⟩ := inside i held
    by_cases same : j = i
    · subst same
      exact own here rfl
    · exact ⟨v, by rwa [List.getElem?_set_ne same], holding⟩
  | _ => cases held

theorem inside_run (run : Run (pool T inner) initial history s) : Inside s := by
  have both : Accounted inner s ∧ Inside s := by
    refine run.invariant (fun t => Accounted inner t ∧ Inside t) ?_
      ⟨accounted_initial, fun i held => by cases held⟩
    rintro t a ⟨inv, inside⟩ h
    have move := effect_move inv h
    exact ⟨inv.move move, inside.move move⟩
  exact both.2

/-- The steps that only the holder of the lock can take. -/
def OfHolder : Holder T → Action T → Prop
  | .execute fut caller, .execute fut' caller' _ _ => fut' = fut ∧ caller' = caller
  | .worker i, .turn j | .worker i, .check j _ => j = i
  | _, _ => False

/-- By one or two steps of its own the holder frees the lock. -/
def Releases (inner : Inner bits) (s : State T) (holder : Holder T) : Prop :=
  ∃ actions : List (Action T), actions.length ≤ 2 ∧ (∀ a ∈ actions, OfHolder holder a) ∧
    Legal (pool T inner) s actions ∧ (final (pool T inner) s actions).lock = none

theorem exists_pick (s : State T) : ∃ picked, s.CanPick picked := by
  by_cases awake : s.count Worker.isAsleep = 0
  · exact ⟨none, awake⟩
  · obtain ⟨w, hw, asleep⟩ := List.countP_pos_iff.mp (Nat.pos_of_ne_zero awake)
    obtain ⟨i, here⟩ := List.mem_iff_getElem?.mp hw
    refine ⟨some i, here.trans ?_⟩
    cases w with
    | waiting wait => cases wait <;> first | rfl | cases asleep
    | _ => cases asleep

theorem turn_unlocks (inner : Inner bits) (s : State T) (i : Nat) :
    (effect inner s (.turn i)).lock = none := by
  simp only [effect, Shared.turn]
  split
  · rfl
  · unfold checkedAdd
    split <;> rfl

theorem releases_locked {i : Nat} (here : s.threads[i]? = some .locked) :
    Releases inner s (.worker i) :=
  ⟨[.turn i], by simp, by simp [OfHolder], ⟨here, trivial⟩, turn_unlocks inner s i⟩

theorem releases_of_held (inv : Accounted inner s) (inside : Inside s) {holder : Holder T}
    (held : s.lock = some holder) : Releases inner s holder := by
  cases holder with
  | execute fut caller =>
    obtain ⟨picked, pick⟩ := exists_pick s
    refine ⟨[.execute fut caller true picked], by simp, by simp [OfHolder],
      ⟨⟨held, pick⟩, trivial⟩, ?_⟩
    change (effect inner s (.execute fut caller true picked)).lock = none
    obtain ⟨r, section_eq⟩ := Option.isSome_iff_exists.mp (inv.execute_isSome fut)
    simp [effect, section_eq]
  | worker i =>
    obtain ⟨w, here, holding⟩ := inside i held
    cases w with
    | locked => exact releases_locked here
    | woken timed_out =>
      have bound := (List.getElem?_eq_some_iff.mp here).1
      by_cases unlocked : (effect inner s (.check i timed_out)).lock = none
      · exact ⟨[.check i timed_out], by simp, by simp [OfHolder], ⟨here, trivial⟩, unlocked⟩
      · -- it has found a notification and goes back to the queue
        refine ⟨[.check i timed_out, .turn i], by simp, by simp [OfHolder],
          ⟨here, ?_, trivial⟩, turn_unlocks inner _ i⟩
        have move := check_move inv here
        change (effect inner s (.check i timed_out)).threads[i]? = some .locked
        generalize effect inner s (.check i timed_out) = u at move unlocked
        cases move with
        | take here called => simp [bound]
        | leave here uncalled => exact absurd rfl unlocked
        | again here uncalled => exact absurd rfl unlocked
    | _ => cases holding

/-- Tasks leave the queue in the order in which they came, each for the hands of
one worker; no worker holds the lock with a task in hand, so a task may call
`execute`, and nobody holds the lock for long. -/
theorem dequeued_in_order (run : Run (pool T inner) initial history s) :
    history.filterMap submitted? = history.filterMap popped? ++ s.shared.queue ∧
    (history.filterMap popped?).Perm
      (history.filterMap finished? ++ history.filterMap panicked? ++ inHand s) ∧
    (∀ before u i task after, history = before ++ (u, .turn i) :: after →
      popped? (u, .turn i) = some task → Owned i task after s) ∧
    (∀ i task, Owns s i task → s.lock ≠ some (.worker i) ∧
      (s.lock = none → ∀ fut, enabled s (.submit fut (some i)))) ∧
    ∀ holder, s.lock = some holder → Releases inner s holder := by
  refine ⟨submitted_eq run, popped_perm run, ?_, ?_, ?_⟩
  · intro before u i task after split popped
    obtain ⟨first, h, later⟩ := run.cut split
    have inv := accounted_run first
    have step := inv.move (effect_move (a := .turn i) inv h)
    exact owned_run step (pop_owns h popped) later
  · intro i task owns
    constructor
    · intro held
      obtain ⟨w, here, holding⟩ := inside_run run i held
      cases here.symm.trans owns
      cases holding
    · intro free fut
      refine ⟨free, ?_⟩
      rintro j ⟨⟩
      have here : s.threads[i]? = some (.polling task) := owns
      rw [here]
      rfl
  · exact fun holder held => releases_of_held (accounted_run run) (inside_run run) held

/-- A task gives the pool another one before it is done. -/
def nested : List (Action Nat) :=
  [.submit 0 none, .execute 0 none true none, .lock 0, .turn 0, .submit 1 (some 0),
    .execute 1 (some 0) true none, .finish 0 0, .lock 0, .turn 0]

theorem dequeued_in_order_solo :
    (transitions (pool Nat solo) initial nested).filterMap submitted? =
        (transitions (pool Nat solo) initial nested).filterMap popped? ++
          (final (pool Nat solo) initial nested).shared.queue ∧
      Owned 0 1 [] (final (pool Nat solo) initial nested) := by
  have run := run_of_legal (M := pool Nat solo) (s := initial) nested (by decide)
  obtain ⟨order, _, owned, _⟩ := dequeued_in_order run
  exact ⟨order, owned ((transitions (pool Nat solo) initial nested).take 8)
    (final (pool Nat solo) initial (nested.take 8)) 0 1 [] rfl rfl⟩

end ExecutorQueue
