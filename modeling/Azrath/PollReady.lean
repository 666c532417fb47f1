import Azrath.ReactorWakers

/-!
# One call of `poll_ready` beside the event loop

Between its two loads of the flag `poll_ready` leaves a waker in the slot. An
event that stores the flag before the second load is seen by it; one that stores
it later has taken the waker first, since its two steps lie in one section under
the interest lock.
-/

namespace PollReady

open GuardedRuns ReactorModel ReactorRegistry ReactorReadiness ReactorWakers

universe u v
variable {bits : Nat} {W : Type u} {K : Type v} {R : Type u} [Waker W K]
variable {s t : State bits W R} {a : Action bits W R} {c : Nat} {d : Direction} {cx : W}
variable {history : List (State bits W R × Action bits W R)}

/-- In this transition the reactor stores the flag for an event. -/
def Sets (c : Nat) (d : Direction) (p : State bits W R × Action bits W R) : Prop :=
  ∃ event rest, p.2 = .trigger c event rest d ∧ event.ready d = true

/-- In this transition the call finds the flag set. -/
def Sees (c : Nat) (d : Direction) (p : State bits W R × Action bits W R) : Prop :=
  (∃ cx, p.2 = .check c d cx ∨ p.2 = .recheck c d cx) ∧ (p.1.heap c).triggered d = true

/-- What holds beside a call that has not attempted its operation yet. -/
structure Watched (c : Nat) (d : Direction) (cx : W)
    (history : List (State bits W R × Action bits W R)) (t : State bits W R) : Prop where
  steady : ¬ Clearing t c d
  flagged : (∃ p ∈ history, Sets c d p) → (t.heap c).triggered d = true
  emptied : Stored c d history → ∀ event rest, t.reactor = .found c event rest d true →
    event.ready d = true → (t.heap c).interest d = none
  pended : ∀ cx', t.calls c d = .pending cx' → Stored c d history ∧
    ((∃ p ∈ history, Sets c d p) → Taken history t c d cx)
  seen : ∀ cx', t.calls c d = .attempting cx' → ∃ p ∈ history, Sees c d p

/-- The reactor comes to the store of a flag only by the take before it. -/
theorem storing_step (h : enabled s a) {event : Event bits} {rest : List (Event bits)}
    (there : (effect s a).reactor = .found c event rest d true) :
    a = .take c event rest d ∨ s.reactor = .found c event rest d true := by
  cases a with
  | poll events => cases there
  | done => cases there
  | lookup event' rest' =>
    cases found : s.sources event'.token <;> simp [effect, found] at there
  | take c' event' rest' d' =>
    obtain ⟨rfl, rfl, rfl, rfl, _⟩ := Pc.found.inj there
    exact Or.inl rfl
  | trigger c' event' rest' d' => cases d' <;> cases there
  | _ => exact Or.inr there

theorem watched_start : Watched c d cx [] (effect s (.start c d cx)) := by
  have checking : (effect s (.start c d cx)).calls c d = .checking cx := setCall_self
  constructor
  · rintro ⟨cx', clearing⟩
    cases checking.symm.trans clearing
  · rintro ⟨p, hp, _⟩
    cases hp
  · rintro ⟨p, hp, _⟩
    cases hp
  · intro cx' pending
    cases checking.symm.trans pending
  · intro cx' attempting
    cases checking.symm.trans attempting

theorem sets_snoc : (∃ p ∈ history ++ [(s, a)], Sets c d p) ↔
    (∃ p ∈ history, Sets c d p) ∨ Sets c d (s, a) := by
  simp [or_and_right, exists_or]

/-- Nobody clears a flag that the call may still look at. -/
theorem flag_stays (h : enabled s a) {k : Token bits}
    (inserted : s.stage Stage.inserted? c = some k)
    (steady : ¬ Clearing s c d) (flag : (s.heap c).triggered d = true) :
    ((effect s a).heap c).triggered d = true := by
  rcases flag_step h c d with kept | ⟨_, _, _, _, set⟩ | ⟨cx, _, clearing, _⟩ | ⟨k', _, made⟩
  · exact kept.trans flag
  · exact set
  · exact absurd ⟨cx, clearing⟩ steady
  · simp [State.stage, made] at inserted

/-- Under the interest lock the slot stays as the take has left it. -/
theorem emptied_step (h : enabled s a) {k : Token bits}
    (inserted : s.stage Stage.inserted? c = some k)
    (emptied : Stored c d history → ∀ event rest, s.reactor = .found c event rest d true →
      event.ready d = true → (s.heap c).interest d = none)
    (stored : Stored c d (history ++ [(s, a)])) {event : Event bits} {rest : List (Event bits)}
    (there : (effect s a).reactor = .found c event rest d true) (ready : event.ready d = true) :
    ((effect s a).heap c).interest d = none := by
  rcases storing_step h there with rfl | before
  · simpa [effect, State.setSource] using Source.take_of_ready ready
  · have locked : s.interestLocked c := by simp [State.interestLocked, before]
    have no_store : ¬ ∃ cx, a = .store c d cx := by
      rintro ⟨cx, rfl⟩
      exact h.2 locked
    have empty := emptied ((stored_snoc.mp stored).resolve_right no_store) event rest before ready
    rcases slot_step h c d with ⟨kept, _, _⟩ | ⟨_, _, _, _, emptied'⟩ | ⟨cx, store, _⟩ |
      ⟨k', _, made⟩
    · exact kept.trans empty
    · exact emptied'
    · exact absurd ⟨cx, store⟩ no_store
    · simp [State.stage, made] at inserted

/-- A call comes to its end as `Pending` by a second look at a clear flag. -/
theorem pending_step (h : enabled s a) (steady : ¬ Clearing s c d)
    (no_start : ∀ cx', a ≠ .start c d cx') (no_attempt : ¬ Attempts c d a)
    (pending : (effect s a).calls c d = .pending cx) :
    s.calls c d = .pending cx ∧ ¬ On c d a ∨
      a = .recheck c d cx ∧ s.calls c d = .rechecking cx ∧ (s.heap c).triggered d = false := by
  by_cases on : On c d a
  · cases a with
    | start c' d' cx' =>
      obtain ⟨rfl, rfl⟩ := on
      exact absurd rfl (no_start cx')
    | check c' d' cx' =>
      obtain ⟨rfl, rfl⟩ := on
      cases flag : (s.heap c').triggered d' <;> simp [effect, flag, setCall_self] at pending
    | store c' d' cx' =>
      obtain ⟨rfl, rfl⟩ := on
      cases pending.symm.trans setCall_self
    | recheck c' d' cx' =>
      obtain ⟨rfl, rfl⟩ := on
      cases flag : (s.heap c').triggered d' with
      | true => simp [effect, flag, setCall_self] at pending
      | false =>
        obtain rfl : cx' = cx := by simpa [effect, flag, setCall_self] using pending
        exact Or.inr ⟨rfl, h, rfl⟩
    | attempt c' d' cx' val => exact absurd on no_attempt
    | clear_trigger c' d' cx' =>
      obtain ⟨rfl, rfl⟩ := on
      exact absurd ⟨cx', h⟩ steady
    | _ => exact on.elim
  · rw [call_kept on] at pending
    exact Or.inl ⟨pending, on⟩

/-- It comes to the attempt by a look at a flag that is set. -/
theorem attempting_step (pending : (effect s a).calls c d = .attempting cx) :
    s.calls c d = .attempting cx ∨ Sees c d (s, a) := by
  by_cases on : On c d a
  · cases a with
    | start c' d' cx' | store c' d' cx' | clear_trigger c' d' cx' =>
      obtain ⟨rfl, rfl⟩ := on
      cases pending.symm.trans setCall_self
    | check c' d' cx' =>
      obtain ⟨rfl, rfl⟩ := on
      cases flag : (s.heap c').triggered d' with
      | true => exact Or.inr ⟨⟨cx', Or.inl rfl⟩, flag⟩
      | false => simp [effect, flag, setCall_self] at pending
    | recheck c' d' cx' =>
      obtain ⟨rfl, rfl⟩ := on
      cases flag : (s.heap c').triggered d' with
      | true => exact Or.inr ⟨⟨cx', Or.inr rfl⟩, flag⟩
      | false => simp [effect, flag, setCall_self] at pending
    | attempt c' d' cx' val =>
      obtain ⟨rfl, rfl⟩ := on
      cases val <;> simp [effect, setCall_self, Call.attempted] at pending
    | _ => exact on.elim
  · rw [call_kept on] at pending
    exact Or.inl pending

theorem Watched.step (watched : Watched c d cx history t) (called : Called s c d cx history t)
    (h : enabled t a) (no_start : ∀ cx', a ≠ .start c d cx') (no_attempt : ¬ Attempts c d a) :
    Watched c d cx (history ++ [(t, a)]) (effect t a) := by
  obtain ⟨steady, flagged, emptied, pended, seen⟩ := watched
  obtain ⟨⟨k, inserted⟩, path, covered, _⟩ := called
  have emptied' : Stored c d (history ++ [(t, a)]) → ∀ event rest,
      (effect t a).reactor = .found c event rest d true → event.ready d = true →
      ((effect t a).heap c).interest d = none :=
    fun stored _ _ => emptied_step h inserted emptied stored
  refine ⟨clearing_step h steady no_attempt, ?_, emptied', ?_, ?_⟩
  · intro set
    rcases sets_snoc.mp set with before | ⟨event, rest, rfl, ready⟩
    · exact flag_stays h inserted steady (flagged before)
    · exact trigger_sets ready
  · intro cx' pending
    rcases pending_step h steady no_start no_attempt pending with ⟨before, off⟩ |
      ⟨rfl, rechecking, clear⟩
    · obtain ⟨stored, answered⟩ := pended cx' before
      refine ⟨stored_snoc.mpr (Or.inl stored), fun set => ?_⟩
      rcases sets_snoc.mp set with old | ⟨event, rest, rfl, ready⟩
      · exact (answered old).step h
      · -- the slot is empty under the lock, so the covered task has been taken
        rcases covered (Or.inr stored) with ⟨w, held, _⟩ | taken
        · cases held.symm.trans (emptied stored event rest h ready)
        · exact taken.step h
    · rw [rechecking] at path
      refine ⟨stored_snoc.mpr (Or.inl path.2.1), fun set => ?_⟩
      rcases sets_snoc.mp set with old | ⟨_, _, other, _⟩
      · cases clear.symm.trans (flagged old)
      · cases other
  · intro cx' attempting
    rcases attempting_step attempting with before | sees
    · obtain ⟨p, hp, saw⟩ := seen cx' before
      exact ⟨p, List.mem_append_left _ hp, saw⟩
    · exact ⟨_, List.mem_append_right _ (List.mem_singleton_self _), sees⟩

theorem watched_run (begin : enabled s (.start c d cx))
    (run : Run (reactor bits R) (effect s (.start c d cx)) history t)
    (once : ∀ p ∈ history, ∀ cx', p.2 ≠ .start c d cx')
    (alone : ∀ p ∈ history, ¬ Attempts c d p.2) : Watched c d cx history t := by
  induction run with
  | nil => exact watched_start
  | @snoc past u a before h ih =>
    have last : (u, a) ∈ past ++ [(u, a)] := List.mem_append_right _ (List.mem_singleton_self _)
    have watched := ih (fun p hp => once p (List.mem_append_left _ hp))
      (fun p hp => alone p (List.mem_append_left _ hp))
    have called := called_run begin before fun p hp => once p (List.mem_append_left _ hp)
    exact watched.step called h (once _ last) (alone _ last)

/-- An event stored after a `Pending` call began finds the waker of that call,
and a `Ready` call has seen the flag set. -/
theorem poll_ready_misses_nothing (begin : enabled s (.start c d cx))
    (run : Run (reactor bits R) (effect s (.start c d cx)) history t)
    (once : ∀ p ∈ history, ∀ cx', p.2 ≠ .start c d cx')
    (alone : ∀ p ∈ history, ¬ Attempts c d p.2) :
    (t.calls c d = .pending cx → (∃ p ∈ history, Sets c d p) → Taken history t c d cx) ∧
    (t.calls c d = .attempting cx → ∃ p ∈ history, Sees c d p) := by
  have watched := watched_run begin run once alone
  exact ⟨fun pending => (watched.pended cx pending).2, watched.seen cx⟩

/-- A call that waits, and the event it waits for. -/
def awaited : List (Action 64 Nat Nat) :=
  [.check 0 .write 7, .store 0 .write 7, .recheck 0 .write 7,
    .poll [writable 0], .lookup (writable 0) [],
    .take 0 (writable 0) [] .read, .trigger 0 (writable 0) [] .read,
    .take 0 (writable 0) [] .write, .trigger 0 (writable 0) [] .write]

theorem awaited_alone {s : State 64 Nat Nat} :
    ∀ p ∈ transitions (reactor 64 Nat) s awaited,
      (∀ cx, p.2 ≠ .start 0 .write cx) ∧ ¬ Attempts 0 .write p.2 := by
  intro p hp
  have listed := mem_of_mem_transitions hp
  generalize p.2 = a at listed
  cases a <;> simp [awaited, Attempts] at listed ⊢

theorem poll_ready_misses_nothing_awaited :
    let s : State 64 Nat Nat := final (reactor 64 Nat) initial enrol
    let t := final (reactor 64 Nat) (effect s (.start 0 .write 7)) awaited
    let history := transitions (reactor 64 Nat) (effect s (.start 0 .write 7)) awaited
    t.calls 0 .write = .pending 7 ∧ Taken history t 0 .write 7 := by
  intro s t history
  have begin : enabled s (.start 0 .write 7) := ⟨⟨Token.zero, rfl⟩, rfl⟩
  have run : Run (reactor 64 Nat) (effect s (.start 0 .write 7)) history t :=
    run_of_legal awaited ⟨rfl, ⟨rfl, id⟩, rfl, ⟨rfl, canReport_writable rfl (by decide)⟩,
      ⟨rfl, rfl⟩, rfl, rfl, rfl, rfl, trivial⟩
  have set : ∃ p ∈ history, Sets 0 .write p :=
    ⟨_, List.mem_of_getElem? (i := 8) rfl, writable 0, [], rfl, rfl⟩
  exact ⟨rfl, (poll_ready_misses_nothing begin run (fun p hp => (awaited_alone p hp).1)
    fun p hp => (awaited_alone p hp).2).1 rfl set⟩

end PollReady
