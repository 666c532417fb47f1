import Azrath.ReactorLiveness
import Azrath.RunCauses
import Azrath.WakerConservation

/-!
# Nothing happens without a report

An operation is run, and a task is woken, only for a direction that the selector
has reported ready for that very stream. This is the other half of the reactor's
promise: that what is reported is acted upon is shown elsewhere.
-/

namespace ReactorCauses

open GuardedRuns ReactorModel ReactorRegistry ReactorReadiness ReactorWakers
open WakerConservation RunCauses

universe u v
variable {bits : Nat} {W : Type u} {K : Type v} {R : Type u} [Waker W K]
variable {s t : State bits W R} {a : Action bits W R} {c : Nat} {d : Direction} {cx w : W}
variable {history : List (State bits W R × Action bits W R)} {k : Token bits}

/-! ## Reports -/

def Reports (event : Event bits) (p : State bits W R × Action bits W R) : Prop :=
  ∃ events, p.2 = .poll events ∧ event ∈ events

/-- The selector has reported the event in the batch that is under way. -/
def Reported (event : Event bits) (history : List (State bits W R × Action bits W R)) : Prop :=
  Since (fun _ => Reports event) (fun p => p.2 = .done) history

/-- Only the selector adds to what the reactor has still to handle. -/
theorem events_step {event : Event bits} (h : enabled s a)
    (listed : event ∈ events (effect s a).reactor) :
    Reports event (s, a) ∨ event ∈ events s.reactor ∧ a ≠ .done := by
  cases a with
  | poll batch => exact Or.inl ⟨batch, rfl, listed⟩
  | done => cases listed
  | lookup event' rest =>
    refine Or.inr ⟨?_, by simp⟩
    rw [h.2]
    cases found : s.sources event'.token with
    | none =>
      simp only [effect, found] at listed
      exact List.mem_cons_of_mem _ listed
    | some c' =>
      simp only [effect, found] at listed
      exact listed
  | take c' event' rest d' =>
    refine Or.inr ⟨?_, by simp⟩
    rw [show s.reactor = _ from h]
    exact listed
  | trigger c' event' rest d' =>
    refine Or.inr ⟨?_, by simp⟩
    rw [show s.reactor = _ from h]
    cases d' with
    | read => exact listed
    | write => exact List.mem_cons_of_mem _ listed
  | _ => exact Or.inr ⟨listed, by simp⟩

theorem reported_of_events (run : Run (reactor bits R) (initial : State bits W R) history s)
    {event : Event bits} (listed : event ∈ events s.reactor) : Reported event history :=
  since_of_run (fun u => event ∈ events u.reactor) (by rintro ⟨⟩)
    (fun _ _ _ _ h now => events_step h now) run listed

/-- The reactor is at `c`, with an event that was reported for the token that
this stream alone has, and that is ready for the direction. -/
structure Served (c : Nat) (d : Direction) (event : Event bits)
    (past : List (State bits W R × Action bits W R)) (s : State bits W R) : Prop where
  reported : Reported event past
  ready : event.ready d = true
  own : s.stage Stage.inserted? c = some event.token
  alone : ∀ c', s.stage Stage.token? c' = some event.token → c' = c

theorem served_of_found (run : Run (reactor bits R) (initial : State bits W R) history s)
    (few : s.streams.length < 2 ^ bits) {event : Event bits} {rest : List (Event bits)}
    {d' : Direction} {taken : Bool} (found : s.reactor = .found c event rest d' taken)
    (ready : event.ready d = true) : Served c d event history s := by
  have own := (sound_run run).finding _ _ _ _ _ found
  refine ⟨reported_of_events run ?_, ready, own, fun c' given => ?_⟩
  · rw [found]
    exact List.mem_cons_self
  · exact (numbered_run run few).alone c' c event.token given (token_of_inserted own)

/-- There were no more streams before the step than after it. -/
theorem few_before (h : enabled s a) (few : (effect s a).streams.length < 2 ^ bits) :
    s.streams.length < 2 ^ bits :=
  Nat.lt_of_le_of_lt (length_le (effect_enrolment h)) few

/-! ## Flags -/

/-- The reactor sets the flag for a reported event. -/
def Flags (c : Nat) (d : Direction) (past : List (State bits W R × Action bits W R))
    (p : State bits W R × Action bits W R) : Prop :=
  ∃ event rest, p.2 = .trigger c event rest d ∧ Served c d event past p.1

def Clears (c : Nat) (d : Direction) (p : State bits W R × Action bits W R) : Prop :=
  ∃ cx, p.2 = .clear_trigger c d cx

/-- The flag is set, or a call has seen it set and has not run its operation yet. -/
def Trusted (s : State bits W R) (c : Nat) (d : Direction) : Prop :=
  (s.heap c).triggered d = true ∨ ∃ cx, s.calls c d = .attempting cx

theorem flag_cause (run : Run (reactor bits R) (initial : State bits W R) history s)
    (few : s.streams.length < 2 ^ bits) (h : enabled s a)
    (flag : ((effect s a).heap c).triggered d = true) :
    Flags c d history (s, a) ∨ (s.heap c).triggered d = true ∧ ¬ Clears c d (s, a) := by
  rcases flag_step h c d with kept | ⟨event, rest, rfl, ready, _⟩ | ⟨cx, rfl, _, cleared⟩ |
    ⟨k, rfl, _⟩
  · refine Or.inr ⟨kept.symm.trans flag, ?_⟩
    rintro ⟨cx, rfl⟩
    simp [effect, State.setSource, State.setCall, Source.clear_trigger] at flag
  · exact Or.inl ⟨event, rest, rfl, served_of_found run few h ready⟩
  · cases cleared.symm.trans flag
  · simp [effect, State.setSource, State.setStage, Source.new] at flag

/-- A call goes on to its operation only when it sees the flag. -/
theorem attempting_cause (h : enabled s a) (attempting : (effect s a).calls c d = .attempting cx) :
    ((s.heap c).triggered d = true ∨ s.calls c d = .attempting cx) ∧ ¬ Clears c d (s, a) := by
  by_cases on : On c d a
  · cases a with
    | start c' d' cx' | store c' d' cx' | clear_trigger c' d' cx' =>
      obtain ⟨rfl, rfl⟩ := on
      cases attempting.symm.trans setCall_self
    | attempt c' d' cx' val =>
      obtain ⟨rfl, rfl⟩ := on
      rw [effect, setCall_self] at attempting
      cases val <;> cases attempting
    | check c' d' cx' | recheck c' d' cx' =>
      obtain ⟨rfl, rfl⟩ := on
      cases flag : (s.heap c').triggered d' with
      | true => exact ⟨Or.inl rfl, by rintro ⟨_, ⟨⟩⟩⟩
      | false => simp [effect, flag, setCall_self] at attempting
    | _ => exact on.elim
  · refine ⟨Or.inr ((call_kept on).symm.trans attempting), ?_⟩
    rintro ⟨cx', rfl⟩
    exact on ⟨rfl, rfl⟩

theorem flagged_since (run : Run (reactor bits R) (initial : State bits W R) history s)
    (few : s.streams.length < 2 ^ bits) (trusted : Trusted s c d) :
    Since (Flags c d) (Clears c d) history := by
  refine since_of_run (fun u => u.streams.length < 2 ^ bits ∧ Trusted u c d) ?_ ?_ run
    ⟨few, trusted⟩
  · rintro ⟨_, flag | ⟨cx, attempting⟩⟩
    · cases flag
    · cases attempting
  · rintro past u a before h ⟨few, flag | ⟨cx, attempting⟩⟩
    · have fewer := few_before h few
      rcases flag_cause before fewer h flag with caused | ⟨old, kept⟩
      · exact Or.inl caused
      · exact Or.inr ⟨⟨fewer, Or.inl old⟩, kept⟩
    · obtain ⟨old, kept⟩ := attempting_cause h attempting
      exact Or.inr ⟨⟨few_before h few, old.imp_right fun same => ⟨cx, same⟩⟩, kept⟩

/-- With fewer calls of `register` than tokens, an operation is run only if the
selector has reported its own stream ready for the direction, and no operation
would have blocked since. -/
theorem attempts_reported (run : Run (reactor bits R) (initial : State bits W R) history s)
    {before after : List (State bits W R × Action bits W R)}
    {p : State bits W R × Action bits W R} (split : history = before ++ p :: after)
    (few : p.1.streams.length < 2 ^ bits) {val : Option R}
    (attempt : p.2 = .attempt c d cx val) : Since (Flags c d) (Clears c d) before := by
  obtain ⟨first, h, _⟩ := run.cut split
  rw [attempt] at h
  exact flagged_since first few (Or.inr ⟨cx, h⟩)

theorem attempts_reported_overtaken :
    Since (Flags 0 .write) (Clears 0 .write)
      (transitions (reactor 64 Nat) (initial : State 64 Nat Nat) (overtaken.take 14)) :=
  attempts_reported (run_of_legal overtaken overtaken_legal)
    (show _ = _ ++ (final (reactor 64 Nat) (initial : State 64 Nat Nat) (overtaken.take 14),
      .attempt 0 .write 7 none) :: _ from rfl) (show 1 < 2 ^ 64 by decide) rfl

/-! ## Wakes -/

/-- A call of `poll_ready` for the waker's task leaves the waker in the slot. -/
def Stores (c : Nat) (d : Direction) (w : W) (p : State bits W R × Action bits W R) : Prop :=
  ∃ cx, p.2 = .store c d cx ∧ Waker.task w = Waker.task cx ∧
    ((effect p.1 p.2).heap c).interest d = some w

/-- The reactor empties the slot, or a call leaves another waker in it. -/
def Displaces (c : Nat) (d : Direction) (w : W) (p : State bits W R × Action bits W R) : Prop :=
  (∃ event rest, p.2 = .take c event rest d ∧ event.ready d = true) ∨
    ∃ cx, p.2 = .store c d cx ∧ ((effect p.1 p.2).heap c).interest d ≠ some w

/-- The reactor takes the waker out of the slot for a reported event, and it has
lain there since a call stored it. -/
def Takes (w : W) (c : Nat) (d : Direction) (past : List (State bits W R × Action bits W R))
    (p : State bits W R × Action bits W R) : Prop :=
  (∃ event rest, p.2 = .take c event rest d ∧ w ∈ (p.1.heap c).taken event d ∧
    Served c d event past p.1) ∧ Since (fun _ => Stores c d w) (Displaces c d w) past

theorem stored_since (run : Run (reactor bits R) (initial : State bits W R) history s)
    (held : (s.heap c).interest d = some w) :
    Since (fun _ => Stores c d w) (Displaces c d w) history := by
  refine since_of_run (fun u => (u.heap c).interest d = some w) (by rintro ⟨⟩) ?_ run held
  intro past u a _ h now
  rcases slot_step h c d with ⟨kept, _, _⟩ | ⟨_, _, _, _, emptied⟩ |
    ⟨cx, rfl, _, w', stored, same⟩ | ⟨k, rfl, _⟩
  · refine Or.inr ⟨kept.symm.trans now, ?_⟩
    rintro (⟨event, rest, rfl, ready⟩ | ⟨cx, rfl, other⟩)
    · simp [reactor, effect, State.setSource, Source.take_of_ready ready] at now
    · exact other now
  · cases emptied.symm.trans now
  · obtain rfl : w' = w := Option.some.inj (stored.symm.trans now)
    exact Or.inl ⟨cx, rfl, same, now⟩
  · simp [reactor, effect, State.setSource, State.setStage, Source.new] at now

theorem taken_since (run : Run (reactor bits R) (initial : State bits W R) history s)
    (few : s.streams.length < 2 ^ bits) (due : w ∈ s.wakers) :
    Since (fun past p => ∃ c d, Takes w c d past p) (fun p => p.2 = .done) history := by
  refine since_of_run (fun u => u.streams.length < 2 ^ bits ∧ w ∈ u.wakers) ?_ ?_ run ⟨few, due⟩
  · rintro ⟨_, ⟨⟩⟩
  · rintro past u a before h ⟨few, due⟩
    have fewer := few_before h few
    cases a with
    | take c event rest d =>
      rcases List.mem_append.mp due with old | taken
      · exact Or.inr ⟨⟨fewer, old⟩, by rintro ⟨⟩⟩
      · cases ready : event.ready d with
        | false => simp [Source.taken, ready] at taken
        | true =>
          have held : (u.heap c).interest d = some w := by simpa [Source.taken, ready] using taken
          have served := served_of_found before fewer h ready
          exact Or.inl ⟨c, d, ⟨event, rest, rfl, taken, served⟩, stored_since before held⟩
    | wake waker rest =>
      refine Or.inr ⟨⟨fewer, ?_⟩, by rintro ⟨⟩⟩
      rw [h.2]
      exact List.mem_cons_of_mem _ due
    | done =>
      have due : w ∈ u.wakers := due
      rw [h.2] at due
      cases due
    | _ => exact Or.inr ⟨⟨fewer, due⟩, by rintro ⟨⟩⟩

/-- With fewer calls of `register` than tokens, the reactor wakes a task only
through a waker that a call of that task left in the slot of a stream and a
direction, and that lay there, neither taken nor replaced, until it was taken for
an event that the selector had reported, in the batch under way, for that very
stream. -/
theorem wakes_reported (run : Run (reactor bits R) (initial : State bits W R) history s)
    {before after : List (State bits W R × Action bits W R)}
    {p : State bits W R × Action bits W R} (split : history = before ++ p :: after)
    (few : p.1.streams.length < 2 ^ bits) {rest : List W} (woken : p.2 = .wake w rest) :
    ∃ c d, Since (Takes w c d) (fun p => p.2 = .done) before := by
  obtain ⟨first, h, _⟩ := run.cut split
  rw [woken] at h
  have due : w ∈ p.1.wakers := by
    rw [h.2]
    exact List.mem_cons_self
  obtain ⟨earlier, q, later, whole, ⟨c, d, takes⟩, quiet⟩ := taken_since first few due
  exact ⟨c, d, earlier, q, later, whole, takes, quiet⟩

theorem wakes_reported_rivals :
    ∃ c d, Since (Takes 8 c d) (fun p => p.2 = .done)
      (transitions (reactor 64 Nat) (initial : State 64 Nat Nat) (rivals.take 19)) :=
  wakes_reported (run_of_legal rivals rivals_legal)
    (show _ = _ ++ (final (reactor 64 Nat) (initial : State 64 Nat Nat) (rivals.take 19),
      .wake 8 []) :: _ from rfl) (show 1 < 2 ^ 64 by decide) rfl

end ReactorCauses
