import Azrath.PollReady
import Azrath.ReactorBatches
import Azrath.Simulations
import Azrath.WakerConservation

/-!
# A batch is dispatched at once

The event loop handles a batch in many steps, and the other threads have theirs
between them. As long as nobody writes into what is left of the batch, it is as
if all of it were handled when `mio::Poll::poll` returns: the loop of small
steps is a run of `Shared::run` in which `Shared::poll` is one step.
-/

namespace ReactorRefinement

open GuardedRuns StutteringExecutions Simulations ReactorModel ReactorWakers PollReady
open ReactorBatches (Loop Effect Turn acted positions touched_foldl)
open ReactorReadiness (writable canReport_writable)
open ReactorRegistry (enrol)
open WakerConservation (Unused unused_initial selector_step)

universe u v
variable {bits : Nat} {W R X : Type u} {K : Type v} [Waker W K]

/-- The reactor with what its thread has done so far. -/
structure Traced (bits : Nat) (W R : Type u) where
  state : State bits W R
  trace : List (Effect W)

def start : Traced bits W R where
  state := initial
  trace := []

/-! ## What is left of a batch -/

/-- The events that are still to be looked up. -/
def unread : Pc bits → List (Event bits)
  | .polling => []
  | .batch rest | .found _ _ rest _ _ => rest

/-- The positions of the event in hand whose flags are still to be stored. -/
def unstored : Pc bits → List (Nat × Direction)
  | .found c event _ .read _ => ([.read, .write].filter event.ready).map (c, ·)
  | .found c event _ .write _ => ([.write].filter event.ready).map (c, ·)
  | _ => []

def ahead (s : State bits W R) : List (Nat × Direction) :=
  unstored s.reactor ++ positions s.sources (unread s.reactor)

/-- Another thread writes into what is left of the batch: its waker would be taken
along, though it came after the batch, or an event would find another source than
before. A flag that is cleared there will be set again, which is no such write. -/
def Disturbs (s : State bits W R) : Action bits W R → Prop
  | .store c d _ => (c, d) ∈ ahead s
  | .insert _ token => ∃ event ∈ unread s.reactor, event.token = token
  | .remove c _ => ∃ event ∈ unread s.reactor, event.token = (s.heap c).token
  | _ => False

def undisturbed (bits : Nat) (W R : Type u) [Waker W K] :
    System (Traced bits W R) (Action bits W R) where
  enabled s a := enabled s.state a ∧ ¬ Disturbs s.state a
  effect s a := { state := effect s.state a, trace := s.trace ++ acted (s.state, a) }

/-- The loop as it is, with healthy locks. -/
def loopOf (s : Traced bits W R) : Loop bits W where
  sources := s.state.sources
  sources_poisoned := false
  heap := s.state.heap
  poisoned _ := false
  wakers := s.state.wakers
  trace := s.trace

/-- The loop as it will be when the batch is over. -/
def complete (s : Traced bits W R) : Loop bits W :=
  ((ahead s.state).foldl Loop.touch (loopOf s)).drain

section Completion
variable {s : Traced bits W R} {l l₁ l₂ : Loop bits W} {ps : List (Nat × Direction)}

theorem complete_polling (polling : s.state.reactor = .polling) (empty : s.state.wakers = []) :
    complete s = loopOf s := by
  rw [complete, ahead, polling]
  simp [unstored, unread, positions, Loop.drain, loopOf, empty]

/-- The wakers that are taken depend on what lies at the positions only. -/
theorem wakers_foldl_congr (slots : ∀ p ∈ ps, l₁.slot p = l₂.slot p)
    (wakers : l₁.wakers = l₂.wakers) :
    (ps.foldl Loop.touch l₁).wakers = (ps.foldl Loop.touch l₂).wakers := by
  induction ps generalizing l₁ l₂ with
  | nil => exact wakers
  | cons p ps ih =>
    apply ih
    · intro q hq
      rw [Loop.touch_slot, Loop.touch_slot, slots q (List.mem_cons_of_mem _ hq)]
    · change l₁.wakers ++ (l₁.slot p).toList = l₂.wakers ++ (l₂.slot p).toList
      rw [wakers, slots p List.mem_cons_self]

theorem complete_trace (s : Traced bits W R) : (complete s).trace =
    s.trace ++ ((ahead s.state).map fun p => .store p.1 p.2) ++
      ((ahead s.state).foldl Loop.touch (loopOf s)).wakers.map .wake := by
  have trace := (touched_foldl (loopOf s) (ahead s.state)).trace
  rw [complete, Loop.drain, trace]
  rfl

end Completion

/-! ## Steps of the thread itself -/

/-- Nothing waits where the thread is about to store a flag, and in the selector
it has nobody left to wake. -/
structure Quiet (s : State bits W R) : Prop where
  unused : Unused s
  emptied : ∀ c event rest d, s.reactor = .found c event rest d true → event.ready d = true →
    (s.heap c).interest d = none
  selector : s.reactor = .polling → s.wakers = []

theorem quiet_initial : Quiet (initial : State bits W R) :=
  ⟨unused_initial, by rintro c event rest d ⟨⟩, fun _ => rfl⟩

theorem Quiet.step {s : State bits W R} {a : Action bits W R} (quiet : Quiet s) (h : enabled s a) :
    Quiet (effect s a) := by
  refine ⟨quiet.unused.step h, ?_, selector_step quiet.selector h⟩
  intro c event rest d there ready
  rcases storing_step h there with rfl | before
  · simpa [effect, State.setSource] using Source.take_of_ready ready
  · have empty := quiet.emptied c event rest d before ready
    have locked : s.interestLocked c := by simp [State.interestLocked, before]
    rcases slot_step h c d with ⟨kept, _, _⟩ | ⟨_, _, _, _, emptied⟩ | ⟨cx, rfl, _⟩ | ⟨k, rfl, _⟩
    · exact kept.trans empty
    · exact emptied
    · exact (h.2 locked).elim
    · simp [effect, State.setSource, State.setStage, Source.new]

section Handling
variable {s : State bits W R} {trace : List (Effect W)} {event : Event bits}
variable {rest : List (Event bits)} {c : Nat} {d : Direction}

/-- A step that changes neither what is ahead nor the outcome does not show. -/
theorem complete_of_fold {t : State bits W R} {trace' : List (Effect W)}
    (same : (ahead t).foldl Loop.touch (loopOf ⟨t, trace'⟩) =
      (ahead s).foldl Loop.touch (loopOf ⟨s, trace⟩)) :
    complete ⟨t, trace'⟩ = complete ⟨s, trace⟩ := by
  rw [complete, complete, same]

theorem ahead_lookup (here : s.reactor = .batch (event :: rest)) :
    ahead (effect s (.lookup event rest)) = ahead s := by
  cases found : s.sources event.token with
  | none => simp [ahead, effect, here, found, unstored, unread, positions]
  | some c => simp [ahead, effect, here, found, unstored, unread, positions]

/-- A take before the touch of the same position makes no difference to it. -/
theorem touch_take (l : Loop bits W) (ready : event.ready d = true) :
    ({ l with
      heap := Function.update l.heap c ((l.heap c).take event d)
      wakers := l.wakers ++ (l.heap c).taken event d } : Loop bits W).touch (c, d) =
        l.touch (c, d) := by
  simp [Loop.touch, Source.take, Source.taken, ready]

/-- Where nothing waits the touch is but the store of the flag. -/
theorem touch_trigger (l : Loop bits W) (ready : event.ready d = true)
    (empty : (l.heap c).interest d = none) :
    l.touch (c, d) =
      { l with
        heap := Function.update l.heap c ((l.heap c).trigger event d)
        trace := l.trace ++ [.store c d] } := by
  have kept : Function.update (l.heap c).interest d none = (l.heap c).interest := by
    rw [← empty, Function.update_eq_self]
  simp [Loop.touch, Source.trigger, ready, empty, kept]

theorem unstored_found (taken : Bool) : unstored (.found c event rest d taken) =
    (if event.ready d then [(c, d)] else []) ++ unstored (Pc.after c event rest d) := by
  cases d with
  | read => cases ready : event.ready .read <;> simp [unstored, Pc.after, ready]
  | write => cases ready : event.ready .write <;> simp [unstored, Pc.after, ready]

theorem unread_after : unread (Pc.after c event rest d) = rest := by
  cases d <;> rfl

theorem ahead_found {taken : Bool} (here : s.reactor = .found c event rest d taken) :
    ahead s = (if event.ready d then [(c, d)] else []) ++
      (unstored (Pc.after c event rest d) ++ positions s.sources rest) := by
  rw [ahead, here, unstored_found, List.append_assoc]
  rfl

theorem complete_take (here : s.reactor = .found c event rest d false) :
    complete ⟨effect s (.take c event rest d), trace⟩ = complete ⟨s, trace⟩ := by
  apply complete_of_fold
  have found : (effect s (.take c event rest d)).reactor = .found c event rest d true := rfl
  rw [ahead_found here, ahead_found found]
  cases ready : event.ready d with
  | false =>
    have same : loopOf ⟨effect s (.take c event rest d), trace⟩ = loopOf ⟨s, trace⟩ := by
      simp [loopOf, effect, State.setSource, Source.take, Source.taken, ready]
    rw [same]
    rfl
  | true =>
    exact congrArg
      (fun l => (unstored (Pc.after c event rest d) ++ positions s.sources rest).foldl Loop.touch l)
      (touch_take (loopOf ⟨s, trace⟩) ready)

theorem complete_trigger (here : s.reactor = .found c event rest d true)
    (emptied : event.ready d = true → (s.heap c).interest d = none) :
    complete ⟨effect s (.trigger c event rest d),
      trace ++ acted (s, .trigger c event rest d)⟩ = complete ⟨s, trace⟩ := by
  apply complete_of_fold
  have after : ahead (effect s (.trigger c event rest d)) =
      unstored (Pc.after c event rest d) ++ positions s.sources rest :=
    congrArg (fun events => _ ++ positions s.sources events) unread_after
  rw [after, ahead_found here]
  cases ready : event.ready d with
  | false =>
    have same : loopOf ⟨effect s (.trigger c event rest d),
        trace ++ acted (s, .trigger c event rest d)⟩ = loopOf ⟨s, trace⟩ := by
      simp [loopOf, effect, acted, State.setSource, Source.trigger, ready]
    rw [same]
    rfl
  | true =>
    have touched := touch_trigger (loopOf ⟨s, trace⟩) ready (emptied ready)
    have same : loopOf ⟨effect s (.trigger c event rest d),
        trace ++ acted (s, .trigger c event rest d)⟩ = (loopOf ⟨s, trace⟩).touch (c, d) := by
      rw [touched]
      simp [loopOf, effect, acted, State.setSource, ready]
    rw [same]
    rfl

theorem complete_wake {waker : W} {more : List W} (here : s.reactor = .batch [])
    (first : s.wakers = waker :: more) :
    complete ⟨effect s (.wake waker more), trace ++ acted (s, .wake waker more)⟩ =
      complete ⟨s, trace⟩ := by
  simp [complete, ahead, effect, acted, here, first, unstored, unread, positions, loopOf,
    Loop.drain]

theorem complete_done (here : s.reactor = .batch []) :
    complete ⟨effect s .done, trace⟩ = complete ⟨s, trace⟩ := by
  apply complete_of_fold
  simp [ahead, effect, here, unstored, unread, positions, loopOf]

end Handling

/-! ## Writes of other threads -/

/-- Other threads change the map, a slot or a flag. -/
def Writes : Action bits W R → Prop
  | .insert _ _ | .remove _ _ | .store _ _ _ | .clear_trigger _ _ _ => True
  | _ => False

section Writing
variable {s : State bits W R} {a : Action bits W R}

theorem positions_congr {sources sources' : Token bits → Option Nat} {batch : List (Event bits)}
    (same : ∀ event ∈ batch, sources event.token = sources' event.token) :
    positions sources batch = positions sources' batch := by
  apply List.flatMap_congr
  intro event listed
  rw [same event listed]

theorem ahead_of_write (writes : Writes a) (aside : ¬ Disturbs s a) :
    ahead (effect s a) = ahead s := by
  cases a with
  | store c d cx | clear_trigger c d cx => rfl
  | insert c token =>
    refine congrArg (unstored s.reactor ++ ·) (positions_congr fun event listed => ?_)
    exact Function.update_of_ne (fun same => aside ⟨event, listed, same⟩) _ _
  | remove c token =>
    refine congrArg (unstored s.reactor ++ ·) (positions_congr fun event listed => ?_)
    exact Function.update_of_ne (fun same => aside ⟨event, listed, same⟩) _ _
  | _ => cases writes

theorem slot_of_write (unused : Unused s) (h : enabled s a) (writes : Writes a)
    (aside : ¬ Disturbs s a) {p : Nat × Direction} (hp : p ∈ ahead s) :
    ((effect s a).heap p.1).interest p.2 = (s.heap p.1).interest p.2 := by
  rcases slot_step h p.1 p.2 with ⟨kept, _, _⟩ | ⟨event, rest, rfl, _⟩ | ⟨cx, rfl, _⟩ |
    ⟨k, rfl, here⟩
  · exact kept
  · cases writes
  · exact (aside hp).elim
  · -- a source that is not in the map yet holds nothing, and neither does a new one
    rw [(unused p.1 (by simp [State.stage, here])).2 p.2]
    simp [effect, State.setSource, State.setStage, Source.new]

theorem eq_of_kept {l l' : Loop bits W} (wakers : l'.wakers = l.wakers)
    (trace : l'.trace = l.trace) : l' = { l with toShared := l'.toShared } := by
  cases l'
  cases wakers
  cases trace
  rfl

theorem silent_of_write (writes : Writes a) : acted (s, a) = [] := by
  cases a with
  | insert c token | remove c token | store c d cx | clear_trigger c d cx => rfl
  | _ => cases writes

theorem wakers_of_write (writes : Writes a) : (effect s a).wakers = s.wakers := by
  cases a with
  | insert c token | remove c token | store c d cx | clear_trigger c d cx => rfl
  | _ => cases writes

/-- A write changes what is shared when the batch is over, and nothing else. -/
theorem complete_write {s : Traced bits W R} (unused : Unused s.state) (h : enabled s.state a)
    (writes : Writes a) (aside : ¬ Disturbs s.state a) :
    complete ((undisturbed bits W R).effect s a) =
      { complete s with toShared := (complete ((undisturbed bits W R).effect s a)).toShared } := by
  let t := (undisturbed bits W R).effect s a
  have same : ahead t.state = ahead s.state := ahead_of_write writes aside
  have trace : t.trace = s.trace := by
    change s.trace ++ acted (s.state, a) = s.trace
    rw [silent_of_write writes, List.append_nil]
  have slots : ∀ p ∈ ahead s.state, (loopOf t).slot p = (loopOf s).slot p :=
    fun p hp => slot_of_write unused h writes aside hp
  have wakers : (loopOf t).wakers = (loopOf s).wakers := wakers_of_write writes
  have taken := wakers_foldl_congr slots wakers
  have done : (complete t).trace = (complete s).trace := by
    simp only [complete_trace, same, taken, trace]
  exact eq_of_kept rfl done

end Writing

/-! ## The batch as one step -/

/-- The step of `Shared::run` that a small step shows: the poll its whole batch,
a write what it leads to at the end of the batch. A poll without events does
nothing and shows nothing. -/
def label (s : Traced bits W R) (a : Action bits W R) : Option (Turn bits W X) :=
  match a with
  | .poll events => some (.iterate (.ok events))
  | .insert _ _ | .remove _ _ | .store _ _ _ | .clear_trigger _ _ _ =>
    some (.others (complete ((undisturbed bits W R).effect s a)).toShared)
  | _ => none

theorem complete_poll {s : State bits W R} {trace : List (Effect W)} {events : List (Event bits)}
    (quiet : Quiet s) (polling : s.reactor = .polling) :
    complete ⟨effect s (.poll events), trace⟩ =
      ((complete ⟨s, trace⟩).poll (X := X) (.ok events)).1 := by
  have before : complete ⟨s, trace⟩ = loopOf ⟨s, trace⟩ :=
    complete_polling polling (quiet.selector polling)
  rw [before, ReactorBatches.poll_of_sound rfl fun _ _ _ _ => rfl]
  rfl

/-- A step that does nothing to others leaves the trace as it is. -/
theorem complete_silent {s : Traced bits W R} {a : Action bits W R}
    (silent : acted (s.state, a) = []) :
    complete ((undisturbed bits W R).effect s a) = complete ⟨effect s.state a, s.trace⟩ := by
  change complete ⟨effect s.state a, s.trace ++ acted (s.state, a)⟩ = _
  rw [silent, List.append_nil]

theorem complete_step {s : Traced bits W R} {a : Action bits W R} (quiet : Quiet s.state)
    (h : (undisturbed bits W R).enabled s a) :
    complete ((undisturbed bits W R).effect s a) =
      (stuttering (ReactorBatches.run bits W X)).effect (complete s) (label s a) := by
  obtain ⟨able, aside⟩ := h
  cases a with
  | poll events => exact (complete_silent rfl).trans (complete_poll quiet able.1)
  | trigger c event rest d => exact complete_trigger able (quiet.emptied c event rest d able)
  | wake waker rest => exact complete_wake able.1 able.2
  | insert c token | remove c token | store c d cx | clear_trigger c d cx =>
    exact complete_write quiet.unused able trivial aside
  | lookup event rest =>
    refine (complete_silent rfl).trans (complete_of_fold ?_)
    exact congrArg (List.foldl Loop.touch _) (ahead_lookup able.2)
  | take c event rest d => exact (complete_silent rfl).trans (complete_take able)
  | done => exact (complete_silent rfl).trans (complete_done able.1)
  | _ => exact complete_silent rfl

theorem complete_healthy (s : Traced bits W R) : (complete s).sources_poisoned = false :=
  (touched_foldl (loopOf s) (ahead s.state)).sources_poisoned

def atOnce (bits : Nat) (W R X : Type u) [Waker W K] :
    Simulation (undisturbed bits W R) (stuttering (ReactorBatches.run bits W X)) where
  Inv s := Quiet s.state
  view := complete
  label := label
  keeps quiet h := quiet.step h.1
  able {s a} quiet h := by
    intro turn shown
    cases a with
    | poll events =>
      cases shown
      trivial
    | insert c token | remove c token | store c d cx | clear_trigger c d cx =>
      cases shown
      exact complete_healthy _
    | _ => cases shown
  step := complete_step

variable {history : List (Traced bits W R × Action bits W R)} {t : Traced bits W R}

theorem complete_start : complete (start : Traced bits W R) = loopOf (start : Traced bits W R) :=
  complete_polling rfl rfl

/-- In every run without writes into what is left of a batch, the small steps of
the event loop amount to a run of `Shared::run` in which `Shared::poll` is one
step; in the selector the two agree on the registry, the sources, the wakers and
all that was done. -/
theorem small_steps_refine_run (run : Run (undisturbed bits W R) start history t) :
    Run (ReactorBatches.run bits W X) (loopOf (start : Traced bits W R))
        (happened ((atOnce bits W R X).shown history)) (complete t) ∧
      (t.state.reactor = .polling → complete t = loopOf t) := by
  have quiet : Quiet (start : Traced bits W R).state := quiet_initial
  have shown := run_happened ((atOnce bits W R X).run quiet run)
  have same : (atOnce bits W R X).view start = loopOf (start : Traced bits W R) := complete_start
  rw [same] at shown
  refine ⟨shown, fun polling => complete_polling polling ?_⟩
  exact ((atOnce bits W R X).invariant quiet run).selector polling

/-- A writer waits for the stream, and the event loop is asked to wake it. -/
def asked : List (Action 64 Nat Nat) :=
  enrol ++ [.start 0 .write 7, .check 0 .write 7, .store 0 .write 7, .recheck 0 .write 7]

/-- A reader comes while the batch is handled. -/
def overlapped : List (Action 64 Nat Nat) :=
  [.lookup (writable 0) [], .start 0 .read 8, .check 0 .read 8, .store 0 .read 8,
    .take 0 (writable 0) [] .read, .trigger 0 (writable 0) [] .read, .recheck 0 .read 8,
    .take 0 (writable 0) [] .write, .trigger 0 (writable 0) [] .write, .wake 7 [], .done]

theorem asked_legal : Legal (undisturbed 64 Nat Nat) start asked :=
  ⟨⟨trivial, id⟩, ⟨rfl, id⟩, ⟨rfl, id⟩, ⟨rfl, id⟩, ⟨⟨rfl, rfl⟩, by rintro ⟨_, ⟨⟩, _⟩⟩,
    ⟨⟨⟨Token.zero, rfl⟩, rfl⟩, id⟩, ⟨rfl, id⟩, ⟨⟨rfl, id⟩, by rintro ⟨⟩⟩, ⟨rfl, id⟩, trivial⟩

theorem polled_asked : enabled (final (undisturbed 64 Nat Nat) start asked).state
    (.poll [writable 0]) :=
  ⟨rfl, canReport_writable rfl (by decide)⟩

theorem overlapped_legal : Legal (undisturbed 64 Nat Nat)
    ((undisturbed 64 Nat Nat).effect (final (undisturbed 64 Nat Nat) start asked)
      (.poll [writable 0])) overlapped :=
  ⟨⟨⟨rfl, rfl⟩, id⟩, ⟨⟨⟨Token.zero, rfl⟩, rfl⟩, id⟩, ⟨rfl, id⟩,
    ⟨⟨rfl, fun locked => locked.2.elim nofun nofun⟩,
      show (0, Direction.read) ∉ [(0, Direction.write)] by decide⟩,
    ⟨rfl, id⟩, ⟨rfl, id⟩, ⟨rfl, id⟩, ⟨rfl, id⟩, ⟨rfl, id⟩, ⟨⟨rfl, rfl⟩, id⟩, ⟨⟨rfl, rfl⟩, id⟩,
    trivial⟩

/-- The writer is woken, and the reader waits on. -/
theorem small_steps_refine_run_overlapped :
    ∃ history t, Run (ReactorBatches.run 64 Nat Nat)
        (loopOf (start : Traced 64 Nat Nat)) history (complete t) ∧
      complete t = loopOf (t : Traced 64 Nat Nat) ∧
      t.trace = [.store 0 .write, .wake 7] ∧ (complete t).slot (0, .read) = some 8 := by
  have run := ((run_of_legal asked asked_legal).snoc ⟨polled_asked, id⟩).append
    (run_of_legal overlapped overlapped_legal)
  have refined := small_steps_refine_run (X := Nat) run
  exact ⟨_, _, refined.1, refined.2 rfl, rfl, rfl⟩

/-! ## What a batch does -/

theorem complete_trace_kept {s : Traced bits W R} {a : Action bits W R} (quiet : Quiet s.state)
    (h : (undisturbed bits W R).enabled s a) (unpolled : ∀ events, a ≠ .poll events) :
    (complete ((undisturbed bits W R).effect s a)).trace = (complete s).trace := by
  rw [complete_step (X := PEmpty) quiet h]
  cases a with
  | poll events => exact absurd rfl (unpolled events)
  | _ => rfl

/-- Everything that a batch does is settled when `mio::Poll::poll` returns,
whatever the other threads do until the batch is over: the flags of its
positions are stored in their order, and then those wakers are woken that waited
at a position of the batch at that time, each of them once. -/
theorem batch_settled {s : Traced bits W R} {batch : List (Event bits)}
    {past after : List (Traced bits W R × Action bits W R)}
    (before : Run (undisturbed bits W R) start past s) (polled : enabled s.state (.poll batch))
    (rest : Run (undisturbed bits W R) ((undisturbed bits W R).effect s (.poll batch)) after t)
    (same_batch : ∀ p ∈ after, ∀ events, p.2 ≠ .poll events)
    (back : t.state.reactor = .polling) :
    ∃ once : List (Nat × Direction), once.Nodup ∧
      (∀ p, p ∈ once ↔ ReactorBatches.Hit s.state.sources batch p) ∧
      t.trace = s.trace ++
        ((positions s.state.sources batch).map fun p => .store p.1 p.2) ++
          (once.filterMap fun p => (s.state.heap p.1).interest p.2).map .wake := by
  let u := (undisturbed bits W R).effect s (.poll batch)
  have quiet₀ : Quiet (start : Traced bits W R).state := quiet_initial
  have quiet : Quiet s.state := (atOnce bits W R PEmpty).invariant quiet₀ before
  have quiet' : Quiet u.state := quiet.step polled
  -- the batch as a whole has its effect with the poll
  have kept : Quiet t.state ∧ (complete t).trace = (complete u).trace := by
    refine rest.invariant_of (fun _ a => ∀ events, a ≠ .poll events)
      (fun v => Quiet v.state ∧ (complete v).trace = (complete u).trace) ?_ same_batch
      ⟨quiet', rfl⟩
    rintro v a unpolled ⟨quiet, trace⟩ h
    exact ⟨quiet.step h.1, (complete_trace_kept quiet h unpolled).trans trace⟩
  have ended : t.trace = (complete u).trace := by
    rw [← kept.2, complete_polling back (kept.1.selector back)]
    rfl
  have ahead_polled : ahead u.state = positions s.state.sources batch := rfl
  have empty : s.state.wakers = [] := quiet.selector polled.1
  obtain ⟨once, nodup, mem, wakers⟩ :=
    (touched_foldl (loopOf u) (positions s.state.sources batch)).wakers
  have taken : ((positions s.state.sources batch).foldl Loop.touch (loopOf u)).wakers =
      once.filterMap fun p => (s.state.heap p.1).interest p.2 := by
    rw [wakers]
    change s.state.wakers ++ _ = _
    rw [empty]
    rfl
  refine ⟨once, nodup, fun p => (mem p).trans ReactorBatches.mem_positions, ?_⟩
  rw [ended, complete_trace, ahead_polled, taken]
  change s.trace ++ [] ++ _ ++ _ = _
  rw [List.append_nil]

/-- The reader that came meanwhile is not woken. -/
theorem batch_settled_overlapped :
    let s : Traced 64 Nat Nat := final (undisturbed 64 Nat Nat) start asked
    let t := final (undisturbed 64 Nat Nat)
      ((undisturbed 64 Nat Nat).effect s (.poll [writable 0])) overlapped
    (∃ once : List (Nat × Direction), once.Nodup ∧
      (∀ p, p ∈ once ↔ ReactorBatches.Hit s.state.sources [writable 0] p) ∧
      t.trace = [.store 0 .write] ++
        (once.filterMap fun p => (s.state.heap p.1).interest p.2).map .wake) ∧
      t.trace = [.store 0 .write, .wake 7] := by
  intro s t
  refine ⟨batch_settled (run_of_legal asked asked_legal) polled_asked
    (run_of_legal overlapped overlapped_legal) ?_ rfl, rfl⟩
  rintro p listed events polls
  have taken : p.2 ∈ overlapped := by
    rw [← transitions_actions (M := undisturbed 64 Nat Nat) overlapped]
    exact List.mem_map_of_mem listed
  rw [polls] at taken
  simp [overlapped] at taken

end ReactorRefinement
