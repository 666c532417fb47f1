import Azrath.ExecutorProgress
import Azrath.FifoPools
import Azrath.Simulations

/-!
# The thread pool is a pool of `max_workers` slots

Seen from outside, the threads, the mutex, the condvar and the counters make up
a pool that serves its tasks in their order. A task that is polled fills a slot;
a panic loses one, and so does a thread that cannot be spawned.
-/

namespace ExecutorRefinement

open GuardedRuns StutteringExecutions Simulations ExecutorModel ExecutorAccounting
open ExecutorProgress FifoPools

universe u
variable {bits : Nat} {T : Type u} {inner : Inner bits} {s t : State T} {a : Action T}

/-- Slots are lost where `workers` counts a thread that is not there. -/
def view (s : State T) : Pool T where
  queued := s.shared.queue
  running := (inHand s : Multiset T)
  lost := s.shared.workers - s.count Worker.live

def label (inner : Inner bits) (s : State T) (a : Action T) : Option (Event T) :=
  match a with
  | .execute fut _ _ _ => some (.submit fut (spawnFails inner (s, a)))
  | .turn _ => s.shared.queue.head?.map .begin
  | .finish _ task => some (.finish task)
  | .panic _ task => some (.fail task)
  | _ => none

theorem length_inHand_le (s : State T) : (inHand s).length ≤ s.count Worker.live := by
  rw [inHand, List.length_filterMap_eq_countP]
  apply List.countP_mono_left
  intro w _ polls
  cases w with
  | polling task => rfl
  | _ => cases polls

/-- The slots in use are counted by `workers`. -/
theorem busy_view_le (inv : Accounted inner s) : (view s).busy ≤ s.shared.workers := by
  have few := length_inHand_le s
  have live := inv.live_le
  simp only [Pool.busy, view, Multiset.coe_card]
  omega

theorem lost_move (inv : Accounted inner s) (move : Move inner s a t) :
    (view t).lost = (view s).lost + (panics (s, a)).toNat + (spawnFails inner (s, a)).toNat := by
  have counted := inv.workers_move move
  have before := inv.live_le
  have after := (inv.move move).live_le
  simp only [view]
  omega

/-! ## What a step does to the view -/

theorem queued_move (move : Move inner s a t) :
    (view s).queued ++ (submitted? (s, a)).toList = (popped? (s, a)).toList ++ (view t).queued :=
  queue_move move

theorem running_move (move : Move inner s a t) :
    ((popped? (s, a)).toList : Multiset T) + (view s).running =
      ((finished? (s, a)).toList : Multiset T) + ((panicked? (s, a)).toList : Multiset T) +
        (view t).running := by
  have moved := Multiset.coe_eq_coe.mpr (inHand_move move)
  rwa [← Multiset.coe_add, ← Multiset.coe_add, ← Multiset.coe_add] at moved

/-- A step without a label does not show. -/
theorem view_unseen (inv : Accounted inner s) (move : Move inner s a t)
    (unseen : label inner s a = none) : view t = view s := by
  have queue := queued_move move
  have running := running_move move
  have lost := lost_move inv move
  cases a with
  | execute fut caller spawned picked | finish i task | panic i task => cases unseen
  | turn i =>
    have empty : s.shared.queue.head? = none := Option.map_eq_none_iff.mp unseen
    simp only [submitted?, popped?, finished?, panicked?, panics, spawnFails, empty,
      Option.toList_none, List.append_nil, List.nil_append, Multiset.coe_nil, Multiset.zero_add,
      Bool.toNat_false, add_zero] at queue running lost
    exact Pool.ext queue.symm running.symm lost
  | _ =>
    simp only [submitted?, popped?, finished?, panicked?, panics, spawnFails, Option.toList_none,
      List.append_nil, List.nil_append, Multiset.coe_nil, Multiset.zero_add, Bool.toNat_false,
      add_zero] at queue running lost
    exact Pool.ext queue.symm running.symm lost

variable {fut task : T} {rest : List T} {caller picked : Option Nat} {spawned : Bool} {i : Nat}

theorem view_submit (inv : Accounted inner s)
    (move : Move inner s (.execute fut caller spawned picked) t) :
    let e := Event.submit fut (spawnFails inner (s, .execute fut caller spawned picked))
    (fifo T inner.max_workers).enabled (view s) e ∧
      view t = (fifo T inner.max_workers).effect (view s) e := by
  have queue := queued_move move
  have running := running_move move
  have lost := lost_move inv move
  have few := Nat.le_trans (busy_view_le (inv.move move)) (inv.move move).workers_le
  simp only [submitted?, popped?, finished?, panicked?, panics, Option.toList_some,
    Option.toList_none, List.nil_append, Multiset.coe_nil, Multiset.zero_add, Bool.toNat_false,
    add_zero] at queue running lost
  constructor
  · rw [Pool.busy, ← running, lost] at few
    simp only [fifo, Pool.busy]
    omega
  · exact Pool.ext queue.symm running.symm lost

theorem view_begin (inv : Accounted inner s) (front : s.shared.queue = task :: rest)
    (move : Move inner s (.turn i) t) :
    (fifo T inner.max_workers).enabled (view s) (.begin task) ∧
      view t = (fifo T inner.max_workers).effect (view s) (.begin task) := by
  have queue := queued_move move
  have running := running_move move
  have lost := lost_move inv move
  have few := Nat.le_trans (busy_view_le (inv.move move)) (inv.move move).workers_le
  have queued : (view s).queued = task :: rest := front
  simp only [submitted?, popped?, finished?, panicked?, panics, spawnFails, front, queued,
    List.head?_cons, Option.toList_some, Option.toList_none, List.append_nil, List.cons_append,
    List.nil_append, List.cons.injEq, true_and, Multiset.coe_singleton, Multiset.coe_nil,
    Multiset.singleton_add, Multiset.zero_add, Bool.toNat_false, add_zero] at queue running lost
  constructor
  · rw [Pool.busy, ← running, lost, Multiset.card_cons] at few
    refine ⟨by rw [queued, List.head?_cons], ?_⟩
    rw [Pool.busy]
    omega
  · refine Pool.ext ?_ running.symm lost
    rw [← queue]
    simp [fifo, queued]

open scoped Classical in
theorem view_finish (inv : Accounted inner s) (move : Move inner s (.finish i task) t) :
    (fifo T inner.max_workers).enabled (view s) (.finish task) ∧
      view t = (fifo T inner.max_workers).effect (view s) (.finish task) := by
  have queue := queued_move move
  have running := running_move move
  have lost := lost_move inv move
  simp only [submitted?, popped?, finished?, panicked?, panics, spawnFails, Option.toList_some,
    Option.toList_none, List.append_nil, List.nil_append, Multiset.coe_nil, Multiset.coe_singleton,
    Multiset.singleton_add, Multiset.zero_add, Bool.toNat_false, add_zero] at queue running lost
  constructor
  · simp [fifo, running]
  · exact Pool.ext queue.symm (by simp [fifo, running]) lost

open scoped Classical in
theorem view_fail (inv : Accounted inner s) (move : Move inner s (.panic i task) t) :
    (fifo T inner.max_workers).enabled (view s) (.fail task) ∧
      view t = (fifo T inner.max_workers).effect (view s) (.fail task) := by
  have queue := queued_move move
  have running := running_move move
  have lost := lost_move inv move
  simp only [submitted?, popped?, finished?, panicked?, panics, spawnFails, Option.toList_some,
    Option.toList_none, List.append_nil, List.nil_append, Multiset.coe_nil, Multiset.coe_singleton,
    Multiset.singleton_add, Multiset.zero_add, Bool.toNat_true, Bool.toNat_false, add_zero]
    at queue running lost
  constructor
  · simp [fifo, running]
  · exact Pool.ext queue.symm (by simp [fifo, running]) lost

/-- A step is what its label says. -/
theorem view_shown (inv : Accounted inner s) (move : Move inner s a t) {e : Event T}
    (shown : label inner s a = some e) :
    (fifo T inner.max_workers).enabled (view s) e ∧
      view t = (fifo T inner.max_workers).effect (view s) e := by
  cases a with
  | execute fut caller spawned picked =>
    obtain rfl := Option.some.inj shown
    exact view_submit inv move
  | turn i =>
    cases front : s.shared.queue with
    | nil => simp [label, front] at shown
    | cons task rest =>
      obtain rfl : Event.begin task = e := by simpa [label, front] using shown
      exact view_begin inv front move
  | finish i task =>
    obtain rfl := Option.some.inj shown
    exact view_finish inv move
  | panic i task =>
    obtain rfl := Option.some.inj shown
    exact view_fail inv move
  | _ => cases shown

/-! ## The refinement -/

noncomputable def refinement (inner : Inner bits) :
    Simulation (pool T inner) (stuttering (fifo T inner.max_workers)) where
  Inv := Accounted inner
  view := view
  label := label inner
  keeps inv h := inv.move (effect_move inv h)
  able inv h e shown := (view_shown inv (effect_move inv h) shown).1
  step {s a} inv h := by
    have move := effect_move inv h
    cases shown : label inner s a with
    | none => exact view_unseen inv move shown
    | some e => exact (view_shown inv move shown).2

/-- What shows of a history. -/
noncomputable def events (inner : Inner bits) (history : List (State T × Action T)) :
    List (Pool T × Event T) :=
  happened ((refinement inner).shown history)

/-- The task that a step ends, by its end or by a panic. -/
def ended? (p : State T × Action T) : Option T :=
  match p.2 with
  | .finish _ task | .panic _ task => some task
  | _ => none

theorem events_run {history : List (State T × Action T)}
    (run : Run (pool T inner) initial history s) :
    Run (fifo T inner.max_workers) Pool.empty (events inner history) (view s) :=
  run_happened ((refinement inner).run accounted_initial run)

theorem filterMap_events (f : Event T → Option T) (history : List (State T × Action T)) :
    ((events inner history).filterMap fun p => f p.2) =
      history.filterMap fun p => (label inner p.1 p.2).bind f := by
  rw [events, happened, Simulation.shown, List.filterMap_map, List.filterMap_filterMap]
  congr
  funext p
  simp only [Function.comp_apply, refinement]
  cases label inner p.1 p.2 <;> rfl

theorem submitted_events (history : List (State T × Action T)) :
    submitted (events inner history) = history.filterMap submitted? := by
  rw [submitted, filterMap_events]
  congr
  funext p
  obtain ⟨t, a⟩ := p
  cases a with
  | turn i => cases front : t.shared.queue <;> simp [label, submitted?, front, Event.submitted?]
  | _ => rfl

theorem begun_events (history : List (State T × Action T)) :
    begun (events inner history) = history.filterMap popped? := by
  rw [begun, filterMap_events]
  congr
  funext p
  obtain ⟨t, a⟩ := p
  cases a with
  | turn i => cases front : t.shared.queue <;> simp [label, popped?, front, Event.begun?]
  | _ => rfl

theorem ended_events (history : List (State T × Action T)) :
    ended (events inner history) = history.filterMap ended? := by
  rw [ended, filterMap_events]
  congr
  funext p
  obtain ⟨t, a⟩ := p
  cases a with
  | turn i => cases front : t.shared.queue <;> simp [label, ended?, front, Event.ended?]
  | _ => rfl

section Refines
variable {history : List (State T × Action T)}

/-- Every run of the threads, with all its panics and failing spawns, is a run
of a pool of `max_workers` slots that submits, begins and ends the same tasks in
the same order. -/
theorem pool_refines_fifo (run : Run (pool T inner) initial history s) :
    Run (fifo T inner.max_workers) Pool.empty (events inner history) (view s) ∧
      submitted (events inner history) = history.filterMap submitted? ∧
      begun (events inner history) = history.filterMap popped? ∧
      ended (events inner history) = history.filterMap ended? :=
  ⟨events_run run, submitted_events history, begun_events history, ended_events history⟩

theorem pool_refines_fifo_handedOver :
    let history := transitions (pool Nat solo) initial handedOver
    Run (fifo Nat 1) Pool.empty (events solo history)
        (view (final (pool Nat solo) initial handedOver)) ∧
      submitted (events solo history) = [0, 1] ∧ begun (events solo history) = [0] ∧
      ended (events solo history) = [0] :=
  pool_refines_fifo (run_of_legal (M := pool Nat solo) handedOver (by decide))

theorem lost_eq (run : Run (pool T inner) initial history s) :
    (view s).lost = history.countP panics + history.countP (spawnFails inner) := by
  have counted := workers_eq run
  simp only [view]
  omega

/-- The tasks that have ended or are polled are always the first ones that were
submitted, so a task can overtake only the tasks that are polled beside it. With
a single worker the tasks end in the order of their submission. -/
theorem tasks_end_in_turn (run : Run (pool T inner) initial history s) :
    (history.filterMap ended? ++ inHand s).Perm ((history.filterMap submitted?).take
        ((history.filterMap ended?).length + (inHand s).length)) ∧
      (inHand s).length + history.countP panics + history.countP (spawnFails inner) ≤
        inner.max_workers ∧
      (inner.max_workers.val = 1 →
        history.filterMap ended? <+: history.filterMap submitted?) := by
  have abstract_run := events_run run
  obtain ⟨first, few⟩ := ended_bound abstract_run
  rw [ended_events, submitted_events] at first
  rw [lost_eq run] at few
  refine ⟨?_, ?_, fun alone => ?_⟩
  · apply Multiset.coe_eq_coe.mp
    rw [← Multiset.coe_add]
    exact first
  · simp only [view, Multiset.coe_card] at few
    omega
  · rw [alone] at abstract_run
    obtain ⟨current, _, begins⟩ := ended_in_order abstract_run
    have split := begin_in_order abstract_run
    rw [begins, ended_events, submitted_events, List.append_assoc] at split
    exact ⟨_, split.symm⟩

theorem tasks_end_in_turn_handedOver :
    let history := transitions (pool Nat solo) initial handedOver
    (history.filterMap ended? ++ inHand (final (pool Nat solo) initial handedOver)).Perm [0] ∧
      history.filterMap ended? <+: [0, 1] := by
  have ends := tasks_end_in_turn (run_of_legal (M := pool Nat solo) handedOver (by decide))
  exact ⟨ends.1, ends.2.2 rfl⟩

end Refines

end ExecutorRefinement
