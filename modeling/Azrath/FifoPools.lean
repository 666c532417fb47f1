import Azrath.GuardedRuns
import Azrath.ThreadLists
import Mathlib.Algebra.Order.Group.Multiset

/-!
# A pool that serves its tasks in their order

A pool has so many slots. A queued task may begin while a slot is free, the
first one first, and it gives its slot back when it is finished. A slot may also
be lost: with a task that fails, or at the submission of a task. How the slots
are filled is left open.
-/

namespace FifoPools

open GuardedRuns

universe u
variable {T : Type u} {slots : Nat}

@[ext] structure Pool (T : Type u) where
  queued : List T
  running : Multiset T
  lost : Nat

def Pool.empty : Pool T where
  queued := []
  running := 0
  lost := 0

def Pool.busy (s : Pool T) : Nat := s.running.card + s.lost

inductive Event (T : Type u) where
  | submit (task : T) (loses : Bool)
  | begin (task : T)
  | finish (task : T)
  | fail (task : T)

namespace Event

def submitted? : Event T → Option T
  | submit task _ => some task
  | _ => none

def begun? : Event T → Option T
  | begin task => some task
  | _ => none

def ended? : Event T → Option T
  | finish task | fail task => some task
  | _ => none

end Event

open scoped Classical in
/-- A slot that is lost was free. -/
noncomputable def fifo (T : Type u) (slots : Nat) : System (Pool T) (Event T) where
  enabled s
    | .submit _ loses => s.busy + loses.toNat ≤ slots
    | .begin task => s.queued.head? = some task ∧ s.busy < slots
    | .finish task | .fail task => task ∈ s.running
  effect s
    | .submit task loses =>
      { s with queued := s.queued ++ [task], lost := s.lost + loses.toNat }
    | .begin task => { s with queued := s.queued.tail, running := task ::ₘ s.running }
    | .finish task => { s with running := s.running.erase task }
    | .fail task => { s with running := s.running.erase task, lost := s.lost + 1 }

variable {s t : Pool T} {history : List (Pool T × Event T)}

def submitted (history : List (Pool T × Event T)) : List T :=
  history.filterMap fun p => p.2.submitted?

def begun (history : List (Pool T × Event T)) : List T := history.filterMap fun p => p.2.begun?

def ended (history : List (Pool T × Event T)) : List T := history.filterMap fun p => p.2.ended?

theorem submitted_snoc (p : Pool T × Event T) :
    submitted (history ++ [p]) = submitted history ++ p.2.submitted?.toList :=
  ThreadLists.filterMap_snoc _ history p

theorem begun_snoc (p : Pool T × Event T) :
    begun (history ++ [p]) = begun history ++ p.2.begun?.toList :=
  ThreadLists.filterMap_snoc _ history p

theorem ended_snoc (p : Pool T × Event T) :
    ended (history ++ [p]) = ended history ++ p.2.ended?.toList :=
  ThreadLists.filterMap_snoc _ history p

open scoped Classical in
theorem busy_le (run : Run (fifo T slots) Pool.empty history s) : s.busy ≤ slots := by
  refine run.invariant (fun t => t.busy ≤ slots) ?_ (Nat.zero_le slots)
  intro t a bound h
  cases a with
  | submit task loses => exact (Nat.add_assoc _ _ _).symm.trans_le h
  | begin task =>
    have room : t.busy < slots := h.2
    simp only [fifo, Pool.busy, Multiset.card_cons] at room ⊢
    omega
  | finish task =>
    have shrinks := Multiset.card_erase_lt_of_mem (show task ∈ t.running from h)
    simp only [fifo, Pool.busy] at bound ⊢
    omega
  | fail task =>
    have shrinks := Multiset.card_erase_lt_of_mem (show task ∈ t.running from h)
    simp only [fifo, Pool.busy] at bound ⊢
    omega

/-- Tasks begin in the order in which they were submitted. -/
theorem begin_in_order (run : Run (fifo T slots) Pool.empty history s) :
    submitted history = begun history ++ s.queued := by
  refine run.history_invariant (fun past t => submitted past = begun past ++ t.queued) rfl ?_
  intro past t a _ ih h
  rw [submitted_snoc, begun_snoc, ih]
  cases a with
  | submit task loses => simp [fifo, Event.submitted?, Event.begun?]
  | begin task =>
    obtain ⟨rest, front⟩ : ∃ rest, t.queued = task :: rest := by
      obtain ⟨rest, front⟩ := List.head?_eq_some_iff.mp h.1
      exact ⟨rest, front⟩
    simp [fifo, Event.submitted?, Event.begun?, front]
  | finish task | fail task => simp [fifo, Event.submitted?, Event.begun?]

open scoped Classical in
/-- What has begun and not ended is running. -/
theorem begun_eq (run : Run (fifo T slots) Pool.empty history s) :
    (begun history : Multiset T) = (ended history : Multiset T) + s.running := by
  refine run.history_invariant (fun past t =>
    (begun past : Multiset T) = (ended past : Multiset T) + t.running) rfl ?_
  intro past t a _ ih h
  rw [begun_snoc, ended_snoc, ← Multiset.coe_add, ← Multiset.coe_add, ih]
  cases a with
  | submit task loses => simp [fifo, Event.begun?, Event.ended?]
  | begin task =>
    simp only [fifo, Event.begun?, Event.ended?, Option.toList_some, Option.toList_none,
      Multiset.coe_nil, add_zero, Multiset.coe_singleton]
    rw [add_assoc, Multiset.add_comm t.running, Multiset.singleton_add]
  | finish task | fail task =>
    have here : task ∈ t.running := h
    simp only [fifo, Event.begun?, Event.ended?, Option.toList_some, Option.toList_none,
      Multiset.coe_nil, add_zero, Multiset.coe_singleton]
    rw [add_assoc, Multiset.singleton_add, Multiset.cons_erase here]

theorem length_begun (run : Run (fifo T slots) Pool.empty history s) :
    (begun history).length = (ended history).length + s.running.card := by
  rw [← Multiset.coe_card, begun_eq run, Multiset.card_add, Multiset.coe_card]

/-- A task can overtake only those that run beside it. -/
theorem ended_bound (run : Run (fifo T slots) Pool.empty history s) :
    (ended history : Multiset T) + s.running =
        (submitted history).take ((ended history).length + s.running.card) ∧
      s.running.card + s.lost ≤ slots := by
  refine ⟨?_, busy_le run⟩
  rw [← begun_eq run, ← length_begun run, begin_in_order run, List.take_left]

/-- One slot serves one task after the other. -/
theorem ended_in_order (run : Run (fifo T 1) Pool.empty history s) :
    ∃ current : Option T, s.running = (current.toList : Multiset T) ∧
      begun history = ended history ++ current.toList := by
  refine run.history_invariant (fun past t => ∃ current : Option T,
    t.running = (current.toList : Multiset T) ∧ begun past = ended past ++ current.toList)
    ⟨none, rfl, rfl⟩ ?_
  rintro past t a _ ⟨current, here, ih⟩ h
  have sole : ∀ {task : T}, task ∈ t.running → current = some task := by
    intro task running
    rw [here] at running
    cases current with
    | none => cases Multiset.mem_coe.mp running
    | some other => rw [List.mem_singleton.mp (Multiset.mem_coe.mp running)]
  rw [begun_snoc, ended_snoc, ih]
  cases a with
  | submit task loses => exact ⟨current, here, by simp [Event.begun?, Event.ended?]⟩
  | begin task =>
    have free : t.busy < 1 := h.2
    cases current with
    | some other =>
      rw [Pool.busy, here] at free
      simp at free
    | none =>
      refine ⟨some task, ?_, by simp [Event.begun?, Event.ended?]⟩
      simp [fifo, here]
  | finish task | fail task =>
    obtain rfl := sole h
    refine ⟨none, ?_, by simp [Event.begun?, Event.ended?]⟩
    simp [fifo, here]

end FifoPools
