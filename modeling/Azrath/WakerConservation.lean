import Azrath.ReactorWakers
import Azrath.RunLedgers
import Mathlib.Algebra.BigOperators.Group.Finset.Basic
import Mathlib.Algebra.Order.Group.Multiset

/-!
# No waker is lost or woken twice

A waker that `poll_ready` clones into a slot leaves it in one of three ways: a
later call replaces it, the reactor takes it along and wakes it before it sleeps
again, or it goes with the source when that is freed. The books over a whole run,
of all streams and all calls, balance.
-/

namespace WakerConservation

open GuardedRuns ReactorModel ReactorRegistry ReactorReadiness ReactorWakers

universe u v
variable {bits : Nat} {W : Type u} {K : Type v} {R : Type u} [Waker W K]
variable {s t : State bits W R} {a : Action bits W R} {c : Nat} {d : Direction} {cx : W}
variable {history : List (State bits W R × Action bits W R)} {k : Token bits}

/-! ## One source -/

def slot (source : Source bits W) (d : Direction) : Multiset W :=
  (source.interest d).elim 0 ({·})

/-- The wakers in the two slots of a source. -/
def held (source : Source bits W) : Multiset W := slot source .read + slot source .write

/-- What `poll_ready` clones into the slot. -/
def cloned (source : Source bits W) (d : Direction) (cx : W) : Multiset W :=
  match source.interest d with
  | some existing => if Waker.will_wake existing cx then 0 else {Waker.clone cx}
  | none => {Waker.clone cx}

/-- What it drops for it. -/
def dropped (source : Source bits W) (d : Direction) (cx : W) : Multiset W :=
  match source.interest d with
  | some existing => if Waker.will_wake existing cx then 0 else {existing}
  | none => 0

theorem slot_register (source : Source bits W) (d : Direction) (cx : W) :
    slot (source.register d cx) d + dropped source d cx = slot source d + cloned source d cx := by
  cases filled : source.interest d with
  | none => simp [slot, Source.register, cloned, dropped, filled]
  | some existing =>
    by_cases same : Waker.will_wake existing cx = true
    · simp [slot, Source.register, cloned, dropped, filled, same]
    · simp [slot, Source.register, cloned, dropped, filled, same, add_comm]

theorem held_register (source : Source bits W) (d : Direction) (cx : W) :
    held (source.register d cx) + dropped source d cx = held source + cloned source d cx := by
  have own := slot_register source d cx
  have other : ∀ d', d' ≠ d → slot (source.register d cx) d' = slot source d' := by
    intro d' apart
    rw [slot, slot, register_interest_of_ne source cx apart]
  cases d with
  | read => rw [held, held, other .write (by decide), add_right_comm, own, add_right_comm]
  | write => rw [held, held, other .read (by decide), add_assoc, own, add_assoc]

theorem held_take (source : Source bits W) (event : Event bits) (d : Direction) :
    held (source.take event d) + (source.taken event d : Multiset W) = held source := by
  cases ready : event.ready d with
  | false => simp [held, Source.take, Source.taken, ready]
  | true =>
    cases filled : source.interest d <;> cases d <;>
      simp [held, slot, Source.take, Source.taken, ready, filled, add_comm]

theorem held_congr {source source' : Source bits W} (same : source'.interest = source.interest) :
    held source' = held source := by
  rw [held, held, slot, slot, slot, slot, same]

/-! ## All sources -/

/-- A stream whose `TcpStream` is no more, and with it its part in the source. -/
def dropped? : Stage bits → Option (Token bits)
  | .dropped token => some token
  | _ => none

/-- The reactor has a clone of the stream's `Arc<Source>`. -/
def cloning (c : Nat) : Pc bits → Bool
  | .found c' _ _ _ _ => c' = c
  | _ => false

/-- Nobody has the source any more: its stream has been dropped, which took it
out of the map before, and the reactor is not at it. -/
def freed (s : State bits W R) (c : Nat) : Bool :=
  (s.stage dropped? c).isSome && !cloning c s.reactor

/-- The wakers in the slots of the sources there are. -/
def inSlots (s : State bits W R) : Multiset W :=
  ∑ c ∈ Finset.range s.streams.length, if freed s c then 0 else held (s.heap c)

/-- What was in the slots of the others when they were freed. -/
def inFreed (s : State bits W R) : Multiset W :=
  ∑ c ∈ Finset.range s.streams.length, if freed s c then held (s.heap c) else 0

def inAll (s : State bits W R) : Multiset W :=
  ∑ c ∈ Finset.range s.streams.length, held (s.heap c)

omit [Waker W K] in
theorem inAll_eq (s : State bits W R) : inAll s = inSlots s + inFreed s := by
  rw [inAll, inSlots, inFreed, ← Finset.sum_add_distrib]
  apply Finset.sum_congr rfl
  intro c _
  cases freed s c <;> simp

/-- One source is written. -/
theorem held_update (heap : Nat → Source bits W) (source : Source bits W) {n : Nat}
    (bound : c < n) :
    (∑ i ∈ Finset.range n, held (Function.update heap c source i)) + held (heap c) =
      (∑ i ∈ Finset.range n, held (heap i)) + held source := by
  have listed : c ∈ Finset.range n := Finset.mem_range.mpr bound
  have others : ∑ i ∈ (Finset.range n).erase c, held (Function.update heap c source i) =
      ∑ i ∈ (Finset.range n).erase c, held (heap i) := by
    apply Finset.sum_congr rfl
    intro i hi
    rw [Function.update_of_ne (Finset.ne_of_mem_erase hi)]
  rw [← Finset.add_sum_erase _ _ listed, others, Function.update_self,
    ← Finset.add_sum_erase _ (fun i => held (heap i)) listed]
  ac_rfl

/-- What goes into the slots of one source and out of them goes into all slots. -/
theorem held_moved (heap : Nat → Source bits W) {source : Source bits W} {n : Nat}
    (bound : c < n) {gain loss : Multiset W} (moved : held source + loss = held (heap c) + gain) :
    (∑ i ∈ Finset.range n, held (Function.update heap c source i)) + loss =
      (∑ i ∈ Finset.range n, held (heap i)) + gain := by
  have changed := held_update heap source bound
  apply add_right_cancel (b := held (heap c))
  rw [add_right_comm, changed, add_assoc, moved]
  ac_rfl

theorem slots_kept (heap : Nat → Source bits W) (source : Source bits W) {n : Nat}
    (same : source.interest = (heap c).interest) :
    (∑ i ∈ Finset.range n, held (Function.update heap c source i)) =
      ∑ i ∈ Finset.range n, held (heap i) := by
  apply Finset.sum_congr rfl
  intro i _
  apply update_kept held
  rintro rfl
  exact held_congr same

/-- A stream that has no source in the map yet is not in use. -/
def Unused (s : State bits W R) : Prop :=
  ∀ c, s.stage Stage.inserted? c = none → (∀ d, (s.calls c d).finished = true) ∧
    ∀ d, (s.heap c).interest d = none

theorem unused_initial : Unused (initial : State bits W R) := by
  intro c _
  exact ⟨fun d => rfl, fun d => rfl⟩

/-- The stream of a call that is under way has its source in the map or had it. -/
theorem Unused.inserted (unused : Unused s) (busy : (s.calls c d).finished = false) :
    ∃ k, s.stage Stage.inserted? c = some k := by
  cases inserted : s.stage Stage.inserted? c with
  | some k => exact ⟨k, rfl⟩
  | none =>
    have finished := (unused c inserted).1 d
    rw [busy] at finished
    cases finished

/-- No step of a call is taken for a stream that is neither live nor in use. -/
theorem off_of_idle (h : enabled s a) (idle : ∀ d, (s.calls c d).finished = true)
    (not_live : s.stage Stage.live? c = none) (d : Direction) : ¬ On c d a := by
  intro on
  have under_way : (s.calls c d).finished = true := idle d
  cases a with
  | start c' d' cx =>
    obtain ⟨rfl, rfl⟩ := on
    obtain ⟨⟨k, live⟩, _⟩ := h
    simp [State.stage, live] at not_live
  | check c' d' cx | recheck c' d' cx | attempt c' d' cx val | clear_trigger c' d' cx =>
    obtain ⟨rfl, rfl⟩ := on
    rw [show s.calls c' d' = _ from h] at under_way
    cases under_way
  | store c' d' cx =>
    obtain ⟨rfl, rfl⟩ := on
    rw [h.1] at under_way
    cases under_way
  | _ => exact on

theorem Unused.step (unused : Unused s) (h : enabled s a) : Unused (effect s a) := by
  intro c fresh
  have before : s.stage Stage.inserted? c = none := by
    cases inserted : s.stage Stage.inserted? c with
    | none => rfl
    | some k =>
      cases (persistent_inserted.step (effect_enrolment h) inserted).symm.trans fresh
  have not_live : s.stage Stage.live? c = none := by
    cases live : s.stage Stage.live? c with
    | none => rfl
    | some k => cases (inserted_of_live live).symm.trans before
  obtain ⟨idle, empty⟩ := unused c before
  have resting := off_of_idle h idle not_live
  refine ⟨fun d => by rw [call_kept (resting d)]; exact idle d, fun d => ?_⟩
  rcases slot_step h c d with ⟨kept, _, _⟩ | ⟨event, rest, rfl, _, emptied⟩ | ⟨cx, rfl, _⟩ |
    ⟨k, rfl, here⟩
  · rw [kept]
    exact empty d
  · exact emptied
  · exact absurd ⟨rfl, rfl⟩ (resting d)
  · simp [effect, State.setSource, State.setStage, Source.new]

theorem unused_run (run : Run (reactor bits R) (initial : State bits W R) history s) : Unused s :=
  run.invariant Unused (fun _ _ unused h => unused.step h) unused_initial

/-- Only a live stream is in a call: the drop waits for its borrows to end. -/
def Resting (s : State bits W R) : Prop :=
  ∀ c, s.stage Stage.live? c = none → ∀ d, (s.calls c d).finished = true

theorem Resting.step (resting : Resting s) (h : enabled s a) : Resting (effect s a) := by
  intro c not_live d
  cases live : s.stage Stage.live? c with
  | none =>
    rw [call_kept (off_of_idle h (resting c live) live d)]
    exact resting c live d
  | some k =>
    rcases map_step h with ⟨_, kept⟩ | ⟨c', k', _, _, changed⟩ | ⟨c', k', rfl, _, _, changed⟩
    · cases ((kept c).trans live).symm.trans not_live
    · rw [changed, live] at not_live
      split at not_live <;> cases not_live
    · rw [changed, live] at not_live
      split at not_live
      · rename_i same
        subst same
        exact h.2.2 d
      · cases not_live

theorem resting_run (run : Run (reactor bits R) (initial : State bits W R) history s) : Resting s :=
  run.invariant Resting (fun _ _ resting h => resting.step h) fun _ _ _ => rfl

theorem held_of_empty {source : Source bits W} (empty : ∀ d, source.interest d = none) :
    held source = 0 := by
  simp [held, slot, empty]

theorem bound_of_inserted (inserted : s.stage Stage.inserted? c = some k) :
    c < s.streams.length := by
  obtain ⟨stage, here, _⟩ := Option.bind_eq_some_iff.mp inserted
  exact (List.getElem?_eq_some_iff.mp here).1

/-! ## One transition -/

/-- Cloned into a slot, dropped for another waker, woken by the reactor. -/
def stored (p : State bits W R × Action bits W R) : Multiset W :=
  match p.2 with
  | .store c d cx => cloned (p.1.heap c) d cx
  | _ => 0

def replaced (p : State bits W R × Action bits W R) : Multiset W :=
  match p.2 with
  | .store c d cx => dropped (p.1.heap c) d cx
  | _ => 0

def woken (p : State bits W R × Action bits W R) : Multiset W :=
  match p.2 with
  | .wake waker _ => {waker}
  | _ => 0

/-- The wakers that go with the sources that are freed in this step. -/
def destroyed (p : State bits W R × Action bits W R) : Multiset W :=
  ∑ c ∈ Finset.range p.1.streams.length,
    if freed (effect p.1 p.2) c && !freed p.1 c then held (p.1.heap c) else 0

/-- In slots, of freed sources too, or taken out of them and not woken yet. -/
def stock (s : State bits W R) : Multiset W := inAll s + (s.wakers : Multiset W)

theorem stock_step (unused : Unused s) (sound : Sound s) (h : enabled s a) :
    stock s + stored (s, a) = (replaced (s, a) + woken (s, a)) + stock (effect s a) := by
  cases a with
  | register =>
    have fresh : held (s.heap s.streams.length) = 0 :=
      held_of_empty (unused s.streams.length (by simp [State.stage])).2
    simp [stock, inAll, stored, replaced, woken, effect, Finset.sum_range_succ, fresh]
  | insert c k =>
    have bound := (List.getElem?_eq_some_iff.mp h.2).1
    have fresh : held (s.heap c) = 0 :=
      held_of_empty (unused c (by simp [State.stage, h.2])).2
    have moved := held_moved s.heap bound
      (show held (Source.new k) + 0 = held (s.heap c) + 0 by rw [fresh]; rfl)
    simp only [add_zero] at moved
    simp [stock, inAll, stored, replaced, woken, effect, State.setSource, State.setStage, moved]
  | take c event rest d =>
    have bound := bound_of_inserted (sound.finding _ _ _ _ _ h)
    have moved := held_moved s.heap bound
      (show _ = held (s.heap c) + 0 from (held_take (s.heap c) event d).trans (add_zero _).symm)
    rw [add_zero] at moved
    simp only [stock, inAll, stored, replaced, woken, effect, State.setSource, add_zero, zero_add,
      ← Multiset.coe_add, ← moved]
    ac_rfl
  | store c d cx =>
    have busy : (s.calls c d).finished = false := by rw [h.1]; rfl
    obtain ⟨k, inserted⟩ := unused.inserted busy
    have moved := held_moved s.heap (bound_of_inserted inserted)
      (held_register (s.heap c) d cx)
    simp only [stock, inAll, stored, replaced, woken, effect, State.setSource, State.setCall,
      add_zero]
    rw [add_right_comm, ← moved]
    ac_rfl
  | wake waker rest =>
    simp only [stock, inAll, stored, replaced, woken, effect, h.2, add_zero, zero_add,
      ← Multiset.cons_coe, ← Multiset.singleton_add]
    ac_rfl
  | trigger c event rest d =>
    have same := slots_kept s.heap ((s.heap c).trigger event d)
      (n := s.streams.length) (Source.trigger_interest (s.heap c) event d)
    simp [stock, inAll, stored, replaced, woken, effect, State.setSource, same]
  | clear_trigger c d cx =>
    have same := slots_kept s.heap ((s.heap c).clear_trigger d)
      (n := s.streams.length) rfl
    simp [stock, inAll, stored, replaced, woken, effect, State.setSource, State.setCall, same]
  | set_nonblocking c ok | fetch_add c | registry_register c k ok | remove c k | deregister c k =>
    simp [stock, inAll, stored, replaced, woken, effect, State.setStage]
  | _ => simp [stock, inAll, stored, replaced, woken, effect, State.setCall]

/-! ## Sources that are freed -/

theorem persistent_dropped : Persistent (@dropped? bits) where
  none_yet := rfl
  keeps := by
    intro _ _ _ _ step given
    cases step <;> first | exact given | cases given

omit [Waker W K] in
theorem freed_iff (s : State bits W R) (c : Nat) :
    freed s c = true ↔ (∃ k, s.stage dropped? c = some k) ∧ cloning c s.reactor = false := by
  simp [freed, Option.isSome_iff_exists]

omit [Waker W K] in
theorem not_live_of_dropped (gone : s.stage dropped? c = some k) :
    s.stage Stage.live? c = none := by
  obtain ⟨stage, here, shown⟩ := Option.bind_eq_some_iff.mp gone
  cases stage <;> simp [dropped?] at shown
  simp [State.stage, here]

/-- The reactor gets at the sources of live streams only. -/
theorem cloning_step (sound : Sound s) (h : enabled s a) (not_live : s.stage Stage.live? c = none)
    (apart : cloning c s.reactor = false) : cloning c (effect s a).reactor = false := by
  cases a with
  | poll events | done => rfl
  | lookup event rest =>
    cases found : s.sources event.token with
    | none => simp [effect, found, cloning]
    | some c' =>
      have other : c' ≠ c := by
        rintro rfl
        cases (sound.mapped _ _ found).symm.trans not_live
      simp [effect, found, cloning, other]
  | take c' event rest d =>
    rw [show s.reactor = _ from h] at apart
    exact apart
  | trigger c' event rest d =>
    rw [show s.reactor = _ from h] at apart
    cases d with
    | read => exact apart
    | write => rfl
  | _ => exact apart

theorem freed_step (sound : Sound s) (h : enabled s a) (gone : freed s c = true) :
    freed (effect s a) c = true := by
  rw [freed_iff] at gone ⊢
  obtain ⟨⟨k, dropped⟩, apart⟩ := gone
  exact ⟨⟨k, persistent_dropped.step (effect_enrolment h) dropped⟩,
    cloning_step sound h (not_live_of_dropped dropped) apart⟩

/-- Nobody writes into a source that is freed, or that is freed in this step. -/
theorem held_of_freed (resting : Resting s) (h : enabled s a)
    (gone : freed (effect s a) c = true) : held ((effect s a).heap c) = held (s.heap c) := by
  obtain ⟨⟨k, dropped⟩, apart⟩ := (freed_iff _ _).mp gone
  have not_live := not_live_of_dropped dropped
  apply held_congr
  funext d
  rcases slot_step h c d with ⟨kept, _⟩ | ⟨event, rest, rfl, _⟩ | ⟨cx, rfl, calling, _⟩ |
    ⟨k', rfl, here⟩
  · exact kept
  · simp [effect, cloning] at apart
  · -- a call under way is one of a live stream
    have idle := resting c not_live d
    rw [calling] at idle
    cases idle
  · simp [effect, State.stage, State.setSource, State.setStage,
      (List.getElem?_eq_some_iff.mp here).1] at not_live

/-- A stream that begins in this step has not been dropped. -/
theorem bound_of_freed (h : enabled s a) (gone : freed (effect s a) c = true) :
    c < s.streams.length := by
  obtain ⟨⟨k, dropped⟩, _⟩ := (freed_iff _ _).mp gone
  rcases stage_step (effect_enrolment h) dropped? rfl c with same | ⟨old, _, here, _⟩
  · obtain ⟨stage, here, _⟩ := Option.bind_eq_some_iff.mp (same.symm.trans dropped)
    exact (List.getElem?_eq_some_iff.mp here).1
  · exact (List.getElem?_eq_some_iff.mp here).1

theorem inFreed_step (sound : Sound s) (resting : Resting s) (h : enabled s a) :
    inFreed (effect s a) = inFreed s + destroyed (s, a) := by
  have each : ∀ c, (if freed (effect s a) c then held ((effect s a).heap c) else 0) =
      (if freed s c then held (s.heap c) else 0) +
        if freed (effect s a) c && !freed s c then held (s.heap c) else 0 := by
    intro c
    cases now : freed (effect s a) c with
    | false =>
      cases before : freed s c with
      | false => rfl
      | true => cases (freed_step sound h before).symm.trans now
    | true =>
      rw [held_of_freed resting h now]
      cases freed s c <;> simp
  have beyond : ∑ c ∈ Finset.range s.streams.length,
      (if freed (effect s a) c then held ((effect s a).heap c) else 0) =
        inFreed (effect s a) := by
    apply Finset.sum_subset (Finset.range_subset_range.mpr (length_le (effect_enrolment h)))
    intro c _ new
    rw [if_neg]
    exact fun gone => new (Finset.mem_range.mpr (bound_of_freed h gone))
  rw [← beyond, inFreed, destroyed, ← Finset.sum_add_distrib]
  exact Finset.sum_congr rfl fun c _ => each c

/-! ## Whole runs -/

theorem selector_step (before : s.reactor = .polling → s.wakers = []) (h : enabled s a)
    (selector : (effect s a).reactor = .polling) : (effect s a).wakers = [] := by
  cases a with
  | poll events => cases selector
  | lookup event rest =>
    cases found : s.sources event.token <;> simp [effect, found] at selector
  | take c event rest d => cases selector
  | trigger c event rest d => cases d <;> cases selector
  | wake waker rest => cases h.1.symm.trans selector
  | done => exact h.2
  | _ => exact before selector

/-- In the selector the reactor has nobody left to wake. -/
theorem selector_empty (run : Run (reactor bits R) (initial : State bits W R) history s)
    (polling : s.reactor = .polling) : s.wakers = [] :=
  run.invariant (fun t => t.reactor = .polling → t.wakers = [])
    (fun _ _ before h => selector_step before h) (fun _ => rfl) polling

/-- In every run the wakers that calls of `poll_ready` have cloned are those
that were replaced, those the reactor has woken, those that went with the source
of a dropped stream, and those that are in a slot or about to be woken, each as
often as it was cloned; in the selector nobody is about to be woken. -/
theorem wakers_conserved (run : Run (reactor bits R) (initial : State bits W R) history s) :
    (history.map stored).sum = (history.map replaced).sum + (history.map woken).sum +
      (history.map destroyed).sum + inSlots s + s.wakers ∧
    (s.reactor = .polling → s.wakers = []) := by
  have step : ∀ past u a, Run (reactor bits R) (initial : State bits W R) past u →
      (reactor bits R).enabled u a → stock u + stored (u, a) =
        (replaced (u, a) + woken (u, a)) + stock ((reactor bits R).effect u a) :=
    fun past u a before h => stock_step (unused_run before) (sound_run before) h
  have books := RunLedgers.balance stock stored (fun p => replaced p + woken p) step run
  have freeing : ∀ past u a, Run (reactor bits R) (initial : State bits W R) past u →
      (reactor bits R).enabled u a →
        inFreed u + destroyed (u, a) = 0 + inFreed ((reactor bits R).effect u a) :=
    fun past u a before h =>
      (inFreed_step (sound_run before) (resting_run before) h).symm.trans (zero_add _).symm
  have gone := RunLedgers.balance inFreed destroyed (fun _ => 0) freeing run
  have empty : stock (initial : State bits W R) = 0 := rfl
  have none_freed : inFreed (initial : State bits W R) = 0 := rfl
  rw [none_freed, zero_add, List.map_const', List.sum_replicate, nsmul_zero, zero_add] at gone
  rw [empty, zero_add, List.sum_map_add, stock, inAll_eq, ← gone, add_comm (inSlots s),
    ← add_assoc, ← add_assoc] at books
  exact ⟨books, selector_empty run⟩

/-- Two tasks wait for one stream, the second in the place of the first. -/
def rivals : List (Action 64 Nat Nat) :=
  enrol ++ [.start 0 .write 7, .check 0 .write 7, .store 0 .write 7, .recheck 0 .write 7,
    .start 0 .write 8, .check 0 .write 8, .store 0 .write 8, .recheck 0 .write 8,
    .poll [writable 0], .lookup (writable 0) [],
    .take 0 (writable 0) [] .read, .trigger 0 (writable 0) [] .read,
    .take 0 (writable 0) [] .write, .trigger 0 (writable 0) [] .write, .wake 8 [], .done]

theorem rivals_legal : Legal (reactor 64 Nat) (initial : State 64 Nat Nat) rivals :=
  ⟨trivial, rfl, rfl, rfl, ⟨rfl, rfl⟩, ⟨⟨Token.zero, rfl⟩, rfl⟩, rfl, ⟨rfl, id⟩, rfl,
    ⟨⟨Token.zero, rfl⟩, rfl⟩, rfl, ⟨rfl, id⟩, rfl,
    ⟨rfl, canReport_writable rfl (by decide)⟩, ⟨rfl, rfl⟩, rfl, rfl, rfl, rfl, ⟨rfl, rfl⟩,
    ⟨rfl, rfl⟩, trivial⟩

/-- Then a third task waits for bytes, and its waker goes with the stream when
that is dropped. -/
def abandoned : List (Action 64 Nat Nat) :=
  rivals ++ [.start 0 .read 9, .check 0 .read 9, .store 0 .read 9, .recheck 0 .read 9,
    .remove 0 Token.zero, .deregister 0 Token.zero]

theorem abandoned_legal : Legal (reactor 64 Nat) (initial : State 64 Nat Nat) abandoned :=
  ⟨trivial, rfl, rfl, rfl, ⟨rfl, rfl⟩, ⟨⟨Token.zero, rfl⟩, rfl⟩, rfl, ⟨rfl, id⟩, rfl,
    ⟨⟨Token.zero, rfl⟩, rfl⟩, rfl, ⟨rfl, id⟩, rfl,
    ⟨rfl, canReport_writable rfl (by decide)⟩, ⟨rfl, rfl⟩, rfl, rfl, rfl, rfl, ⟨rfl, rfl⟩,
    ⟨rfl, rfl⟩, ⟨⟨Token.zero, rfl⟩, rfl⟩, rfl, ⟨rfl, id⟩, rfl,
    ⟨rfl, rfl, fun d => by cases d <;> rfl⟩, rfl, trivial⟩

theorem wakers_conserved_abandoned :
    let s : State 64 Nat Nat := final (reactor 64 Nat) initial abandoned
    let history := transitions (reactor 64 Nat) (initial : State 64 Nat Nat) abandoned
    (history.map stored).sum = (history.map replaced).sum + (history.map woken).sum +
        (history.map destroyed).sum + inSlots s + s.wakers ∧
      (history.map stored).sum = {7, 8, 9} ∧ (history.map replaced).sum = {7} ∧
      (history.map woken).sum = {8} ∧ (history.map destroyed).sum = {9} ∧ inSlots s = 0 :=
  ⟨(wakers_conserved (run_of_legal abandoned abandoned_legal)).1, rfl, rfl, rfl, rfl, rfl⟩

end WakerConservation
