import Azrath.ReactorReadiness

/-!
# Who wakes a task that was told to wait

A call of `poll_io` that has stored a waker is covered from then on: the waker
stays in its slot until the reactor takes it, and what the reactor takes it
wakes before it sleeps again. A call that found the flag set at once stores
nothing and relies on what the slot already held.
-/

namespace ReactorWakers

open GuardedRuns ReactorModel ReactorRegistry ReactorReadiness

universe u v
variable {bits : Nat} {W : Type u} {K : Type v} {R : Type u} [Waker W K]
variable {s t : State bits W R} {a : Action bits W R} {c : Nat} {d : Direction} {cx : W}
variable {history : List (State bits W R × Action bits W R)}

/-- After its lock section `poll_ready` has a waker of the calling task stored. -/
theorem register_interest (source : Source bits W) (d : Direction) (cx : W) :
    ∃ w, (source.register d cx).interest d = some w ∧ Waker.task w = Waker.task cx := by
  unfold Source.register
  cases slot : source.interest d with
  | none => exact ⟨Waker.clone cx, by simp, Waker.clone_task cx⟩
  | some existing =>
    by_cases same : Waker.will_wake existing cx = true
    · exact ⟨existing, by simp [same, slot], Waker.will_wake_task existing cx same⟩
    · exact ⟨Waker.clone cx, by simp [same], Waker.clone_task cx⟩

theorem register_interest_of_ne (source : Source bits W) {d d' : Direction} (cx : W)
    (other : d ≠ d') : (source.register d' cx).interest d = source.interest d := by
  unfold Source.register
  cases source.interest d' with
  | none => simp [other]
  | some existing => by_cases same : Waker.will_wake existing cx = true <;> simp [same, other]

/-- The four ways in which a slot can fare. -/
theorem slot_step (h : enabled s a) (c : Nat) (d : Direction) :
    ((effect s a).heap c).interest d = (s.heap c).interest d ∧ (∀ cx, a ≠ .store c d cx) ∧
      (∀ event rest, a = .take c event rest d → (s.heap c).taken event d = []) ∨
    (∃ event rest, a = .take c event rest d ∧
      (s.heap c).taken event d = ((s.heap c).interest d).toList ∧
      ((effect s a).heap c).interest d = none) ∨
    (∃ cx, a = .store c d cx ∧ s.calls c d = .registering cx ∧
      ∃ w, ((effect s a).heap c).interest d = some w ∧ Waker.task w = Waker.task cx) ∨
    ∃ k, a = .insert c k ∧ s.streams[c]? = some (.registered k) := by
  cases a with
  | insert c' k =>
    by_cases same : c' = c
    · subst same
      exact Or.inr (Or.inr (Or.inr ⟨k, rfl, h.2⟩))
    · exact Or.inl ⟨update_kept (fun source => source.interest d) fun h => absurd h same,
        by simp, by simp⟩
  | take c' event rest d' =>
    by_cases here : c' = c ∧ d' = d ∧ event.ready d = true
    · obtain ⟨rfl, rfl, ready⟩ := here
      refine Or.inr (Or.inl ⟨event, rest, rfl, by simp [Source.taken, ready], ?_⟩)
      simpa [effect, State.setSource] using Source.take_of_ready ready
    · refine Or.inl ⟨update_kept (fun source => source.interest d) ?_, by simp, ?_⟩
      · rintro rfl
        exact Source.take_other fun both => here ⟨rfl, both⟩
      · rintro event' rest' same
        cases same
        have not_ready : ¬ event.ready d = true := fun ready => here ⟨rfl, rfl, ready⟩
        simp [Source.taken, not_ready]
  | store c' d' cx =>
    by_cases here : c' = c ∧ d' = d
    · obtain ⟨rfl, rfl⟩ := here
      obtain ⟨w, stored, same⟩ := register_interest (s.heap c') d' cx
      refine Or.inr (Or.inr (Or.inl ⟨cx, rfl, h.1, w, ?_, same⟩))
      simpa [effect, State.setSource, State.setCall] using stored
    · refine Or.inl ⟨update_kept (fun source => source.interest d) ?_, ?_, by simp⟩
      · rintro rfl
        exact register_interest_of_ne _ cx fun same => here ⟨rfl, same.symm⟩
      · rintro cx' same
        cases same
        exact here ⟨rfl, rfl⟩
  | trigger c' event rest d' | clear_trigger c' d' cx =>
    refine Or.inl ⟨update_kept (fun source => source.interest d) ?_, by simp, by simp⟩
    rintro rfl
    simp [Source.clear_trigger]
  | _ => exact Or.inl ⟨rfl, by simp, by simp⟩

/-! ## Covered tasks -/

/-- The slot holds a waker of the task of `cx`. -/
def Holds (s : State bits W R) (c : Nat) (d : Direction) (cx : W) : Prop :=
  ∃ w, (s.heap c).interest d = some w ∧ Waker.task w = Waker.task cx

/-- In this transition the reactor takes `w` out of the slot. -/
def Took (c : Nat) (d : Direction) (w : W) (p : State bits W R × Action bits W R) : Prop :=
  ∃ event rest, p.2 = .take c event rest d ∧ w ∈ (p.1.heap c).taken event d

def Woke (w : W) (p : State bits W R × Action bits W R) : Prop :=
  ∃ rest, p.2 = .wake w rest

/-- The reactor has taken a waker of the task and then woken it, or will before
it sleeps again. -/
def Taken (history : List (State bits W R × Action bits W R)) (s : State bits W R) (c : Nat)
    (d : Direction) (cx : W) : Prop :=
  ∃ w before p after, history = before ++ p :: after ∧ Waker.task w = Waker.task cx ∧
    Took c d w p ∧ ((∃ q ∈ after, Woke w q) ∨ w ∈ s.wakers ∧ s.reactor ≠ .polling)

def Covered (history : List (State bits W R × Action bits W R)) (s : State bits W R) (c : Nat)
    (d : Direction) (cx : W) : Prop :=
  Holds s c d cx ∨ Taken history s c d cx

/-- The reactor leaves a batch only when it has woken everything it took. -/
theorem wakers_step (h : enabled s a) {w : W} (taken : w ∈ s.wakers) (busy : s.reactor ≠ .polling) :
    (w ∈ (effect s a).wakers ∧ (effect s a).reactor ≠ .polling) ∨ Woke w (s, a) := by
  cases a with
  | poll events => exact absurd h.1 busy
  | pollError => exact absurd h busy
  | lookup event rest =>
    refine Or.inl ⟨taken, ?_⟩
    cases found : s.sources event.token <;> simp [effect, found]
  | take c' event rest d' => exact Or.inl ⟨List.mem_append_left _ taken, by simp [effect]⟩
  | trigger c' event rest d' =>
    refine Or.inl ⟨taken, ?_⟩
    cases d' <;> simp [effect, Pc.after]
  | wake waker rest =>
    rw [h.2] at taken
    rcases List.mem_cons.mp taken with rfl | later
    · exact Or.inr ⟨rest, rfl⟩
    · exact Or.inl ⟨later, busy⟩
  | done =>
    rw [h.2] at taken
    cases taken
  | _ => exact Or.inl ⟨taken, busy⟩

theorem Taken.step (taken : Taken history s c d cx) (h : enabled s a) :
    Taken (history ++ [(s, a)]) (effect s a) c d cx := by
  obtain ⟨w, before, p, after, rfl, same, took, due⟩ := taken
  refine ⟨w, before, p, after ++ [(s, a)], by simp, same, took, ?_⟩
  rcases due with ⟨q, hq, woke⟩ | ⟨kept, busy⟩
  · exact Or.inl ⟨q, List.mem_append_left _ hq, woke⟩
  · rcases wakers_step h kept busy with still | woke
    · exact Or.inr still
    · exact Or.inl ⟨_, List.mem_append_right _ (List.mem_singleton_self _), woke⟩

/-- A covered task stays covered as long as its slot gets no other task's waker. -/
theorem Covered.step (covered : Covered history s c d cx) (h : enabled s a) {k : Token bits}
    (inserted : s.stage Stage.inserted? c = some k)
    (own : ∀ cx', a = .store c d cx' → Waker.task cx' = Waker.task cx) :
    Covered (history ++ [(s, a)]) (effect s a) c d cx := by
  rcases covered with ⟨w, held, same⟩ | taken
  · rcases slot_step h c d with ⟨kept, _, _⟩ | ⟨event, rest, rfl, took, _⟩ |
      ⟨cx', rfl, _, w', stored, same'⟩ | ⟨k', _, made⟩
    · exact Or.inl ⟨w, kept.trans held, same⟩
    · have listed : w ∈ (s.heap c).taken event d := by rw [took, held]; simp
      refine Or.inr ⟨w, history, _, [], rfl, same, ⟨event, rest, rfl, listed⟩, Or.inr ?_⟩
      constructor
      · exact List.mem_append_right _ listed
      · simp [effect]
    · exact Or.inl ⟨w', stored, same'.trans (own cx' rfl)⟩
    · simp [State.stage, made] at inserted
  · exact Or.inr (taken.step h)

/-! ## One call of `poll_io` -/

/-- The call has stored its waker. -/
def Stored (c : Nat) (d : Direction) (history : List (State bits W R × Action bits W R)) : Prop :=
  ∃ p ∈ history, ∃ cx, p.2 = .store c d cx

/-- The call found the flag set when it first looked. -/
def FastPath (c : Nat) (d : Direction) (history : List (State bits W R × Action bits W R)) :
    Prop :=
  ∃ p ∈ history, (∃ cx, p.2 = .check c d cx) ∧ (p.1.heap c).triggered d = true

/-- How the call came where it is, with `cx` as its context. -/
def Path (history : List (State bits W R × Action bits W R)) (c : Nat) (d : Direction) (cx : W) :
    Call W R → Prop
  | .idle | .ready _ => True
  | .checking cx' | .registering cx' => cx' = cx ∧ ¬ Stored c d history ∧ ¬ FastPath c d history
  | .rechecking cx' => cx' = cx ∧ Stored c d history ∧ ¬ FastPath c d history
  | .attempting cx' | .clearing cx' | .pending cx' =>
    cx' = cx ∧ (Stored c d history ↔ ¬ FastPath c d history)

theorem stored_snoc : Stored c d (history ++ [(s, a)]) ↔
    Stored c d history ∨ ∃ cx, a = .store c d cx := by
  simp [Stored, or_and_right, exists_or]

theorem fastPath_snoc : FastPath c d (history ++ [(s, a)]) ↔
    FastPath c d history ∨ (∃ cx, a = .check c d cx) ∧ (s.heap c).triggered d = true := by
  simp [FastPath, or_and_right, exists_or]

/-- Nobody else moves the call along, or stores and checks in its place. -/
theorem path_kept (path : Path history c d cx (s.calls c d)) (off : ¬ On c d a) :
    Path (history ++ [(s, a)]) c d cx ((effect s a).calls c d) := by
  have not_store : ¬ ∃ cx', a = .store c d cx' := by
    rintro ⟨cx', rfl⟩
    exact off ⟨rfl, rfl⟩
  have not_check : ¬ ∃ cx', a = .check c d cx' := by
    rintro ⟨cx', rfl⟩
    exact off ⟨rfl, rfl⟩
  rw [call_kept off]
  cases place : s.calls c d with
  | idle | ready val => trivial
  | _ =>
    rw [place] at path
    simpa [Path, stored_snoc, fastPath_snoc, not_store, not_check] using path

theorem path_step (path : Path history c d cx (s.calls c d)) (h : enabled s a)
    (no_start : ∀ cx', a ≠ .start c d cx') :
    Path (history ++ [(s, a)]) c d cx ((effect s a).calls c d) := by
  by_cases on : On c d a
  · cases a with
    | start c' d' cx' =>
      obtain ⟨rfl, rfl⟩ := on
      exact absurd rfl (no_start cx')
    | check c' d' cx' =>
      obtain ⟨rfl, rfl⟩ := on
      have checking : s.calls c' d' = .checking cx' := h
      rw [checking] at path
      obtain ⟨rfl, fresh, slow⟩ := path
      cases flag : (s.heap c').triggered d' <;>
        simp [effect, setCall_self, flag, Path, stored_snoc, fastPath_snoc, fresh, slow]
    | store c' d' cx' =>
      obtain ⟨rfl, rfl⟩ := on
      rw [h.1] at path
      obtain ⟨rfl, fresh, slow⟩ := path
      simp [effect, setCall_self, Path, stored_snoc, fastPath_snoc, slow]
    | recheck c' d' cx' =>
      obtain ⟨rfl, rfl⟩ := on
      have rechecking : s.calls c' d' = .rechecking cx' := h
      rw [rechecking] at path
      obtain ⟨rfl, stored, slow⟩ := path
      cases flag : (s.heap c').triggered d' <;>
        simp [effect, setCall_self, flag, Path, stored_snoc, fastPath_snoc, stored, slow]
    | attempt c' d' cx' val =>
      obtain ⟨rfl, rfl⟩ := on
      have attempting : s.calls c' d' = .attempting cx' := h
      rw [attempting] at path
      obtain ⟨rfl, ways⟩ := path
      cases val <;>
        simp [effect, setCall_self, Call.attempted, Path, stored_snoc, fastPath_snoc, ways]
    | clear_trigger c' d' cx' =>
      obtain ⟨rfl, rfl⟩ := on
      have clearing : s.calls c' d' = .clearing cx' := h
      rw [clearing] at path
      obtain ⟨rfl, ways⟩ := path
      simp [effect, setCall_self, Path, stored_snoc, fastPath_snoc, ways]
    | _ => exact on.elim
  · exact path_kept path on

/-- A store in the call's own slot is made for the call's own task. -/
theorem store_own (path : Path history c d cx (s.calls c d)) (h : enabled s a) {cx' : W}
    (store : a = .store c d cx') : cx' = cx := by
  subst store
  rw [h.1] at path
  exact path.1

/-- What a call has done since it began in `s`: with its own store, or with a
waker of its task in the slot before, it is covered; without a store, every
waker seen in the slot was there before. -/
structure Called (s : State bits W R) (c : Nat) (d : Direction) (cx : W)
    (history : List (State bits W R × Action bits W R)) (t : State bits W R) : Prop where
  inserted : ∃ k, t.stage Stage.inserted? c = some k
  path : Path history c d cx (t.calls c d)
  covered : Holds s c d cx ∨ Stored c d history → Covered history t c d cx
  untouched : ¬ Stored c d history → ∀ w,
    (t.heap c).interest d = some w ∨ (∃ p ∈ history, Took c d w p) →
      (s.heap c).interest d = some w

theorem called_start (h : enabled s (.start c d cx)) :
    Called s c d cx [] (effect s (.start c d cx)) := by
  obtain ⟨⟨k, live⟩, _⟩ := h
  refine ⟨⟨k, ?_⟩, ?_, ?_, ?_⟩
  · simp [effect, State.setCall, State.stage, live]
  · have checking : (effect s (.start c d cx)).calls c d = .checking cx := setCall_self
    rw [checking]
    simp [Path, Stored, FastPath]
  · rintro (held | ⟨p, hp, _⟩)
    · exact Or.inl held
    · cases hp
  · rintro _ w (held | ⟨p, hp, _⟩)
    · exact held
    · cases hp

theorem Called.covered_step (called : Called s c d cx history t) (h : enabled t a)
    (cause : Holds s c d cx ∨ Stored c d (history ++ [(t, a)])) :
    Covered (history ++ [(t, a)]) (effect t a) c d cx := by
  obtain ⟨⟨k, inserted⟩, path, covered, _⟩ := called
  by_cases before : Holds s c d cx ∨ Stored c d history
  · refine (covered before).step h inserted fun cx' store => ?_
    rw [store_own path h store]
  · have stored_now : ∃ cx', a = .store c d cx' := by
      rcases cause with held | stored
      · exact absurd (Or.inl held) before
      · exact (stored_snoc.mp stored).resolve_left fun old => before (Or.inr old)
    obtain ⟨cx', rfl⟩ := stored_now
    rcases slot_step h c d with ⟨_, not_store, _⟩ | ⟨_, _, other, _⟩ |
      ⟨cx'', same, _, w, stored, task⟩ | ⟨_, other, _⟩
    · exact absurd rfl (not_store cx')
    · cases other
    · cases same
      rw [store_own path h rfl] at task
      exact Or.inl ⟨w, stored, task⟩
    · cases other

theorem Called.untouched_step (called : Called s c d cx history t) (h : enabled t a)
    (unstored : ¬ Stored c d (history ++ [(t, a)])) {w : W}
    (seen : ((effect t a).heap c).interest d = some w ∨
      ∃ p ∈ history ++ [(t, a)], Took c d w p) : (s.heap c).interest d = some w := by
  obtain ⟨⟨k, inserted⟩, _, _, untouched⟩ := called
  rw [stored_snoc, not_or] at unstored
  have old := untouched unstored.1 w
  rcases seen with held | ⟨p, hp, took⟩
  · rcases slot_step h c d with ⟨kept, _, _⟩ | ⟨_, _, _, _, emptied⟩ |
      ⟨cx', store, _⟩ | ⟨_, _, made⟩
    · exact old (Or.inl (kept.symm.trans held))
    · cases emptied.symm.trans held
    · exact absurd ⟨cx', store⟩ unstored.2
    · simp [State.stage, made] at inserted
  · rcases List.mem_append.mp hp with earlier | now
    · exact old (Or.inr ⟨p, earlier, took⟩)
    · obtain rfl := List.mem_singleton.mp now
      obtain ⟨event, rest, processed, listed⟩ := took
      rcases slot_step h c d with ⟨_, _, nothing⟩ | ⟨event', rest', same, all, _⟩ |
        ⟨cx', store, _⟩ | ⟨_, _, made⟩
      · rw [nothing event rest processed] at listed
        cases listed
      · cases processed.symm.trans same
        rw [all, Option.mem_toList] at listed
        exact old (Or.inl listed)
      · exact absurd ⟨cx', store⟩ unstored.2
      · simp [State.stage, made] at inserted

theorem Called.step (called : Called s c d cx history t) (h : enabled t a)
    (no_start : ∀ cx', a ≠ .start c d cx') :
    Called s c d cx (history ++ [(t, a)]) (effect t a) where
  inserted := called.inserted.imp fun _ => persistent_inserted.step (effect_enrolment h)
  path := path_step called.path h no_start
  covered := called.covered_step h
  untouched unstored _ seen := called.untouched_step h unstored seen

theorem called_run (begin : enabled s (.start c d cx))
    (run : Run (reactor bits R) (effect s (.start c d cx)) history t)
    (once : ∀ p ∈ history, ∀ cx', p.2 ≠ .start c d cx') : Called s c d cx history t := by
  induction run with
  | nil => exact called_start begin
  | snoc before h ih =>
    have called := ih fun p hp => once p (List.mem_append_left _ hp)
    exact called.step h (once _ (List.mem_append_right _ (List.mem_singleton_self _)))

/-- A call that told its task to wait leaves it covered, then and ever after,
exactly when it did not take the fast path or its task already had a waker in
the slot. -/
theorem pending_covered_iff (begin : enabled s (.start c d cx))
    (run : Run (reactor bits R) (effect s (.start c d cx)) history t)
    (once : ∀ p ∈ history, ∀ cx', p.2 ≠ .start c d cx') (returned : t.calls c d = .pending cx) :
    Covered history t c d cx ↔ ¬ FastPath c d history ∨ Holds s c d cx := by
  obtain ⟨_, path, covered, untouched⟩ := called_run begin run once
  rw [returned] at path
  have ways := path.2
  constructor
  · intro now
    by_cases stored : Stored c d history
    · exact Or.inl (ways.mp stored)
    · rcases now with ⟨w, held, same⟩ | ⟨w, before, p, after, split, same, took, _⟩
      · exact Or.inr ⟨w, untouched stored w (Or.inl held), same⟩
      · have taken : p ∈ history := by rw [split]; simp
        exact Or.inr ⟨w, untouched stored w (Or.inr ⟨p, taken, took⟩), same⟩
  · rintro (slow | held)
    · exact covered (Or.inr (ways.mpr slow))
    · exact covered (Or.inl held)

/-- The stream is writable; the call finds that out at once. -/
def flagged : List (Action 64 Nat Nat) := overtaken.take 12

/-- The rest of a call that would have blocked after all. -/
def wouldBlock : List (Action 64 Nat Nat) :=
  [.check 0 .write 7, .attempt 0 .write 7 none, .clear_trigger 0 .write 7]

theorem flagged_legal : Legal (reactor 64 Nat) (initial : State 64 Nat Nat) flagged :=
  ⟨trivial, rfl, rfl, rfl, ⟨rfl, rfl⟩, ⟨rfl, canReport_writable rfl (by decide)⟩, ⟨rfl, rfl⟩,
    rfl, rfl, rfl, rfl, ⟨rfl, rfl⟩, trivial⟩

theorem wouldBlock_once {s : State 64 Nat Nat} :
    ∀ p ∈ transitions (reactor 64 Nat) s wouldBlock, ∀ cx, p.2 ≠ .start 0 .write cx := by
  intro p hp cx start
  have listed := mem_of_mem_transitions hp
  rw [start] at listed
  simp [wouldBlock] at listed

theorem pending_covered_iff_flagged :
    let s : State 64 Nat Nat := final (reactor 64 Nat) initial flagged
    let t := final (reactor 64 Nat) (effect s (.start 0 .write 7)) wouldBlock
    let history := transitions (reactor 64 Nat) (effect s (.start 0 .write 7)) wouldBlock
    Covered history t 0 .write 7 ↔ ¬ FastPath 0 .write history ∨ Holds s 0 .write 7 :=
  pending_covered_iff ⟨⟨0, rfl⟩, rfl⟩ (run_of_legal _ ⟨rfl, rfl, rfl, trivial⟩) wouldBlock_once rfl

/-- The task waits, and nobody has a waker for it. -/
theorem pending_uncovered :
    let s : State 64 Nat Nat := final (reactor 64 Nat) initial flagged
    let t := final (reactor 64 Nat) (effect s (.start 0 .write 7)) wouldBlock
    let history := transitions (reactor 64 Nat) (effect s (.start 0 .write 7)) wouldBlock
    (∃ past, Run (reactor 64 Nat) initial past s) ∧ enabled s (.start 0 .write 7) ∧
      Run (reactor 64 Nat) (effect s (.start 0 .write 7)) history t ∧
      (∀ p ∈ history, ∀ cx, p.2 ≠ .start 0 .write cx) ∧ t.calls 0 .write = .pending 7 ∧
      ¬ Covered history t 0 .write 7 := by
  refine ⟨⟨_, run_of_legal _ flagged_legal⟩, ⟨⟨0, rfl⟩, rfl⟩,
    run_of_legal _ ⟨rfl, rfl, rfl, trivial⟩, wouldBlock_once, rfl, ?_⟩
  rintro (⟨w, held, _⟩ | ⟨w, before, p, after, split, _, ⟨event, rest, processed, _⟩, _⟩)
  · cases held
  · have listed := mem_of_mem_transitions (p := p) (by rw [split]; simp)
    rw [processed] at listed
    simp [wouldBlock] at listed

end ReactorWakers
