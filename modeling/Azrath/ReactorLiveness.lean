import Azrath.PollReady
import Azrath.StutteringExecutions

/-!
# The event loop comes back to the selector

The reactor thread and the thread that drops a stream are scheduled fairly, and
a waker that is woken returns. Whatever the tasks do meanwhile, the reactor then
works through every batch, so a task whose waker lies in the slot when its
stream is reported is woken.
-/

namespace ReactorLiveness

open GuardedRuns FairExecutions StutteringExecutions ReactorModel ReactorRegistry
open ReactorReadiness ReactorWakers

universe u v
variable {bits : Nat} {W : Type u} {K : Type v} {R : Type u} [Waker W K]
variable {s t : State bits W R} {a : Action bits W R} {c : Nat} {d : Direction} {cx : W}
variable {k : Token bits}

/-- The steps of the event loop outside the selector. -/
def Loops : Action bits W R → Prop
  | .lookup _ _ | .take _ _ _ _ | .trigger _ _ _ _ | .wake _ _ | .done => True
  | _ => False

/-- The step that ends the drop of a stream. -/
def Deregisters : Action bits W R → Prop
  | .deregister _ _ => True
  | _ => False

/-- The action takes the stream to its next stage. -/
def Moves (c : Nat) : Action bits W R → Prop
  | .set_nonblocking c' _ | .fetch_add c' | .registry_register c' _ _ | .insert c' _
  | .remove c' _ | .deregister c' _ => c' = c
  | _ => False

theorem stage_of_other {stage : Stage bits} (here : s.streams[c]? = some stage)
    (other : ¬ Moves c a) : (effect s a).streams[c]? = some stage := by
  cases a with
  | register =>
    have bound := (List.getElem?_eq_some_iff.mp here).1
    exact (List.getElem?_append_left bound).trans here
  | set_nonblocking c' ok | fetch_add c' | registry_register c' k' ok | insert c' k'
  | remove c' k' | deregister c' k' => exact (List.getElem?_set_ne other).trans here
  | _ => exact here

/-- A live stream is moved by its drop alone. -/
theorem live_step (h : enabled s a) (live : s.streams[c]? = some (.live k))
    (kept : a ≠ .remove c k) : (effect s a).streams[c]? = some (.live k) := by
  apply stage_of_other live
  intro moves
  cases a with
  | set_nonblocking c' ok | fetch_add c' | registry_register c' k' ok | deregister c' k' =>
    cases moves
    cases live.symm.trans h
  | insert c' k' =>
    cases moves
    cases live.symm.trans h.2
  | remove c' k' =>
    cases moves
    cases live.symm.trans h.2.1
    exact kept rfl
  | _ => exact moves

/-- The drop of `c` holds the lock of `sources`. -/
def Dropping (c : Nat) (k : Token bits) (s : State bits W R) : Prop :=
  s.lock = some c ∧ s.streams[c]? = some (.removed k)

theorem dropping_kept (h : enabled s a) (dropping : Dropping c k s) (other : ¬ Deregisters a) :
    Dropping c k (effect s a) := by
  obtain ⟨held, here⟩ := dropping
  have apart : ∀ {c' : Nat} {old : Stage bits}, s.streams[c']? = some old → old ≠ .removed k →
      c' ≠ c := by
    rintro c' old there other rfl
    exact other (Option.some.inj (there.symm.trans here))
  cases a with
  | set_nonblocking c' ok => exact ⟨held, stage_of_other here (apart h (by rintro ⟨⟩))⟩
  | fetch_add c' => exact ⟨held, stage_of_other here (apart h (by rintro ⟨⟩))⟩
  | registry_register c' k' ok => exact ⟨held, stage_of_other here (apart h (by rintro ⟨⟩))⟩
  | insert c' k' => cases held.symm.trans h.1
  | remove c' k' => cases held.symm.trans h.1
  | deregister c' k' => exact (other trivial).elim
  | register => exact ⟨held, stage_of_other here not_false⟩
  | _ => exact ⟨held, here⟩

theorem dropping_step (h : enabled s a) (before : ∀ c, s.lock = some c → ∃ k, Dropping c k s)
    (held : (effect s a).lock = some c) : ∃ k, Dropping c k (effect s a) := by
  have kept : s.lock = some c → ¬ Deregisters a → ∃ k, Dropping c k (effect s a) := by
    intro was other
    obtain ⟨k, dropping⟩ := before c was
    exact ⟨k, dropping_kept h dropping other⟩
  cases a with
  | remove c' k' =>
    obtain rfl : c' = c := Option.some.inj held
    have bound := (List.getElem?_eq_some_iff.mp h.2.1).1
    exact ⟨k', rfl, by simp [effect, State.setStage, bound]⟩
  | deregister c' k' => cases held
  | _ => exact kept held (by rintro ⟨⟩)

/-! ## How much of a batch is left -/

def work (s : State bits W R) : Nat :=
  s.wakers.length +
    match s.reactor with
    | .polling => 0
    | .batch rest => 7 * rest.length + 1
    | .found _ _ rest .read false => 7 * rest.length + 7
    | .found _ _ rest .read true => 7 * rest.length + 5
    | .found _ _ rest .write false => 7 * rest.length + 4
    | .found _ _ rest .write true => 7 * rest.length + 2

theorem taken_length_le (source : Source bits W) (event : Event bits) (d : Direction) :
    (source.taken event d).length ≤ 1 := by
  rw [Source.taken]
  cases event.ready d with
  | false => exact Nat.zero_le 1
  | true => cases source.interest d <;> simp

/-- Every step of the loop brings it closer to the selector. -/
theorem work_falls (h : enabled s a) (loops : Loops a) : work (effect s a) < work s := by
  cases a with
  | lookup event rest =>
    cases found : s.sources event.token with
    | none => simp [work, effect, found, h.2]
    | some c =>
      simp only [work, effect, found, h.2, List.length_cons]
      omega
  | take c event rest d =>
    have few := taken_length_le (s.heap c) event d
    have here : s.reactor = .found c event rest d false := h
    cases d <;> (simp [work, effect, here]; omega)
  | trigger c event rest d =>
    have here : s.reactor = .found c event rest d true := h
    cases d <;> simp [work, effect, here, Pc.after, State.setSource]
  | wake waker rest => simp [work, effect, h.1, h.2]
  | done => simp [work, effect, h.1, h.2]
  | _ => cases loops

/-- Outside the selector nobody but the loop itself moves it. -/
theorem loop_kept (h : enabled s a) (busy : s.reactor ≠ .polling) (other : ¬ Loops a) :
    (effect s a).reactor = s.reactor ∧ (effect s a).wakers = s.wakers := by
  cases a with
  | poll events => exact absurd h.1 busy
  | pollError => exact absurd h busy
  | lookup event rest | take c event rest d | trigger c event rest d | wake waker rest | done =>
    exact (other trivial).elim
  | _ => exact ⟨rfl, rfl⟩

/-- It can go on unless a drop keeps it from the map. -/
theorem loop_enabled (busy : s.reactor ≠ .polling) (free : s.lock = none) :
    ∃ a : Action bits W R, Loops a ∧ enabled s a := by
  cases here : s.reactor with
  | polling => exact absurd here busy
  | batch rest =>
    cases rest with
    | cons event rest => exact ⟨.lookup event rest, trivial, free, here⟩
    | nil =>
      cases left : s.wakers with
      | nil => exact ⟨.done, trivial, here, left⟩
      | cons waker rest => exact ⟨.wake waker rest, trivial, here, left⟩
  | found c event rest d taken =>
    cases taken with
    | false => exact ⟨.take c event rest d, trivial, here⟩
    | true => exact ⟨.trigger c event rest d, trivial, here⟩

/-! ## Fair executions -/

structure FairReactor (σ : Execution (stuttering (reactor bits R)) (initial : State bits W R)) :
    Prop where
  reactor : StronglyFair σ (By Loops)
  drops : WeaklyFair σ (By Deregisters)

section Fair
variable {σ : Execution (stuttering (reactor bits R)) (initial : State bits W R)} {n : Nat}

theorem enabled_at (acted : σ.action n = some a) :
    enabled (σ.state n) a ∧ σ.state (n + 1) = effect (σ.state n) a :=
  state_acted acted

variable (σ) in
theorem dropping_at (n : Nat) : ∀ c, (σ.state n).lock = some c → ∃ k, Dropping c k (σ.state n) := by
  refine stays_from σ (fun s => ∀ c, s.lock = some c → ∃ k, Dropping c k s) (n := 0) ?_ ?_
    (Nat.zero_le n)
  · rw [σ.start]
    rintro c ⟨⟩
  · intro k a _ acted before c held
    obtain ⟨h, step⟩ := enabled_at acted
    rw [step] at held ⊢
    exact dropping_step h before held

/-- The lock of `sources` is free again and again. -/
theorem unlocks (fair : FairReactor σ) (n : Nat) : ∃ m, n ≤ m ∧ (σ.state m).lock = none := by
  cases held : (σ.state n).lock with
  | none => exact ⟨n, Nat.le_refl n, held⟩
  | some c =>
    obtain ⟨k, dropping⟩ := dropping_at σ n c held
    obtain ⟨m, a, hm, _, acted, ends⟩ := acts_of_weaklyFair (P := Dropping c k) fair.drops dropping
      (by
        intro m a _ acted before other
        obtain ⟨h, step⟩ := enabled_at acted
        rw [step]
        exact dropping_kept h before other)
      (fun m _ before => ⟨.deregister c k, trivial, before.2⟩)
    refine ⟨m + 1, by omega, ?_⟩
    rw [(enabled_at acted).2]
    cases a with
    | deregister c' k' => rfl
    | _ => cases ends

/-- From every moment the reactor comes to the selector. -/
theorem returns (fair : FairReactor σ) (n : Nat) : ∃ m, n ≤ m ∧ (σ.state m).reactor = .polling := by
  induction left : work (σ.state n) using Nat.strong_induction_on generalizing n with
  | _ left_work ih =>
    by_cases busy : (σ.state n).reactor = .polling
    · exact ⟨n, Nat.le_refl n, busy⟩
    · obtain ⟨m, a, hm, ⟨place, taken⟩, acted, loops⟩ := acts_of_stronglyFair
        (P := fun s => s.reactor = (σ.state n).reactor ∧ s.wakers = (σ.state n).wakers)
        fair.reactor ⟨rfl, rfl⟩
        (by
          rintro m a _ acted ⟨place, taken⟩ other
          obtain ⟨h, step⟩ := enabled_at acted
          have kept := loop_kept h (by rw [place]; exact busy) other
          rw [step, kept.1, kept.2]
          exact ⟨place, taken⟩)
        (by
          intro m _
          obtain ⟨l, hl, free⟩ := unlocks fair m
          exact ⟨l, hl, fun same => loop_enabled (by rw [same.1]; exact busy) free⟩)
      obtain ⟨h, step⟩ := enabled_at acted
      have fell := work_falls h loops
      have same : work (σ.state m) = work (σ.state n) := by
        simp only [work, place, taken]
      rw [← step] at fell
      obtain ⟨l, hl, back⟩ := ih (work (σ.state (m + 1))) (by omega) (m + 1) rfl
      exact ⟨l, by omega, back⟩

end Fair

/-! ## From the report to the wake-up -/

/-- The reactor has still to look this event up. -/
def Upcoming (event : Event bits) : Pc bits → Prop
  | .polling => False
  | .batch rest | .found _ _ rest _ _ => event ∈ rest

/-- The reactor has still to come to direction `d` of this event, or is there
with the waker not taken yet. -/
def OnWay (s : State bits W R) (c : Nat) (event : Event bits) (d : Direction) : Prop :=
  Upcoming event s.reactor ∨ ∃ rest d' taken, s.reactor = .found c event rest d' taken ∧
    (d' = d ∧ taken = false ∨ d' = .read ∧ d = .write)

theorem onWay_step {event : Event bits} (h : enabled s a) (mapped : s.sources event.token = some c)
    (way : OnWay s c event d) :
    OnWay (effect s a) c event d ∨ ∃ rest, a = .take c event rest d := by
  have stays : (effect s a).reactor = s.reactor → OnWay (effect s a) c event d := by
    intro same
    rw [OnWay, same]
    exact way
  cases a with
  | poll events =>
    rcases way with ahead | ⟨_, _, _, here, _⟩
    · rw [h.1] at ahead
      exact ahead.elim
    · cases here.symm.trans h.1
  | done =>
    rcases way with ahead | ⟨_, _, _, here, _⟩
    · rw [h.1] at ahead
      cases ahead
    · cases here.symm.trans h.1
  | lookup event' rest' =>
    rcases way with ahead | ⟨_, _, _, here, _⟩
    · rw [h.2] at ahead
      rcases List.mem_cons.mp ahead with rfl | later
      · -- the map holds the source of the stream
        have found : (effect s (.lookup event rest')).reactor =
            .found c event rest' .read false := by
          simp [effect, mapped]
        refine Or.inl (Or.inr ⟨rest', .read, false, found, ?_⟩)
        cases d with
        | read => exact Or.inl ⟨rfl, rfl⟩
        | write => exact Or.inr ⟨rfl, rfl⟩
      · refine Or.inl (Or.inl ?_)
        cases found : s.sources event'.token with
        | none => simpa [effect, found, Upcoming] using later
        | some c' => simpa [effect, found, Upcoming] using later
    · cases here.symm.trans h.2
  | take c' event' rest' d'' =>
    have place : s.reactor = .found c' event' rest' d'' false := h
    rcases way with ahead | ⟨rest, d', taken, here, order⟩
    · rw [place] at ahead
      exact Or.inl (Or.inl ahead)
    · obtain ⟨rfl, rfl, rfl, rfl, rfl⟩ := Pc.found.inj (here.symm.trans place)
      rcases order with ⟨rfl, _⟩ | ⟨rfl, rfl⟩
      · exact Or.inr ⟨rest, rfl⟩
      · exact Or.inl (Or.inr ⟨rest, .read, true, rfl, Or.inr ⟨rfl, rfl⟩⟩)
  | trigger c' event' rest' d'' =>
    have place : s.reactor = .found c' event' rest' d'' true := h
    rcases way with ahead | ⟨rest, d', taken, here, order⟩
    · rw [place] at ahead
      cases d'' <;> exact Or.inl (Or.inl ahead)
    · obtain ⟨rfl, rfl, rfl, rfl, rfl⟩ := Pc.found.inj (here.symm.trans place)
      rcases order with ⟨_, untaken⟩ | ⟨rfl, rfl⟩
      · cases untaken
      · exact Or.inl (Or.inr ⟨rest, .write, false, rfl, Or.inl ⟨rfl, rfl⟩⟩)
  | _ => exact Or.inl (stays rfl)

section Woken
variable {σ : Execution (stuttering (reactor bits R)) (initial : State bits W R)}
variable {event : Event bits} {n r : Nat} {w : W}

variable (σ) in
/-- The reactor takes `w` out of the slot at this moment. -/
def TakenAt (n c : Nat) (d : Direction) (w : W) : Prop :=
  ∃ event rest, σ.action n = some (.take c event rest d) ∧ w ∈ ((σ.state n).heap c).taken event d

variable (σ) in
/-- A waker of the task has been taken out of the slot from `n` on and before `i`. -/
def TakenSince (n i c : Nat) (d : Direction) (cx : W) : Prop :=
  ∃ j w, n ≤ j ∧ j < i ∧ TakenAt σ j c d w ∧ Waker.task w = Waker.task cx

theorem TakenSince.succ {i : Nat} (taken : TakenSince σ n i c d cx) :
    TakenSince σ n (i + 1) c d cx := by
  obtain ⟨j, w, hj, early, took⟩ := taken
  exact ⟨j, w, hj, Nat.lt_succ_of_lt early, took⟩

variable (σ) in
def WokenAt (n : Nat) (w : W) : Prop := ∃ rest, σ.action n = some (.wake w rest)

variable (σ) in
/-- The stream is dropped at this moment, or a call stores the waker of another
task than that of `cx` in the slot. -/
def DisturbedAt (n c : Nat) (k : Token bits) (d : Direction) (cx : W) : Prop :=
  σ.action n = some (.remove c k) ∨
    ∃ cx', σ.action n = some (.store c d cx') ∧ Waker.task cx' ≠ Waker.task cx

variable (σ) in
/-- From `n` on and before `r`, a waker of the task is taken out of the slot and
woken before the loop is back in the selector. -/
def WokenBetween (n r c : Nat) (d : Direction) (cx : W) : Prop :=
  ∃ j l w, n ≤ j ∧ j < l ∧ l < r ∧ TakenAt σ j c d w ∧ WokenAt σ l w ∧
    Waker.task w = Waker.task cx ∧ ∀ i, j < i → i ≤ l → (σ.state i).reactor ≠ .polling

/-- What the loop has in its hands is woken before it is back in the selector. -/
theorem wake_follows {j : Nat} (due : w ∈ (σ.state j).wakers)
    (busy : (σ.state j).reactor ≠ .polling) (back : (σ.state r).reactor = .polling) (hr : j ≤ r) :
    ∃ l, j ≤ l ∧ l < r ∧ WokenAt σ l w ∧
      ∀ i, j ≤ i → i ≤ l → (σ.state i).reactor ≠ .polling := by
  obtain ⟨left, rfl⟩ := Nat.exists_eq_add_of_le hr
  induction left generalizing j with
  | zero => exact absurd back busy
  | succ left ih =>
    have on : w ∈ (σ.state (j + 1)).wakers ∧ (σ.state (j + 1)).reactor ≠ .polling ∨
        WokenAt σ j w := by
      cases acted : σ.action j with
      | none =>
        rw [state_paused acted]
        exact Or.inl ⟨due, busy⟩
      | some a =>
        obtain ⟨h, step⟩ := enabled_at acted
        rw [step]
        rcases wakers_step h due busy with still | ⟨rest, rfl⟩
        · exact Or.inl still
        · exact Or.inr ⟨rest, acted⟩
    rcases on with ⟨due, busy'⟩ | woken
    · obtain ⟨l, hl, early, woken, quiet⟩ := ih due busy'
        (by rwa [Nat.add_right_comm j 1 left]) (by omega)
      refine ⟨l, by omega, by omega, woken, fun i hi later => ?_⟩
      rcases Nat.eq_or_lt_of_le hi with rfl | after
      · exact busy
      · exact quiet i after later
    · refine ⟨j, Nat.le_refl j, by omega, woken, fun i hi later => ?_⟩
      obtain rfl : i = j := Nat.le_antisymm later hi
      exact busy

/-- Until somebody disturbs the slot the waker lies there, or has been taken. -/
theorem held_or_taken (live : (σ.state n).streams[c]? = some (.live k))
    (holds : Holds (σ.state n) c d cx) {i : Nat} (hi : n ≤ i)
    (quiet : ∀ l, n ≤ l → l < i → ¬ DisturbedAt σ l c k d cx) :
    (σ.state i).streams[c]? = some (.live k) ∧
      (Holds (σ.state i) c d cx ∨ TakenSince σ n i c d cx) := by
  induction i, hi using Nat.le_induction with
  | base => exact ⟨live, Or.inl holds⟩
  | succ i hi ih =>
    obtain ⟨live, covered⟩ := ih fun l hl early => quiet l hl (by omega)
    have calm := quiet i hi (Nat.lt_succ_self i)
    cases acted : σ.action i with
    | none =>
      rw [state_paused acted]
      exact ⟨live, covered.imp_right TakenSince.succ⟩
    | some a =>
      obtain ⟨h, step⟩ := enabled_at acted
      rw [step]
      refine ⟨live_step h live ?_, ?_⟩
      · rintro rfl
        exact calm (Or.inl acted)
      rcases covered with ⟨w, held, same⟩ | taken
      · rcases slot_step h c d with ⟨kept, _, _⟩ | ⟨event, rest, rfl, took, _⟩ |
          ⟨cx', rfl, _, w', stored, same'⟩ | ⟨k', _, made⟩
        · exact Or.inl ⟨w, kept.trans held, same⟩
        · refine Or.inr ⟨i, w, hi, Nat.lt_succ_self i, ⟨event, rest, acted, ?_⟩, same⟩
          rw [took, held]
          exact List.mem_singleton_self w
        · refine Or.inl ⟨w', stored, same'.trans ?_⟩
          by_contra other
          exact calm (Or.inr ⟨cx', acted, other⟩)
        · cases live.symm.trans made
      · exact Or.inr taken.succ

/-- From the report on the event is still on its way, or the waker has been taken. -/
theorem onWay_or_taken (few : ∀ m, (σ.state m).streams.length < 2 ^ bits)
    (live : (σ.state n).streams[c]? = some (.live k)) (holds : Holds (σ.state n) c d cx)
    (here : event.token = k) (ready : event.ready d = true) {m i : Nat} (hm : n ≤ m) (hi : m ≤ i)
    (quiet : ∀ l, n ≤ l → l < i → ¬ DisturbedAt σ l c k d cx)
    (way : OnWay (σ.state m) c event d) :
    OnWay (σ.state i) c event d ∨ TakenSince σ n i c d cx := by
  induction i, hi using Nat.le_induction with
  | base => exact Or.inl way
  | succ i hi ih =>
    have before : ∀ l, n ≤ l → l < i → ¬ DisturbedAt σ l c k d cx :=
      fun l hl early => quiet l hl (by omega)
    rcases ih before with way | taken
    · cases acted : σ.action i with
      | none =>
        rw [state_paused acted]
        exact Or.inl way
      | some a =>
        obtain ⟨h, step⟩ := enabled_at acted
        have still := (held_or_taken live holds (by omega) before).1
        have mapped := listed_run (past_run σ i) (few _) c k (live_iff.mpr still)
        rw [← here] at mapped
        rcases onWay_step h mapped way with on | ⟨rest, rfl⟩
        · rw [step]
          exact Or.inl on
        · -- the slot is empty now, so the waker of the task has been taken
          rcases (held_or_taken live holds (i := i + 1) (by omega) quiet).2 with
            ⟨w, held, _⟩ | taken
          · have emptied : ((effect (σ.state i) (.take c event rest d)).heap c).interest d =
                none := by
              simpa [effect, State.setSource] using Source.take_of_ready ready
            rw [step] at held
            cases emptied.symm.trans held
          · exact Or.inr taken
    · exact Or.inr taken.succ

/-- What has been taken is woken before the loop is back in the selector. -/
theorem TakenSince.woken {i : Nat} (taken : TakenSince σ n i c d cx)
    (back : (σ.state i).reactor = .polling) : WokenBetween σ n i c d cx := by
  obtain ⟨j, w, hj, early, ⟨event, rest, acted, listed⟩, same⟩ := taken
  have step := (enabled_at acted).2
  have due : w ∈ (σ.state (j + 1)).wakers := by
    rw [step]
    exact List.mem_append_right _ listed
  have at_event : (σ.state (j + 1)).reactor ≠ .polling := by
    rw [step]
    simp [effect]
  obtain ⟨l, hl, before, woken, loop⟩ := wake_follows due at_event back early
  exact ⟨j, l, w, hj, hl, before, ⟨event, rest, acted, listed⟩, woken, same,
    fun i hi later => loop i hi later⟩

/-- A task with a waker in the slot of a live stream is woken for it in the batch
in which the stream is reported, or earlier, if nobody takes the stream or the
slot away. -/
theorem woken_or_disturbed (fair : FairReactor σ)
    (few : ∀ m, (σ.state m).streams.length < 2 ^ bits)
    (live : (σ.state n).streams[c]? = some (.live k)) (holds : Holds (σ.state n) c d cx)
    (here : event.token = k) (ready : event.ready d = true) {m : Nat} (hm : n ≤ m)
    (upcoming : Upcoming event (σ.state m).reactor) :
    ∃ r, m < r ∧ (σ.state r).reactor = .polling ∧
      (∀ i, m ≤ i → i < r → (σ.state i).reactor ≠ .polling) ∧
      (WokenBetween σ n r c d cx ∨ ∃ l, n ≤ l ∧ l < r ∧ DisturbedAt σ l c k d cx) := by
  classical
  have back := returns fair m
  let r := Nat.find back
  obtain ⟨hr, polling⟩ : m ≤ r ∧ (σ.state r).reactor = .polling := Nat.find_spec back
  have busy : ∀ i, m ≤ i → i < r → (σ.state i).reactor ≠ .polling :=
    fun i hi early polling => Nat.find_min back early ⟨hi, polling⟩
  have after : m < r := by
    rcases Nat.eq_or_lt_of_le hr with same | after
    · rw [same, polling] at upcoming
      exact upcoming.elim
    · exact after
  refine ⟨r, after, polling, busy, ?_⟩
  by_cases disturbed : ∃ l, n ≤ l ∧ l < r ∧ DisturbedAt σ l c k d cx
  · exact Or.inr disturbed
  refine Or.inl ?_
  have quiet : ∀ l, n ≤ l → l < r → ¬ DisturbedAt σ l c k d cx :=
    fun l hl early disturbs => disturbed ⟨l, hl, early, disturbs⟩
  rcases onWay_or_taken few live holds here ready hm hr quiet (Or.inl upcoming) with way | taken
  · rcases way with ahead | ⟨_, _, _, there, _⟩
    · rw [polling] at ahead
      exact ahead.elim
    · cases there.symm.trans polling
  · exact taken.woken polling

/-- In a fair execution with fewer calls of `register` than tokens a task that
has stored its waker is woken once its stream is reported ready for it: a waker
of it is taken out of that slot and woken before the loop is back in the
selector. Else the stream is dropped before that or another task stores a waker
over it. -/
theorem reported_task_woken (fair : FairReactor σ)
    (few : ∀ m, (σ.state m).streams.length < 2 ^ bits)
    (live : (σ.state n).streams[c]? = some (.live k))
    (stored : σ.action n = some (.store c d cx)) {m : Nat} (after : n < m)
    (here : event.token = k) (ready : event.ready d = true)
    (upcoming : Upcoming event (σ.state m).reactor) :
    ∃ r, m < r ∧ (σ.state r).reactor = .polling ∧
      (∀ i, m ≤ i → i < r → (σ.state i).reactor ≠ .polling) ∧
      (WokenBetween σ (n + 1) r c d cx ∨ ∃ l, n < l ∧ l < r ∧ DisturbedAt σ l c k d cx) := by
  obtain ⟨h, step⟩ := enabled_at stored
  have holds : Holds (σ.state (n + 1)) c d cx := by
    obtain ⟨w, held, same⟩ := register_interest ((σ.state n).heap c) d cx
    refine ⟨w, ?_, same⟩
    rw [step]
    simpa [effect, State.setSource, State.setCall] using held
  have live' : (σ.state (n + 1)).streams[c]? = some (.live k) := by
    rw [step]
    exact live
  exact woken_or_disturbed fair few live' holds here ready after upcoming

end Woken

/-- A stream is registered, a call waits for it to become writable, and it does. -/
def answered : List (Action 64 Nat Nat) :=
  enrol ++ .start 0 .write 7 :: PollReady.awaited ++ [.wake 7 [], .done]

theorem answered_legal : Legal (reactor 64 Nat) (initial : State 64 Nat Nat) answered :=
  ⟨trivial, rfl, rfl, rfl, ⟨rfl, rfl⟩, ⟨⟨Token.zero, rfl⟩, rfl⟩, rfl, ⟨rfl, id⟩, rfl,
    ⟨rfl, canReport_writable rfl (by decide)⟩, ⟨rfl, rfl⟩, rfl, rfl, rfl, rfl, ⟨rfl, rfl⟩,
    ⟨rfl, rfl⟩, trivial⟩

theorem answered_fair : FairReactor (resting answered answered_legal) where
  reactor := by
    apply resting_stronglyFair
    intro a loops h
    cases a with
    | lookup event rest => cases h.2
    | take c event rest d => cases h
    | trigger c event rest d => cases h
    | wake waker rest => cases h.1
    | done => cases h.1
    | _ => exact loops
  drops := by
    apply StronglyFair.weaklyFair
    apply resting_stronglyFair
    intro a ends h
    cases a with
    | deregister c k =>
      have only : (final (reactor 64 Nat) (initial : State 64 Nat Nat) answered).streams =
          [.live Token.zero] := rfl
      have removed := List.mem_of_getElem? h
      rw [only, List.mem_singleton] at removed
      cases removed
    | _ => exact ends

theorem reported_task_woken_answered :
    let σ : Execution (stuttering (reactor 64 Nat)) (initial : State 64 Nat Nat) :=
      resting answered answered_legal
    ∃ r, 10 < r ∧ (σ.state r).reactor = .polling ∧ WokenBetween σ 8 r 0 .write 7 := by
  intro σ
  have stored : σ.action 7 = some (.store 0 .write 7) := rfl
  have upcoming : Upcoming (writable 0) (σ.state 10).reactor := List.mem_cons_self
  obtain ⟨r, after, polling, _, woken | ⟨l, hl, _, removed | ⟨cx, stored, other⟩⟩⟩ :=
    reported_task_woken (k := Token.zero) answered_fair
      (of_reached (P := fun s : State 64 Nat Nat => s.streams.length < 2 ^ 64) (by decide))
      rfl stored (by omega) rfl rfl upcoming
  · exact ⟨r, after, polling, woken⟩
  · rw [resting_action] at removed
    simpa [answered, enrol, PollReady.awaited] using List.mem_of_getElem? removed
  · rw [resting_action] at stored
    have own : cx = 7 := by
      simpa [answered, enrol, PollReady.awaited] using List.mem_of_getElem? stored
    exact (other (congrArg _ own)).elim

end ReactorLiveness
