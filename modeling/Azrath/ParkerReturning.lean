import Azrath.ParkerWakeups
import Azrath.StutteringExecutions

/-!
# `block_on` returns

A future that is pending has itself woken at some moment after that poll began,
and it is pending only so often. Then `block_on` polls it until it is ready and
returns what it has got, wherever the wakes fall and whatever they were meant
for. Only a panic of the future ends the call otherwise.
-/

namespace ParkerReturning

open GuardedRuns FairExecutions StutteringExecutions ParkerModel ParkerWakeups

universe u
variable {V E : Type u} {s : State V E} {a : Action V}
variable {history : List (State V E × Action V)}

/-- The poll returns or panics. -/
def EndsPoll (a : Action V) : Prop := (∃ r, a = .polled r) ∨ a = .unwind

theorem polling_step (polling : s.pc = .polling) (h : enabled s a) : EndsPoll a ∨
    ((effect s a).pc = .polling ∧ (s.parked = false → (effect s a).parked = false)) := by
  cases a with
  | enter | store | poll | swap | spurious => cases polling.symm.trans h
  | ret =>
    obtain ⟨result, returning⟩ := h
    cases polling.symm.trans returning
  | resume => cases polling.symm.trans h.1
  | polled r => exact Or.inl (Or.inl ⟨r, rfl⟩)
  | unwind => exact Or.inl (Or.inr rfl)
  | swapFalse i => exact Or.inr ⟨polling, fun _ => rfl⟩
  | wake | unpark i | unparked | consume => exact Or.inr ⟨polling, fun flag => flag⟩

theorem entered_step (entered : s.pc = .entered) (h : enabled s a) :
    a = .store ∨ ((effect s a).pc = .entered ∧ ¬ ofThread a) := by
  cases a with
  | enter | poll | polled r | unwind | swap | spurious => cases entered.symm.trans h
  | ret =>
    obtain ⟨result, returning⟩ := h
    cases entered.symm.trans returning
  | resume => cases entered.symm.trans h.1
  | consume => rcases h with other | other <;> cases entered.symm.trans other
  | store => exact Or.inl rfl
  | swapFalse i | wake | unpark i | unparked => exact Or.inr ⟨entered, fun mine => mine⟩

/-- Only a poll that was ready takes the thread to its return. -/
theorem unreturning_step (before : ∀ result, s.pc ≠ .returning result) (h : enabled s a)
    (unready : ∀ res, a ≠ .polled (.ready res)) (result : Except E V) :
    (effect s a).pc ≠ .returning result := by
  cases a with
  | polled r =>
    cases r with
    | ready res => exact (unready res rfl).elim
    | pending => simp [effect, afterPoll]
  | swap =>
    cases flag : s.parked <;> simp [effect, flag]
  | enter | store | poll | unwind | resume | spurious | ret => simp [effect]
  | wake | swapFalse i | unpark i | unparked | consume => exact before result

theorem returning_step {result : Except E V} (returning : s.pc = .returning result)
    (h : enabled s a) : a = .ret ∨ ((effect s a).pc = .returning result ∧ ¬ ofThread a) := by
  cases a with
  | enter | store | poll | polled r | unwind | swap | spurious => cases returning.symm.trans h
  | resume => cases returning.symm.trans h.1
  | consume => rcases h with other | other <;> cases returning.symm.trans other
  | ret => exact Or.inl rfl
  | swapFalse i | wake | unpark i | unparked => exact Or.inr ⟨returning, fun mine => mine⟩

/-- The step that takes the thread out of `block_on`. -/
def EndsCall (a : Action V) : Prop := a = .ret ∨ a = .unwind

/-- No other step but these two enters a call or leaves it. -/
theorem call_step (h : enabled s a) : a = .enter ∨ (EndsCall a ∧ (effect s a).pc = .outside) ∨
    ((effect s a).pc = .outside ↔ s.pc = .outside) := by
  have stays : ∀ {pc : Pc V E}, s.pc = pc → pc ≠ .outside → (effect s a).pc ≠ .outside →
      ((effect s a).pc = .outside ↔ s.pc = .outside) := by
    intro pc before inside still
    rw [before]
    exact iff_of_false still inside
  cases a with
  | enter => exact Or.inl rfl
  | unwind => exact Or.inr (Or.inl ⟨Or.inr rfl, rfl⟩)
  | ret => exact Or.inr (Or.inl ⟨Or.inl rfl, rfl⟩)
  | wake | swapFalse i | unpark i | unparked | consume => exact Or.inr (Or.inr Iff.rfl)
  | store | poll | spurious => exact Or.inr (Or.inr (stays h (by simp) (by simp [effect])))
  | polled r =>
    exact Or.inr (Or.inr (stays h (by simp) (by cases r <;> simp [effect, afterPoll])))
  | swap =>
    exact Or.inr (Or.inr (stays h (by simp) (by cases flag : s.parked <;> simp [effect, flag])))
  | resume => exact Or.inr (Or.inr (stays h.1 (by simp) (by simp [effect])))

/-! ## A call along an execution -/

/-- As `Fair` is, but time may pass as well. -/
structure FairParker (σ : Execution (stuttering (parker V E)) s) : Prop where
  thread : WeaklyFair σ (By ofThread)
  wakes : ∀ i, WeaklyFair σ (By (ofWake i))

/-- The last poll of a call, unless its thread comes to nothing. -/
def Closes (a : Action V) : Prop := (∃ res, a = .polled (.ready res)) ∨ a = .unwind

/-- What the polled futures promise: each poll comes to an end, after one that
was pending the thread is woken, and a future that is polled again and again is
ready some day or panics. -/
structure Promises (σ : Execution (stuttering (parker V E)) s) : Prop where
  answers : ∀ n, (σ.state n).pc = .polling → ∃ m a, n ≤ m ∧ σ.action m = some a ∧ EndsPoll a
  wakes : ∀ m n, m < n → σ.action m = some .poll →
    (∀ k, m < k → k ≤ n → (σ.state k).pc = .polling) → σ.action n = some (.polled .pending) →
    ∃ k i, m < k ∧ σ.action k = some (.swapFalse i)
  settles : (∀ l, ∃ k, l ≤ k ∧ σ.action k = some (.polled .pending)) →
    ∀ l, ∃ k a, l ≤ k ∧ σ.action k = some a ∧ Closes a

section Call
variable {σ : Execution (stuttering (parker V E)) s} {n : Nat}

theorem FairParker.swapping_leadsTo (fair : FairParker σ) :
    LeadsTo σ (fun t => t.pc = .swapping ∧ t.parked = false) (fun t => t.pc = .polling) :=
  ((ensures_stuttering swap_ensures).leadsTo fair.thread).trans
    ((ensures_stuttering poll_ensures).leadsTo fair.thread)

theorem FairParker.parking_leadsTo (fair : FairParker σ) :
    LeadsTo σ (fun t => (t.pc = .parking ∧ t.parked = false) ∧ t.token = true)
      (fun t => t.pc = .polling) :=
  ((ensures_stuttering resume_ensures).leadsTo fair.thread).trans fair.swapping_leadsTo

theorem FairParker.unparking_leadsTo (fair : FairParker σ) (i : Nat) :
    LeadsTo σ
      (fun t => (t.pc = .parking ∧ t.parked = false) ∧ t.wakes[i]? = some .unparking)
      (fun t => t.pc = .polling) :=
  ((ensures_stuttering (unpark_ensures i)).leadsTo (fair.wakes i)).trans
    (fair.parking_leadsTo.or fair.swapping_leadsTo)

/-- The thread leaves a place that it alone can leave, and was there till then. -/
theorem leaves (fair : WeaklyFair σ (By ofThread)) {pc : Pc V E} {own : Action V}
    (only : ∀ {t : State V E} {a : Action V}, t.pc = pc → enabled t a →
      a = own ∨ ((effect t a).pc = pc ∧ ¬ ofThread a))
    (able : ∀ {t : State V E}, t.pc = pc → enabled t own) (mine : ofThread own)
    (here : (σ.state n).pc = pc) :
    ∃ m, n ≤ m ∧ (∀ k, n ≤ k → k ≤ m → (σ.state k).pc = pc) ∧ σ.action m = some own := by
  have keeps : ∀ k a, n ≤ k → σ.action k = some a → (σ.state k).pc = pc → ¬ ofThread a →
      (σ.state (k + 1)).pc = pc := by
    intro k a _ acted before other
    obtain ⟨h, step⟩ := state_acted acted
    rw [step]
    rcases only before h with rfl | ⟨kept, _⟩
    · exact absurd mine other
    · exact kept
  obtain ⟨k, a, hk, _, acted, acts⟩ := acts_of_weaklyFair (P := fun t => t.pc = pc) fair here keeps
    fun k _ there => ⟨own, mine, able there⟩
  obtain ⟨m, b, hm, stays, acted, acts⟩ := first_acts (P := fun t => t.pc = pc) here keeps
    ⟨k, a, hk, acted, acts⟩
  rcases only (stays m hm (Nat.le_refl m)) (state_acted acted).1 with rfl | ⟨_, other⟩
  · exact ⟨m, hm, stays, acted⟩
  · exact absurd acts other

theorem polls_of_looping (fair : FairParker σ) (looping : (σ.state n).pc = .looping) :
    ∃ m, n ≤ m ∧ σ.action m = some .poll := by
  obtain ⟨m, hm, _, acted⟩ := leaves fair.thread looping_step (fun here => here) trivial looping
  exact ⟨m, hm, acted⟩

/-- A poll that begins at `m` comes to its end. -/
theorem poll_ends (promises : Promises σ) {m : Nat} (begins : σ.action m = some .poll) :
    ∃ n a, m < n ∧ (∀ k, m < k → k ≤ n → (σ.state k).pc = .polling) ∧
      σ.action n = some a ∧ EndsPoll a := by
  have polling : (σ.state (m + 1)).pc = .polling := by
    rw [(state_acted begins).2]
    rfl
  obtain ⟨n, a, hn, stays, acted, ends⟩ := first_acts (P := fun t => t.pc = .polling) polling
    (fun k a _ acted before other => by
      obtain ⟨h, step⟩ := state_acted acted
      rw [step]
      exact ((polling_step before h).resolve_left other).1)
    (promises.answers (m + 1) polling)
  exact ⟨n, a, hn, fun k hk => stays k hk, acted, ends⟩

/-- Of a thread that is outside at last every poll has come to its end. -/
theorem answers_of_outside {m : Nat} (outside : ∀ k, m ≤ k → (σ.state k).pc = .outside)
    (polling : (σ.state n).pc = .polling) :
    ∃ k a, n ≤ k ∧ σ.action k = some a ∧ EndsPoll a := by
  by_contra unended
  have still : (σ.state (max n m)).pc = .polling := by
    refine stays_from σ (fun t => t.pc = .polling) polling ?_ (Nat.le_max_left n m)
    intro k a hk acted before
    obtain ⟨h, step⟩ := state_acted acted
    rw [step]
    exact ((polling_step before h).resolve_left fun ends => unended ⟨k, a, hk, acted, ends⟩).1
  cases still.symm.trans (outside _ (Nat.le_max_right n m))

/-- No wake-up is forgotten, whatever happens. -/
theorem signalled_at (signalled : Signalled s) (n : Nat) : Signalled (σ.state n) := by
  refine stays_from σ Signalled (n := 0) (by rwa [σ.start]) ?_ (Nat.zero_le n)
  intro k a _ acted before
  obtain ⟨h, step⟩ := state_acted acted
  rw [step]
  exact before.step h

/-- The flag that a wake lets fall during a poll is down when the poll ends. -/
theorem flag_at_end {m n k : Nat} (polling : ∀ j, m < j → j ≤ n → (σ.state j).pc = .polling)
    (hm : m < k) (hk : k < n) {i : Nat} (woke : σ.action k = some (.swapFalse i)) :
    (σ.state n).parked = false := by
  have from_then : ∀ j, k + 1 ≤ j → j ≤ n → (σ.state j).parked = false := by
    intro j hj
    induction j, hj using Nat.le_induction with
    | base =>
      intro _
      rw [(state_acted woke).2]
      rfl
    | succ j hj ih =>
      intro last
      have before := ih (by omega)
      have still := polling (j + 1) (by omega) last
      cases acted : σ.action j with
      | none =>
        rw [state_paused acted]
        exact before
      | some a =>
        obtain ⟨h, step⟩ := state_acted acted
        rw [step] at still ⊢
        rcases polling_step (polling j (by omega) (by omega)) h with
          (⟨r, rfl⟩ | rfl) | ⟨_, kept⟩
        · cases r <;> cases still
        · cases still
        · exact kept before
  exact from_then n hk (Nat.le_refl n)

/-- After a poll that was pending the thread stays between its polls until it
polls again. -/
theorem between (fair : FairParker σ) (pended : σ.action n = some (.polled .pending))
    (unpolled : ∀ m, n < m → σ.action m ≠ some .poll) {k : Nat} (hk : n < k) :
    (σ.state k).pc = .swapping ∨ (σ.state k).pc = .parking := by
  have unlooped : ∀ m, n < m → (σ.state m).pc ≠ .looping := by
    intro m hm looping
    obtain ⟨l, hl, acted⟩ := polls_of_looping fair looping
    exact unpolled l (by omega) acted
  refine stays_from σ (fun t => t.pc = .swapping ∨ t.pc = .parking) ?_ ?_ hk
  · rw [(state_acted pended).2]
    exact Or.inl rfl
  · rintro k a hk acted waits
    obtain ⟨h, step⟩ := state_acted acted
    have after := unlooped (k + 1) (by omega)
    rw [step] at after ⊢
    rcases waits with swapping | parking
    · rcases swapping_step swapping h with rfl | ⟨still, _⟩
      · cases flag : (σ.state k).parked with
        | true => exact Or.inr (by simp [parker, effect, flag])
        | false => exact (after (by simp [parker, effect, flag])).elim
      · exact Or.inl still
    · rcases parking_step parking h with ⟨swapping, _⟩ | ⟨still, _⟩
      · exact Or.inl swapping
      · exact Or.inr still

/-- A poll that was pending is followed by another one. -/
theorem polls_on (signalled : Signalled s) (fair : FairParker σ) (promises : Promises σ)
    {m n : Nat} (hm : m < n) (begins : σ.action m = some .poll)
    (polling : ∀ k, m < k → k ≤ n → (σ.state k).pc = .polling)
    (pended : σ.action n = some (.polled .pending)) : ∃ l, n < l ∧ σ.action l = some .poll := by
  by_contra never
  push Not at never
  have waits := fun k (hk : n < k) => between fair pended never hk
  -- the wake falls during the poll or after it, and the flag is down then
  obtain ⟨j, hj, flag⟩ : ∃ j, n < j ∧ (σ.state j).parked = false := by
    obtain ⟨k, i, hk, woke⟩ := promises.wakes m n hm begins polling pended
    rcases Nat.lt_trichotomy k n with before | here | after
    · refine ⟨n + 1, Nat.lt_succ_self n, ?_⟩
      rw [(state_acted pended).2]
      exact flag_at_end polling hk before woke
    · rw [here, pended] at woke
      cases woke
    · refine ⟨k + 1, by omega, ?_⟩
      rw [(state_acted woke).2]
      rfl
  have leads : ∃ l, j ≤ l ∧ (σ.state l).pc = .polling := by
    rcases waits j hj with swapping | parking
    · exact fair.swapping_leadsTo j ⟨swapping, flag⟩
    · rcases signalled_at signalled j parking flag with token | ⟨i, owed⟩
      · exact fair.parking_leadsTo j ⟨⟨parking, flag⟩, token⟩
      · exact fair.unparking_leadsTo i j ⟨⟨parking, flag⟩, owed⟩
  obtain ⟨l, hl, here⟩ := leads
  rcases waits l (by omega) with swapping | parking
  · cases here.symm.trans swapping
  · cases here.symm.trans parking

/-- So some poll after it is the last of its call. -/
theorem closes_of_poll (signalled : Signalled s) (fair : FairParker σ) (promises : Promises σ)
    {m : Nat} (begins : σ.action m = some .poll) :
    ∃ n, m < n ∧ ∃ a, σ.action n = some a ∧ Closes a := by
  by_contra never
  have pends : ∀ k, m ≤ k → σ.action k = some .poll → ∃ n, k < n ∧
      (∀ j, k < j → j ≤ n → (σ.state j).pc = .polling) ∧
        σ.action n = some (.polled .pending) := by
    intro k hk poll
    obtain ⟨n, a, hn, polling, acted, ⟨r, rfl⟩ | rfl⟩ := poll_ends promises poll
    · cases r with
      | ready res => exact (never ⟨n, by omega, _, acted, Or.inl ⟨res, rfl⟩⟩).elim
      | pending => exact ⟨n, hn, polling, acted⟩
    · exact (never ⟨n, by omega, _, acted, Or.inr rfl⟩).elim
  -- it would be polled for ever, and be pending each time
  have again : ∀ l, ∃ k, l ≤ k ∧ m ≤ k ∧ σ.action k = some .poll := by
    intro l
    induction l with
    | zero => exact ⟨m, Nat.zero_le m, Nat.le_refl m, begins⟩
    | succ l ih =>
      obtain ⟨k, hl, hm, poll⟩ := ih
      obtain ⟨n, hn, polling, pended⟩ := pends k hm poll
      obtain ⟨k', hk', poll'⟩ := polls_on signalled fair promises hn poll polling pended
      exact ⟨k', by omega, by omega, poll'⟩
  obtain ⟨n, a, hn, acted, closes⟩ := promises.settles (by
    intro l
    obtain ⟨k, hl, hm, poll⟩ := again l
    obtain ⟨n, hn, _, pended⟩ := pends k hm poll
    exact ⟨n, by omega, pended⟩) (m + 1)
  exact never ⟨n, by omega, a, acted, closes⟩

/-- Between these moments no call ends and no poll is ready. -/
def Pending (σ : Execution (stuttering (parker V E)) s) (m n : Nat) : Prop :=
  ∀ k a, m < k → k < n → σ.action k = some a → a ≠ .ret ∧ ¬ Closes a

theorem pending_of_entered {m : Nat} (entered : (σ.state (n + 1)).pc = .entered)
    (open_until : ∀ k a, n < k → k < m → σ.action k = some a → ¬ Closes a) : Pending σ n m := by
  have unreturning : ∀ k, n + 1 ≤ k → k ≤ m → ∀ result, (σ.state k).pc ≠ .returning result := by
    intro k hk
    induction k, hk using Nat.le_induction with
    | base =>
      intro _ result
      rw [entered]
      simp
    | succ k hk ih =>
      intro last
      cases acted : σ.action k with
      | none =>
        rw [state_paused acted]
        exact ih (by omega)
      | some a =>
        obtain ⟨h, step⟩ := state_acted acted
        rw [step]
        apply unreturning_step (ih (by omega)) h
        rintro res rfl
        exact open_until k _ hk last acted (Or.inl ⟨res, rfl⟩)
  intro k a hk last acted
  refine ⟨?_, open_until k a hk last acted⟩
  rintro rfl
  obtain ⟨result, returning⟩ := (state_acted acted).1
  exact unreturning k hk (Nat.le_of_lt last) result returning

theorem pending_of_returning {m : Nat} {result : Except E V}
    (stays : ∀ k, n < k → k ≤ m → (σ.state k).pc = .returning result) : Pending σ n m := by
  intro k a hk last acted
  obtain ⟨h, step⟩ := state_acted acted
  have here := stays k hk (Nat.le_of_lt last)
  have next := stays (k + 1) (by omega) last
  rw [step] at next
  refine ⟨?_, ?_⟩
  · rintro rfl
    cases next
  · rintro (⟨res, rfl⟩ | rfl) <;> cases here.symm.trans h

/-- Every call ends: its future panics, or the call returns what its last poll
got, the only one that was ready. -/
theorem call_ends (signalled : Signalled s) (fair : FairParker σ) (promises : Promises σ)
    (call : σ.action n = some .enter) :
    ∃ m, n < m ∧ Pending σ n m ∧ (σ.action m = some .unwind ∨
      ∃ res l, σ.action m = some (.polled (.ready res)) ∧ m < l ∧ Pending σ m l ∧
        (σ.state l).pc = .returning (.ok res) ∧ σ.action l = some .ret) := by
  classical
  have entered : (σ.state (n + 1)).pc = .entered := by
    rw [(state_acted call).2]
    rfl
  obtain ⟨stored, hs, _, store⟩ := leaves fair.thread entered_step (fun here => here) trivial
    entered
  have looping : (σ.state (stored + 1)).pc = .looping := by
    rw [(state_acted store).2]
    rfl
  obtain ⟨k, hk, poll⟩ := polls_of_looping fair looping
  have closing : ∃ m, n < m ∧ ∃ a, σ.action m = some a ∧ Closes a := by
    obtain ⟨m, hm, last⟩ := closes_of_poll signalled fair promises poll
    exact ⟨m, by omega, last⟩
  obtain ⟨hm, a, acted, closes⟩ := Nat.find_spec closing
  refine ⟨Nat.find closing, hm, pending_of_entered entered ?_, ?_⟩
  · intro k a hk early acted closes
    exact Nat.find_min closing early ⟨hk, a, acted, closes⟩
  · rcases closes with ⟨res, rfl⟩ | rfl
    · have returning : (σ.state (Nat.find closing + 1)).pc = .returning (.ok res) := by
        rw [(state_acted acted).2]
        rfl
      obtain ⟨l, hl, stays, ret⟩ := leaves fair.thread returning_step (fun here => ⟨_, here⟩)
        trivial returning
      exact Or.inr ⟨res, l, acted, hl, pending_of_returning fun k hk => stays k hk,
        stays l hl (Nat.le_refl l), ret⟩
    · exact Or.inl acted

/-- Whoever is inside a call has entered it and not left it since. -/
theorem entered_before (start : s.pc = .outside) (inside : (σ.state n).pc ≠ .outside) :
    ∃ k, k < n ∧ σ.action k = some .enter ∧
      ∀ l a, k < l → l < n → σ.action l = some a → ¬ EndsCall a := by
  induction n with
  | zero =>
    rw [σ.start] at inside
    exact (inside start).elim
  | succ n ih =>
    have further : (σ.state n).pc ≠ .outside →
        (∀ a, σ.action n = some a → ¬ EndsCall a) → ∃ k, k < n + 1 ∧ σ.action k = some .enter ∧
          ∀ l a, k < l → l < n + 1 → σ.action l = some a → ¬ EndsCall a := by
      intro before open_still
      obtain ⟨k, hk, call, since⟩ := ih before
      refine ⟨k, by omega, call, fun l a hl last acted => ?_⟩
      by_cases latest : l = n
      · subst latest
        exact open_still a acted
      · exact since l a hl (by omega) acted
    cases acted : σ.action n with
    | none =>
      rw [state_paused acted] at inside
      exact further inside fun a other => by cases acted.symm.trans other
    | some b =>
      obtain ⟨h, step⟩ := state_acted acted
      rw [step] at inside
      rcases call_step h with rfl | ⟨_, outside⟩ | same
      · exact ⟨n, by omega, acted, fun l a hl last => by omega⟩
      · exact (inside outside).elim
      · apply further fun outside => inside (same.mpr outside)
        rintro a also (rfl | rfl) <;> cases acted.symm.trans also <;> exact inside rfl

/-- So a call that is under way is over some day. -/
theorem call_over (start : s.pc = .outside) (signalled : Signalled s) (fair : FairParker σ)
    (promises : Promises σ) (inside : (σ.state n).pc ≠ .outside) :
    ∃ m a, n ≤ m ∧ σ.action m = some a ∧ EndsCall a := by
  obtain ⟨k, hk, call, since⟩ := entered_before start inside
  have late : ∀ {m : Nat} {a : Action V}, k < m → σ.action m = some a → EndsCall a → n ≤ m := by
    intro m a hm acted ends
    by_contra early
    exact since m a hm (by omega) acted ends
  obtain ⟨m, hm, _, unwound | ⟨res, l, _, hl, _, _, returned⟩⟩ :=
    call_ends signalled fair promises call
  · exact ⟨m, _, late hm unwound (Or.inr rfl), unwound, Or.inr rfl⟩
  · exact ⟨l, _, late (by omega) returned (Or.inl rfl), returned, Or.inl rfl⟩

/-- Whatever `wake` calls and spurious returns there are, in every fair
continuation each call of `block_on` ends like that. -/
theorem block_on_returns {token : Bool} (run : Run (parker V E) (initial token) history s)
    (σ : Execution (stuttering (parker V E)) s) (fair : FairParker σ) (promises : Promises σ)
    {n : Nat} (call : σ.action n = some .enter) :
    ∃ m, n < m ∧ Pending σ n m ∧ (σ.action m = some .unwind ∨
      ∃ res l, σ.action m = some (.polled (.ready res)) ∧ m < l ∧ Pending σ m l ∧
        (σ.state l).pc = .returning (.ok res) ∧ σ.action l = some .ret) :=
  call_ends (signalled_run run) fair promises call

end Call

/-- One wake lets a parked thread poll again, and its future is ready then. -/
def oneWake : List (Action Nat) :=
  [.enter, .store, .poll, .polled .pending, .swap, .wake, .swapFalse 0, .unpark 0, .resume,
    .swap, .poll, .polled (.ready 7), .ret]

theorem oneWake_legal : Legal (parker Nat Nat) (initial false) oneWake :=
  ⟨rfl, rfl, rfl, rfl, rfl, trivial, rfl, rfl, ⟨rfl, rfl⟩, rfl, rfl, rfl, ⟨_, rfl⟩, trivial⟩

theorem oneWake_fair : FairParker (resting oneWake oneWake_legal) := by
  refine ⟨(resting_stronglyFair ?_).weaklyFair, fun i => (resting_stronglyFair ?_).weaklyFair⟩
  · intro a mine h
    cases a with
    | store | poll | swap => cases h
    | resume => cases h.1
    | ret =>
      obtain ⟨result, returning⟩ := h
      cases returning
    | _ => cases mine
  · intro a mine h
    cases a with
    | unpark j =>
      have owed : ([.done] : List WakeCall)[j]? = some .unparking := h
      cases j <;> simp at owed
    | _ => cases mine

theorem oneWake_pending {n : Nat}
    (pended : (resting oneWake oneWake_legal).action n = some (.polled .pending)) : n = 3 := by
  match n with
  | 3 => rfl
  | 0 | 1 | 2 | 4 | 5 | 6 | 7 | 8 | 9 | 10 | 11 | 12 | _ + 13 => cases pended

theorem oneWake_promises : Promises (resting oneWake oneWake_legal) where
  answers n := answers_of_outside (m := 13) (by
    intro k hk
    rw [resting_state, List.take_of_length_le hk]
    rfl)
  wakes := by
    intro m n hm _ _ pended
    obtain rfl := oneWake_pending pended
    exact ⟨6, 0, by omega, rfl⟩
  settles := by
    intro always
    obtain ⟨k, hk, pended⟩ := always 4
    have third := oneWake_pending pended
    omega

theorem block_on_returns_oneWake :
    let σ : Execution (stuttering (parker Nat Nat)) (initial false) := resting oneWake oneWake_legal
    ∃ m, 0 < m ∧ Pending σ 0 m ∧ (σ.action m = some .unwind ∨
      ∃ res l, σ.action m = some (.polled (.ready res)) ∧ m < l ∧ Pending σ m l ∧
        (σ.state l).pc = .returning (.ok res) ∧ σ.action l = some .ret) :=
  block_on_returns (run_of_legal [] trivial) _ oneWake_fair oneWake_promises rfl

end ParkerReturning
