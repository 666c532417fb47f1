import Azrath.ParkerModel

/-!
# No wake-up is missed

A wake that swaps the flag after a poll began leaves it false until the thread
swaps it back and polls again. While the thread is parked on a false flag,
either the park token is set or the wake that cleared the flag still owes its
unpark; nobody else can use the token up then.
-/

namespace ParkerWakeups

open GuardedRuns FairExecutions ParkerModel

universe u
variable {V E : Type u} {s : State V E} {a : Action V}
variable {history : List (State V E × Action V)}

/-- From the start of a poll until the loop begins again. -/
def InRound : Pc V E → Prop
  | .polling | .swapping | .parking => True
  | _ => False

theorem InRound.of_eq {pc : Pc V E} (here : s.pc = pc) (place : InRound pc) : InRound s.pc := by
  rwa [here]

/-- Some call of `wake` is between its swap and its unpark. -/
def Unparking (s : State V E) : Prop := ∃ i : Nat, s.wakes[i]? = some .unparking

/-- A thread parked on a cleared flag has its token, or will get it. -/
def Signalled (s : State V E) : Prop :=
  s.pc = .parking → s.parked = false → s.token = true ∨ Unparking s

theorem signalled_initial (token : Bool) : Signalled (initial token : State V E) := by
  intro parking
  cases parking

/-- A call of `wake` that owes an unpark owes it until it is made. -/
theorem unparking_step {i : Nat} (owed : s.wakes[i]? = some .unparking) (h : enabled s a) :
    a = .unpark i ∨ (effect s a).wakes[i]? = some .unparking := by
  cases a with
  | wake =>
    have bound := (List.getElem?_eq_some_iff.mp owed).1
    apply Or.inr
    change (s.wakes ++ [.called])[i]? = _
    rwa [List.getElem?_append_left bound]
  | swapFalse j =>
    have apart : j ≠ i := by
      rintro rfl
      cases owed.symm.trans h
    apply Or.inr
    change (s.wakes.set j _)[i]? = _
    rwa [List.getElem?_set_ne apart]
  | unpark j =>
    by_cases same : j = i
    · exact Or.inl (by rw [same])
    · apply Or.inr
      change (s.wakes.set j _)[i]? = _
      rwa [List.getElem?_set_ne same]
  | _ => exact Or.inr owed

theorem Signalled.step (signalled : Signalled s) (h : enabled s a) :
    Signalled (effect s a) := by
  intro parking flag
  cases a with
  | enter | store | poll | unwind | resume | spurious | ret => cases parking
  | polled r => cases r <;> cases parking
  | swap => cases flag
  | wake =>
    rcases signalled parking flag with token | ⟨i, owed⟩
    · exact Or.inl token
    · exact Or.inr ⟨i, (unparking_step owed h).resolve_left (by simp)⟩
  | swapFalse i =>
    cases was : s.parked with
    | true =>
      -- this wake is the one that let the flag fall
      have bound : i < s.wakes.length := (List.getElem?_eq_some_iff.mp h).1
      exact Or.inr ⟨i, by simp [effect, was, bound]⟩
    | false =>
      rcases signalled parking was with token | ⟨j, owed⟩
      · exact Or.inl token
      · exact Or.inr ⟨j, (unparking_step owed h).resolve_left (by simp)⟩
  | unpark i | unparked => exact Or.inl rfl
  | consume =>
    have parking : s.pc = .parking := parking
    rcases h with other | other <;> cases parking.symm.trans other

theorem signalled_run {token : Bool} (run : Run (parker V E) (initial token) history s) :
    Signalled s :=
  run.invariant Signalled (fun _ _ ih h => ih.step h) (signalled_initial token)

theorem woken_snoc : woken (history ++ [(s, a)]) =
    match a with
    | .poll => false
    | .swapFalse _ => true
    | _ => woken history := by
  unfold woken
  rw [List.foldl_append]
  cases a <;> rfl

/-- Only the thread sets the flag, and after a wake it does so on its way to
the next poll. -/
theorem flag_run {token : Bool} (run : Run (parker V E) (initial token) history s) :
    woken history = true → InRound s.pc → s.parked = false := by
  refine run.history_invariant (fun past t => woken past = true → InRound t.pc →
    t.parked = false) (fun none_yet => by cases none_yet) ?_
  intro past t a before ih h after later
  rw [woken_snoc] at after
  cases a with
  | enter | store | unwind | ret => exact later.elim
  | poll => cases after
  | polled r => exact ih after (.of_eq h trivial)
  | swap =>
    have flag := ih after (.of_eq h trivial)
    have looping : ((parker V E).effect t .swap).pc = .looping := by
      simp [parker, effect, flag]
    rw [looping] at later
    exact later.elim
  | resume => exact ih after (.of_eq h.1 trivial)
  | spurious => exact ih after (.of_eq h trivial)
  | swapFalse i => rfl
  | wake | unpark i | unparked | consume => exact ih after later

/-! ## The way back to a poll -/

/-- The parked thread stays parked until it is let go. Nobody else uses its token
up or sets the flag. -/
theorem parking_step (parking : s.pc = .parking) (h : enabled s a) :
    ((effect s a).pc = .swapping ∧ (effect s a).parked = s.parked) ∨
      ((effect s a).pc = .parking ∧ ¬ ofThread a ∧
        (s.parked = false → (effect s a).parked = false) ∧
        (s.token = true → (effect s a).token = true)) := by
  cases a with
  | enter | store | poll | polled r | unwind | swap => cases parking.symm.trans h
  | ret =>
    obtain ⟨result, returning⟩ := h
    cases parking.symm.trans returning
  | consume => rcases h with other | other <;> cases parking.symm.trans other
  | resume | spurious => exact Or.inl ⟨rfl, rfl⟩
  | swapFalse i => exact Or.inr ⟨parking, fun mine => mine, fun _ => rfl, fun token => token⟩
  | unpark i | unparked =>
    exact Or.inr ⟨parking, fun mine => mine, fun flag => flag, fun _ => rfl⟩
  | wake => exact Or.inr ⟨parking, fun mine => mine, fun flag => flag, fun token => token⟩

theorem swapping_step (swapping : s.pc = .swapping) (h : enabled s a) :
    a = .swap ∨ ((effect s a).pc = .swapping ∧ ¬ ofThread a ∧
      (s.parked = false → (effect s a).parked = false)) := by
  cases a with
  | enter | store | poll | polled r | unwind | spurious => cases swapping.symm.trans h
  | ret =>
    obtain ⟨result, returning⟩ := h
    cases swapping.symm.trans returning
  | resume => cases swapping.symm.trans h.1
  | swap => exact Or.inl rfl
  | swapFalse i => exact Or.inr ⟨swapping, fun mine => mine, fun _ => rfl⟩
  | wake | unpark i | unparked | consume =>
    exact Or.inr ⟨swapping, fun mine => mine, fun flag => flag⟩

theorem looping_step (looping : s.pc = .looping) (h : enabled s a) :
    a = .poll ∨ ((effect s a).pc = .looping ∧ ¬ ofThread a) := by
  cases a with
  | enter | store | polled r | unwind | swap | spurious => cases looping.symm.trans h
  | ret =>
    obtain ⟨result, returning⟩ := h
    cases looping.symm.trans returning
  | resume => cases looping.symm.trans h.1
  | poll => exact Or.inl rfl
  | swapFalse i | wake | unpark i | unparked | consume =>
    exact Or.inr ⟨looping, fun mine => mine⟩

theorem unpark_ensures (i : Nat) : Ensures (parker V E) (ofWake i)
    (fun t => (t.pc = .parking ∧ t.parked = false) ∧ t.wakes[i]? = some .unparking)
    (fun t => (t.pc = .parking ∧ t.parked = false) ∧ t.token = true ∨
      t.pc = .swapping ∧ t.parked = false) where
  keeps := by
    rintro t a ⟨⟨parking, flag⟩, owed⟩ h
    rcases parking_step parking h with ⟨swapping, kept⟩ | ⟨parking', _, cleared, _⟩
    · exact Or.inr (Or.inr ⟨swapping, kept.trans flag⟩)
    · rcases unparking_step owed h with rfl | owed'
      · exact Or.inr (Or.inl ⟨⟨parking', cleared flag⟩, rfl⟩)
      · exact Or.inl ⟨⟨parking', cleared flag⟩, owed'⟩
  able := by
    rintro t ⟨_, owed⟩
    exact ⟨.unpark i, rfl, owed⟩
  helps := by
    rintro t a ⟨parked, _⟩ mine _
    cases a <;> simp only [ofWake] at mine
    exact Or.inl ⟨parked, rfl⟩

theorem resume_ensures : Ensures (parker V E) ofThread
    (fun t => (t.pc = .parking ∧ t.parked = false) ∧ t.token = true)
    (fun t => t.pc = .swapping ∧ t.parked = false) where
  keeps := by
    rintro t a ⟨⟨parking, flag⟩, token⟩ h
    rcases parking_step parking h with ⟨swapping, kept⟩ | ⟨parking', _, cleared, held⟩
    · exact Or.inr ⟨swapping, kept.trans flag⟩
    · exact Or.inl ⟨⟨parking', cleared flag⟩, held token⟩
  able := by
    rintro t ⟨⟨parking, _⟩, token⟩
    exact ⟨.resume, trivial, parking, token⟩
  helps := by
    rintro t a ⟨⟨parking, flag⟩, _⟩ mine h
    rcases parking_step parking h with ⟨swapping, kept⟩ | ⟨_, not_mine, _⟩
    · exact ⟨swapping, kept.trans flag⟩
    · exact absurd mine not_mine

theorem swap_ensures : Ensures (parker V E) ofThread
    (fun t => t.pc = .swapping ∧ t.parked = false) (fun t => t.pc = .looping) where
  keeps := by
    rintro t a ⟨swapping, flag⟩ h
    rcases swapping_step swapping h with rfl | ⟨swapping', _, cleared⟩
    · exact Or.inr (by simp [parker, effect, flag])
    · exact Or.inl ⟨swapping', cleared flag⟩
  able := by
    rintro t ⟨swapping, _⟩
    exact ⟨.swap, trivial, swapping⟩
  helps := by
    rintro t a ⟨swapping, flag⟩ mine h
    rcases swapping_step swapping h with rfl | ⟨_, not_mine, _⟩
    · simp [parker, effect, flag]
    · exact absurd mine not_mine

theorem poll_ensures : Ensures (parker V E) ofThread
    (fun t => t.pc = .looping) (fun t => t.pc = .polling) where
  keeps := by
    intro t a looping h
    rcases looping_step looping h with rfl | ⟨looping', _⟩
    · exact Or.inr rfl
    · exact Or.inl looping'
  able := by
    intro t looping
    exact ⟨.poll, trivial, looping⟩
  helps := by
    intro t a looping mine h
    rcases looping_step looping h with rfl | ⟨_, not_mine⟩
    · rfl
    · exact absurd mine not_mine

/-- Neither the thread nor a call of `wake` stops for ever between two of its
steps. Whether anything else happens is left open, spurious returns included. -/
def Fair (σ : Execution (parker V E) s) : Prop :=
  WeaklyFair σ ofThread ∧ ∀ i, WeaklyFair σ (ofWake i)

theorem Fair.swapping_leadsTo {σ : Execution (parker V E) s} (fair : Fair σ) :
    LeadsTo σ (fun t => t.pc = .swapping ∧ t.parked = false) (fun t => t.pc = .polling) :=
  (swap_ensures.leadsTo fair.1).trans (poll_ensures.leadsTo fair.1)

theorem Fair.parking_leadsTo {σ : Execution (parker V E) s} (fair : Fair σ) :
    LeadsTo σ (fun t => (t.pc = .parking ∧ t.parked = false) ∧ t.token = true)
      (fun t => t.pc = .polling) :=
  (resume_ensures.leadsTo fair.1).trans fair.swapping_leadsTo

theorem Fair.unparking_leadsTo {σ : Execution (parker V E) s} (fair : Fair σ) (i : Nat) :
    LeadsTo σ
      (fun t => (t.pc = .parking ∧ t.parked = false) ∧ t.wakes[i]? = some .unparking)
      (fun t => t.pc = .polling) :=
  ((unpark_ensures i).leadsTo (fair.2 i)).trans
    (fair.parking_leadsTo.or fair.swapping_leadsTo)

/-- After a wake the thread polls again, wherever the wake fell. -/
theorem polls_again (signalled : Signalled s) (flag : s.parked = false)
    (pended : s.pc = .swapping ∨ s.pc = .parking) {σ : Execution (parker V E) s}
    (fair : Fair σ) : ∃ n, (σ.state n).pc = .polling := by
  have from_start : ∀ P : State V E → Prop, P s → LeadsTo σ P (fun t => t.pc = .polling) →
      ∃ n, (σ.state n).pc = .polling := by
    intro P start leads
    obtain ⟨n, _, polling⟩ := leads 0 (by rwa [σ.start])
    exact ⟨n, polling⟩
  rcases pended with swapping | parking
  · exact from_start _ ⟨swapping, flag⟩ fair.swapping_leadsTo
  · rcases signalled parking flag with token | ⟨i, owed⟩
    · exact from_start _ ⟨⟨parking, flag⟩, token⟩ fair.parking_leadsTo
    · exact from_start _ ⟨⟨parking, flag⟩, owed⟩ (fair.unparking_leadsTo i)

/-! ## What the polls return -/

/-- The results so far fit the place the thread has reached. -/
def Fits (rs : List (Poll V)) : Pc V E → Prop
  | .outside => True
  | .returning result => ∃ res k, result = .ok res ∧ rs = List.replicate k .pending ++ [.ready res]
  | _ => ∀ r ∈ rs, r = .pending

theorem results_snoc : results (history ++ [(s, a)]) =
    match a with
    | .enter => []
    | .polled r => results history ++ [r]
    | _ => results history := by
  unfold results
  rw [List.foldl_append]
  cases a <;> rfl

theorem fits_run {token : Bool} (run : Run (parker V E) (initial token) history s) :
    Fits (results history) s.pc := by
  refine run.history_invariant (fun past t => Fits (results past) t.pc)
    (show Fits _ Pc.outside from trivial) ?_
  intro past t a before ih h
  rw [results_snoc]
  cases a with
  | enter => simp [parker, effect, Fits]
  | store | poll | spurious =>
    have here : t.pc = _ := h
    rw [here] at ih
    exact ih
  | polled r =>
    have polling : t.pc = .polling := h
    rw [polling] at ih
    have pending : results past = List.replicate (results past).length .pending :=
      List.eq_replicate_of_mem ih
    cases r with
    | ready res => exact ⟨res, _, rfl, by rw [← pending]⟩
    | pending =>
      intro r hr
      rcases List.mem_append.mp hr with old | new
      · exact ih r old
      · exact List.mem_singleton.mp new
  | swap =>
    have swapping : t.pc = .swapping := h
    rw [swapping] at ih
    cases was : t.parked <;> simpa [parker, effect, was, Fits] using ih
  | resume =>
    rw [h.1] at ih
    exact ih
  | unwind | ret => trivial
  | wake | swapFalse i | unpark i | unparked | consume => exact ih

/-- Parked without its token after a wake, the thread is owed an unpark, and in
every fair continuation it polls again. It never polls a future that was ready,
and `block_on` returns what that poll returned. -/
theorem no_wakeup_missed {token : Bool} (run : Run (parker V E) (initial token) history s) :
    (s.pc = .parking → s.token = false → woken history = true → Unparking s) ∧
    (woken history = true → s.pc = .swapping ∨ s.pc = .parking →
      ∀ σ : Execution (parker V E) s, Fair σ → ∃ n, (σ.state n).pc = .polling) ∧
    (s.pc = .looping ∨ s.pc = .polling → ∀ r ∈ results history, r = .pending) ∧
    (∀ result, s.pc = .returning result → ∃ res k, result = .ok res ∧
      results history = List.replicate k .pending ++ [.ready res]) := by
  have signalled := signalled_run run
  have fits := fits_run run
  refine ⟨?_, ?_, ?_, ?_⟩
  · intro parking no_token after
    have flag := flag_run run after (.of_eq parking trivial)
    exact (signalled parking flag).resolve_left (by simp [no_token])
  · intro after pended σ fair
    have flag := flag_run run after (pended.elim (.of_eq · trivial) (.of_eq · trivial))
    exact polls_again signalled flag pended fair
  · rintro (looping | polling)
    · rwa [looping] at fits
    · rwa [polling] at fits
  · intro result returning
    rwa [returning] at fits

/-- A wake finds the thread parked. -/
def wokenParked : List (Action Nat) :=
  [.enter, .store, .poll, .polled .pending, .swap, .wake, .swapFalse 0]

def handBack : List (Action Nat) :=
  [.unpark 0, .resume, .swap, .poll, .polled (.ready 7), .ret, .unparked]

theorem handBack_fair {s : State Nat Nat} (legal : Legal (parker Nat Nat) s handBack)
    (outside : (final (parker Nat Nat) s handBack).pc = .outside)
    (settled : (final (parker Nat Nat) s handBack).wakes = [.done])
    (still : (parker Nat Nat).effect (final (parker Nat Nat) s handBack) .unparked = _) :
    Fair (Execution.ofActions handBack .unparked legal trivial still) := by
  refine ⟨Execution.ofActions_fair ?_, fun i => Execution.ofActions_fair ?_⟩
  · intro a mine h
    cases a with
    | store | poll | swap => cases outside.symm.trans h
    | resume => cases outside.symm.trans h.1
    | ret =>
      obtain ⟨result, returning⟩ := h
      cases outside.symm.trans returning
    | _ => cases mine
  · intro a mine h
    cases a with
    | unpark j =>
      have owed : (final (parker Nat Nat) s handBack).wakes[j]? = some .unparking := h
      rw [settled] at owed
      cases j <;> simp at owed
    | _ => cases mine

theorem no_wakeup_missed_parked :
    let s : State Nat Nat := final (parker Nat Nat) (initial false) wokenParked
    Unparking s ∧ ∃ σ : Execution (parker Nat Nat) s, Fair σ ∧ ∃ n, (σ.state n).pc = .polling := by
  have run := run_of_legal (M := parker Nat Nat) (s := initial false) wokenParked
    ⟨rfl, rfl, rfl, rfl, rfl, trivial, rfl, trivial⟩
  have legal : Legal (parker Nat Nat) (final (parker Nat Nat) (initial false) wokenParked)
      handBack := ⟨rfl, ⟨rfl, rfl⟩, rfl, rfl, rfl, ⟨_, rfl⟩, trivial, trivial⟩
  have missed := no_wakeup_missed run
  have fair := handBack_fair legal rfl rfl rfl
  exact ⟨missed.1 rfl rfl rfl, _, fair, missed.2.1 rfl (Or.inr rfl) _ fair⟩

end ParkerWakeups
