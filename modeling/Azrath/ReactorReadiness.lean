import Azrath.ReactorRegistry

/-!
# Readiness that is lost

An event is recorded in the source of its stream when the map holds that source
at the moment the reactor looks it up; otherwise it is skipped. A recorded flag
stays set until the next attempt unless a call of `poll_io` was already on its
way to clear it.
-/

namespace ReactorReadiness

open GuardedRuns ReactorModel ReactorRegistry

universe u v
variable {bits : Nat} {W : Type u} {K : Type v} {R : Type u} [Waker W K]
variable {s t : State bits W R} {a : Action bits W R} {c : Nat} {d : Direction}
variable {history : List (State bits W R × Action bits W R)}

theorem trigger_sets {event : Event bits} {rest : List (Event bits)}
    (ready : event.ready d = true) :
    ((effect s (.trigger c event rest d)).heap c).triggered d = true := by
  simpa [effect, State.setSource] using Source.trigger_of_ready ready

/-- The four ways in which a flag can fare. -/
theorem flag_step (h : enabled s a) (c : Nat) (d : Direction) :
    ((effect s a).heap c).triggered d = (s.heap c).triggered d ∨
    (∃ event rest, a = .trigger c event rest d ∧ event.ready d = true ∧
      ((effect s a).heap c).triggered d = true) ∨
    (∃ cx, a = .clear_trigger c d cx ∧ s.calls c d = .clearing cx ∧
      ((effect s a).heap c).triggered d = false) ∨
    ∃ k, a = .insert c k ∧ s.streams[c]? = some (.registered k) := by
  cases a with
  | insert c' k =>
    by_cases same : c' = c
    · subst same
      exact Or.inr (Or.inr (Or.inr ⟨k, rfl, h.2⟩))
    · exact Or.inl (update_kept (fun source => source.triggered d) fun h => absurd h same)
  | take c' event rest d' | store c' d' cx =>
    refine Or.inl (update_kept (fun source => source.triggered d) ?_)
    rintro rfl
    simp
  | trigger c' event rest d' =>
    by_cases here : c' = c ∧ d' = d ∧ event.ready d = true
    · obtain ⟨rfl, rfl, ready⟩ := here
      exact Or.inr (Or.inl ⟨event, rest, rfl, ready, trigger_sets ready⟩)
    · refine Or.inl (update_kept (fun source => source.triggered d) ?_)
      rintro rfl
      exact Source.trigger_other fun both => here ⟨rfl, both⟩
  | clear_trigger c' d' cx =>
    by_cases here : c' = c ∧ d' = d
    · obtain ⟨rfl, rfl⟩ := here
      refine Or.inr (Or.inr (Or.inl ⟨cx, rfl, h, ?_⟩))
      simp [effect, State.setSource, State.setCall, Source.clear_trigger]
    · refine Or.inl (update_kept (fun source => source.triggered d) ?_)
      rintro rfl
      have other : d ≠ d' := by
        rintro rfl
        exact here ⟨rfl, rfl⟩
      simp [Source.clear_trigger, other]
  | _ => exact Or.inl rfl

/-- The action is a step of a call of `poll_io` on this direction. -/
def On (c : Nat) (d : Direction) : Action bits W R → Prop
  | .start c' d' _ | .check c' d' _ | .store c' d' _ | .recheck c' d' _ | .attempt c' d' _ _
  | .clear_trigger c' d' _ => c' = c ∧ d' = d
  | _ => False

theorem setCall_of_ne {c' : Nat} {d' : Direction} {call : Call W R}
    (other : ¬ (c' = c ∧ d' = d)) : (s.setCall c' d' call).calls c d = s.calls c d := by
  unfold State.setCall
  by_cases same : c' = c
  · subst same
    have apart : d ≠ d' := fun h => other ⟨rfl, h.symm⟩
    simp [apart]
  · simp [Ne.symm same]

theorem setCall_self {call : Call W R} : (s.setCall c d call).calls c d = call := by
  simp [State.setCall]

theorem call_kept (off : ¬ On c d a) : (effect s a).calls c d = s.calls c d := by
  cases a with
  | start c' d' cx | check c' d' cx | store c' d' cx | recheck c' d' cx | attempt c' d' cx val
  | clear_trigger c' d' cx => exact setCall_of_ne off
  | _ => rfl

/-! ## A flag that is cleared too late -/

/-- The readiness came about after the last attempt that would have blocked. -/
def Fresh (s : State bits W R) (c : Nat) (event : Event bits) (d : Direction) : Prop :=
  s.blocked c d ≤ event.edge d

def Attempts (c : Nat) (d : Direction) : Action bits W R → Prop
  | .attempt c' d' _ _ => c' = c ∧ d' = d
  | _ => False

def Clearing (s : State bits W R) (c : Nat) (d : Direction) : Prop :=
  ∃ cx, s.calls c d = .clearing cx

/-- Whatever happens next, the flag is set until the operation is tried again. -/
def Lasts (s : State bits W R) (c : Nat) (d : Direction) : Prop :=
  ∀ later t, Run (reactor bits R) s later t → (∀ p ∈ later, ¬ Attempts c d p.2) →
    (t.heap c).triggered d = true

theorem clearing_step (h : enabled s a) (none_clearing : ¬ Clearing s c d)
    (no_attempt : ¬ Attempts c d a) : ¬ Clearing (effect s a) c d := by
  rintro ⟨cx, clearing⟩
  by_cases on : On c d a
  · cases a with
    | start c' d' cx' =>
      obtain ⟨rfl, rfl⟩ := on
      cases clearing.symm.trans setCall_self
    | check c' d' cx' =>
      obtain ⟨rfl, rfl⟩ := on
      cases flag : (s.heap c').triggered d' <;> simp [effect, flag, setCall_self] at clearing
    | store c' d' cx' =>
      obtain ⟨rfl, rfl⟩ := on
      cases clearing.symm.trans setCall_self
    | recheck c' d' cx' =>
      obtain ⟨rfl, rfl⟩ := on
      cases flag : (s.heap c').triggered d' <;> simp [effect, flag, setCall_self] at clearing
    | attempt c' d' cx' val => exact no_attempt on
    | clear_trigger c' d' cx' =>
      obtain ⟨rfl, rfl⟩ := on
      exact none_clearing ⟨cx', h⟩
    | _ => exact on.elim
  · rw [call_kept on] at clearing
    exact none_clearing ⟨cx, clearing⟩

theorem lasts_of_not_clearing {k : Token bits} (inserted : s.stage Stage.inserted? c = some k)
    (flag : (s.heap c).triggered d = true) (none_clearing : ¬ Clearing s c d) :
    Lasts s c d := by
  intro later t run quiet
  refine (run.invariant_of (fun _ a => ¬ Attempts c d a)
    (fun u => u.stage Stage.inserted? c = some k ∧ (u.heap c).triggered d = true ∧
      ¬ Clearing u c d) ?_ quiet ⟨inserted, flag, none_clearing⟩).2.1
  rintro u a no_attempt ⟨inserted, flag, none_clearing⟩ h
  refine ⟨persistent_inserted.step (effect_enrolment h) inserted, ?_,
    clearing_step h none_clearing no_attempt⟩
  rcases flag_step h c d with kept | ⟨_, _, _, _, set⟩ | ⟨cx, _, clearing, _⟩ | ⟨k', _, made⟩
  · exact kept.trans flag
  · exact set
  · exact absurd ⟨cx, clearing⟩ none_clearing
  · simp [State.stage, made] at inserted

/-- The reactor's flag lasts exactly when no call stands between the attempt
that would have blocked and its `clear_trigger`. -/
theorem fresh_readiness_lasts_iff (run : Run (reactor bits R) initial history s)
    {event : Event bits} {rest : List (Event bits)} (h : s.reactor = .found c event rest d true)
    (ready : event.ready d = true) :
    (Fresh s c event d → Lasts (effect s (.trigger c event rest d)) c d) ↔
      ¬ (Fresh s c event d ∧ Clearing s c d) := by
  have set : ((effect s (.trigger c event rest d)).heap c).triggered d = true :=
    trigger_sets ready
  have calls : ∀ c' d', (effect s (.trigger c event rest d)).calls c' d' = s.calls c' d' :=
    fun _ _ => rfl
  constructor
  · rintro lasts ⟨fresh, cx, clearing⟩
    have step : (reactor bits R).enabled (effect s (.trigger c event rest d))
        (.clear_trigger c d cx) := (calls c d).trans clearing
    have flag := lasts fresh _ _ (Run.single step) (by simp [Attempts])
    simp [reactor, effect, State.setSource, State.setCall, Source.clear_trigger] at flag
  · intro safe fresh
    have none_clearing : ¬ Clearing (effect s (.trigger c event rest d)) c d := by
      rintro ⟨cx, clearing⟩
      exact safe ⟨fresh, cx, (calls c d).symm.trans clearing⟩
    have inserted := (sound_run run).finding c event rest d true h
    exact lasts_of_not_clearing inserted set none_clearing

def writable (edge : Nat) : Event 64 where
  token := Token.zero
  is_readable := false
  is_writable := true
  edge _ := edge

theorem canReport_writable {s : State 64 Nat Nat} {edge : Nat}
    (known : s.stage Stage.known? 0 = some Token.zero) (past : edge ≤ s.clock) :
    ∀ event ∈ [writable edge], s.CanReport event := by
  intro event listed
  obtain rfl := List.mem_singleton.mp listed
  exact ⟨⟨0, known⟩, fun _ => past⟩

/-- The stream becomes writable, is written to until it would block, and becomes
writable again before the flag is cleared. -/
def overtaken : List (Action 64 Nat Nat) :=
  [.register, .set_nonblocking 0 true, .fetch_add 0, .registry_register 0 Token.zero true,
    .insert 0 Token.zero,
    .poll [writable 0], .lookup (writable 0) [],
    .take 0 (writable 0) [] .read, .trigger 0 (writable 0) [] .read,
    .take 0 (writable 0) [] .write, .trigger 0 (writable 0) [] .write, .done,
    .start 0 .write 7, .check 0 .write 7, .attempt 0 .write 7 none,
    .poll [writable 1], .lookup (writable 1) [],
    .take 0 (writable 1) [] .read, .trigger 0 (writable 1) [] .read,
    .take 0 (writable 1) [] .write]

theorem overtaken_legal : Legal (reactor 64 Nat) (initial : State 64 Nat Nat) overtaken :=
  ⟨trivial, rfl, rfl, rfl, ⟨rfl, rfl⟩, ⟨rfl, canReport_writable rfl (by decide)⟩, ⟨rfl, rfl⟩,
    rfl, rfl, rfl, rfl, ⟨rfl, rfl⟩, ⟨⟨0, rfl⟩, rfl⟩, rfl, rfl,
    ⟨rfl, canReport_writable rfl (by decide)⟩, ⟨rfl, rfl⟩, rfl, rfl, rfl, trivial⟩

theorem fresh_readiness_lasts_iff_overtaken :
    let s : State 64 Nat Nat := final (reactor 64 Nat) initial overtaken
    (Fresh s 0 (writable 1) .write →
      Lasts (effect s (.trigger 0 (writable 1) [] .write)) 0 .write) ↔
      ¬ (Fresh s 0 (writable 1) .write ∧ Clearing s 0 .write) :=
  fresh_readiness_lasts_iff (run_of_legal _ overtaken_legal) rfl rfl

/-- The second edge is stored and then erased, and no attempt was made since. -/
theorem fresh_readiness_erased :
    let s : State 64 Nat Nat := final (reactor 64 Nat) initial overtaken
    ∃ history, Run (reactor 64 Nat) initial history s ∧
      s.reactor = .found 0 (writable 1) [] .write true ∧ Fresh s 0 (writable 1) .write ∧
      ((effect s (.trigger 0 (writable 1) [] .write)).heap 0).triggered .write = true ∧
      ¬ Lasts (effect s (.trigger 0 (writable 1) [] .write)) 0 .write := by
  refine ⟨_, run_of_legal _ overtaken_legal, rfl, Nat.le_refl 1, rfl, fun lasts => ?_⟩
  have step : (reactor 64 Nat).enabled
      (effect (final (reactor 64 Nat) (initial : State 64 Nat Nat) overtaken)
        (.trigger 0 (writable 1) [] .write)) (.clear_trigger 0 .write 7) := rfl
  have flag := lasts _ _ (Run.single step) (by simp [Attempts])
  cases flag

/-! ## An event that finds no source -/

def Looks : Action bits W R → Prop
  | .lookup _ _ => True
  | _ => False

/-- The reactor hands the event to the source of `c` before it looks at another. -/
def Recorded (c : Nat) (d : Direction) (event : Event bits)
    (after : List (State bits W R × Action bits W R)) : Prop :=
  ∃ mid q last rest, after = mid ++ q :: last ∧ (∀ r ∈ mid, ¬ Looks r.2) ∧
    q.2 = .trigger c event rest d ∧ ((effect q.1 q.2).heap c).triggered d = true

theorem Recorded.snoc {event : Event bits} {after : List (State bits W R × Action bits W R)}
    (recorded : Recorded c d event after) (p : State bits W R × Action bits W R) :
    Recorded c d event (after ++ [p]) := by
  obtain ⟨mid, q, last, rest, rfl, quiet, is_trigger, set⟩ := recorded
  exact ⟨mid, q, last ++ [p], rest, by simp, quiet, is_trigger, set⟩

/-- The reactor is about to handle direction `d` of the event, now or next. -/
def InHand (s : State bits W R) (c : Nat) (event : Event bits) (d : Direction) : Prop :=
  ∃ rest d' taken, s.reactor = .found c event rest d' taken ∧ (d' = .write → d = .write)

theorem inHand_step {event : Event bits} (ready : event.ready d = true) (hand : InHand s c event d)
    (h : enabled s a) :
    (InHand (effect s a) c event d ∧ ¬ Looks a ∧ a ≠ .done) ∨
      ∃ rest, a = .trigger c event rest d ∧ ((effect s a).heap c).triggered d = true := by
  obtain ⟨rest, d', taken, here, order⟩ := hand
  cases a with
  | poll events => cases here.symm.trans h.1
  | pollError => cases here.symm.trans h
  | lookup event' rest' => cases here.symm.trans h.2
  | wake waker rest' => cases here.symm.trans h.1
  | done => cases here.symm.trans h.1
  | take c' event' rest' d'' =>
    obtain ⟨rfl, rfl, rfl, rfl, rfl⟩ := Pc.found.inj (here.symm.trans h)
    exact Or.inl ⟨⟨rest, d', true, rfl, order⟩, fun looks => looks, by simp⟩
  | trigger c' event' rest' d'' =>
    obtain ⟨rfl, rfl, rfl, rfl, rfl⟩ := Pc.found.inj (here.symm.trans h)
    by_cases now : d = d'
    · subst now
      exact Or.inr ⟨rest, rfl, trigger_sets ready⟩
    · cases d' with
      | write => exact absurd (order rfl) now
      | read => cases d with
        | read => exact absurd rfl now
        | write =>
          exact Or.inl ⟨⟨rest, .write, false, rfl, fun _ => rfl⟩, fun looks => looks, by simp⟩
  | _ => exact Or.inl ⟨⟨rest, d', taken, here, order⟩, fun looks => looks, by simp⟩

/-- Once looked up in the map, the event is recorded before the batch is over. -/
theorem recorded_of_inHand {event : Event bits} {after : List (State bits W R × Action bits W R)}
    (ready : event.ready d = true) (run : Run (reactor bits R) s after t)
    (hand : InHand s c event d) (processed : ∃ q ∈ after, q.2 = .done) :
    Recorded c d event after := by
  have sofar : Recorded c d event after ∨
      InHand t c event d ∧ ∀ q ∈ after, ¬ Looks q.2 ∧ q.2 ≠ .done := by
    refine run.history_invariant (fun past u => Recorded c d event past ∨
      InHand u c event d ∧ ∀ q ∈ past, ¬ Looks q.2 ∧ q.2 ≠ .done) (Or.inr ⟨hand, by simp⟩) ?_
    intro past u a _ ih h
    rcases ih with recorded | ⟨hand, quiet⟩
    · exact Or.inl (recorded.snoc _)
    · rcases inHand_step ready hand h with ⟨hand', no_look, not_done⟩ | ⟨rest, rfl, set⟩
      · refine Or.inr ⟨hand', fun q hq => ?_⟩
        rcases List.mem_append.mp hq with old | new
        · exact quiet q old
        · rw [List.mem_singleton.mp new]
          exact ⟨no_look, not_done⟩
      · exact Or.inl ⟨past, _, [], rest, rfl, fun r hr => (quiet r hr).1, rfl, set⟩
  rcases sofar with recorded | ⟨_, quiet⟩
  · exact recorded
  · obtain ⟨q, hq, is_done⟩ := processed
    exact absurd is_done (quiet q hq).2

/-- The reactor does not come to a source without looking an event up. -/
theorem not_found_step (away : ∀ event rest d taken, s.reactor ≠ .found c event rest d taken)
    (h : enabled s a) (no_look : ¬ Looks a) :
    ∀ event rest d taken, (effect s a).reactor ≠ .found c event rest d taken := by
  intro event rest d taken there
  cases a with
  | poll events => cases there
  | done => cases there
  | lookup event' rest' => exact no_look trivial
  | take c' event' rest' d' =>
    obtain ⟨rfl, _⟩ := Pc.found.inj there
    exact away _ _ _ _ h
  | trigger c' event' rest' d' =>
    cases d' with
    | read =>
      obtain ⟨rfl, _⟩ := Pc.found.inj there
      exact away _ _ _ _ h
    | write => cases there
  | _ => exact away event rest d taken there

theorem not_recorded {event : Event bits} {after : List (State bits W R × Action bits W R)}
    (run : Run (reactor bits R) s after t)
    (away : ∀ event rest d taken, s.reactor ≠ .found c event rest d taken) :
    ¬ Recorded c d event after := by
  rintro ⟨mid, q, last, rest, split, quiet, is_trigger, _⟩
  obtain ⟨first, h, _⟩ := run.cut split
  rw [is_trigger] at h
  have still := first.invariant_of (fun _ a => ¬ Looks a)
    (fun u => ∀ event rest d taken, u.reactor ≠ .found c event rest d taken)
    (fun _ _ no_look away h => not_found_step away h no_look) quiet away
  exact still event rest d true h

/-- A live stream whose event the reactor looks up is in the map, or its
`register` has not got that far yet. -/
theorem listed_iff_not_registering (run : Run (reactor bits R) initial history s)
    {later : List (State bits W R × Action bits W R)} (rest : Run (reactor bits R) s later t)
    (few : t.streams.length < 2 ^ bits) {event : Event bits} {k : Token bits}
    (pending : event ∈ events s.reactor) (own : event.token = k)
    (live : t.streams[c]? = some (.live k)) :
    s.sources k = some c ↔ s.streams[c]? ≠ some (.registered k) := by
  have sound := sound_run run
  have fewer := Nat.lt_of_le_of_lt (length_le_run rest) few
  constructor
  · intro found registered
    have live := live_iff.mp (sound.mapped k c found)
    cases registered.symm.trans live
  · intro not_registered
    obtain ⟨c', known⟩ := sound.known event pending
    rw [own] at known
    have known_later := persistent_known.run rest known
    -- the token has one owner at the end, so it had the same owner before
    have same : c' = c :=
      (numbered_run (run.append rest) few).alone c' c k (token_of_known known_later)
        (token_of_inserted (inserted_of_live (live_iff.mpr live)))
    subst same
    obtain ⟨stage, here, shown⟩ := Option.bind_eq_some_iff.mp known
    have stays : s.stage Stage.gone? c' = some k → False := by
      intro gone
      have gone_later := persistent_gone.run rest gone
      simp [State.stage, live] at gone_later
    apply listed_run run fewer c' k
    cases stage with
    | registered k' =>
      obtain rfl : k' = k := Option.some.inj shown
      exact absurd here not_registered
    | live k' => exact Option.bind_eq_some_iff.mpr ⟨_, here, shown⟩
    | removed k' | dropped k' =>
      exact (stays (Option.bind_eq_some_iff.mpr ⟨_, here, shown⟩)).elim
    | _ => cases shown

/-- An event of a live stream that has been looked up and whose batch is over is
recorded exactly when the map held the stream's source, and this is when the
event was not looked up between `registry.register` and the insertion. -/
theorem event_recorded_iff (run : Run (reactor bits R) initial history s) {k : Token bits}
    (live : s.streams[c]? = some (.live k))
    {before after : List (State bits W R × Action bits W R)}
    {p : State bits W R × Action bits W R} (split : history = before ++ p :: after)
    {event : Event bits} {rest : List (Event bits)} (looked : p.2 = .lookup event rest)
    (own : event.token = k) (ready : event.ready d = true)
    (processed : ∃ q ∈ after, q.2 = .done) :
    (Recorded c d event after ↔ p.1.sources k = some c) ∧
      (s.streams.length < 2 ^ bits →
        (p.1.sources k = some c ↔ p.1.streams[c]? ≠ some (.registered k))) := by
  obtain ⟨first, h, later⟩ := run.cut split
  obtain ⟨u, a⟩ := p
  obtain rfl : a = .lookup event rest := looked
  change (Recorded c d event after ↔ u.sources k = some c) ∧ _
  refine ⟨⟨fun recorded => ?_, fun found => ?_⟩, fun few => ?_⟩
  · by_contra absent
    refine not_recorded later ?_ recorded
    intro event' rest' d' taken there
    cases found : u.sources event.token with
    | none => simp [reactor, effect, found] at there
    | some c' =>
      simp only [reactor, effect, found, Pc.found.injEq] at there
      rw [own, there.1] at found
      exact absent found
  · rw [← own] at found
    refine recorded_of_inHand ready later ⟨rest, .read, false, ?_, by simp⟩ processed
    simp [reactor, effect, found]
  · refine listed_iff_not_registering first ((Run.single h).append later) few ?_ own live
    rw [h.2]
    exact List.mem_cons_self

/-- The fresh socket is writable before its source is in the map. -/
def skipped : List (Action 64 Nat Nat) :=
  [.register, .set_nonblocking 0 true, .fetch_add 0, .registry_register 0 Token.zero true,
    .poll [writable 0], .lookup (writable 0) [], .done, .insert 0 Token.zero]

theorem skipped_legal : Legal (reactor 64 Nat) (initial : State 64 Nat Nat) skipped :=
  ⟨trivial, rfl, rfl, rfl, ⟨rfl, canReport_writable rfl (by decide)⟩, ⟨rfl, rfl⟩, ⟨rfl, rfl⟩,
    ⟨rfl, rfl⟩, trivial⟩

/-- The transitions of `skipped`, cut at the lookup. -/
theorem skipped_split :
    transitions (reactor 64 Nat) (initial : State 64 Nat Nat) skipped =
      (transitions (reactor 64 Nat) initial skipped).take 5 ++
        (final (reactor 64 Nat) initial (skipped.take 5), .lookup (writable 0) []) ::
          (transitions (reactor 64 Nat) initial skipped).drop 6 := rfl

theorem event_recorded_iff_skipped :
    Recorded 0 .write (writable 0)
        ((transitions (reactor 64 Nat) (initial : State 64 Nat Nat) skipped).drop 6) ↔
      (final (reactor 64 Nat) (initial : State 64 Nat Nat) (skipped.take 5)).sources Token.zero =
        some 0 :=
  (event_recorded_iff (run_of_legal _ skipped_legal) rfl skipped_split rfl rfl rfl
    ⟨_, List.mem_cons_self, rfl⟩).1

/-- The stream is registered, its event is over, and the flag was never set. -/
theorem event_unrecorded :
    let s : State 64 Nat Nat := final (reactor 64 Nat) initial skipped
    ∃ before p after, Run (reactor 64 Nat) initial (before ++ p :: after) s ∧
      s.streams[0]? = some (.live Token.zero) ∧ p.1.streams[0]? = some (.registered Token.zero) ∧
      p.2 = .lookup (writable 0) [] ∧ (∃ q ∈ after, q.2 = .done) ∧
      ¬ Recorded 0 .write (writable 0) after ∧ (s.heap 0).triggered .write = false := by
  refine ⟨_, _, _, skipped_split ▸ run_of_legal _ skipped_legal, rfl, rfl, rfl,
    ⟨_, List.mem_cons_self, rfl⟩, ?_, rfl⟩
  rintro ⟨mid, q, last, rest, split, _, processed, _⟩
  have listed : q.2 ∈ [Action.done, .insert 0 Token.zero] := by
    have here : q ∈ mid ++ q :: last := by simp
    rw [← split] at here
    exact List.mem_map_of_mem here
  rw [processed] at listed
  simp at listed

end ReactorReadiness
