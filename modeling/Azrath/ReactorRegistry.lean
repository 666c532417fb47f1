import Azrath.ReactorModel

/-!
# The map of sources

A token is issued once as long as the counter has not come round, the map holds
the sources of the live streams, and the reactor only ever works on a source
whose stream was given the token of the event.
-/

namespace ReactorRegistry

open GuardedRuns ReactorModel

universe u v
variable {bits : Nat} {W : Type u} {K : Type v} {R : Type u} [Waker W K]
variable {s t : State bits W R} {a : Action bits W R}

/-- How the registration of a stream goes on when the counter is at `counter`. -/
inductive Next (counter : Token bits) : Stage bits → Stage bits → Prop where
  | set_nonblocking : Next counter .started .nonblocking
  | blocking : Next counter .started .failed
  | fetch_add : Next counter .nonblocking (.allocated counter)
  | registered (k : Token bits) : Next counter (.allocated k) (.registered k)
  | unregistered (k : Token bits) : Next counter (.allocated k) .failed
  | insert (k : Token bits) : Next counter (.registered k) (.live k)
  | remove (k : Token bits) : Next counter (.live k) (.removed k)
  | deregister (k : Token bits) : Next counter (.removed k) (.dropped k)

inductive Enrolment (s t : State bits W R) : Prop where
  | same (streams : t.streams = s.streams) (counter : t.token = s.token)
  | register (streams : t.streams = s.streams ++ [.started]) (counter : t.token = s.token)
  | next {c : Nat} {old new : Stage bits} (here : s.streams[c]? = some old)
      (step : Next s.token old new) (streams : t.streams = s.streams.set c new)
      (counter : t.token = if old = .nonblocking then s.token.next else s.token)

theorem effect_enrolment (h : enabled s a) : Enrolment s (effect s a) := by
  cases a with
  | register => exact .register rfl rfl
  | set_nonblocking c ok =>
    cases ok
    · exact .next h .blocking rfl rfl
    · exact .next h .set_nonblocking rfl rfl
  | fetch_add c => exact .next h .fetch_add rfl rfl
  | registry_register c k ok =>
    cases ok
    · exact .next h (.unregistered k) rfl rfl
    · exact .next h (.registered k) rfl rfl
  | insert c k => exact .next h.2 (.insert k) rfl rfl
  | remove c k => exact .next h.2.1 (.remove k) rfl rfl
  | deregister c k => exact .next h (.deregister k) rfl rfl
  | _ => exact .same rfl rfl

theorem stage_step (move : Enrolment s t) (seen? : Stage bits → Option (Token bits))
    (none_yet : seen? .started = none) (c : Nat) :
    t.stage seen? c = s.stage seen? c ∨
      ∃ old new, s.streams[c]? = some old ∧ Next s.token old new ∧
        t.token = (if old = .nonblocking then s.token.next else s.token) ∧
        s.stage seen? c = seen? old ∧ t.stage seen? c = seen? new ∧
        ∀ c', c' ≠ c → t.stage seen? c' = s.stage seen? c' := by
  unfold State.stage
  cases move with
  | same streams => exact Or.inl (by rw [streams])
  | register streams => exact Or.inl (by rw [streams, ThreadLists.bind_snoc _ _ none_yet])
  | @next c' old new here step streams counter =>
    rw [streams, ThreadLists.bind_set _ here]
    by_cases same : c = c'
    · subst same
      refine Or.inr ⟨old, new, here, step, counter, by rw [here]; rfl, if_pos rfl, ?_⟩
      intro c' other
      rw [ThreadLists.bind_set _ here, if_neg other]
    · exact Or.inl (if_neg same)

/-! ## Tokens -/

/-- Only the stream that calls `fetch_add` gets a token. -/
theorem token_step (move : Enrolment s t) {c : Nat} {k : Token bits}
    (given : t.stage Stage.token? c = some k) :
    s.stage Stage.token? c = some k ∨
      k = s.token ∧ t.token = s.token.next ∧ s.streams[c]? = some .nonblocking ∧
        ∀ c', c' ≠ c → t.stage Stage.token? c' = s.stage Stage.token? c' := by
  rcases stage_step move Stage.token? rfl c with
    same | ⟨old, new, here, step, counter, was, now, others⟩
  · exact Or.inl (same ▸ given)
  · rw [now] at given
    rw [was]
    cases step with
    | fetch_add => exact Or.inr ⟨(Option.some.inj given).symm, counter, here, others⟩
    | set_nonblocking | blocking | unregistered => cases given
    | _ => exact Or.inl given

/-- While there were fewer calls of `register` than tokens, every stream that
has a token has it alone. -/
structure Numbered (s : State bits W R) : Prop where
  issued : s.streams.countP Stage.early + s.token.val ≤ s.streams.length
  below : ∀ c k, s.stage Stage.token? c = some k → k.val < s.token.val
  alone : ∀ c c' k, s.stage Stage.token? c = some k → s.stage Stage.token? c' = some k → c = c'

theorem numbered_initial : Numbered (initial : State bits W R) where
  issued := by simp [initial, Token.zero]
  below := by simp [State.stage, initial]
  alone := by simp [State.stage, initial]

theorem length_le (move : Enrolment s t) : s.streams.length ≤ t.streams.length := by
  cases move with
  | same streams => exact Nat.le_of_eq (by rw [streams])
  | register streams => simp [streams]
  | next here step streams => simp [streams]

theorem Numbered.next_val (numbered : Numbered s) (few : s.streams.length < 2 ^ bits) {c : Nat}
    (here : s.streams[c]? = some .nonblocking) : s.token.next.val = s.token.val + 1 := by
  have := ThreadLists.countP_pos_of_get (p := Stage.early) here rfl
  have := numbered.issued
  exact Token.next_val (by omega)

theorem Numbered.issued_step (numbered : Numbered s) (move : Enrolment s t)
    (few : s.streams.length < 2 ^ bits) :
    t.streams.countP Stage.early + t.token.val ≤ t.streams.length ∧
      s.token.val ≤ t.token.val := by
  have issued := numbered.issued
  cases move with
  | same streams counter => exact ⟨by rwa [streams, counter], Nat.le_of_eq (by rw [counter])⟩
  | register streams counter =>
    rw [streams, counter]
    exact ⟨by simp; omega, Nat.le_refl _⟩
  | @next c old new here step streams counter =>
    have change := ThreadLists.countP_set Stage.early here new
    rw [streams, counter, List.length_set]
    cases step with
    | fetch_add =>
      rw [if_pos rfl, numbered.next_val few here]
      simp at change
      omega
    | _ =>
      rw [if_neg (by simp)]
      simp at change
      omega

theorem Numbered.step (numbered : Numbered s) (move : Enrolment s t)
    (few : s.streams.length < 2 ^ bits) : Numbered t := by
  obtain ⟨issued, grows⟩ := numbered.issued_step move few
  refine ⟨issued, ?_, ?_⟩
  · intro c k given
    rcases token_step move given with old | ⟨rfl, counter, here, _⟩
    · have := numbered.below c k old
      omega
    · rw [counter, numbered.next_val few here]
      omega
  · intro c c' k given given'
    rcases token_step move given with old | ⟨rfl, _, _, others⟩
    · rcases token_step move given' with old' | ⟨rfl, _⟩
      · exact numbered.alone c c' k old old'
      · have := numbered.below c _ old
        omega
    · by_contra apart
      have old' := (others c' (Ne.symm apart)) ▸ given'
      have := numbered.below c' _ old'
      omega

theorem numbered_run {history : List (State bits W R × Action bits W R)}
    (run : Run (reactor bits R) (initial : State bits W R) history s)
    (few : s.streams.length < 2 ^ bits) : Numbered s := by
  refine run.invariant (fun t => t.streams.length < 2 ^ bits → Numbered t) ?_
    (fun _ => numbered_initial) few
  intro t a ih h few
  have move := effect_enrolment h
  have fewer := Nat.lt_of_le_of_lt (length_le move) few
  exact (ih fewer).step move fewer

/-! ## The map -/

theorem stage_kept {seen? : Stage bits → Option (Token bits)} {c : Nat} {old new : Stage bits}
    (here : s.streams[c]? = some old) (streams : t.streams = s.streams.set c new)
    (same : seen? new = seen? old) (c' : Nat) : t.stage seen? c' = s.stage seen? c' := by
  unfold State.stage
  rw [streams, ThreadLists.bind_set_same _ here same]

/-- Only `insert` and `remove` touch the map and the set of live streams. -/
theorem map_step (h : enabled s a) :
    ((effect s a).sources = s.sources ∧
      ∀ c, (effect s a).stage Stage.live? c = s.stage Stage.live? c) ∨
    (∃ c k, s.streams[c]? = some (.registered k) ∧
      (effect s a).sources = Function.update s.sources k (some c) ∧
      ∀ c', (effect s a).stage Stage.live? c' =
        if c' = c then some k else s.stage Stage.live? c') ∨
    (∃ c k, a = .remove c k ∧ s.streams[c]? = some (.live k) ∧
      (effect s a).sources = Function.update s.sources (s.heap c).token none ∧
      ∀ c', (effect s a).stage Stage.live? c' =
        if c' = c then none else s.stage Stage.live? c') := by
  cases a with
  | register => exact Or.inl ⟨rfl, ThreadLists.bind_snoc _ _ rfl⟩
  | set_nonblocking c ok =>
    cases ok <;> exact Or.inl ⟨rfl, stage_kept h rfl rfl⟩
  | fetch_add c | deregister c k => exact Or.inl ⟨rfl, stage_kept h rfl rfl⟩
  | registry_register c k ok =>
    cases ok <;> exact Or.inl ⟨rfl, stage_kept h rfl rfl⟩
  | insert c k => exact Or.inr (Or.inl ⟨c, k, h.2, rfl, ThreadLists.bind_set _ h.2 _⟩)
  | remove c k => exact Or.inr (Or.inr ⟨c, k, rfl, h.2.1, rfl, ThreadLists.bind_set _ h.2.1 _⟩)
  | _ => exact Or.inl ⟨rfl, fun _ => rfl⟩

/-- A source gets its token when it is made, and is then put into the map. -/
theorem own_step (h : enabled s a) :
    ((∀ c, ((effect s a).heap c).token = (s.heap c).token) ∧
      ∀ c, (effect s a).stage Stage.inserted? c = s.stage Stage.inserted? c) ∨
    ∃ c k, (∀ c', ((effect s a).heap c').token = if c' = c then k else (s.heap c').token) ∧
      ∀ c', (effect s a).stage Stage.inserted? c' =
        if c' = c then some k else s.stage Stage.inserted? c' := by
  cases a with
  | register => exact Or.inl ⟨fun _ => rfl, ThreadLists.bind_snoc _ _ rfl⟩
  | set_nonblocking c ok => cases ok <;> exact Or.inl ⟨fun _ => rfl, stage_kept h rfl rfl⟩
  | fetch_add c | deregister c k => exact Or.inl ⟨fun _ => rfl, stage_kept h rfl rfl⟩
  | registry_register c k ok =>
    cases ok <;> exact Or.inl ⟨fun _ => rfl, stage_kept h rfl rfl⟩
  | remove c k => exact Or.inl ⟨fun _ => rfl, stage_kept h.2.1 rfl rfl⟩
  | insert c k =>
    refine Or.inr ⟨c, k, fun c' => ?_, ThreadLists.bind_set _ h.2 _⟩
    by_cases same : c' = c <;> simp [effect, State.setSource, State.setStage, Source.new, same]
  | take c event rest d | trigger c event rest d | store c d cx | clear_trigger c d cx =>
    -- one source is written, and keeps its token
    refine Or.inl ⟨fun _ => update_kept Source.token ?_, fun _ => rfl⟩
    rintro rfl
    simp [Source.clear_trigger]
  | _ => exact Or.inl ⟨fun _ => rfl, fun _ => rfl⟩

/-- Once shown, it is shown for ever. -/
structure Persistent (seen? : Stage bits → Option (Token bits)) : Prop where
  none_yet : seen? .started = none
  keeps : ∀ {counter k : Token bits} {old new : Stage bits}, Next counter old new →
    seen? old = some k → seen? new = some k

theorem Persistent.step {seen? : Stage bits → Option (Token bits)} (persistent : Persistent seen?)
    (move : Enrolment s t) {c : Nat} {k : Token bits} (given : s.stage seen? c = some k) :
    t.stage seen? c = some k := by
  rcases stage_step move seen? persistent.none_yet c with
    same | ⟨old, new, _, step, _, was, now, _⟩
  · rwa [same]
  · rw [was] at given
    rw [now]
    exact persistent.keeps step given

theorem Persistent.run {seen? : Stage bits → Option (Token bits)} (persistent : Persistent seen?)
    {history : List (State bits W R × Action bits W R)} (run : Run (reactor bits R) s history t)
    {c : Nat} {k : Token bits} (given : s.stage seen? c = some k) : t.stage seen? c = some k :=
  run.invariant (fun u => u.stage seen? c = some k)
    (fun _ _ given h => persistent.step (effect_enrolment h) given) given

theorem persistent_inserted : Persistent (@Stage.inserted? bits) where
  none_yet := rfl
  keeps := by
    intro _ _ _ _ step given
    cases step <;> first | exact given | cases given

theorem persistent_known : Persistent (@Stage.known? bits) where
  none_yet := rfl
  keeps := by
    intro _ _ _ _ step given
    cases step <;> first | exact given | cases given

theorem persistent_gone : Persistent (@Stage.gone? bits) where
  none_yet := rfl
  keeps := by
    intro _ _ _ _ step given
    cases step <;> first | exact given | cases given

/-- What the reactor has still to handle of its batch. -/
def events : Pc bits → List (Event bits)
  | .polling => []
  | .batch rest => rest
  | .found _ event rest _ _ => event :: rest

structure Sound (s : State bits W R) : Prop where
  own : ∀ c k, s.stage Stage.inserted? c = some k → (s.heap c).token = k
  mapped : ∀ k c, s.sources k = some c → s.stage Stage.live? c = some k
  finding : ∀ c event rest d taken, s.reactor = .found c event rest d taken →
    s.stage Stage.inserted? c = some event.token
  known : ∀ event ∈ events s.reactor, ∃ c, s.stage Stage.known? c = some event.token

theorem sound_initial : Sound (initial : State bits W R) where
  own := by simp [State.stage, initial]
  mapped := by simp [initial]
  finding := by simp [initial]
  known := by simp [initial, events]

theorem stage_imp {seen? seen'? : Stage bits → Option (Token bits)}
    (imp : ∀ stage k, seen? stage = some k → seen'? stage = some k) {c : Nat} {k : Token bits}
    (given : s.stage seen? c = some k) : s.stage seen'? c = some k := by
  obtain ⟨stage, here, shown⟩ := Option.bind_eq_some_iff.mp given
  exact Option.bind_eq_some_iff.mpr ⟨stage, here, imp stage k shown⟩

theorem inserted_of_live {c : Nat} {k : Token bits} (live : s.stage Stage.live? c = some k) :
    s.stage Stage.inserted? c = some k :=
  stage_imp (by intro stage k shown; cases stage <;> simp at shown ⊢; exact shown) live

theorem token_of_inserted {c : Nat} {k : Token bits}
    (inserted : s.stage Stage.inserted? c = some k) : s.stage Stage.token? c = some k :=
  stage_imp (by intro stage k shown; cases stage <;> simp at shown ⊢ <;> exact shown) inserted

theorem token_of_known {c : Nat} {k : Token bits} (known : s.stage Stage.known? c = some k) :
    s.stage Stage.token? c = some k :=
  stage_imp (by intro stage k shown; cases stage <;> simp at shown ⊢ <;> exact shown) known

theorem token_of_gone {c : Nat} {k : Token bits} (gone : s.stage Stage.gone? c = some k) :
    s.stage Stage.token? c = some k :=
  stage_imp (by intro stage k shown; cases stage <;> simp at shown ⊢ <;> exact shown) gone

theorem Sound.own_kept (sound : Sound s) (h : enabled s a) {c : Nat} {k : Token bits}
    (given : (effect s a).stage Stage.inserted? c = some k) :
    ((effect s a).heap c).token = k := by
  rcases own_step h with ⟨token, inserted⟩ | ⟨c', k', token, inserted⟩
  · rw [inserted] at given
    rw [token]
    exact sound.own c k given
  · rw [inserted] at given
    rw [token]
    by_cases same : c = c'
    · rw [if_pos same] at given ⊢
      exact Option.some.inj given
    · rw [if_neg same] at given ⊢
      exact sound.own c k given

theorem Sound.mapped_kept (sound : Sound s) (h : enabled s a) {c : Nat} {k : Token bits}
    (listed : (effect s a).sources k = some c) :
    (effect s a).stage Stage.live? c = some k := by
  rcases map_step h with ⟨sources, live⟩ | ⟨c', k', here, sources, live⟩ |
    ⟨c', k', _, here, sources, live⟩
  · rw [sources] at listed
    rw [live]
    exact sound.mapped k c listed
  · rw [sources] at listed
    rw [live]
    by_cases key : k = k'
    · subst key
      rw [Function.update_self] at listed
      rw [if_pos (Option.some.inj listed).symm]
    · rw [Function.update_of_ne key] at listed
      have old := sound.mapped k c listed
      have other : c ≠ c' := by
        rintro rfl
        simp [State.stage, here] at old
      rwa [if_neg other]
  · rw [sources] at listed
    rw [live]
    have own : (s.heap c').token = k' :=
      sound.own c' k' (by simp [State.stage, here])
    by_cases key : k = (s.heap c').token
    · rw [key, Function.update_self] at listed
      cases listed
    · rw [Function.update_of_ne key] at listed
      have old := sound.mapped k c listed
      have other : c ≠ c' := by
        rintro rfl
        simp [State.stage, here] at old
        exact key (own.trans old).symm
      rwa [if_neg other]

theorem Sound.finding_kept (sound : Sound s) (h : enabled s a) {c : Nat} {event : Event bits}
    {rest : List (Event bits)} {d : Direction} {taken : Bool}
    (there : (effect s a).reactor = .found c event rest d taken) :
    s.stage Stage.inserted? c = some event.token := by
  cases a with
  | poll events => cases there
  | done => cases there
  | lookup event' rest' =>
    cases found : s.sources event'.token with
    | none => simp [effect, found] at there
    | some c' =>
      simp only [effect, found, Pc.found.injEq] at there
      obtain ⟨rfl, rfl, _⟩ := there
      exact inserted_of_live (sound.mapped _ _ found)
  | take c' event' rest' d' =>
    obtain ⟨rfl, rfl, _⟩ := Pc.found.inj there
    exact sound.finding _ _ _ _ _ h
  | trigger c' event' rest' d' =>
    cases d' with
    | read =>
      obtain ⟨rfl, rfl, _⟩ := Pc.found.inj there
      exact sound.finding _ _ _ _ _ h
    | write => cases there
  | _ => exact sound.finding c event rest d taken there

/-- An event that is pending has been pending before, or is reported now. -/
theorem Sound.known_kept (sound : Sound s) (h : enabled s a) {event : Event bits}
    (pending : event ∈ events (effect s a).reactor) :
    ∃ c, s.stage Stage.known? c = some event.token := by
  cases a with
  | poll events => exact (h.2 event pending).1
  | done => cases pending
  | lookup event' rest' =>
    have listed : event ∈ event' :: rest' := by
      cases found : s.sources event'.token with
      | none => exact List.mem_cons_of_mem _ (by simpa [effect, found, events] using pending)
      | some c' => simpa [effect, found, events] using pending
    exact sound.known event (by rw [h.2]; exact listed)
  | take c' event' rest' d' =>
    apply sound.known event
    have here : s.reactor = .found c' event' rest' d' false := h
    rw [here]
    exact pending
  | trigger c' event' rest' d' =>
    apply sound.known event
    have here : s.reactor = .found c' event' rest' d' true := h
    rw [here]
    cases d' with
    | read => exact pending
    | write => exact List.mem_cons_of_mem _ pending
  | _ => exact sound.known event pending

theorem Sound.step (sound : Sound s) (h : enabled s a) : Sound (effect s a) := by
  have move := effect_enrolment h
  constructor
  · exact fun _ _ given => sound.own_kept h given
  · exact fun _ _ listed => sound.mapped_kept h listed
  · exact fun _ _ _ _ _ there => persistent_inserted.step move (sound.finding_kept h there)
  · intro event pending
    obtain ⟨c, given⟩ := sound.known_kept h pending
    exact ⟨c, persistent_known.step move given⟩

theorem sound_run {history : List (State bits W R × Action bits W R)}
    (run : Run (reactor bits R) (initial : State bits W R) history s) : Sound s :=
  run.invariant Sound (fun _ _ sound h => sound.step h) sound_initial

/-- Every live stream is in the map. -/
def Listed (s : State bits W R) : Prop :=
  ∀ c k, s.stage Stage.live? c = some k → s.sources k = some c

theorem Listed.step (listed : Listed s) (sound : Sound s) (numbered : Numbered s)
    (h : enabled s a) : Listed (effect s a) := by
  intro c k live
  have apart : ∀ {c' k'}, s.stage Stage.token? c' = some k' → c ≠ c' →
      s.stage Stage.live? c = some k → k ≠ k' := by
    rintro c' k' given other live rfl
    exact other (numbered.alone c c' k (token_of_inserted (inserted_of_live live)) given)
  rcases map_step h with ⟨sources, kept⟩ | ⟨c', k', here, sources, changed⟩ |
    ⟨c', k', _, here, sources, changed⟩
  · rw [kept] at live
    rw [sources]
    exact listed c k live
  · rw [changed] at live
    rw [sources]
    by_cases same : c = c'
    · rw [if_pos same] at live
      rw [same, Option.some.inj live, Function.update_self]
    · rw [if_neg same] at live
      rw [Function.update_of_ne (apart (by simp [State.stage, here]) same live)]
      exact listed c k live
  · rw [changed] at live
    rw [sources, sound.own c' k' (by simp [State.stage, here])]
    by_cases same : c = c'
    · rw [if_pos same] at live
      cases live
    · rw [if_neg same] at live
      rw [Function.update_of_ne (apart (by simp [State.stage, here]) same live)]
      exact listed c k live

theorem listed_run {history : List (State bits W R × Action bits W R)}
    (run : Run (reactor bits R) (initial : State bits W R) history s)
    (few : s.streams.length < 2 ^ bits) : Listed s := by
  refine run.history_invariant (fun _ t => t.streams.length < 2 ^ bits → Listed t) ?_ ?_ few
  · intro _ c k live
    simp [State.stage, initial] at live
  · intro past t a before ih h few
    have fewer := Nat.lt_of_le_of_lt (length_le (effect_enrolment h)) few
    exact (ih fewer).step (sound_run before) (numbered_run before fewer) h

theorem live_iff {c : Nat} {k : Token bits} :
    s.stage Stage.live? c = some k ↔ s.streams[c]? = some (.live k) := by
  constructor
  · intro live
    obtain ⟨stage, here, shown⟩ := Option.bind_eq_some_iff.mp live
    cases stage <;> simp at shown
    rw [here, shown]
  · intro here
    simp [State.stage, here]

theorem length_le_run {history : List (State bits W R × Action bits W R)}
    (run : Run (reactor bits R) s history t) : s.streams.length ≤ t.streams.length :=
  run.invariant (fun u => s.streams.length ≤ u.streams.length)
    (fun _ _ grown h => Nat.le_trans grown (length_le (effect_enrolment h))) (Nat.le_refl _)

/-- A registration that fails has not put anything into the map. -/
theorem failed_never_inserts {history : List (State bits W R × Action bits W R)}
    (run : Run (reactor bits R) initial history s) {c : Nat} (failed : s.streams[c]? = some .failed)
    {p : State bits W R × Action bits W R} (taken : p ∈ history) (own : p.2.registers c) :
    (effect p.1 p.2).sources = p.1.sources := by
  obtain ⟨before, after, _, _, h, rest⟩ := run.split taken
  obtain ⟨u, a⟩ := p
  cases a with
  | insert c' k =>
    obtain rfl : c' = c := own
    have inserted : (effect u (.insert c' k)).stage Stage.inserted? c' = some k := by
      change ((u.streams.set c' (.live k))[c']?).bind Stage.inserted? = some k
      rw [ThreadLists.bind_set _ h.2, if_pos rfl]
      rfl
    have still := persistent_inserted.run rest inserted
    simp [State.stage, failed] at still
  | set_nonblocking c' ok | fetch_add c' | registry_register c' k ok => rfl
  | _ => exact own.elim

/-- An event of a dropped stream finds no source, or that stream's own. -/
theorem stale_event {event : Event bits} {c : Nat} (sound : Sound s) (numbered : Numbered s)
    (h : enabled s a) (handles : a.handles event)
    (gone : s.stage Stage.gone? c = some event.token) {c' : Nat} (other : c' ≠ c) :
    (effect s a).heap c' = s.heap c' := by
  cases a with
  | lookup event' rest => rfl
  | take c₁ event' rest d | trigger c₁ event' rest d =>
    obtain rfl : event' = event := handles
    have found := token_of_inserted (sound.finding _ _ _ _ _ h)
    obtain rfl := numbered.alone _ _ _ found (token_of_gone gone)
    exact Function.update_of_ne other _ _
  | _ => exact handles.elim

/-- In every run with fewer calls of `register` than tokens the map holds the
live streams under their own tokens; failed and dropped streams leave no trace. -/
theorem sources_exact {history : List (State bits W R × Action bits W R)}
    (run : Run (reactor bits R) initial history s) (few : s.streams.length < 2 ^ bits) :
    (∀ k c, s.sources k = some c ↔ s.streams[c]? = some (.live k)) ∧
    (∀ k c, s.sources k = some c → (s.heap c).token = k) ∧
    (∀ c c' k, s.stage Stage.token? c = some k → s.stage Stage.token? c' = some k → c = c') ∧
    (∀ c : Nat, s.streams[c]? = some .failed → ∀ p ∈ history, p.2.registers c →
      (effect p.1 p.2).sources = p.1.sources) ∧
    (∀ p ∈ history, ∀ event c, p.2.handles event → p.1.stage Stage.gone? c = some event.token →
      ∀ c', c' ≠ c → (effect p.1 p.2).heap c' = p.1.heap c') := by
  have sound := sound_run run
  have numbered := numbered_run run few
  have listed := listed_run run few
  refine ⟨?_, ?_, numbered.alone, ?_, ?_⟩
  · intro k c
    rw [← live_iff]
    exact ⟨sound.mapped k c, listed c k⟩
  · exact fun k c found => sound.own c k (inserted_of_live (sound.mapped k c found))
  · exact fun c failed p taken own => failed_never_inserts run failed taken own
  · intro p taken event c handles gone c' other
    obtain ⟨before, after, _, first, h, rest⟩ := run.split taken
    have fewer : p.1.streams.length < 2 ^ bits :=
      Nat.lt_of_le_of_lt (Nat.le_trans (length_le (effect_enrolment h)) (length_le_run rest)) few
    exact stale_event (sound_run first) (numbered_run first fewer) h handles gone other

/-- One stream is registered. -/
def enrol : List (Action 64 Nat Nat) :=
  [.register, .set_nonblocking 0 true, .fetch_add 0, .registry_register 0 Token.zero true,
    .insert 0 Token.zero]

def readable : Event 64 where
  token := Token.zero
  is_readable := true
  is_writable := false
  edge _ := 0

/-- After it a second registration fails and a third succeeds; then the first
stream is dropped before the loop comes to its event. -/
def turnover : List (Action 64 Nat Nat) :=
  enrol ++ [.register, .set_nonblocking 1 true, .fetch_add 1,
    .registry_register 1 Token.zero.next false, .register, .set_nonblocking 2 true, .fetch_add 2,
    .registry_register 2 Token.zero.next.next true, .insert 2 Token.zero.next.next,
    .poll [readable], .remove 0 Token.zero, .deregister 0 Token.zero, .lookup readable [], .done]

theorem turnover_legal : Legal (reactor 64 Nat) (initial : State 64 Nat Nat) turnover := by
  refine ⟨trivial, rfl, rfl, rfl, ⟨rfl, rfl⟩, trivial, rfl, rfl, rfl, trivial, rfl, rfl, rfl,
    ⟨rfl, rfl⟩, ⟨rfl, ?_⟩, ⟨rfl, rfl, fun d => rfl⟩, rfl, ⟨rfl, rfl⟩, ⟨rfl, rfl⟩, trivial⟩
  intro event listed
  obtain rfl := List.mem_singleton.mp listed
  exact ⟨⟨0, rfl⟩, fun _ => Nat.zero_le _⟩

/-- The third stream is all that the map holds, and no source has been written. -/
theorem sources_exact_turnover :
    let s : State 64 Nat Nat := final (reactor 64 Nat) initial turnover
    let history := transitions (reactor 64 Nat) (initial : State 64 Nat Nat) turnover
    s.streams = [.dropped Token.zero, .failed, .live Token.zero.next.next] ∧
      (∀ k c, s.sources k = some c ↔ c = 2 ∧ k = Token.zero.next.next) ∧
      (s.heap 2).token = Token.zero.next.next ∧
      (∀ p ∈ history, p.2.registers 1 → (effect p.1 p.2).sources = p.1.sources) ∧
      ∀ p ∈ history, p.2.handles readable → p.1.stage Stage.gone? 0 = some Token.zero →
        ∀ c, c ≠ 0 → (effect p.1 p.2).heap c = p.1.heap c := by
  intro s history
  have streams : s.streams = [.dropped Token.zero, .failed, .live Token.zero.next.next] := rfl
  obtain ⟨mapped, own, _, failed, stale⟩ :=
    sources_exact (run_of_legal turnover turnover_legal) (show 3 < 2 ^ 64 by decide)
  have third : ∀ k c, s.sources k = some c ↔ c = 2 ∧ k = Token.zero.next.next := by
    intro k c
    rw [mapped k c, show final _ _ _ = s from rfl, streams]
    rcases c with _ | _ | _ | c <;> simp [eq_comm]
  exact ⟨streams, third, own _ _ ((third _ _).mpr ⟨rfl, rfl⟩), failed 1 rfl,
    fun p hp handles gone => stale p hp readable 0 handles gone⟩

end ReactorRegistry
