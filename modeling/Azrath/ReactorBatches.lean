import Azrath.ErrorTypes
import Azrath.ReactorModel
import Mathlib.Data.List.Induction
import Mathlib.Data.List.Nodup
import Mathlib.Data.List.Perm.Basic

/-!
# One batch of events

`Shared::poll` as one step, and `Shared::run` around it. The other threads have
their turns between two polls. A mutex may be poisoned here, and a batch that
meets one is left in the middle, with its wakers still in the buffer of the loop.
-/

namespace ReactorBatches

open ErrorTypes GuardedRuns ReactorModel

universe u
variable {bits : Nat} {W X : Type u}

structure Shared (bits : Nat) (W : Type u) where
  sources : Token bits → Option Nat
  sources_poisoned : Bool
  heap : Nat → Source bits W
  /-- The interest mutex of this source is poisoned. -/
  poisoned : Nat → Bool

inductive Effect (W : Type u) where
  | store (c : Nat) (d : Direction)
  | wake (waker : W)

/-- The reactor thread with the buffer of `run`; `trace` is what it has done. -/
structure Loop (bits : Nat) (W : Type u) extends Shared bits W where
  wakers : List W
  trace : List (Effect W)

namespace Loop

/-- The body of one `if`: the waker is taken and the flag is stored. -/
def touch (l : Loop bits W) (p : Nat × Direction) : Loop bits W :=
  let source := l.heap p.1
  { l with
    heap := Function.update l.heap p.1
      { source with
        interest := Function.update source.interest p.2 none
        triggered := Function.update source.triggered p.2 true }
    wakers := l.wakers ++ (source.interest p.2).toList
    trace := l.trace ++ [.store p.1 p.2] }

def direction (l : Loop bits W) (c : Nat) (event : Event bits) (d : Direction) : Loop bits W :=
  if event.ready d then l.touch (c, d) else l

/-- One turn of the loop of `poll` over the events. -/
def event (l : Loop bits W) (event : Event bits) : Loop bits W × Except (ReactorError X) Unit :=
  if l.sources_poisoned then (l, .error .lockPoisoned)
  else
    match l.sources event.token with
    | none => (l, .ok ())
    | some c =>
      if l.poisoned c then (l, .error .lockPoisoned)
      else ((l.direction c event .read).direction c event .write, .ok ())

def events (l : Loop bits W) : List (Event bits) → Loop bits W × Except (ReactorError X) Unit
  | [] => (l, .ok ())
  | event :: rest =>
    match l.event event with
    | (l, .error err) => (l, .error err)
    | (l, .ok ()) => l.events rest

def drain (l : Loop bits W) : Loop bits W :=
  { l with wakers := [], trace := l.trace ++ l.wakers.map .wake }

/-- `Shared::poll`, by what the selector returns. -/
def poll (l : Loop bits W) :
    Except (IoError X) (List (Event bits)) → Loop bits W × Except (ReactorError X) Unit
  | .error err =>
    if err.kind ≠ .interrupted then (l, .error (.polling err)) else (l, .ok ())
  | .ok batch =>
    match l.events batch with
    | (l, .error err) => (l, .error err)
    | (l, .ok ()) => (l.drain, .ok ())

end Loop

/-! ## The positions of a batch -/

/-- The waker of a position. -/
def Shared.slot (s : Shared bits W) (p : Nat × Direction) : Option W := (s.heap p.1).interest p.2

/-- An event of the batch is ready for this position. -/
def Hit (sources : Token bits → Option Nat) (batch : List (Event bits)) (p : Nat × Direction) :
    Prop :=
  ∃ event ∈ batch, sources event.token = some p.1 ∧ event.ready p.2 = true

/-- The positions in the order in which they are touched. -/
def positions (sources : Token bits → Option Nat) (batch : List (Event bits)) :
    List (Nat × Direction) :=
  batch.flatMap fun event =>
    match sources event.token with
    | none => []
    | some c => ([.read, .write].filter event.ready).map (c, ·)

variable {sources : Token bits → Option Nat} {batch : List (Event bits)}

theorem mem_positions {p : Nat × Direction} :
    p ∈ positions sources batch ↔ Hit sources batch p := by
  obtain ⟨c, d⟩ := p
  simp only [positions, Hit, List.mem_flatMap]
  refine exists_congr fun event => and_congr_right fun _ => ?_
  cases sources event.token with
  | none => simp
  | some c' => cases d <;> simp [and_comm]

variable {l : Loop bits W}

namespace Loop

theorem touch_heap_of_ne {c : Nat} {p : Nat × Direction} (other : c ≠ p.1) :
    (l.touch p).heap c = l.heap c :=
  Function.update_of_ne other _ _

@[simp] theorem touch_token (c : Nat) (p : Nat × Direction) :
    ((l.touch p).heap c).token = (l.heap c).token := by
  by_cases same : c = p.1
  · simp [touch, same]
  · rw [touch_heap_of_ne same]

theorem touch_triggered (p q : Nat × Direction) :
    ((l.touch p).heap q.1).triggered q.2 = true ↔
      (l.heap q.1).triggered q.2 = true ∨ q = p := by
  obtain ⟨c, d⟩ := q
  by_cases same : c = p.1
  · subst same
    by_cases d = p.2 <;> simp_all [touch, Prod.ext_iff]
  · rw [touch_heap_of_ne same]
    simp [Prod.ext_iff, same]

theorem touch_slot (p q : Nat × Direction) :
    (l.touch p).slot q = if q = p then none else l.slot q := by
  obtain ⟨c, d⟩ := q
  by_cases same : c = p.1
  · subst same
    by_cases d = p.2 <;> simp_all [touch, Shared.slot, Prod.ext_iff]
  · simp [Shared.slot, touch_heap_of_ne same, Prod.ext_iff, same]

end Loop

/-! ## A batch without a poisoned mutex -/

/-- The state after some positions have been touched. -/
structure Touched (l : Loop bits W) (ps : List (Nat × Direction)) (l' : Loop bits W) : Prop where
  sources : l'.sources = l.sources
  sources_poisoned : l'.sources_poisoned = l.sources_poisoned
  poisoned : l'.poisoned = l.poisoned
  token : ∀ c, (l'.heap c).token = (l.heap c).token
  triggered : ∀ p : Nat × Direction, (l'.heap p.1).triggered p.2 = true ↔
    (l.heap p.1).triggered p.2 = true ∨ p ∈ ps
  slot : ∀ p, l'.slot p = if p ∈ ps then none else l.slot p
  trace : l'.trace = l.trace ++ ps.map fun p => .store p.1 p.2
  /-- Every waker is taken at its first touch. -/
  wakers : ∃ once : List (Nat × Direction), once.Nodup ∧ (∀ p, p ∈ once ↔ p ∈ ps) ∧
    l'.wakers = l.wakers ++ once.filterMap l.slot

theorem touched_foldl (l : Loop bits W) (ps : List (Nat × Direction)) :
    Touched l ps (ps.foldl Loop.touch l) := by
  induction ps using List.reverseRecOn with
  | nil =>
    constructor
    case wakers => exact ⟨[], List.nodup_nil, fun _ => Iff.rfl, (List.append_nil _).symm⟩
    all_goals simp
  | append_singleton ps p ih =>
    obtain ⟨once, nodup, same, wakers⟩ := ih.wakers
    rw [List.foldl_append]
    constructor
    · exact ih.sources
    · exact ih.sources_poisoned
    · exact ih.poisoned
    · simp [ih.token]
    · simp [Loop.touch_triggered, ih.triggered, or_assoc]
    · intro q
      simp only [List.foldl_cons, List.foldl_nil, Loop.touch_slot, ih.slot, List.mem_append,
        List.mem_singleton]
      by_cases q = p <;> simp [*]
    · simp [Loop.touch, ih.trace]
    · have pushed : ((ps ++ [p]).foldl Loop.touch l).wakers =
          l.wakers ++ once.filterMap l.slot ++ (if p ∈ ps then none else l.slot p).toList := by
        rw [List.foldl_append, ← wakers, ← ih.slot]
        rfl
      rw [List.foldl_append] at pushed
      rw [pushed]
      by_cases again : p ∈ ps
      · refine ⟨once, nodup, fun q => ?_, by simp [again]⟩
        rw [same, List.mem_append, List.mem_singleton]
        exact ⟨Or.inl, fun h => h.elim id fun e => e ▸ again⟩
      · refine ⟨once ++ [p], ?_, by simp [same], ?_⟩
        · rw [← List.concat_eq_append]
          exact nodup.concat fun listed => again ((same p).mp listed)
        · cases slot : l.slot p <;> simp [again, slot]

/-- The event does not meet a poisoned interest mutex. -/
def Shared.Sound (s : Shared bits W) (event : Event bits) : Prop :=
  ∀ c, s.sources event.token = some c → s.poisoned c = false

instance (s : Shared bits W) (event : Event bits) : Decidable (s.Sound event) :=
  match found : s.sources event.token with
  | none => isTrue fun c here => by cases found.symm.trans here
  | some c =>
    if bad : s.poisoned c then isFalse fun sound => by simp [sound c found] at bad
    else isTrue fun c' here => by
      cases found.symm.trans here
      simpa using bad

namespace Loop

theorem event_of_sound (healthy : l.sources_poisoned = false) {event : Event bits}
    (sound : l.Sound event) :
    l.event (X := X) event = ((positions l.sources [event]).foldl touch l, .ok ()) := by
  unfold Loop.event positions
  cases found : l.sources event.token with
  | none => simp [healthy, found]
  | some c =>
    cases read : event.ready .read <;> cases write : event.ready .write <;>
      simp [healthy, found, sound c found, direction, read, write]

theorem event_of_not_sound (healthy : l.sources_poisoned = false) {event : Event bits}
    (bad : ¬ l.Sound event) : l.event (X := X) event = (l, .error .lockPoisoned) := by
  unfold Loop.event
  cases found : l.sources event.token with
  | none => exact absurd (fun c here => by cases found.symm.trans here) bad
  | some c =>
    cases poisoned : l.poisoned c with
    | true => simp [healthy, poisoned]
    | false =>
      refine absurd (fun c' here => ?_) bad
      cases found.symm.trans here
      exact poisoned

/-- The first events are handled as if they were alone. -/
theorem events_append (healthy : l.sources_poisoned = false) {before : List (Event bits)}
    (sound : ∀ event ∈ before, l.Sound event) (rest : List (Event bits)) :
    l.events (X := X) (before ++ rest) =
      ((positions l.sources before).foldl touch l).events rest := by
  induction before generalizing l with
  | nil => rfl
  | cons event before ih =>
    have step := event_of_sound (X := X) healthy (sound event List.mem_cons_self)
    have touched := touched_foldl l (positions l.sources [event])
    have sound' : ∀ event' ∈ before,
        ((positions l.sources [event]).foldl touch l).Sound event' := by
      intro event' listed c found
      rw [touched.sources] at found
      rw [touched.poisoned]
      exact sound event' (List.mem_cons_of_mem _ listed) c found
    have split : positions l.sources (event :: before) =
        positions l.sources [event] ++ positions l.sources before := by
      simp [positions]
    rw [List.cons_append, events, step, split, List.foldl_append]
    have next := ih (touched.sources_poisoned.trans healthy) sound'
    rw [touched.sources] at next
    exact next

theorem events_of_sound (healthy : l.sources_poisoned = false)
    (sound : ∀ event ∈ batch, l.Sound event) :
    l.events (X := X) batch = ((positions l.sources batch).foldl touch l, .ok ()) := by
  have all := events_append (X := X) healthy sound []
  rw [List.append_nil] at all
  exact all

theorem events_of_bad (healthy : l.sources_poisoned = false) {before after : List (Event bits)}
    {bad : Event bits} (sound : ∀ event ∈ before, l.Sound event) (met : ¬ l.Sound bad) :
    l.events (X := X) (before ++ bad :: after) =
      ((positions l.sources before).foldl touch l, .error .lockPoisoned) := by
  have touched := touched_foldl l (positions l.sources before)
  have met' : ¬ ((positions l.sources before).foldl touch l).Sound bad := by
    intro sound
    refine met fun c found => ?_
    rw [← touched.sources] at found
    rw [← touched.poisoned]
    exact sound c found
  rw [events_append healthy sound, events,
    event_of_not_sound (touched.sources_poisoned.trans healthy) met']

end Loop

theorem source_eq {source source' : Source bits W} (interest : source.interest = source'.interest)
    (triggered : ∀ d, source.triggered d = true ↔ source'.triggered d = true)
    (token : source.token = source'.token) : source = source' := by
  obtain ⟨_, triggered₁, _⟩ := source
  obtain ⟨_, triggered₂, _⟩ := source'
  obtain rfl : triggered₁ = triggered₂ := funext fun d => Bool.eq_iff_iff.mpr (triggered d)
  cases interest
  cases token
  rfl

section Touched

variable {ps qs : List (Nat × Direction)} {l₁ l₂ : Loop bits W}

theorem Touched.untouched (touched : Touched l ps l₁) {c : Nat} (free : ∀ d, (c, d) ∉ ps) :
    l₁.heap c = l.heap c := by
  apply source_eq
  · funext d
    exact (touched.slot (c, d)).trans (if_neg (free d))
  · intro d
    rw [touched.triggered (c, d), or_iff_left (free d)]
  · exact touched.token c

/-- Only which positions have been touched matters, not how often or in which order. -/
theorem Touched.shared_eq (first : Touched l ps l₁) (second : Touched l qs l₂)
    (same : ∀ p, p ∈ ps ↔ p ∈ qs) : l₁.toShared = l₂.toShared := by
  have heap : l₁.heap = l₂.heap := by
    funext c
    apply source_eq
    · funext d
      have slots := (first.slot (c, d)).trans
        ((if_congr (same (c, d)) rfl rfl).trans (second.slot (c, d)).symm)
      exact slots
    · intro d
      rw [first.triggered (c, d), second.triggered (c, d), same]
    · exact (first.token c).trans (second.token c).symm
  have sources := first.sources.trans second.sources.symm
  have sources_poisoned := first.sources_poisoned.trans second.sources_poisoned.symm
  have poisoned := first.poisoned.trans second.poisoned.symm
  obtain ⟨⟨⟩⟩ := l₁
  obtain ⟨⟨⟩⟩ := l₂
  cases heap
  cases sources
  cases sources_poisoned
  cases poisoned
  rfl

theorem Touched.wakers_perm (first : Touched l ps l₁) (second : Touched l qs l₂)
    (same : ∀ p, p ∈ ps ↔ p ∈ qs) : l₁.wakers.Perm l₂.wakers := by
  obtain ⟨once, nodup, mem, wakers⟩ := first.wakers
  obtain ⟨once', nodup', mem', wakers'⟩ := second.wakers
  have perm : once.Perm once' :=
    (List.perm_ext_iff_of_nodup nodup nodup').mpr fun p => by rw [mem, mem', same]
  rw [wakers, wakers']
  exact (perm.filterMap l.slot).append_left _

end Touched

def woken (trace : List (Effect W)) : List W :=
  trace.filterMap fun
    | .wake waker => some waker
    | .store _ _ => none

theorem Touched.drain_trace {ps : List (Nat × Direction)} {l' : Loop bits W}
    (touched : Touched l ps l') :
    l'.drain.trace =
      l.trace ++ ((ps.map fun p => .store p.1 p.2) ++ l'.wakers.map .wake) := by
  rw [← List.append_assoc, ← touched.trace]
  rfl

theorem Touched.woken_drain {ps : List (Nat × Direction)} {l' : Loop bits W}
    (touched : Touched l ps l') : woken l'.drain.trace = woken l.trace ++ l'.wakers := by
  rw [touched.drain_trace]
  simp [woken, List.filterMap_map]

/-- What a batch has done when all of it was handled. -/
structure Dispatched (l : Loop bits W) (batch : List (Event bits)) (l' : Loop bits W) : Prop where
  triggered : ∀ c d, (l'.heap c).triggered d = true ↔
    (l.heap c).triggered d = true ∨ Hit l.sources batch (c, d)
  taken : ∀ c d, Hit l.sources batch (c, d) → (l'.heap c).interest d = none
  kept : ∀ c d, ¬ Hit l.sources batch (c, d) → (l'.heap c).interest d = (l.heap c).interest d
  untouched : ∀ c, (∀ event ∈ batch, l.sources event.token ≠ some c) → l'.heap c = l.heap c
  sources : l'.sources = l.sources
  wakers : l'.wakers = []
  /-- First all flags, and then each waker of a position that was hit, once. -/
  trace : ∃ stored once : List (Nat × Direction),
    (∀ p, p ∈ stored ↔ Hit l.sources batch p) ∧
    once.Nodup ∧ (∀ p, p ∈ once ↔ Hit l.sources batch p) ∧
    l'.trace = l.trace ++ (stored.map fun p => .store p.1 p.2) ++
      (once.filterMap l.slot).map .wake

theorem poll_of_sound (healthy : l.sources_poisoned = false)
    (sound : ∀ event ∈ batch, l.Sound event) :
    l.poll (X := X) (.ok batch) =
      (((positions l.sources batch).foldl Loop.touch l).drain, .ok ()) := by
  simp [Loop.poll, Loop.events_of_sound healthy sound]

theorem dispatched_of_touched {l' : Loop bits W} (empty : l.wakers = [])
    (touched : Touched l (positions l.sources batch) l') : Dispatched l batch l'.drain := by
  obtain ⟨once, nodup, mem, wakers⟩ := touched.wakers
  constructor
  · intro c d
    rw [← mem_positions]
    exact touched.triggered (c, d)
  · intro c d hit
    exact (touched.slot (c, d)).trans (if_pos (mem_positions.mpr hit))
  · intro c d quiet
    exact (touched.slot (c, d)).trans (if_neg fun listed => quiet (mem_positions.mp listed))
  · intro c quiet
    refine touched.untouched fun d listed => ?_
    obtain ⟨event, in_batch, found, _⟩ := mem_positions.mp listed
    exact quiet event in_batch found
  · exact touched.sources
  · rfl
  · refine ⟨positions l.sources batch, once, fun _ => mem_positions, nodup, ?_, ?_⟩
    · exact fun p => (mem p).trans mem_positions
    · rw [empty, List.nil_append] at wakers
      rw [touched.drain_trace, wakers, List.append_assoc]

/-- Without a poisoned mutex the whole batch is dispatched, in whatever order it comes. -/
theorem poll_dispatches (l : Loop bits W) (batch : List (Event bits))
    (sources_healthy : l.sources_poisoned = false) (healthy : ∀ c, l.poisoned c = false)
    (empty : l.wakers = []) :
    ∃ l', l.poll (X := X) (.ok batch) = (l', .ok ()) ∧ Dispatched l batch l' ∧
      ∀ batch', batch'.Perm batch → ∃ l'', l.poll (X := X) (.ok batch') = (l'', .ok ()) ∧
        l''.toShared = l'.toShared ∧ l''.wakers = l'.wakers ∧
        (woken l''.trace).Perm (woken l'.trace) := by
  have sound : ∀ batch : List (Event bits), ∀ event ∈ batch, l.Sound event :=
    fun _ _ _ c _ => healthy c
  have touched := fun batch => touched_foldl l (positions l.sources batch)
  refine ⟨_, poll_of_sound sources_healthy (sound batch),
    dispatched_of_touched empty (touched batch), fun batch' perm => ?_⟩
  have same : ∀ p, p ∈ positions l.sources batch' ↔ p ∈ positions l.sources batch := by
    intro p
    simp only [mem_positions, Hit, perm.mem_iff]
  have shared := (touched batch').shared_eq (touched batch) same
  refine ⟨_, poll_of_sound sources_healthy (sound batch'), shared, rfl, ?_⟩
  rw [(touched batch').woken_drain, (touched batch).woken_drain]
  exact ((touched batch').wakers_perm (touched batch) same).append_left _

/-- Three connections, and a reader that waits on the first of them. -/
def connected (poisoned : Nat → Bool) : Loop 2 Nat where
  sources token := if token.val < 3 then some token.val else none
  sources_poisoned := false
  heap c :=
    { interest := fun d => if c = 0 ∧ d = .read then some 7 else none
      triggered := fun _ => false
      token := ⟨c % 2 ^ 2, Nat.mod_lt c (by decide)⟩ }
  poisoned := poisoned
  wakers := []
  trace := []

def readable (token : Token 2) : Event 2 := ⟨token, true, false, fun _ => 0⟩

theorem poll_dispatches_repeated :
    ∃ l', (connected fun _ => false).poll (X := Empty) (.ok [readable 0, readable 3, readable 0]) =
        (l', .ok ()) ∧
      (l'.heap 0).triggered .read = true ∧ l'.wakers = [] := by
  obtain ⟨l', result, dispatched, _⟩ := poll_dispatches (X := Empty) (connected fun _ => false)
    [readable 0, readable 3, readable 0] rfl (fun _ => rfl) rfl
  refine ⟨l', result, (dispatched.triggered 0 .read).mpr (Or.inr ?_), dispatched.wakers⟩
  exact ⟨readable 0, List.mem_cons_self, rfl, rfl⟩

/-! ## A poisoned mutex in the middle -/

/-- The first event of a batch that meets a poisoned mutex. -/
theorem first_bad (s : Shared bits W) (batch : List (Event bits)) :
    (∀ event ∈ batch, s.Sound event) ∨
      ∃ before bad after, batch = before ++ bad :: after ∧
        (∀ event ∈ before, s.Sound event) ∧ ¬ s.Sound bad := by
  induction batch with
  | nil => exact Or.inl fun _ listed => absurd listed List.not_mem_nil
  | cons event rest ih =>
    by_cases sound : s.Sound event
    · rcases ih with all | ⟨before, bad, after, rfl, all, met⟩
      · exact Or.inl (List.forall_mem_cons.mpr ⟨sound, all⟩)
      · exact Or.inr ⟨event :: before, bad, after, rfl, List.forall_mem_cons.mpr ⟨sound, all⟩, met⟩
    · exact Or.inr ⟨[], event, rest, rfl, fun _ listed => absurd listed List.not_mem_nil, sound⟩

/-- Every event of a healthy source has set its flags, and every waker that was
taken from a healthy source has been woken. -/
structure Handled (l : Loop bits W) (batch : List (Event bits)) (l' : Loop bits W) : Prop where
  flags : ∀ event ∈ batch, ∀ c, l.sources event.token = some c → l.poisoned c = false →
    ∀ d, event.ready d = true → (l'.heap c).triggered d = true
  wakes : ∀ c d waker, l.poisoned c = false → (l.heap c).interest d = some waker →
    (l'.heap c).interest d = none → ∃ new, l'.trace = l.trace ++ new ∧ .wake waker ∈ new

/-- Before the first event that meets a poisoned mutex no waker is taken, and the
events after it have nothing new for a healthy source. -/
def Spared (s : Shared bits W) (batch : List (Event bits)) : Prop :=
  ∀ before bad after, batch = before ++ bad :: after → (∀ event ∈ before, s.Sound event) →
    ¬ s.Sound bad →
    (∀ p, Hit s.sources before p → s.slot p = none) ∧
    ∀ event ∈ after, ∀ c, s.sources event.token = some c → s.poisoned c = false →
      ∀ d, event.ready d = true → (s.heap c).triggered d = true ∨ Hit s.sources before (c, d)

theorem poll_of_bad (healthy : l.sources_poisoned = false) {before after : List (Event bits)}
    {bad : Event bits} (sound : ∀ event ∈ before, l.Sound event) (met : ¬ l.Sound bad) :
    l.poll (X := X) (.ok (before ++ bad :: after)) =
      ((positions l.sources before).foldl Loop.touch l, .error .lockPoisoned) := by
  simp [Loop.poll, Loop.events_of_bad healthy sound met]

/-- A position that is empty now was empty before, or it has been touched. -/
theorem Touched.hit_of_taken {l' : Loop bits W}
    (touched : Touched l (positions l.sources batch) l') {p : Nat × Direction} {waker : W}
    (full : l.slot p = some waker) (empty : l'.slot p = none) : Hit l.sources batch p := by
  rw [touched.slot] at empty
  by_cases listed : p ∈ positions l.sources batch
  · exact mem_positions.mp listed
  · rw [if_neg listed, full] at empty
    cases empty

theorem handled_of_sound (healthy : l.sources_poisoned = false)
    (sound : ∀ event ∈ batch, l.Sound event) :
    Handled l batch (l.poll (X := X) (.ok batch)).1 := by
  have touched := touched_foldl l (positions l.sources batch)
  obtain ⟨once, _, mem, wakers⟩ := touched.wakers
  rw [poll_of_sound healthy sound]
  constructor
  · intro event listed c found _ d ready
    exact (touched.triggered (c, d)).mpr (Or.inr (mem_positions.mpr ⟨event, listed, found, ready⟩))
  · intro c d waker _ full empty
    have hit : Hit l.sources batch (c, d) := touched.hit_of_taken full empty
    have taken : waker ∈ ((positions l.sources batch).foldl Loop.touch l).wakers := by
      rw [wakers, List.mem_append, List.mem_filterMap]
      exact Or.inr ⟨(c, d), (mem _).mpr (mem_positions.mpr hit), full⟩
    exact ⟨_, touched.drain_trace, List.mem_append_right _ (List.mem_map_of_mem taken)⟩

/-- The rest of the batch is cleared, and the wakers of its front stay where they are. -/
theorem handled_of_bad_iff (healthy : l.sources_poisoned = false)
    {before after : List (Event bits)} {bad : Event bits}
    (sound : ∀ event ∈ before, l.Sound event) (met : ¬ l.Sound bad) :
    Handled l (before ++ bad :: after) (l.poll (X := X) (.ok (before ++ bad :: after))).1 ↔
      (∀ p, Hit l.sources before p → l.slot p = none) ∧
      ∀ event ∈ after, ∀ c, l.sources event.token = some c → l.poisoned c = false →
        ∀ d, event.ready d = true →
          (l.heap c).triggered d = true ∨ Hit l.sources before (c, d) := by
  have touched := touched_foldl l (positions l.sources before)
  rw [poll_of_bad healthy sound met]
  constructor
  · intro handled
    constructor
    · rintro ⟨c, d⟩ hit
      cases full : l.slot (c, d) with
      | none => rfl
      | some waker =>
        have empty := (touched.slot (c, d)).trans (if_pos (mem_positions.mpr hit))
        obtain ⟨event, listed, found, _⟩ := hit
        obtain ⟨new, trace, wake⟩ := handled.wakes c d waker (sound event listed c found) full empty
        obtain rfl := List.append_cancel_left (touched.trace.symm.trans trace)
        simp at wake
    · intro event listed c found well d ready
      have flag := handled.flags event
        (List.mem_append_right _ (List.mem_cons_of_mem _ listed)) c found well d ready
      rwa [touched.triggered (c, d), mem_positions] at flag
  · rintro ⟨slots, flags⟩
    constructor
    · intro event listed c found well d ready
      rw [touched.triggered (c, d), mem_positions]
      rcases List.mem_append.mp listed with front | back
      · exact Or.inr ⟨event, front, found, ready⟩
      · rcases List.mem_cons.mp back with rfl | back
        · refine absurd (fun c' found' => ?_) met
          cases found.symm.trans found'
          exact well
        · exact flags event back c found well d ready
    · intro c d waker _ full empty
      cases (slots (c, d) (touched.hit_of_taken full empty)).symm.trans full

theorem handled_iff (healthy : l.sources_poisoned = false) :
    Handled l batch (l.poll (X := X) (.ok batch)).1 ↔ Spared l.toShared batch := by
  constructor
  · rintro handled before bad after rfl sound met
    exact (handled_of_bad_iff healthy sound met).mp handled
  · intro spared
    rcases first_bad l.toShared batch with sound | ⟨before, bad, after, rfl, sound, met⟩
    · exact handled_of_sound healthy sound
    · exact (handled_of_bad_iff healthy sound met).mpr (spared before bad after rfl sound met)

/-! ## The loop of `run` -/

/-- The other threads change what is shared; the loop polls, whatever comes of
it, and clears the events. -/
inductive Turn (bits : Nat) (W X : Type u) where
  | others (shared : Shared bits W)
  | iterate (polled : Except (IoError X) (List (Event bits)))

/-- `Shared::run`, as long as the mutex of `sources` is not poisoned. Nobody else
has a turn within a batch, so what is shared is what it was when the selector
returned; the steps of a batch among those of others are `ReactorModel`'s. -/
def run (bits : Nat) (W X : Type u) : System (Loop bits W) (Turn bits W X) where
  enabled _
    | .others shared => shared.sources_poisoned = false
    | .iterate _ => True
  effect l
    | .others shared => { l with toShared := shared }
    | .iterate polled => (l.poll polled).1

variable {l t : Loop bits W} {history : List (Loop bits W × Turn bits W X)}

/-- Without a batch nothing happens, whether the error is reported or not. -/
theorem poll_error (err : IoError X) : (l.poll (.error err)).1 = l := by
  rw [Loop.poll]
  split <;> rfl

theorem poll_sources_poisoned (healthy : l.sources_poisoned = false)
    (polled : Except (IoError X) (List (Event bits))) :
    (l.poll polled).1.sources_poisoned = false := by
  cases polled with
  | error err =>
    rw [poll_error]
    exact healthy
  | ok batch =>
    rcases first_bad l.toShared batch with sound | ⟨before, bad, after, rfl, sound, met⟩
    · rw [poll_of_sound healthy sound]
      exact (touched_foldl l _).sources_poisoned.trans healthy
    · rw [poll_of_bad healthy sound met]
      exact (touched_foldl l _).sources_poisoned.trans healthy

theorem poll_wakers (healthy : l.sources_poisoned = false) (empty : l.wakers = [])
    {polled : Except (IoError X) (List (Event bits))}
    (spared : ∀ batch, polled = .ok batch → Spared l.toShared batch) :
    (l.poll polled).1.wakers = [] := by
  cases polled with
  | error err =>
    rw [poll_error]
    exact empty
  | ok batch =>
    rcases first_bad l.toShared batch with sound | ⟨before, bad, after, rfl, sound, met⟩
    · rw [poll_of_sound healthy sound]
      rfl
    · obtain ⟨once, _, mem, wakers⟩ := (touched_foldl l (positions l.sources before)).wakers
      have slots := (spared _ rfl before bad after rfl sound met).1
      rw [poll_of_bad healthy sound met, wakers, empty, List.nil_append, List.filterMap_eq_nil_iff]
      exact fun p listed => slots p (mem_positions.mp ((mem p).mp listed))

theorem run_sources_healthy (go : Run (run bits W X) l history t)
    (healthy : l.sources_poisoned = false) : t.sources_poisoned = false := by
  refine go.invariant (fun t => t.sources_poisoned = false) (fun t turn old enabled => ?_) healthy
  cases turn with
  | others shared => exact enabled
  | iterate polled => exact poll_sources_poisoned old polled

/-- The condition under which a poll does not lose anything. -/
def SparedTurn (p : Loop bits W × Turn bits W X) : Prop :=
  ∀ batch, p.2 = .iterate (.ok batch) → Spared p.1.toShared batch

/-- A batch is handled exactly when the poisoned mutex spares it; and while that
is so, no waker is left in the buffer when the loop blocks again. -/
theorem handled_iff_spared (healthy : l.sources_poisoned = false) (empty : l.wakers = [])
    (go : Run (run bits W X) l history t) :
    (∀ p ∈ history, ∀ batch, p.2 = .iterate (.ok batch) →
      (Handled p.1 batch (p.1.poll (X := X) (.ok batch)).1 ↔ Spared p.1.toShared batch)) ∧
    ((∀ p ∈ history, SparedTurn p) → t.wakers = []) := by
  constructor
  · intro p listed batch _
    obtain ⟨before, _, _, front, _⟩ := go.split listed
    exact handled_iff (run_sources_healthy front healthy)
  · intro spared
    refine (go.invariant_of (fun l turn => SparedTurn (l, turn))
      (fun t => t.sources_poisoned = false ∧ t.wakers = []) ?_ spared ⟨healthy, empty⟩).2
    rintro t (shared | polled) ok ⟨healthy, empty⟩ enabled
    · exact ⟨enabled, empty⟩
    · refine ⟨poll_sources_poisoned healthy polled, poll_wakers healthy empty ?_⟩
      rintro batch rfl
      exact ok batch rfl

/-- The poisoned connection comes between two events of a third, which nobody
waits for. -/
theorem handled_iff_spared_between :
    let l := connected fun c => c == 1
    let batch := [readable 2, readable 1, readable 2]
    let l' := (l.poll (X := Nat) (.ok batch)).1
    Spared l.toShared batch ∧ Handled l batch l' ∧ (l'.heap 2).triggered .read = true := by
  intro l batch l'
  have go := Run.single (M := run 2 Nat Nat) (s := l) (a := .iterate (.ok batch)) trivial
  have iff := (handled_iff_spared rfl rfl go).1 _ (List.mem_singleton_self _) batch rfl
  have spared : Spared l.toShared [readable 2, readable 1, readable 2] := by
    rintro (_ | ⟨first, _ | ⟨second, before⟩⟩) bad after split sound met
    · cases split
      exact absurd (by decide) met
    · cases split
      constructor
      · rintro ⟨c, d⟩ ⟨event, listed, found, _⟩
        obtain rfl := List.mem_singleton.mp listed
        cases found
        rfl
      · intro event listed c found _ d ready
        obtain rfl := List.mem_singleton.mp listed
        exact Or.inr ⟨_, List.mem_singleton_self _, found, ready⟩
    · obtain ⟨rfl, rest⟩ := List.cons.inj split
      obtain ⟨rfl, _⟩ := List.cons.inj rest
      have met : l.Sound (readable 1) := sound _ (List.mem_cons_of_mem _ List.mem_cons_self)
      exact absurd met (by decide)
  have handled := iff.mpr spared
  exact ⟨spared, handled, handled.flags (readable 2) List.mem_cons_self 2 rfl rfl .read rfl⟩

/-- The second of three connections is poisoned: the reader on the first is not
woken, not even by the next poll, and the third does not learn of its event. -/
theorem poisoned_loses_others :
    let l := connected fun c => c == 1
    let batch := [readable 0, readable 1, readable 2]
    ∃ t, Run (run 2 Nat Nat) l
        (transitions (run 2 Nat Nat) l
          [.iterate (.ok batch), .iterate (.error ⟨.interrupted, 4⟩)]) t ∧
      woken t.trace = [] ∧ t.wakers = [7] ∧ (t.heap 0).interest .read = none ∧
      (t.heap 2).triggered .read = false ∧
      ¬ Handled l batch (l.poll (X := Nat) (.ok batch)).1 := by
  intro l batch
  refine ⟨_, run_of_legal _ ⟨trivial, trivial, trivial⟩, rfl, rfl, rfl, rfl, fun handled => ?_⟩
  have flag := handled.flags (readable 2) (by simp [batch]) 2 rfl rfl .read rfl
  cases flag

/-! ## The same batch step by step -/

section Alone

variable {R : Type u} {K : Type*} [Waker W K]
variable {l : Loop bits W} {s : State bits W R} {event : Event bits} {rest : List (Event bits)}

/-- The two models show the same registry, sources and wakers. -/
structure Shows (l : Loop bits W) (s : State bits W R) : Prop where
  sources : l.sources = s.sources
  heap : l.heap = s.heap
  wakers : l.wakers = s.wakers
  sources_healthy : l.sources_poisoned = false
  healthy : ∀ c, l.poisoned c = false

/-- What the reactor thread does to others in one of its actions. -/
def acted : State bits W R × Action bits W R → List (Effect W)
  | (_, .trigger c event _ d) => if event.ready d then [.store c d] else []
  | (_, .wake waker _) => [.wake waker]
  | _ => []

/-- The reactor thread alone comes to `pc` and does what is added to the trace. -/
def Alone (s : State bits W R) (l l' : Loop bits W) (pc : Pc bits) : Prop :=
  ∃ history t, Run (reactor bits R) s history t ∧ l'.trace = l.trace ++ history.flatMap acted ∧
    Shows l' t ∧ t.lock = none ∧ t.reactor = pc

theorem Alone.trans {l₁ l₂ : Loop bits W} {pc pc' : Pc bits} (first : Alone s l l₁ pc)
    (second : ∀ t : State bits W R, Shows l₁ t → t.lock = none → t.reactor = pc →
      Alone t l₁ l₂ pc') : Alone s l l₂ pc' := by
  obtain ⟨history, t, run, trace, shown, unlocked, there⟩ := first
  obtain ⟨history', u, run', trace', rest⟩ := second t shown unlocked there
  refine ⟨_, u, run.append run', ?_, rest⟩
  rw [trace', trace, List.flatMap_append, List.append_assoc]

/-- One action of the thread. -/
theorem Alone.single {l' : Loop bits W} {pc : Pc bits} (a : Action bits W R) (h : enabled s a)
    (trace : l'.trace = l.trace ++ acted (s, a)) (shown : Shows l' (effect s a))
    (unlocked : (effect s a).lock = none) (there : (effect s a).reactor = pc) :
    Alone s l l' pc :=
  ⟨_, _, Run.single (M := reactor bits R) h, by simpa using trace, shown, unlocked, there⟩

theorem alone_direction (shown : Shows l s) (unlocked : s.lock = none) {c : Nat} {d : Direction}
    (here : s.reactor = .found c event rest d false) :
    Alone s l (l.direction c event d) (Pc.after c event rest d) := by
  have take := Run.single (M := reactor bits R) (s := s) (a := .take c event rest d) here
  have trigger := Run.single (M := reactor bits R)
    (s := (reactor bits R).effect s (.take c event rest d)) (a := .trigger c event rest d) rfl
  obtain ⟨sources, heap, wakers, sources_healthy, healthy⟩ := shown
  refine ⟨_, _, take.append trigger, ?_, ?_, unlocked, rfl⟩
  · cases ready : event.ready d <;> simp [Loop.direction, Loop.touch, acted, ready]
  · cases ready : event.ready d <;> constructor <;>
      simp [Loop.direction, Loop.touch, reactor, effect, State.setSource, Source.take,
        Source.trigger, Source.taken, ready, sources, heap, wakers, sources_healthy, healthy]

theorem alone_event (shown : Shows l s) (unlocked : s.lock = none)
    (here : s.reactor = .batch (event :: rest)) :
    Alone s l (l.event (X := X) event).1 (.batch rest) := by
  have after : Shows l (effect s (.lookup event rest)) := by
    obtain ⟨sources, heap, wakers, sources_healthy, healthy⟩ := shown
    exact ⟨sources, heap, wakers, sources_healthy, healthy⟩
  have lookup : ∀ pc, (effect s (.lookup event rest)).reactor = pc → Alone s l l pc :=
    fun pc => Alone.single _ ⟨unlocked, here⟩ (List.append_nil _).symm after unlocked
  cases found : l.sources event.token with
  | none =>
    have unknown : (l.event (X := X) event).1 = l := by
      simp [Loop.event, shown.sources_healthy, found]
    rw [shown.sources] at found
    rw [unknown]
    exact lookup _ (by simp [effect, found])
  | some c =>
    have known : (l.event (X := X) event).1 =
        (l.direction c event .read).direction c event .write := by
      simp [Loop.event, shown.sources_healthy, shown.healthy, found]
    rw [shown.sources] at found
    rw [known]
    have start := lookup (.found c event rest .read false) (by simp [effect, found])
    have read := start.trans fun _ shown unlocked there => alone_direction shown unlocked there
    exact read.trans fun _ shown unlocked there => alone_direction shown unlocked there

theorem alone_events (shown : Shows l s) (unlocked : s.lock = none)
    (here : s.reactor = .batch batch) : Alone s l (l.events (X := X) batch).1 (.batch []) := by
  induction batch generalizing l s with
  | nil => exact ⟨[], s, .nil, (List.append_nil _).symm, shown, unlocked, here⟩
  | cons event rest ih =>
    have first := alone_event (X := X) shown unlocked here
    have sound : l.Sound event := fun c _ => shown.healthy c
    have step := Loop.event_of_sound (X := X) shown.sources_healthy sound
    rw [Loop.events, step]
    rw [step] at first
    exact first.trans fun _ shown unlocked there => ih shown unlocked there

theorem alone_drain (shown : Shows l s) (unlocked : s.lock = none)
    (here : s.reactor = .batch []) : Alone s l l.drain .polling := by
  induction pending : l.wakers generalizing l s with
  | nil =>
    have none_left := shown.wakers.symm.trans pending
    obtain ⟨sources, heap, wakers, sources_healthy, healthy⟩ := shown
    refine Alone.single .done ⟨here, none_left⟩ ?_ ?_ unlocked rfl
    · simp [Loop.drain, acted, pending]
    · exact ⟨sources, heap, none_left.symm, sources_healthy, healthy⟩
  | cons waker rest ih =>
    have here' := shown.wakers.symm.trans pending
    obtain ⟨sources, heap, wakers, sources_healthy, healthy⟩ := shown
    let next : Loop bits W := { l with wakers := rest, trace := l.trace ++ [.wake waker] }
    have wake : Alone s l next (.batch []) :=
      Alone.single (.wake waker rest) ⟨here, here'⟩ rfl
        ⟨sources, heap, rfl, sources_healthy, healthy⟩ unlocked here
    have same : l.drain = next.drain := by simp [Loop.drain, next, pending]
    rw [same]
    exact wake.trans fun _ shown unlocked there => ih shown unlocked there rfl

/-- `Shared::poll` is what the reactor thread does while nobody else moves. -/
theorem alone_poll (shown : Shows l s) (unlocked : s.lock = none)
    (here : s.reactor = .batch batch) : Alone s l (l.poll (X := X) (.ok batch)).1 .polling := by
  have sound : ∀ event ∈ batch, l.Sound event := fun _ _ c _ => shown.healthy c
  have events := alone_events (X := X) shown unlocked here
  rw [poll_of_sound shown.sources_healthy sound]
  rw [Loop.events_of_sound shown.sources_healthy sound] at events
  exact events.trans fun _ shown unlocked there => alone_drain shown unlocked there

end Alone

end ReactorBatches
