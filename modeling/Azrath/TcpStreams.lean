import Azrath.ByteReaders
import Azrath.ErrorTypes
import Azrath.ReactorReadiness
import Azrath.RunLedgers
import Azrath.Simulations
import Mathlib.Algebra.GroupWithZero.Nat

/-!
# `TcpStream` as `AsyncRead` and `AsyncWrite`

Any number of streams are read from and written to beside the reactor. A call
runs its operation where the reactor's model has an `attempt`; all other steps
are the reactor's own. The buffer of a call belongs to the caller, so what
`poll_read` does with it after the operation is part of the same step.
-/

namespace TcpStreams

open GuardedRuns ByteReaders ErrorTypes ReactorModel ReactorReadiness Simulations

universe u v
variable {bits : Nat} {W : Type u} {K : Type v} {E : Type u} [Waker W K]
variable {B H : Type u}

/-- tokio's `ReadBuf`: behind the filled part there is room for `remaining`
bytes. `write` is what somebody writes into the slice that `initialize_unfilled`
has returned; `none` is a panic. -/
class ReadBuf (B : Type u) where
  filled : B → Bytes
  remaining : B → Nat
  initialize_unfilled : B → Bytes
  length_unfilled : ∀ buf, (initialize_unfilled buf).length = remaining buf
  write : (buf : B) → (data : Bytes) → data.length = remaining buf → B
  advance : B → Nat → Option B
  filled_write : ∀ buf data same, filled (write buf data same) = filled buf
  advance_write : ∀ buf data same n, n ≤ remaining buf → ∃ buf',
    advance (write buf data same) n = some buf' ∧ filled buf' = filled buf ++ data.take n ∧
      remaining buf' = remaining buf - n

/-- The `f` of a call on the write direction. -/
inductive Writing where
  | write (buf : Bytes)
  | flush

/-- What an operation returns: a number of bytes, and 0 for the `()` of a flush. -/
abbrev Answer (E : Type u) := Except (IoError E) Nat

/-- `sys` is the reading half of each stream, `sent` what its writing half has
accepted. A call keeps what it was given. -/
structure Streams (bits : Nat) (W E B H : Type u) where
  reactor : State bits W (Answer E)
  sys : Nat → H
  sent : Nat → Bytes
  reading : Nat → Option B
  writing : Nat → Writing
  panicked : Bool

def initial (sys : Nat → H) : Streams bits W E B H where
  reactor := ReactorModel.initial
  sys := sys
  sent _ := []
  reading _ := none
  writing _ := .flush
  panicked := false

/-- `others` is a step of the reactor's model that begins no call and runs no
operation. The system's answer to a write or a flush is given. -/
inductive Step (bits : Nat) (W E B : Type u) where
  | others (a : Action bits W (Answer E))
  | poll_read (c : Nat) (cx : W) (buf : B)
  | read (c : Nat) (cx : W) (buf : B)
  | poll_write (c : Nat) (cx : W) (buf : Bytes)
  | poll_flush (c : Nat) (cx : W)
  | write (c : Nat) (cx : W) (answer : Answer E)

/-- `match f()`: `WouldBlock` is no value. -/
def value : Answer E → Option (Answer E)
  | .error err => if err.kind = .wouldBlock then none else some (.error err)
  | .ok n => some (.ok n)

def Others : Action bits W (Answer E) → Prop
  | .start _ _ _ | .attempt _ _ _ _ => False
  | _ => True

/-- What the system may answer: at most all bytes are accepted. -/
def Writing.takes : Writing → Answer E → Prop
  | .write buf, .ok n => n ≤ buf.length
  | .flush, .ok n => n = 0
  | _, .error _ => True

/-- The bytes that have been accepted. -/
def Writing.accepted : Writing → Answer E → Bytes
  | .write buf, .ok n => buf.take n
  | _, _ => []

variable [ReadBuf B]

/-- `poll_read` from the operation on: the socket writes into the unfilled part,
and `advance` adds what it has written to the filled part. -/
def readInto (reader : Reader H (IoError E)) (h : H) (buf : B) : H × Option B × Answer E :=
  let out := reader.read h (ReadBuf.initialize_unfilled buf)
  let written := ReadBuf.write buf out.buf
    ((reader.length_eq _ _).trans (ReadBuf.length_unfilled buf))
  match out.result with
  | .ok n => (out.reader, ReadBuf.advance written n, .ok n)
  | .error err => (out.reader, some written, .error err)

def action (reader : Reader H (IoError E)) (s : Streams bits W E B H) :
    Step bits W E B → Action bits W (Answer E)
  | .others a => a
  | .poll_read c cx _ => .start c .read cx
  | .read c cx buf => .attempt c .read cx (value (readInto reader (s.sys c) buf).2.2)
  | .poll_write c cx _ | .poll_flush c cx => .start c .write cx
  | .write c cx answer => .attempt c .write cx (value answer)

def streams (reader : Reader H (IoError E)) :
    System (Streams bits W E B H) (Step bits W E B) where
  enabled s step :=
    enabled s.reactor (action reader s step) ∧
      match step with
      | .others a => Others a
      | .read c _ buf => s.reading c = some buf
      | .write c _ answer => (s.writing c).takes answer
      | _ => True
  effect s step :=
    let next := { s with reactor := effect s.reactor (action reader s step) }
    match step with
    | .others _ => next
    | .poll_read c _ buf => { next with reading := Function.update s.reading c (some buf) }
    | .read c _ buf =>
      let (h, buf, _) := readInto reader (s.sys c) buf
      { next with
        sys := Function.update s.sys c h
        reading := Function.update s.reading c buf
        panicked := s.panicked || buf.isNone }
    | .poll_write c _ buf => { next with writing := Function.update s.writing c (.write buf) }
    | .poll_flush c _ => { next with writing := Function.update s.writing c .flush }
    | .write c _ answer =>
      { next with
        sent := Function.update s.sent c (s.sent c ++ (s.writing c).accepted answer) }

variable {reader : Reader H (IoError E)} {s t : Streams bits W E B H} {c : Nat}
variable {a : Step bits W E B} {history : List (Streams bits W E B H × Step bits W E B)}

theorem effect_reactor (s : Streams bits W E B H) (a : Step bits W E B) :
    ((streams reader).effect s a).reactor = effect s.reactor (action reader s a) := by
  cases a <;> rfl

/-- Without the bytes this is the reactor, and whatever holds along its runs
holds here. -/
def toReactor (reader : Reader H (IoError E)) :
    Simulation (streams reader : System (Streams bits W E B H) (Step bits W E B))
      (reactor bits (Answer E) : System (State bits W (Answer E)) _) where
  Inv _ := True
  view := Streams.reactor
  label := action reader
  keeps _ _ := trivial
  able _ h := h.1
  step _ _ := effect_reactor _ _

/-- What a call on one direction of a stream returns in the step from `s` to `t`,
if it returns a value then. -/
def answered (c : Nat) (d : Direction) (s t : Streams bits W E B H) : Option (Answer E) :=
  if (s.reactor.calls c d).finished then none
  else
    match t.reactor.calls c d with
    | .ready val => some val
    | _ => none

/-- A call gets ready with what its operation has returned, and in no other way. -/
theorem ready_iff {u : State bits W (Answer E)} {b : Action bits W (Answer E)} {d : Direction}
    {val : Answer E} (h : enabled u b) :
    (u.calls c d).finished = false ∧ (effect u b).calls c d = .ready val ↔
      ∃ cx, b = .attempt c d cx (some val) := by
  constructor
  · rintro ⟨unfinished, ready⟩
    by_cases on : On c d b
    · cases b with
      | start c' d' cx | store c' d' cx | clear_trigger c' d' cx =>
        obtain ⟨rfl, rfl⟩ := on
        cases ready.symm.trans setCall_self
      | check c' d' cx | recheck c' d' cx =>
        obtain ⟨rfl, rfl⟩ := on
        cases flag : (u.heap c').triggered d' <;> simp [effect, flag, setCall_self] at ready
      | attempt c' d' cx val' =>
        obtain ⟨rfl, rfl⟩ := on
        have attempted : Call.attempted cx val' = .ready val := setCall_self.symm.trans ready
        cases val' with
        | none => cases attempted
        | some val' =>
          cases attempted
          exact ⟨cx, rfl⟩
      | _ => exact on.elim
    · rw [call_kept on] at ready
      rw [ready] at unfinished
      cases unfinished
  · rintro ⟨cx, rfl⟩
    have attempting : u.calls c d = .attempting cx := h
    exact ⟨by rw [attempting]; rfl, setCall_self⟩

theorem answered_iff {d : Direction} {val : Answer E} (h : (streams reader).enabled s a) :
    answered c d s ((streams reader).effect s a) = some val ↔
      ∃ cx, action reader s a = .attempt c d cx (some val) := by
  rw [← ready_iff h.1, ← effect_reactor, answered]
  cases (s.reactor.calls c d).finished with
  | true => simp
  | false => cases ((streams reader).effect s a).reactor.calls c d <;> simp

/-- The operations are run by these two steps. -/
theorem step_of_attempt {d : Direction} {cx : W} {val : Option (Answer E)}
    (h : (streams reader).enabled s a) (runs : action reader s a = .attempt c d cx val) :
    (d = .read ∧ ∃ buf, a = .read c cx buf) ∨ (d = .write ∧ ∃ answer, a = .write c cx answer) := by
  cases a with
  | others b =>
    have others : Others b := h.2
    rw [show b = _ from runs] at others
    exact others.elim
  | read c' cx' buf =>
    obtain ⟨rfl, rfl, rfl, _⟩ := Action.attempt.inj runs
    exact Or.inl ⟨rfl, buf, rfl⟩
  | write c' cx' answer =>
    obtain ⟨rfl, rfl, rfl, _⟩ := Action.attempt.inj runs
    exact Or.inr ⟨rfl, answer, rfl⟩
  | _ => cases runs

/-- No other step ends a call of `poll_read`. -/
theorem unanswered_read (h : (streams reader).enabled s a)
    (other : ∀ cx buf, a ≠ .read c cx buf) :
    answered c .read s ((streams reader).effect s a) = none := by
  rw [Option.eq_none_iff_forall_ne_some]
  intro val tells
  obtain ⟨cx, runs⟩ := (answered_iff h).mp tells
  rcases step_of_attempt h runs with ⟨_, buf, read⟩ | ⟨⟨⟩, _⟩
  exact other cx buf read

theorem unanswered_write (h : (streams reader).enabled s a)
    (other : ∀ cx answer, a ≠ .write c cx answer) :
    answered c .write s ((streams reader).effect s a) = none := by
  rw [Option.eq_none_iff_forall_ne_some]
  intro val tells
  obtain ⟨cx, runs⟩ := (answered_iff h).mp tells
  rcases step_of_attempt h runs with ⟨⟨⟩, _⟩ | ⟨_, answer, write⟩
  exact other cx answer write

/-! ## Reading -/

/-- No call of `poll_read` panics, and it changes the filled part only at its end. -/
inductive ReadInto (reader : Reader H (IoError E)) (h : H) (buf : B) : Prop where
  | filled {out : Outcome H (IoError E)} {buf' : B} {n : Nat}
    (call : reader.read h (ReadBuf.initialize_unfilled buf) = out) (result : out.result = .ok n)
    (into : readInto reader h buf = (out.reader, some buf', .ok n))
    (grown : ReadBuf.filled buf' = ReadBuf.filled buf ++ out.delivered)
  | failed {out : Outcome H (IoError E)} {buf' : B} {err : IoError E}
    (call : reader.read h (ReadBuf.initialize_unfilled buf) = out)
    (result : out.result = .error err)
    (into : readInto reader h buf = (out.reader, some buf', .error err))
    (same : ReadBuf.filled buf' = ReadBuf.filled buf)

theorem readInto_cases (reader : Reader H (IoError E)) (h : H) (buf : B) :
    ReadInto reader h buf := by
  cases result : (reader.read h (ReadBuf.initialize_unfilled buf)).result with
  | ok n =>
    have fits := reader.count_le _ _ n result
    rw [ReadBuf.length_unfilled] at fits
    obtain ⟨buf', advanced, grown, _⟩ := ReadBuf.advance_write buf _
      ((reader.length_eq h _).trans (ReadBuf.length_unfilled buf)) n fits
    have into : readInto reader h buf =
        ((reader.read h (ReadBuf.initialize_unfilled buf)).reader, some buf', .ok n) := by
      rw [readInto]
      simp only [result, advanced]
    refine .filled rfl result into ?_
    rw [grown, Outcome.delivered_ok result]
  | error err =>
    have same := (reader.length_eq h _).trans (ReadBuf.length_unfilled buf)
    refine .failed rfl result ?_ (ReadBuf.filled_write buf _ same)
    rw [readInto]
    simp only [result]

/-- The filled part of the buffer that the call on the read direction has. -/
def filledPart (s : Streams bits W E B H) (c : Nat) : Bytes :=
  ((s.reading c).map ReadBuf.filled).getD []

/-- What a step of `poll_read` returns to the caller: an error, or the bytes by
which the filled part has grown when it returns `Ok`. -/
def returned (reader : Reader H (IoError E)) (c : Nat)
    (p : Streams bits W E B H × Step bits W E B) : List (Except (IoError E) UInt8) :=
  let t := (streams reader).effect p.1 p.2
  match answered c .read p.1 t with
  | some (.ok _) => ((filledPart t c).drop (filledPart p.1 c).length).map .ok
  | some (.error err) => [.error err]
  | none => []

/-- The slices that the socket was given to read into, in order. -/
def reads (c : Nat) (history : List (Streams bits W E B H × Step bits W E B)) : List Bytes :=
  history.filterMap fun p =>
    match p.2 with
    | .read c' _ buf => if c' = c then some (ReadBuf.initialize_unfilled buf) else none
    | _ => none

/-- What a read of the socket has to say to the caller: `WouldBlock` is nothing. -/
def unblocked (out : Outcome H (IoError E)) : List (Except (IoError E) UInt8) :=
  match out.result with
  | .ok _ => out.delivered.map .ok
  | .error err => if err.kind = .wouldBlock then [] else [.error err]

theorem returned_ok {n : Nat}
    (tells : answered c .read s ((streams reader).effect s a) = some (.ok n)) :
    returned reader c (s, a) =
      ((filledPart ((streams reader).effect s a) c).drop (filledPart s c).length).map .ok := by
  simp only [returned, tells]

theorem returned_error {err : IoError E}
    (tells : answered c .read s ((streams reader).effect s a) = some (.error err)) :
    returned reader c (s, a) = [.error err] := by
  simp only [returned, tells]

theorem returned_pending (silent : answered c .read s ((streams reader).effect s a) = none) :
    returned reader c (s, a) = [] := by
  simp only [returned, silent]

/-- What the step of a read comes to, by what the socket has answered. -/
inductive Read (reader : Reader H (IoError E)) (c : Nat) (s : Streams bits W E B H) (buf : B)
    (t : Streams bits W E B H) (out : Outcome H (IoError E)) : Prop where
  | filled {n : Nat} (result : out.result = .ok n) (tells : answered c .read s t = some (.ok n))
    (grown : filledPart t c = ReadBuf.filled buf ++ out.delivered)
  | failed {err : IoError E} (result : out.result = .error err) (fatal : err.kind ≠ .wouldBlock)
    (tells : answered c .read s t = some (.error err)) (same : filledPart t c = ReadBuf.filled buf)
  | blocked {err : IoError E} (result : out.result = .error err) (nothing : err.kind = .wouldBlock)
    (silent : answered c .read s t = none) (same : filledPart t c = ReadBuf.filled buf)

theorem read_step {cx : W} {buf : B} (h : (streams reader).enabled s (.read c cx buf)) :
    let t := (streams reader).effect s (.read c cx buf)
    let out := reader.read (s.sys c) (ReadBuf.initialize_unfilled buf)
    Read reader c s buf t out ∧ filledPart s c = ReadBuf.filled buf ∧ t.sys c = out.reader ∧
      t.panicked = s.panicked := by
  intro t out
  have given : s.reading c = some buf := h.2
  have before : filledPart s c = ReadBuf.filled buf := by simp [filledPart, given]
  have answers : ∀ val, answered c .read s t = some val ↔
      value (readInto reader (s.sys c) buf).2.2 = some val := by
    intro val
    rw [answered_iff h, action]
    simp
  rcases readInto_cases reader (s.sys c) buf with
    ⟨call, result, into, grown⟩ | ⟨call, result, into, same⟩
  · subst call
    have after : t.sys c = out.reader ∧ t.panicked = s.panicked := by simp [t, streams, into, out]
    refine ⟨.filled result ((answers _).mpr (by rw [into]; rfl)) ?_, before, after⟩
    rw [← grown]
    simp [t, filledPart, streams, into]
  · rename_i err
    subst call
    have after : t.sys c = out.reader ∧ t.panicked = s.panicked := by simp [t, streams, into, out]
    have kept : filledPart t c = ReadBuf.filled buf := by
      rw [← same]
      simp [t, filledPart, streams, into]
    refine ⟨?_, before, after⟩
    by_cases blocked : err.kind = .wouldBlock
    · have silent : answered c .read s t = none := by
        rw [Option.eq_none_iff_forall_ne_some]
        intro val tells
        have := (answers val).mp tells
        simp [into, value, blocked] at this
      exact .blocked result blocked silent kept
    · exact .failed result blocked ((answers _).mpr (by simp [into, value, blocked])) kept

/-- What one step returns to the caller is what it reads from the socket. -/
theorem returned_step (h : (streams reader).enabled s a) (c : Nat) :
    returned reader c (s, a) =
        (reader.outcomes (s.sys c) (reads c [(s, a)])).flatMap unblocked ∧
      ((streams reader).effect s a).sys c = reader.afterReads (s.sys c) (reads c [(s, a)]) := by
  by_cases here : ∃ cx buf, a = .read c cx buf
  · obtain ⟨cx, buf, rfl⟩ := here
    have slice : reads c [(s, (.read c cx buf : Step bits W E B))] =
        [ReadBuf.initialize_unfilled buf] := by simp [reads]
    obtain ⟨read, before, sys, _⟩ := read_step h
    rw [slice]
    refine ⟨?_, sys⟩
    simp only [Reader.outcomes, List.flatMap_singleton]
    cases read with
    | filled result tells grown =>
      rw [returned_ok tells, before, grown, List.drop_left, unblocked, result]
    | failed result fatal tells same =>
      rw [returned_error tells]
      simp [unblocked, result, fatal]
    | blocked result nothing silent same =>
      rw [returned_pending silent]
      simp [unblocked, result, nothing]
  · have other : ∀ cx buf, a ≠ .read c cx buf := fun cx buf same => here ⟨cx, buf, same⟩
    rw [returned_pending (unanswered_read h other)]
    cases a with
    | read c' cx buf =>
      have apart : c' ≠ c := by
        rintro rfl
        exact other _ _ rfl
      simp [reads, apart, Reader.outcomes, Reader.afterReads, streams, Ne.symm apart]
    | _ => exact ⟨rfl, rfl⟩

theorem panicked_step (h : (streams reader).enabled s a) :
    ((streams reader).effect s a).panicked = s.panicked := by
  cases a with
  | read c cx buf => exact (read_step h).2.2.2
  | _ => rfl

/-- A buffer is filled by a call that returns `Ok` only. -/
theorem filledPart_kept (h : (streams reader).enabled s a)
    (old : ∀ cx buf, a ≠ .poll_read c cx buf)
    (no_ok : ∀ n, answered c .read s ((streams reader).effect s a) ≠ some (.ok n)) :
    filledPart ((streams reader).effect s a) c = filledPart s c := by
  cases a with
  | poll_read c' cx buf =>
    have apart : c ≠ c' := by
      rintro rfl
      exact old _ _ rfl
    simp [filledPart, streams, apart]
  | read c' cx buf =>
    by_cases same : c' = c
    · subst same
      obtain ⟨read, before, _⟩ := read_step h
      cases read with
      | filled result tells grown => exact absurd tells (no_ok _)
      | failed result fatal tells same => exact same.trans before.symm
      | blocked result nothing silent same => exact same.trans before.symm
    · simp [filledPart, streams, Ne.symm same]
  | _ => rfl

/-- A call that gave room for bytes and got none, and no error, is at the end of
file. -/
theorem eof_of_nothing {n : Nat} {buf : B} (h : (streams reader).enabled s a)
    (tells : answered c .read s ((streams reader).effect s a) = some (.ok n))
    (given : s.reading c = some buf) (room : 0 < ReadBuf.remaining buf)
    (nothing : returned reader c (s, a) = []) : ReadBuf.initialize_unfilled buf ≠ [] ∧
      (reader.read (s.sys c) (ReadBuf.initialize_unfilled buf)).result = .ok 0 := by
  rw [← ReadBuf.length_unfilled] at room
  refine ⟨List.length_pos_iff.mp room, ?_⟩
  by_cases here : ∃ cx buf', a = .read c cx buf'
  · obtain ⟨cx, buf', rfl⟩ := here
    obtain rfl : buf' = buf := Option.some.inj (h.2.symm.trans given)
    obtain ⟨read, before, _⟩ := read_step h
    cases read with
    | @filled m result tells' grown =>
      rw [returned_ok tells', before, grown, List.drop_left, List.map_eq_nil_iff] at nothing
      have count := reader.length_delivered _ _ result
      rw [nothing] at count
      rw [result, ← count]
      rfl
    | failed result fatal tells' same => cases tells.symm.trans tells'
    | blocked result nothing silent same => cases tells.symm.trans silent
  · have silent := unanswered_read h fun cx buf same => here ⟨cx, buf, same⟩
    cases tells.symm.trans silent

/-- In every interleaving of any calls on any streams with the reactor, the
callers of `poll_read` are told exactly what the reads of the socket of their
stream give, one after another: the bytes, which their buffers get and nothing
else, and the errors other than `WouldBlock`. A call that returns no byte though
there was room for one has read the end of file. No call panics, and but for
the bytes the run is one of the reactor. -/
theorem reads_exact (reader : Reader H (IoError E)) (sys : Nat → H)
    (run : Run (streams reader) (initial sys : Streams bits W E B H) history s) (c : Nat) :
    s.panicked = false ∧
    history.flatMap (returned reader c) =
      (reader.outcomes (sys c) (reads c history)).flatMap unblocked ∧
    s.sys c = reader.afterReads (sys c) (reads c history) ∧
    (∀ p ∈ history, (∀ cx buf, p.2 ≠ .poll_read c cx buf) →
      (∀ n, answered c .read p.1 ((streams reader).effect p.1 p.2) ≠ some (.ok n)) →
      filledPart ((streams reader).effect p.1 p.2) c = filledPart p.1 c) ∧
    (∀ p ∈ history, ∀ n buf,
      answered c .read p.1 ((streams reader).effect p.1 p.2) = some (.ok n) →
      p.1.reading c = some buf → 0 < ReadBuf.remaining buf → returned reader c p = [] →
      ReadBuf.initialize_unfilled buf ≠ [] ∧
        (reader.read (p.1.sys c) (ReadBuf.initialize_unfilled buf)).result = .ok 0) ∧
    Run (reactor bits (Answer E)) (ReactorModel.initial : State bits W (Answer E))
      ((toReactor reader).shown history) s.reactor := by
  have told : history.flatMap (returned reader c) =
        (reader.outcomes (sys c) (reads c history)).flatMap unblocked ∧
      s.sys c = reader.afterReads (sys c) (reads c history) := by
    refine run.history_invariant (fun past t => past.flatMap (returned reader c) =
        (reader.outcomes (sys c) (reads c past)).flatMap unblocked ∧
      t.sys c = reader.afterReads (sys c) (reads c past)) ⟨rfl, rfl⟩ ?_
    rintro past t a _ ⟨told, left⟩ h
    have slices : reads c (past ++ [(t, a)]) = reads c past ++ reads c [(t, a)] :=
      List.filterMap_append
    obtain ⟨here, next⟩ := returned_step h c
    rw [left] at here next
    rw [slices, Reader.outcomes_append, Reader.afterReads_append, List.flatMap_append,
      List.flatMap_append, List.flatMap_singleton, told, here]
    exact ⟨rfl, next⟩
  refine ⟨run.invariant (fun t => t.panicked = false)
    (fun t a sound h => (panicked_step h).trans sound) rfl, told.1, told.2, ?_, ?_,
    (toReactor reader).run trivial run⟩
  · intro p hp old no_ok
    obtain ⟨_, _, _, _, h, _⟩ := run.split hp
    exact filledPart_kept h old no_ok
  · intro p hp n buf tells given room nothing
    obtain ⟨_, _, _, _, h, _⟩ := run.split hp
    exact eof_of_nothing h tells given room nothing

/-! ## Writing -/

/-- What the caller is told of its bytes in a step: the count that its call
returns. -/
def counted (reader : Reader H (IoError E)) (c : Nat)
    (p : Streams bits W E B H × Step bits W E B) : Nat :=
  match answered c .write p.1 ((streams reader).effect p.1 p.2) with
  | some (.ok n) => n
  | _ => 0

def acknowledged (reader : Reader H (IoError E)) (c : Nat)
    (history : List (Streams bits W E B H × Step bits W E B)) : Nat :=
  (history.map (counted reader c)).sum

/-- The caller of `poll_write` always offers what has not been accepted yet. -/
def Offers (reader : Reader H (IoError E)) (c : Nat) (data : Bytes) :
    Nat → List (Streams bits W E B H × Step bits W E B) → Prop
  | _, [] => True
  | done, p :: rest =>
    (match p.2 with
      | .poll_write c' _ buf => c' = c → buf = data.drop done
      | _ => True) ∧ Offers reader c data (done + counted reader c p) rest

theorem offers_append {data : Bytes} {done : Nat}
    {later : List (Streams bits W E B H × Step bits W E B)} :
    Offers reader c data done (history ++ later) ↔ Offers reader c data done history ∧
      Offers reader c data (done + acknowledged reader c history) later := by
  induction history generalizing done with
  | nil => simp [Offers, acknowledged]
  | cons p rest ih =>
    rw [List.cons_append, Offers, ih, Offers, and_assoc, acknowledged, acknowledged, List.map_cons,
      List.sum_cons, Nat.add_assoc]

/-- No call begins but at its start. -/
theorem unfinished_of_others {u : State bits W (Answer E)} {a : Action bits W (Answer E)}
    {d : Direction} (h : enabled u a) (others : Others a)
    (unfinished : ((effect u a).calls c d).finished = false) :
    (u.calls c d).finished = false := by
  by_cases on : On c d a
  · cases a with
    | start c' d' cx' | attempt c' d' cx' val => exact others.elim
    | check c' d' cx' | recheck c' d' cx' =>
      obtain ⟨rfl, rfl⟩ := on
      rw [show u.calls c' d' = _ from h]
      rfl
    | store c' d' cx' =>
      obtain ⟨rfl, rfl⟩ := on
      rw [h.1]
      rfl
    | clear_trigger c' d' cx' =>
      obtain ⟨rfl, rfl⟩ := on
      rw [show u.calls c' d' = _ from h]
      rfl
    | _ => exact on.elim
  · rwa [call_kept on] at unfinished

/-- What a call in progress offers is what is left, and what has been accepted
is the front of the data. -/
structure Sending (c : Nat) (data : Bytes) (done : Nat) (s : Streams bits W E B H) : Prop where
  offered : (s.reactor.calls c .write).finished = false →
    ∀ buf, s.writing c = .write buf → buf = data.drop done
  sent : s.sent c = data.take done
  within : done ≤ data.length

omit [ReadBuf B] in
/-- A step that leaves the write direction of the stream alone. -/
theorem Sending.kept {data : Bytes} {done : Nat} (sending : Sending c data done s)
    (calls : (t.reactor.calls c .write).finished = false →
      (s.reactor.calls c .write).finished = false)
    (writing : t.writing c = s.writing c) (sent : t.sent c = s.sent c) :
    Sending c data done t where
  offered unfinished := by
    rw [writing]
    exact sending.offered (calls unfinished)
  sent := sent.trans sending.sent
  within := sending.within

theorem calls_kept (off : ¬ On c .write (action reader s a)) :
    ((streams reader).effect s a).reactor.calls c .write = s.reactor.calls c .write := by
  rw [effect_reactor]
  exact call_kept off

theorem counted_other (h : (streams reader).enabled s a)
    (other : ∀ cx answer, a ≠ .write c cx answer) : counted reader c (s, a) = 0 := by
  simp only [counted, unanswered_write h other]

/-- The caller is told the answer to the write. -/
theorem counted_ok {cx : W} {n : Nat} (h : (streams reader).enabled s (.write c cx (.ok n))) :
    counted reader c (s, .write c cx (.ok n)) = n := by
  have tells := (answered_iff (d := .write) h).mpr ⟨cx, rfl⟩
  simp only [counted, tells]

theorem counted_error {cx : W} {err : IoError E}
    (h : (streams reader).enabled s (.write c cx (.error err))) :
    counted reader c (s, .write c cx (.error err)) = 0 := by
  cases tells : answered c .write s ((streams reader).effect s (.write c cx (.error err))) with
  | none => simp only [counted, tells]
  | some val =>
    obtain ⟨_, runs⟩ := (answered_iff h).mp tells
    have same : value (.error err) = some val := (Action.attempt.inj runs).2.2.2
    rw [value] at same
    split at same
    · cases same
    · cases same
      simp only [counted, tells]

/-- The answer to a write is the caller's count. -/
theorem Sending.write {data : Bytes} {done : Nat} {cx : W} {answer : Answer E}
    (sending : Sending c data done s)
    (h : (streams reader).enabled s (.write c cx answer)) :
    Sending c data (done + counted reader c (s, .write c cx answer))
      ((streams reader).effect s (.write c cx answer)) := by
  have calling : s.reactor.calls c .write = .attempting cx := h.1
  have takes : (s.writing c).takes answer := h.2
  have offered := sending.offered (by rw [calling]; rfl)
  cases answer with
  | error err =>
    rw [counted_error h, Nat.add_zero]
    refine sending.kept (fun _ => by rw [calling]; rfl) rfl ?_
    simp only [streams, Function.update_self]
    cases s.writing c <;> exact List.append_nil _
  | ok n =>
    have ready : ((streams reader).effect s (.write c cx (.ok n))).reactor.calls c .write =
        .ready (.ok n) := setCall_self
    have sent := sending.sent
    have within := sending.within
    rw [counted_ok h]
    refine ⟨fun unfinished => ?_, ?_, ?_⟩
    · rw [ready] at unfinished
      cases unfinished
    · simp only [streams, Function.update_self]
      cases writing : s.writing c with
      | write buf =>
        rw [Writing.accepted, offered buf writing, sent, List.take_add]
      | flush =>
        rw [writing] at takes
        obtain rfl : n = 0 := takes
        rw [Nat.add_zero, ← sent]
        exact List.append_nil _
    · cases writing : s.writing c with
      | write buf =>
        rw [writing, offered buf writing] at takes
        have few : n ≤ (data.drop done).length := takes
        rw [List.length_drop] at few
        omega
      | flush =>
        rw [writing] at takes
        obtain rfl : n = 0 := takes
        omega

theorem Sending.step {data : Bytes} {done : Nat} (sending : Sending c data done s)
    (h : (streams reader).enabled s a)
    (offers : Offers reader c data done [(s, a)]) :
    Sending c data (done + counted reader c (s, a)) ((streams reader).effect s a) := by
  have still : ((streams reader).effect s a).reactor.calls c .write = s.reactor.calls c .write →
      (((streams reader).effect s a).reactor.calls c .write).finished = false →
        (s.reactor.calls c .write).finished = false := by
    intro same unfinished
    rwa [same] at unfinished
  by_cases writes : ∃ cx answer, a = .write c cx answer
  · obtain ⟨cx, answer, rfl⟩ := writes
    exact sending.write h
  rw [counted_other h fun cx answer same => writes ⟨cx, answer, same⟩, Nat.add_zero]
  cases a with
  | others b =>
    exact sending.kept (fun unfinished => unfinished_of_others h.1 h.2 unfinished) rfl rfl
  | poll_read c' cx buf =>
    exact sending.kept (still (calls_kept (by rintro ⟨_, ⟨⟩⟩))) rfl rfl
  | read c' cx buf =>
    exact sending.kept (still (calls_kept (by rintro ⟨_, ⟨⟩⟩))) rfl rfl
  | poll_write c' cx buf =>
    by_cases same : c' = c
    · subst same
      refine ⟨fun _ buf' here => ?_, sending.sent, sending.within⟩
      simp only [streams, Function.update_self, Writing.write.injEq] at here
      rw [← here]
      exact offers.1 rfl
    · exact sending.kept (still (calls_kept fun on => same on.1))
        (Function.update_of_ne (Ne.symm same) _ _) rfl
  | poll_flush c' cx =>
    by_cases same : c' = c
    · subst same
      refine ⟨fun _ buf' here => ?_, sending.sent, sending.within⟩
      simp [streams] at here
    · exact sending.kept (still (calls_kept fun on => same on.1))
        (Function.update_of_ne (Ne.symm same) _ _) rfl
  | write c' cx answer =>
    have apart : c' ≠ c := by
      rintro rfl
      exact writes ⟨cx, answer, rfl⟩
    exact sending.kept (still (calls_kept fun on => apart on.1)) rfl
      (Function.update_of_ne (Ne.symm apart) _ _)

/-- In every interleaving of any calls on any streams with the reactor, a caller
that offers to `poll_write` what has not been accepted yet sends the front of its
data: as many bytes as it has been told, flushes and pending calls between them
or not. -/
theorem writes_exact {sys : Nat → H}
    (run : Run (streams reader) (initial sys : Streams bits W E B H) history s) {c : Nat}
    {data : Bytes} (offers : Offers reader c data 0 history) :
    s.sent c = data.take (acknowledged reader c history) ∧
      acknowledged reader c history ≤ data.length := by
  have sending : Sending c data (acknowledged reader c history) s := by
    induction run with
    | nil => exact ⟨(by rintro ⟨⟩), rfl, Nat.zero_le _⟩
    | @snoc past u a before h ih =>
      obtain ⟨before, last⟩ := offers_append.mp offers
      rw [Nat.zero_add] at last
      rw [acknowledged, RunLedgers.sum_snoc]
      exact (ih before).step h last
  exact ⟨sending.sent, sending.within⟩

/-! ## Two streams -/

/-- tokio's buffer: the filled bytes are initialized, the initialized ones are
within the capacity. -/
structure Buffer where
  bytes : Bytes
  filled : Nat
  initialized : Nat
  filled_le : filled ≤ initialized
  initialized_le : initialized ≤ bytes.length

namespace Buffer

def new (capacity : Nat) : Buffer where
  bytes := List.replicate capacity 0
  filled := 0
  initialized := 0
  filled_le := Nat.le_refl 0
  initialized_le := Nat.zero_le _

/-- `initialize_unfilled` writes zeros where nothing has been written. -/
def unfilled (buf : Buffer) : Bytes :=
  (buf.bytes.take buf.initialized ++
    List.replicate (buf.bytes.length - buf.initialized) 0).drop buf.filled

theorem length_unfilled (buf : Buffer) : buf.unfilled.length = buf.bytes.length - buf.filled := by
  have := buf.filled_le
  have := buf.initialized_le
  simp only [unfilled, List.length_drop, List.length_append, List.length_take,
    List.length_replicate]
  omega

/-- All bytes are initialized then. -/
def write (buf : Buffer) (data : Bytes) (same : data.length = buf.bytes.length - buf.filled) :
    Buffer where
  bytes := buf.bytes.take buf.filled ++ data
  filled := buf.filled
  initialized := buf.bytes.length
  filled_le := Nat.le_trans buf.filled_le buf.initialized_le
  initialized_le := by
    have := buf.filled_le
    have := buf.initialized_le
    rw [List.length_append, List.length_take, same]
    omega

/-- It panics beyond the initialized bytes. -/
def advance (buf : Buffer) (n : Nat) : Option Buffer :=
  if h : buf.filled + n ≤ buf.initialized then
    some { buf with filled := buf.filled + n, filled_le := h }
  else none

end Buffer

instance : ReadBuf Buffer where
  filled buf := buf.bytes.take buf.filled
  remaining buf := buf.bytes.length - buf.filled
  initialize_unfilled := Buffer.unfilled
  length_unfilled := Buffer.length_unfilled
  write := Buffer.write
  advance := Buffer.advance
  filled_write buf data same := by
    have := buf.filled_le
    have := buf.initialized_le
    simp only [Buffer.write]
    rw [List.take_append_of_le_length (by rw [List.length_take]; omega), List.take_take,
      Nat.min_self]
  advance_write buf data same n room := by
    have := buf.filled_le
    have := buf.initialized_le
    have fits : (buf.write data same).filled + n ≤ (buf.write data same).initialized := by
      simp only [Buffer.write]
      omega
    refine ⟨_, dif_pos fits, ?_, ?_⟩
    · simp only [Buffer.write]
      rw [List.take_append, List.length_take, Nat.min_eq_left (by omega), List.take_take,
        Nat.min_eq_right (by omega), Nat.add_sub_cancel_left]
    · simp only [Buffer.write, List.length_append, List.length_take]
      omega

def arrived : Event 64 where
  token := Token.zero
  is_readable := true
  is_writable := true
  edge _ := 0

/-- A stream is registered and reported ready. One of two bytes is read, and three
bytes are written in two calls. -/
def greeting : List (Step 64 Nat Nat Buffer) :=
  [.others .register, .others (.set_nonblocking 0 true), .others (.fetch_add 0),
    .others (.registry_register 0 Token.zero true), .others (.insert 0 Token.zero),
    .others (.poll [arrived]), .others (.lookup arrived []),
    .others (.take 0 arrived [] .read), .others (.trigger 0 arrived [] .read),
    .others (.take 0 arrived [] .write), .others (.trigger 0 arrived [] .write),
    .poll_read 0 7 (Buffer.new 1), .others (.check 0 .read 7),
    .poll_write 0 8 [1, 2, 3], .others (.check 0 .write 8),
    .read 0 7 (Buffer.new 1), .write 0 8 (.ok 2),
    .poll_write 0 8 [3], .others (.check 0 .write 8), .write 0 8 (.ok 1)]

def greeted : Streams 64 Nat Nat Buffer (List (Except (IoError Nat) UInt8)) :=
  initial fun _ => [.ok 104, .ok 105]

theorem reported (s : State 64 Nat (Answer Nat))
    (known : s.stage Stage.known? 0 = some Token.zero) :
    ∀ event ∈ [arrived], s.CanReport event := by
  intro event listed
  obtain rfl := List.mem_singleton.mp listed
  exact ⟨⟨0, known⟩, fun _ => Nat.zero_le _⟩

theorem greeting_legal : Legal (streams (scripted (IoError Nat))) greeted greeting :=
  ⟨⟨trivial, trivial⟩, ⟨rfl, trivial⟩, ⟨rfl, trivial⟩, ⟨rfl, trivial⟩, ⟨⟨rfl, rfl⟩, trivial⟩,
    ⟨⟨rfl, reported _ rfl⟩, trivial⟩, ⟨⟨rfl, rfl⟩, trivial⟩,
    ⟨rfl, trivial⟩, ⟨rfl, trivial⟩, ⟨rfl, trivial⟩, ⟨rfl, trivial⟩,
    ⟨⟨⟨Token.zero, rfl⟩, rfl⟩, trivial⟩, ⟨rfl, trivial⟩,
    ⟨⟨⟨Token.zero, rfl⟩, rfl⟩, trivial⟩, ⟨rfl, trivial⟩,
    ⟨rfl, rfl⟩, ⟨rfl, (by decide : 2 ≤ 3)⟩,
    ⟨⟨⟨Token.zero, rfl⟩, rfl⟩, trivial⟩, ⟨rfl, trivial⟩, ⟨rfl, (by decide : 1 ≤ 1)⟩, trivial⟩

theorem reads_exact_greeting :
    let s := final (streams (scripted (IoError Nat))) greeted greeting
    let history := transitions (streams (scripted (IoError Nat))) greeted greeting
    s.panicked = false ∧ s.sys 0 = [.ok 105] ∧
      history.flatMap (returned (scripted (IoError Nat)) 0) = [.ok 104] ∧
      ((scripted (IoError Nat)).outcomes [.ok 104, .ok 105] (reads 0 history)).flatMap unblocked =
        [.ok 104] := by
  intro s history
  obtain ⟨sound, told, left, _⟩ := reads_exact (scripted (IoError Nat))
    (fun _ => [.ok 104, .ok 105]) (run_of_legal greeting greeting_legal) 0
  exact ⟨sound, left, told, rfl⟩

theorem writes_exact_greeting :
    (final (streams (scripted (IoError Nat))) greeted greeting).sent 0 = [1, 2, 3] :=
  (writes_exact (run_of_legal greeting greeting_legal)
    (show Offers (scripted (IoError Nat)) 0 [1, 2, 3] 0 _ from
      ⟨trivial, trivial, trivial, trivial, trivial, trivial, trivial, trivial, trivial, trivial,
        trivial, trivial, trivial, fun _ => rfl, trivial, trivial, trivial, fun _ => rfl, trivial,
        trivial, trivial⟩)).1

end TcpStreams
