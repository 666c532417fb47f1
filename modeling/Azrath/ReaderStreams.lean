import Azrath.ByteReaders
import Azrath.ErrorTypes

/-!
# `ReaderStream` of `http.rs`

A reader is turned into a stream of chunks through one scratch buffer. Each chunk
is cut off the front of the buffer, which is grown again once nothing is left of
it. The code tells that by the capacity, so the length and the capacity have to
run out together.
-/

namespace ReaderStreams

open ByteReaders ErrorTypes

universe u
variable {R E : Type u}

/-- How much room an allocation of so many bytes gets: enough, and none for none. -/
structure Alloc where
  capacity : Nat → Nat
  enough : ∀ n, n ≤ capacity n
  none_for_none : capacity 0 = 0

/-- `Vec<u8>` with its capacity. -/
structure Vec where
  data : Bytes
  capacity : Nat
  fits : data.length ≤ capacity

namespace Vec

/-- `vec![0; n]`. -/
def zeros (alloc : Alloc) (n : Nat) : Vec where
  data := List.replicate n 0
  capacity := alloc.capacity n
  fits := by simpa using alloc.enough n

def extend_from_slice (alloc : Alloc) (v : Vec) (other : Bytes) : Vec where
  data := v.data ++ other
  capacity :=
    if v.data.length + other.length ≤ v.capacity then v.capacity
    else alloc.capacity (v.data.length + other.length)
  fits := by
    rw [List.length_append]
    split
    · assumption
    · exact alloc.enough _

/-- The content after somebody has written into it as a slice. -/
def overwrite (v : Vec) (data : Bytes) (same : data.length = v.data.length) : Vec where
  data := data
  capacity := v.capacity
  fits := by simpa only [same] using v.fits

/-- What `split_off` leaves and what it returns. It panics beyond the length,
where no reader puts its count. -/
def split_off (alloc : Alloc) (v : Vec) (n : Nat) : Vec × Vec :=
  (⟨v.data.take n, v.capacity, by have := v.fits; rw [List.length_take]; omega⟩,
    ⟨v.data.drop n, alloc.capacity (v.data.length - n), by
      rw [List.length_drop]; exact alloc.enough _⟩)

end Vec

def CAP : Nat := 4096

theorem CAP_pos : 0 < CAP := Nat.succ_pos _

structure ReaderStream (R : Type u) where
  reader : Option R
  buf : Vec

namespace ReaderStream

def new (alloc : Alloc) (reader : R) : ReaderStream R where
  reader := some reader
  buf := Vec.zeros alloc CAP

/-- The buffer that the reader is given. -/
def given (alloc : Alloc) (s : ReaderStream R) : Vec :=
  if s.buf.capacity = 0 then s.buf.extend_from_slice alloc (List.replicate CAP 0) else s.buf

/-- The call of the reader in this poll. -/
def called (reader : Reader R E) (alloc : Alloc) (s : ReaderStream R) : Option (Outcome R E) :=
  s.reader.map fun r => reader.read r (s.given alloc).data

/-- The stream afterwards, and what `Poll::Ready` carries. -/
def poll_next (reader : Reader R E) (alloc : Alloc) (s : ReaderStream R) :
    ReaderStream R × Option (Except E Bytes) :=
  match s.reader with
  | none => (s, none)
  | some r =>
    let buf := s.given alloc
    let out := reader.read r buf.data
    let buf := buf.overwrite out.buf (reader.length_eq r buf.data)
    match out.result with
    | .error err => ({ reader := none, buf }, some (.error err))
    | .ok 0 => ({ reader := none, buf }, none)
    | .ok n =>
      let (chunk, remaining) := buf.split_off alloc n
      ({ reader := some out.reader, buf := remaining }, some (.ok chunk.data))

/-- The stream after so many polls. -/
def after (reader : Reader R E) (alloc : Alloc) (s : ReaderStream R) : Nat → ReaderStream R
  | 0 => s
  | k + 1 => ((s.after reader alloc k).poll_next reader alloc).1

/-- What the poll after `k` others yields. -/
def item (reader : Reader R E) (alloc : Alloc) (s : ReaderStream R) (k : Nat) :
    Option (Except E Bytes) :=
  ((s.after reader alloc k).poll_next reader alloc).2

/-- The chunks of the first polls. -/
def yielded (reader : Reader R E) (alloc : Alloc) (s : ReaderStream R) : Nat → List Bytes
  | 0 => []
  | k + 1 =>
    match s.item reader alloc k with
    | some (.ok chunk) => s.yielded reader alloc k ++ [chunk]
    | _ => s.yielded reader alloc k

/-- What the reader has written in the first polls. -/
def written (reader : Reader R E) (alloc : Alloc) (s : ReaderStream R) : Nat → Bytes
  | 0 => []
  | k + 1 =>
    match (s.after reader alloc k).called reader alloc with
    | some out => s.written reader alloc k ++ out.delivered
    | none => s.written reader alloc k

variable {reader : Reader R E} {alloc : Alloc} {s : ReaderStream R}

theorem called_of_some (reader : Reader R E) (alloc : Alloc) {r : R} (here : s.reader = some r) :
    s.called reader alloc = some (reader.read r (s.given alloc).data) := by
  simp [called, here]

/-- What one poll does, by what the reader does in it. -/
inductive Polled (reader : Reader R E) (alloc : Alloc) (s : ReaderStream R) : Prop where
  | spent (gone : s.reader = none) (call : s.called reader alloc = none)
    (poll : s.poll_next reader alloc = (s, none))
  | failed {out : Outcome R E} {e : E} (call : s.called reader alloc = some out)
    (result : out.result = .error e) (gone : (s.poll_next reader alloc).1.reader = none)
    (poll : (s.poll_next reader alloc).2 = some (.error e))
  | ended {out : Outcome R E} (call : s.called reader alloc = some out)
    (result : out.result = .ok 0) (gone : (s.poll_next reader alloc).1.reader = none)
    (poll : (s.poll_next reader alloc).2 = none)
  | gave {out : Outcome R E} {n : Nat} (call : s.called reader alloc = some out)
    (result : out.result = .ok (n + 1))
    (next : (s.poll_next reader alloc).1.reader = some out.reader)
    (poll : (s.poll_next reader alloc).2 = some (.ok out.delivered))

theorem polled (reader : Reader R E) (alloc : Alloc) (s : ReaderStream R) :
    Polled reader alloc s := by
  cases here : s.reader with
  | none => exact .spent here (by simp [called, here]) (by simp [poll_next, here])
  | some r =>
    have call := called_of_some reader alloc here
    rcases result : (reader.read r (s.given alloc).data).result with e | _ | n
    · refine .failed call result ?_ ?_ <;> simp [poll_next, here, result]
    · refine .ended call result ?_ ?_ <;> simp [poll_next, here, result]
    · have delivered := Outcome.delivered_ok result
      refine .gave call result ?_ ?_ <;>
        simp [poll_next, here, result, delivered, Vec.split_off, Vec.overwrite]

/-- What a poll with a call of the reader does. -/
theorem polled_of_call {out : Outcome R E} (call : s.called reader alloc = some out) :
    (∃ e, out.result = .error e ∧ (s.poll_next reader alloc).1.reader = none ∧
      (s.poll_next reader alloc).2 = some (.error e)) ∨
    (out.result = .ok 0 ∧ (s.poll_next reader alloc).1.reader = none ∧
      (s.poll_next reader alloc).2 = none) ∨
    ∃ n, out.result = .ok (n + 1) ∧ (s.poll_next reader alloc).1.reader = some out.reader ∧
      (s.poll_next reader alloc).2 = some (.ok out.delivered) := by
  cases polled reader alloc s with
  | spent gone other poll => cases call.symm.trans other
  | failed other result gone poll =>
    cases call.symm.trans other
    exact Or.inl ⟨_, result, gone, poll⟩
  | ended other result gone poll =>
    cases call.symm.trans other
    exact Or.inr (Or.inl ⟨result, gone, poll⟩)
  | gave other result next poll =>
    cases call.symm.trans other
    exact Or.inr (Or.inr ⟨_, result, next, poll⟩)

theorem length_called {out : Outcome R E} {n : Nat} (call : s.called reader alloc = some out)
    (result : out.result = .ok n) : out.delivered.length = n := by
  obtain ⟨r, _, rfl⟩ := Option.map_eq_some_iff.mp call
  exact reader.length_delivered r _ result

/-- While there is a reader, the buffer holds at most `CAP` bytes, and some as
long as it has a capacity at all. -/
structure Stocked (s : ReaderStream R) : Prop where
  short : s.reader ≠ none → s.buf.data.length ≤ CAP
  filled : s.reader ≠ none → s.buf.capacity ≠ 0 → s.buf.data ≠ []

theorem stocked_new (r : R) : Stocked (new alloc r) where
  short _ := Nat.le_of_eq List.length_replicate
  filled _ _ := by
    apply List.length_pos_iff.mp
    exact Nat.lt_of_lt_of_eq CAP_pos List.length_replicate.symm

/-- The reader never gets an empty buffer, so its `Ok(0)` is the end of file. -/
theorem Stocked.length_given (stocked : Stocked s) (alloc : Alloc) (alive : s.reader ≠ none) :
    0 < (s.given alloc).data.length ∧ (s.given alloc).data.length ≤ CAP := by
  unfold given
  by_cases used_up : s.buf.capacity = 0
  · have empty : s.buf.data.length = 0 := by
      have := s.buf.fits
      omega
    have grown : (s.buf.extend_from_slice alloc (List.replicate CAP 0)).data.length = CAP := by
      simp only [Vec.extend_from_slice, List.length_append, empty, List.length_replicate,
        Nat.zero_add]
    rw [if_pos used_up, grown]
    exact ⟨CAP_pos, Nat.le_refl _⟩
  · rw [if_neg used_up]
    exact ⟨List.length_pos_iff.mpr (stocked.filled alive used_up), stocked.short alive⟩

theorem Stocked.step (stocked : Stocked s) : Stocked (s.poll_next reader alloc).1 := by
  cases here : s.reader with
  | none =>
    simp only [poll_next, here]
    exact stocked
  | some r =>
    have bound := (stocked.length_given alloc (by simp [here])).2
    have length := reader.length_eq r (s.given alloc).data
    rcases result : (reader.read r (s.given alloc).data).result with e | _ | n
    · constructor <;> simp [poll_next, here, result]
    · constructor <;> simp [poll_next, here, result]
    · constructor
      · intro _
        simp only [poll_next, here, result, Vec.split_off, Vec.overwrite, List.length_drop]
        omega
      · intro _ capacity empty
        simp only [poll_next, here, result, Vec.split_off, Vec.overwrite] at capacity empty
        rw [List.drop_eq_nil_iff] at empty
        rw [Nat.sub_eq_zero_of_le empty] at capacity
        exact capacity alloc.none_for_none

theorem stocked_after (stocked : Stocked s) (k : Nat) : Stocked (s.after reader alloc k) := by
  induction k with
  | zero => exact stocked
  | succ k ih => exact ih.step

theorem after_ended {k : Nat} (ended : (s.after reader alloc k).reader = none) {j : Nat}
    (later : k ≤ j) : (s.after reader alloc j).reader = none := by
  induction later with
  | refl => exact ended
  | @step j _ ih =>
    have step : s.after reader alloc (j + 1) =
        ((s.after reader alloc j).poll_next reader alloc).1 := rfl
    rw [step]
    simp [poll_next, ih]

theorem item_of_ended {k : Nat} (ended : (s.after reader alloc k).reader = none) {j : Nat}
    (later : k ≤ j) : s.item reader alloc j = none := by
  simp [item, poll_next, after_ended ended later]

/-- What the stream has yielded so far is what its reader has written so far. -/
theorem flatten_yielded (k : Nat) :
    (s.yielded reader alloc k).flatten = s.written reader alloc k := by
  induction k with
  | zero => rfl
  | succ k ih =>
    unfold yielded written item
    cases polled reader alloc (s.after reader alloc k) with
    | spent gone call poll => simp [call, poll, ih]
    | failed call result gone poll => simp [call, poll, ih, Outcome.delivered_error result]
    | ended call result gone poll => simp [call, poll, ih, Outcome.delivered_ok result]
    | gave call result next poll => simp [call, poll, ih]

theorem item_nonempty {k : Nat} {chunk : Bytes}
    (yields : s.item reader alloc k = some (.ok chunk)) : chunk ≠ [] := by
  intro empty
  cases polled reader alloc (s.after reader alloc k) with
  | spent gone call poll => simp [item, poll] at yields
  | failed call result gone poll => cases poll.symm.trans yields
  | ended call result gone poll => cases poll.symm.trans yields
  | gave call result next poll =>
    cases poll.symm.trans yields
    have length := length_called call result
    rw [empty] at length
    cases length

theorem item_error_iff (k : Nat) (e : E) : s.item reader alloc k = some (.error e) ↔
    ∃ out, (s.after reader alloc k).called reader alloc = some out ∧ out.result = .error e := by
  cases polled reader alloc (s.after reader alloc k) with
  | spent gone call poll => simp [item, poll, call]
  | failed call result gone poll => simp [item, poll, call, result]
  | ended call result gone poll => simp [item, poll, call, result]
  | gave call result next poll => simp [item, poll, call, result]

/-- A call of the reader that gives no bytes is its last. -/
theorem gone_after_last {k : Nat} {out : Outcome R E}
    (call : (s.after reader alloc k).called reader alloc = some out)
    (last : ∀ n, out.result ≠ .ok (n + 1)) : (s.after reader alloc (k + 1)).reader = none := by
  rcases polled_of_call call with ⟨_, _, gone, _⟩ | ⟨_, gone, _⟩ | ⟨n, result, _⟩
  · exact gone
  · exact gone
  · exact absurd result (last n)

theorem item_of_eof {k : Nat} {out : Outcome R E}
    (call : (s.after reader alloc k).called reader alloc = some out) (eof : out.result = .ok 0) :
    s.item reader alloc k = none := by
  rcases polled_of_call call with ⟨_, result, _⟩ | ⟨_, _, poll⟩ | ⟨_, result, _⟩
  · cases eof.symm.trans result
  · exact poll
  · cases eof.symm.trans result

/-- A call that gives bytes is followed by a call of the reader that it has left. -/
theorem called_succ {k n : Nat} {out : Outcome R E}
    (call : (s.after reader alloc k).called reader alloc = some out)
    (more : out.result = .ok (n + 1)) :
    s.item reader alloc k = some (.ok out.delivered) ∧
      (s.after reader alloc (k + 1)).called reader alloc =
        some (reader.read out.reader ((s.after reader alloc (k + 1)).given alloc).data) := by
  rcases polled_of_call call with ⟨_, result, _⟩ | ⟨result, _⟩ | ⟨_, _, next, poll⟩
  · cases more.symm.trans result
  · cases more.symm.trans result
  · exact ⟨poll, called_of_some reader alloc next⟩

/-- The reader goes with a call that gives no bytes, and with nothing else. -/
theorem exists_last {k : Nat} (begun : s.reader ≠ none)
    (ended : (s.after reader alloc k).reader = none) :
    ∃ j, j < k ∧ (∃ out, (s.after reader alloc j).called reader alloc = some out ∧
      ∀ n, out.result ≠ .ok (n + 1)) ∧
      s.written reader alloc k = s.written reader alloc j := by
  induction k with
  | zero => exact absurd ended begun
  | succ k ih =>
    cases polled reader alloc (s.after reader alloc k) with
    | spent gone call poll =>
      obtain ⟨j, early, last, same⟩ := ih gone
      refine ⟨j, Nat.lt_succ_of_lt early, last, ?_⟩
      simp [written, call, same]
    | failed call result gone poll =>
      refine ⟨k, Nat.lt_succ_self k, ⟨_, call, fun n more => ?_⟩, ?_⟩
      · cases result.symm.trans more
      · simp [written, call, Outcome.delivered_error result]
    | ended call result gone poll =>
      refine ⟨k, Nat.lt_succ_self k, ⟨_, call, fun n more => ?_⟩, ?_⟩
      · cases result.symm.trans more
      · simp [written, call, Outcome.delivered_ok result]
    | gave call result next poll => cases ended.symm.trans next

theorem ended_of_item {k : Nat} (yields : s.item reader alloc k = none) :
    (s.after reader alloc (k + 1)).reader = none := by
  cases polled reader alloc (s.after reader alloc k) with
  | spent gone call poll => exact after_ended gone (Nat.le_succ k)
  | failed call result gone poll => exact gone
  | ended call result gone poll => exact gone
  | gave call result next poll => cases yields.symm.trans poll

/-- The first poll calls the reader that the stream was made with and each later
one the reader that the call before it has left, in buffers of 1 to `CAP` bytes,
as long as they give bytes. The chunks are not empty and are what these calls
wrote; the first error is yielded once, the first `Ok(0)` ends the stream and
nothing else does, and after either the reader is not read again. -/
theorem stream_exact (reader : Reader R E) (alloc : Alloc) (r : R) :
    let s := new alloc r
    (∀ k, (s.after reader alloc k).reader ≠ none →
      0 < ((s.after reader alloc k).given alloc).data.length ∧
        ((s.after reader alloc k).given alloc).data.length ≤ CAP) ∧
    s.called reader alloc = some (reader.read r (s.given alloc).data) ∧
    (∀ k out n, (s.after reader alloc k).called reader alloc = some out →
      out.result = .ok (n + 1) → s.item reader alloc k = some (.ok out.delivered) ∧
        (s.after reader alloc (k + 1)).called reader alloc =
          some (reader.read out.reader ((s.after reader alloc (k + 1)).given alloc).data)) ∧
    (∀ k chunk, s.item reader alloc k = some (.ok chunk) → chunk ≠ []) ∧
    (∀ k, (s.yielded reader alloc k).flatten = s.written reader alloc k) ∧
    (∀ k e, s.item reader alloc k = some (.error e) ↔
      ∃ out, (s.after reader alloc k).called reader alloc = some out ∧ out.result = .error e) ∧
    (∀ k out, (s.after reader alloc k).called reader alloc = some out → out.result = .ok 0 →
      s.item reader alloc k = none) ∧
    (∀ k, s.item reader alloc k = none → ∃ j, j ≤ k ∧ ∃ out,
      (s.after reader alloc j).called reader alloc = some out ∧ ∀ n, out.result ≠ .ok (n + 1)) ∧
    ∀ k out, (s.after reader alloc k).called reader alloc = some out →
      (∀ n, out.result ≠ .ok (n + 1)) → ∀ j, k < j →
        (s.after reader alloc j).called reader alloc = none ∧ s.item reader alloc j = none := by
  intro s
  have stocked : ∀ k, Stocked (s.after reader alloc k) := stocked_after (stocked_new r)
  refine ⟨fun k alive => (stocked k).length_given alloc alive, called_of_some reader alloc rfl,
    fun k out n => called_succ, fun k chunk => item_nonempty, flatten_yielded, item_error_iff,
    fun k out => item_of_eof, ?_, ?_⟩
  · intro k yields
    have begun : s.reader ≠ none := by rintro ⟨⟩
    obtain ⟨j, early, last, _⟩ := exists_last begun (ended_of_item yields)
    exact ⟨j, Nat.le_of_lt_succ early, last⟩
  · intro k out call last j later
    have gone := gone_after_last call last
    constructor
    · simp [called, after_ended gone later]
    · exact item_of_ended gone later

/-- The reader of a stocked stream is given room. -/
theorem Stocked.call (stocked : Stocked s) {out : Outcome R E}
    (call : s.called reader alloc = some out) : ∃ r, s.reader = some r ∧
      out = reader.read r (s.given alloc).data ∧ (s.given alloc).data ≠ [] := by
  obtain ⟨r, alive, same⟩ := Option.map_eq_some_iff.mp call
  exact ⟨r, alive, same.symm,
    List.length_pos_iff.mp (stocked.length_given alloc (by simp [alive])).1⟩

/-! ## Beside `read_to_end` -/

variable {retry : E → Bool} {r r' : R} {bytes rest : Bytes} {res : Except E Unit} {k : Nat}

/-- A reader that is left after a poll has given bytes in it, and was there before. -/
theorem gave_of_alive (stocked : Stocked s)
    (here : (s.after reader alloc (k + 1)).reader = some r') :
    ∃ r₀ buf n, (s.after reader alloc k).reader = some r₀ ∧ buf ≠ [] ∧
      (reader.read r₀ buf).result = .ok (n + 1) ∧ (reader.read r₀ buf).reader = r' ∧
      s.written reader alloc (k + 1) =
        s.written reader alloc k ++ (reader.read r₀ buf).delivered := by
  cases polled reader alloc (s.after reader alloc k) with
  | spent gone call poll => cases here.symm.trans (after_ended gone (Nat.le_succ k))
  | failed call result gone poll => cases here.symm.trans gone
  | ended call result gone poll => cases here.symm.trans gone
  | @gave out n call result next poll =>
    obtain ⟨r₀, alive, rfl, room⟩ := (stocked_after stocked k).call call
    exact ⟨r₀, _, n, alive, room, result, Option.some.inj (next.symm.trans here),
      by simp [written, call]⟩

/-- As long as there is a reader, what is left of it is what the stream has not
yielded yet. -/
theorem left_of_alive (steady : Steady reader retry)
    (here : ((new alloc r).after reader alloc k).reader = some r')
    (reads : ReadToEnd reader retry r bytes res) :
    ∃ rest, bytes = (new alloc r).written reader alloc k ++ rest ∧
      ReadToEnd reader retry r' rest res := by
  induction k generalizing r' with
  | zero =>
    obtain rfl : r = r' := Option.some.inj here
    exact ⟨bytes, rfl, reads⟩
  | succ k ih =>
    obtain ⟨r₀, buf, n, alive, room, result, rfl, wrote⟩ := gave_of_alive (stocked_new r) here
    obtain ⟨rest, rfl, left⟩ := ih alive
    obtain ⟨rest', rfl, left'⟩ := steady.gave room result left
    exact ⟨rest', by rw [wrote, List.append_assoc], left'⟩

/-- The calls of the stream are calls that `read_to_end` could make. -/
theorem reads_of_alive (here : ((new alloc r).after reader alloc k).reader = some r')
    (left : ReadToEnd reader retry r' rest res) :
    ReadToEnd reader retry r ((new alloc r).written reader alloc k ++ rest) res := by
  induction k generalizing r' rest with
  | zero =>
    obtain rfl : r = r' := Option.some.inj here
    exact left
  | succ k ih =>
    obtain ⟨r₀, buf, n, alive, room, result, rfl, wrote⟩ := gave_of_alive (stocked_new r) here
    rw [wrote, List.append_assoc]
    exact ih alive (.gave room result left)

theorem le_length_written (here : ((new alloc r).after reader alloc k).reader = some r') :
    k ≤ ((new alloc r).written reader alloc k).length := by
  induction k generalizing r' with
  | zero => exact Nat.zero_le _
  | succ k ih =>
    obtain ⟨r₀, buf, n, alive, _, result, _, wrote⟩ := gave_of_alive (stocked_new r) here
    have before := ih alive
    have more := reader.length_delivered r₀ buf result
    rw [wrote, List.length_append]
    omega

/-- The stream of a reader with finitely many bytes comes to its end. -/
theorem ends (steady : Steady reader retry) (reads : ReadToEnd reader retry r bytes res) :
    ((new alloc r).after reader alloc (bytes.length + 1)).reader = none := by
  cases here : ((new alloc r).after reader alloc (bytes.length + 1)).reader with
  | none => rfl
  | some r' =>
    obtain ⟨rest, whole, _⟩ := left_of_alive steady here reads
    have many := le_length_written here
    have total := congrArg List.length whole
    rw [List.length_append] at total
    omega

end ReaderStream

/-! ## Errors that are to be retried -/

variable {X : Type u} {reader : Reader R (IoError X)} {alloc : Alloc} {r : R} {k : Nat}
  {out : Outcome R (IoError X)} {e : IoError X} {bytes : Bytes} {res : Except (IoError X) Unit}

def interrupted (e : IoError X) : Bool := e.kind = .interrupted

/-- The call of the reader in the `j`th poll of the stream of `wrap_reader`. -/
def Calls (reader : Reader R (IoError X)) (alloc : Alloc) (r : R) (j : Nat)
    (out : Outcome R (IoError X)) : Prop :=
  ((ReaderStream.new alloc r).after reader alloc j).called reader alloc = some out

/-- `wrap_reader` beside `read_to_end`: if that comes to an end, so does the
stream, and its chunks are then what is collected from the same reader. It
yields an error exactly when the reader gives one that is not to be retried. -/
def Whole (reader : Reader R (IoError X)) (alloc : Alloc) (r : R) : Prop :=
  let s := ReaderStream.new alloc r
  (∀ bytes res, ReadToEnd reader interrupted r bytes res →
    (∃ k, (s.after reader alloc k).reader = none) ∧
    ∀ k, (s.after reader alloc k).reader = none → (s.yielded reader alloc k).flatten = bytes) ∧
  ((∃ j e, s.item reader alloc j = some (.error e)) ↔
    ∃ bytes e, ReadToEnd reader interrupted r bytes (.error e))

/-- No call of the reader is interrupted, unless nothing is left after it but an
error of another kind. -/
def Uninterrupted (reader : Reader R (IoError X)) (alloc : Alloc) (r : R) : Prop :=
  ∀ j out e, Calls reader alloc r j out → out.result = .error e → interrupted e = true →
    ∃ e', ReadToEnd reader interrupted out.reader [] (.error e')

theorem exists_call (calls : Calls reader alloc r k out) :
    ∃ r' buf, ((ReaderStream.new alloc r).after reader alloc k).reader = some r' ∧ buf ≠ [] ∧
      out = reader.read r' buf := by
  have stocked : ReaderStream.Stocked ((ReaderStream.new alloc r).after reader alloc k) :=
    ReaderStream.stocked_after (ReaderStream.stocked_new r) k
  obtain ⟨r', here, same, room⟩ := stocked.call calls
  exact ⟨r', _, here, room, same⟩

/-- The last call of the stream leaves no bytes to `read_to_end`. -/
theorem nothing_left (steady : Steady reader interrupted) (calm : Uninterrupted reader alloc r)
    (calls : Calls reader alloc r k out) (last : ∀ n, out.result ≠ .ok (n + 1))
    (reads : ReadToEnd reader interrupted r bytes res) :
    bytes = (ReaderStream.new alloc r).written reader alloc k ∧
      (out.result = .ok 0 → res = .ok ()) := by
  obtain ⟨r', buf, here, room, rfl⟩ := exists_call calls
  obtain ⟨rest, rfl, left⟩ := ReaderStream.left_of_alive steady here reads
  rcases result : (reader.read r' buf).result with e | _ | n
  · have none_left : rest = [] := by
      cases kind : interrupted e with
      | false => exact (steady.failed room result kind left).1
      | true =>
        obtain ⟨e', fails⟩ := calm k _ e calls result kind
        exact (steady.unique fails (steady.again room result kind left)).1.symm
    exact ⟨by rw [none_left, List.append_nil], fun eof => by cases eof⟩
  · obtain ⟨none_left, fine⟩ := steady.ended room result left
    exact ⟨by rw [none_left, List.append_nil], fun _ => fine⟩
  · exact absurd result (last n)

/-- An error of the stream is, or hides, one that is not to be retried. -/
theorem fails_of_call (calm : Uninterrupted reader alloc r) (calls : Calls reader alloc r k out)
    (result : out.result = .error e) :
    ∃ bytes e', ReadToEnd reader interrupted r bytes (.error e') := by
  obtain ⟨r', buf, here, room, rfl⟩ := exists_call calls
  cases kind : interrupted e with
  | false => exact ⟨_, e, ReaderStream.reads_of_alive here (.failed room result kind)⟩
  | true =>
    obtain ⟨e', fails⟩ := calm k _ e calls result kind
    exact ⟨_, e', ReaderStream.reads_of_alive here (.again room result kind fails)⟩

theorem whole_of_uninterrupted (steady : Steady reader interrupted)
    (calm : Uninterrupted reader alloc r) : Whole reader alloc r := by
  have begun : (ReaderStream.new alloc r).reader ≠ none := by rintro ⟨⟩
  refine ⟨fun bytes res reads => ?_, ?_, ?_⟩
  · refine ⟨⟨_, ReaderStream.ends steady reads⟩, fun k ended => ?_⟩
    obtain ⟨j, _, ⟨out, calls, last⟩, same⟩ := ReaderStream.exists_last begun ended
    rw [ReaderStream.flatten_yielded, same]
    exact (nothing_left steady calm calls last reads).1.symm
  · rintro ⟨j, e, yields⟩
    obtain ⟨out, calls, result⟩ := (ReaderStream.item_error_iff j e).mp yields
    exact fails_of_call calm calls result
  · rintro ⟨bytes, e, reads⟩
    have ended : ((ReaderStream.new alloc r).after reader alloc (bytes.length + 1)).reader = none :=
      ReaderStream.ends steady reads
    obtain ⟨j, _, ⟨out, calls, last⟩, _⟩ := ReaderStream.exists_last begun ended
    rcases result : out.result with e' | _ | n
    · exact ⟨j, e', (ReaderStream.item_error_iff j e').mpr ⟨out, calls, result⟩⟩
    · cases (nothing_left steady calm calls last reads).2 result
    · exact absurd result (last n)

/-- A hidden byte, or a hidden end of file, is missed by the stream. -/
theorem uninterrupted_of_whole (steady : Steady reader interrupted)
    (whole : Whole reader alloc r) : Uninterrupted reader alloc r := by
  intro k out e calls result kind
  have yields := (ReaderStream.item_error_iff k e).mpr ⟨out, calls, result⟩
  obtain ⟨bytes, e', reads⟩ := whole.2.mp ⟨k, e, yields⟩
  have gone := ReaderStream.gone_after_last calls fun n more => by cases result.symm.trans more
  have collected := (whole.1 bytes _ reads).2 (k + 1) gone
  have same : (ReaderStream.new alloc r).written reader alloc (k + 1) =
      (ReaderStream.new alloc r).written reader alloc k := by
    have call : ((ReaderStream.new alloc r).after reader alloc k).called reader alloc =
      some out := calls
    simp [ReaderStream.written, call, Outcome.delivered_error result]
  rw [ReaderStream.flatten_yielded, same] at collected
  obtain ⟨r', buf, here, room, rfl⟩ := exists_call calls
  obtain ⟨rest, split, left⟩ := ReaderStream.left_of_alive steady here reads
  have none_left : rest = [] := List.append_right_eq_self.mp (split.symm.trans collected.symm)
  exact ⟨e', steady.again room result kind (none_left ▸ left)⟩

/-- An interruption ends the stream, so it is whole exactly when there is none
that hides anything. -/
theorem whole_iff_uninterrupted (reader : Reader R (IoError X))
    (steady : Steady reader interrupted) (alloc : Alloc) (r : R) :
    Whole reader alloc r ↔ Uninterrupted reader alloc r :=
  ⟨uninterrupted_of_whole steady, whole_of_uninterrupted steady⟩

/-- An allocator that gives what is asked for. -/
def Alloc.exact : Alloc where
  capacity n := n
  enough _ := Nat.le_refl _
  none_for_none := rfl

/-- One byte and then an error, with an interruption before the error. -/
def brokenOff : Reader (List (Except (IoError Nat) UInt8) × Bool) (IoError Nat) :=
  interrupting (scripted _) ⟨.interrupted, 4⟩

theorem read_brokenOff {buf : Bytes} (room : buf ≠ []) :
    let out := brokenOff.read ([.ok 104, .error ⟨.other, 5⟩], false) buf
    out.result = .ok 1 ∧ out.delivered = [104] ∧ out.reader = ([.error ⟨.other, 5⟩], true) := by
  obtain ⟨byte, rest, rfl⟩ := List.exists_cons_of_ne_nil room
  simp [brokenOff, interrupting, scripted, give, leading, Outcome.delivered]

theorem whole_before_error :
    let s := ReaderStream.new Alloc.exact ([.ok 104, .error ⟨.other, 5⟩], false)
    s.item brokenOff Alloc.exact 0 = some (.ok [104]) ∧
      s.item brokenOff Alloc.exact 1 = some (.error ⟨.interrupted, 4⟩) ∧
      Whole brokenOff Alloc.exact ([.ok 104, .error ⟨.other, 5⟩], false) := by
  intro s
  have first : s.called brokenOff Alloc.exact = some (brokenOff.read
      ([.ok 104, .error ⟨.other, 5⟩], false) (s.given Alloc.exact).data) := rfl
  have room : (s.given Alloc.exact).data ≠ [] := by
    have stocked : ReaderStream.Stocked s := ReaderStream.stocked_new _
    exact List.length_pos_iff.mp (stocked.length_given Alloc.exact (by rintro ⟨⟩)).1
  obtain ⟨result, delivered, next⟩ := read_brokenOff room
  obtain ⟨chunk, second⟩ := ReaderStream.called_succ (k := 0) first result
  rw [delivered] at chunk
  rw [next] at second
  have gone : (s.after brokenOff Alloc.exact 2).reader = none :=
    ReaderStream.gone_after_last second fun n more => by cases more
  refine ⟨chunk, (ReaderStream.item_error_iff 1 _).mpr ⟨_, second, rfl⟩,
    (whole_iff_uninterrupted brokenOff (interrupting_scripted_steady rfl) _ _).mpr ?_⟩
  intro j out e calls failure kind
  rcases j with _ | _ | j
  · have same : _ = out := Option.some.inj (first.symm.trans calls)
    rw [← same, result] at failure
    cases failure
  · have same : _ = out := Option.some.inj (second.symm.trans calls)
    rw [← same]
    exact ⟨_, .failed (List.cons_ne_nil 0 []) rfl rfl⟩
  · have spent := ReaderStream.after_ended gone (Nat.le_add_left 2 j)
    rw [Calls, ReaderStream.called, spent] at calls
    cases calls

/-- A reader is interrupted once and then has two bytes. -/
def interruptedOnce : List (Except (IoError Nat) UInt8) :=
  [.error ⟨.interrupted, 4⟩, .ok 104, .ok 105]

/-- The stream yields the interruption as an error and neither of the bytes. -/
theorem interruption_hides_bytes :
    let s := ReaderStream.new Alloc.exact interruptedOnce
    Steady (scripted (IoError Nat)) interrupted ∧
      (∀ bytes res, ReadToEnd (scripted _) interrupted interruptedOnce bytes res ↔
        bytes = [104, 105] ∧ res = .ok ()) ∧
      s.item (scripted _) Alloc.exact 0 = some (.error ⟨.interrupted, 4⟩) ∧
      (s.after (scripted _) Alloc.exact 1).reader = none ∧
      (s.yielded (scripted _) Alloc.exact 1).flatten = [] ∧
      ¬ Whole (scripted _) Alloc.exact interruptedOnce := by
  intro s
  have steady := scripted_steady (E := IoError Nat) interrupted
  have reads : ReadToEnd (scripted _) interrupted interruptedOnce [104, 105] (.ok ()) :=
    scripted_reads interrupted interruptedOnce
  have gone : (s.after (scripted _) Alloc.exact 1).reader = none := rfl
  have nothing : (s.yielded (scripted _) Alloc.exact 1).flatten = [] := rfl
  refine ⟨steady, fun bytes res => ⟨fun collects => steady.unique collects reads, ?_⟩,
    rfl, gone, nothing, fun whole => ?_⟩
  · rintro ⟨rfl, rfl⟩
    exact reads
  · have same := (whole.1 _ _ reads).2 1 gone
    rw [nothing] at same
    cases same

end ReaderStreams
