import Azrath.BodyForwarding
import Azrath.ByteReaders
import Azrath.ErrorTypes
import Azrath.GuardedRuns
import Mathlib.Data.List.DropRight
import Mathlib.Data.List.Infix
import Mathlib.Data.List.TakeWhile

/-!
# Reading a body: `Body::next` and `BodyReader` of `http.rs`

The wrapped body is given by what it has still to yield, chunks and errors in any
order and then its end. A reader carries the rest of the last chunk, and that
rest is its own: it goes with the reader, not back into the body.
-/

namespace BodyReading

open BodyForwarding (Body)
open ByteReaders ErrorTypes GuardedRuns

universe u
variable {H : Type u}

abbrev Items (H : Type u) := List (Except H Bytes)

/-- `hyper::Body::data`: the next item, and `None` at the end and ever after. -/
def data : Items H → Option (Except H Bytes) × Items H
  | [] => (none, [])
  | item :: rest => (some item, rest)

/-- `Parker::block_on` returns what the future does; its error type is never used. -/
def block_on {α : Type u} (res : α) : Except (ExecutorError H) α := .ok res

/-- `Iterator::next` for `Body`. -/
def next (body : Body (Items H)) : Option (Except (IoError H) Bytes) × Body (Items H) :=
  let (res, inner) := data body.inner
  match block_on (H := H) res with
  | .ok maybe_result =>
    (maybe_result.map fun res => res.mapError fun err => ⟨.other, err⟩, ⟨inner⟩)
  | .error _ => (none, ⟨inner⟩)

variable {body body' : Body (Items H)} {item : Except (IoError H) Bytes} {rest : Items H}
  {chunk : Bytes} {err : H}

@[simp] theorem next_nil : next (⟨[]⟩ : Body (Items H)) = (none, ⟨[]⟩) := rfl

@[simp] theorem next_ok :
    next (⟨.ok chunk :: rest⟩ : Body (Items H)) = (some (.ok chunk), ⟨rest⟩) := rfl

@[simp] theorem next_error :
    next (⟨.error err :: rest⟩ : Body (Items H)) = (some (.error ⟨.other, err⟩), ⟨rest⟩) := rfl

theorem next_shorter (h : next body = (some item, body')) :
    body'.inner.length < body.inner.length := by
  obtain ⟨_ | ⟨_, rest⟩⟩ := body
  · cases h
  · cases h
    exact Nat.lt_succ_self _

structure BodyReader (H : Type u) where
  body : Body (Items H)
  prev_bytes : Bytes

/-- `Body::reader`. -/
def reader (body : Body (Items H)) : BodyReader H := ⟨body, []⟩

/-- The loop of `BodyReader::read`; `buf` is the part of the buffer that is still
to be filled, and so is the buffer of the outcome. -/
def readLoop (r : BodyReader H) (buf : Bytes) (written : Nat) :
    Outcome (BodyReader H) (IoError H) :=
  if _full : buf = [] then ⟨r, buf, .ok written⟩
  else if _carried : r.prev_bytes ≠ [] then
    let chunk_size := min buf.length r.prev_bytes.length
    let prev_bytes_start := r.prev_bytes.take chunk_size
    let out := readLoop { r with prev_bytes := r.prev_bytes.drop chunk_size }
      (buf.drop chunk_size) (written + chunk_size)
    { out with buf := prev_bytes_start ++ out.buf }
  else if written ≠ 0 then ⟨r, buf, .ok written⟩
  else
    match _next : next r.body with
    | (some (.ok next), body) => readLoop { body, prev_bytes := next } buf written
    | (some (.error err), body) => ⟨{ r with body }, buf, .error err⟩
    | (none, body) => ⟨{ r with body }, buf, .ok written⟩
termination_by (r.body.inner.length, buf.length)
decreasing_by
  · apply Prod.Lex.right
    have room := List.length_pos_iff.mpr _full
    have some_byte := List.length_pos_iff.mpr _carried
    rw [List.length_drop]
    omega
  · exact Prod.Lex.left _ _ (next_shorter _next)

def read (r : BodyReader H) (buf : Bytes) : Outcome (BodyReader H) (IoError H) :=
  readLoop r buf 0

variable {r : BodyReader H} {buf : Bytes} {written : Nat}

theorem readLoop_full : readLoop r [] written = ⟨r, [], .ok written⟩ := by
  rw [readLoop, dif_pos rfl]

theorem readLoop_done (used_up : r.prev_bytes = []) (some_written : written ≠ 0) :
    readLoop r buf written = ⟨r, buf, .ok written⟩ := by
  by_cases full : buf = []
  · rw [full, readLoop_full]
  · rw [readLoop, dif_neg full, dif_neg (not_not.mpr used_up), if_pos some_written]

/-- With bytes carried over, the call ends as soon as these or the buffer are used up. -/
theorem readLoop_carried (room : buf ≠ []) (carried : r.prev_bytes ≠ []) :
    readLoop r buf written = ⟨{ r with prev_bytes := r.prev_bytes.drop buf.length },
      r.prev_bytes.take buf.length ++ buf.drop r.prev_bytes.length,
      .ok (written + min buf.length r.prev_bytes.length)⟩ := by
  have some_byte := List.length_pos_iff.mpr carried
  have some_room := List.length_pos_iff.mpr room
  rw [readLoop, dif_neg room, dif_pos carried]
  dsimp only
  rcases Nat.le_total buf.length r.prev_bytes.length with fits | short
  · have full : buf.drop buf.length = [] := List.drop_length
    rw [Nat.min_eq_left fits, full, readLoop_full, List.drop_eq_nil_of_le fits]
  · have used_up : r.prev_bytes.drop r.prev_bytes.length = [] := List.drop_length
    rw [Nat.min_eq_right short, readLoop_done used_up (by omega), used_up,
      List.drop_eq_nil_of_le short, List.take_length, List.take_of_length_le short]

theorem read_full : read r [] = ⟨r, [], .ok 0⟩ := readLoop_full

theorem read_carried (room : buf ≠ []) (carried : r.prev_bytes ≠ []) :
    read r buf = ⟨{ r with prev_bytes := r.prev_bytes.drop buf.length },
      r.prev_bytes.take buf.length ++ buf.drop r.prev_bytes.length,
      .ok (min buf.length r.prev_bytes.length)⟩ := by
  rw [read, readLoop_carried room carried, Nat.zero_add]

theorem read_end (room : buf ≠ []) :
    read (⟨⟨[]⟩, []⟩ : BodyReader H) buf = ⟨⟨⟨[]⟩, []⟩, buf, .ok 0⟩ := by
  rw [read, readLoop, dif_neg room]
  simp

theorem read_error (room : buf ≠ []) :
    read (⟨⟨.error err :: rest⟩, []⟩ : BodyReader H) buf =
      ⟨⟨⟨rest⟩, []⟩, buf, .error ⟨.other, err⟩⟩ := by
  rw [read, readLoop, dif_neg room]
  simp

/-- A new chunk is read as if it had been carried over, and an empty one is skipped. -/
theorem read_chunk (room : buf ≠ []) :
    read (⟨⟨.ok chunk :: rest⟩, []⟩ : BodyReader H) buf = read ⟨⟨rest⟩, chunk⟩ buf := by
  rw [read, readLoop, dif_neg room]
  simp [read]

/-! ## What is read -/

/-- The bytes of the chunks among some items. -/
def chunks : Items H → Bytes
  | [] => []
  | .ok chunk :: rest => chunk ++ chunks rest
  | .error _ :: rest => chunks rest

theorem chunks_append (items more : Items H) :
    chunks (items ++ more) = chunks items ++ chunks more := by
  induction items with
  | nil => rfl
  | cons item rest ih => cases item <;> simp [chunks, ih]

theorem chunks_empty {items : Items H} (empty : ∀ item ∈ items, item = .ok []) :
    chunks items = [] := by
  induction items with
  | nil => rfl
  | cons item rest ih =>
    rw [empty item List.mem_cons_self]
    exact ih fun item listed => empty item (List.mem_cons_of_mem _ listed)

def emptyChunk : Except H Bytes → Bool
  | .ok [] => true
  | _ => false

theorem eq_of_emptyChunk {item : Except H Bytes} (empty : emptyChunk item) : item = .ok [] := by
  rcases item with _ | _ | _
  · cases empty
  · rfl
  · cases empty

theorem eq_of_mem_takeWhile {items : Items H} {item : Except H Bytes}
    (listed : item ∈ items.takeWhile emptyChunk) : item = .ok [] :=
  eq_of_emptyChunk (List.mem_takeWhile_imp listed)

/-- One call of `read`, and the items it has pulled. -/
structure Exact (r : BodyReader H) (buf : Bytes) (pulled : Items H) : Prop where
  items : r.body.inner = pulled ++ (read r buf).reader.body.inner
  bytes : (read r buf).delivered ++ (read r buf).reader.prev_bytes = r.prev_bytes ++ chunks pulled
  /-- Nothing has been delivered when an item is pulled. -/
  pulls : pulled ≠ [] → buf ≠ [] ∧ r.prev_bytes = [] ∧ ∀ item ∈ pulled.dropLast, item = .ok []
  length : (read r buf).buf.length = buf.length
  count : ∀ n, (read r buf).result = .ok n →
    n ≤ buf.length ∧ (read r buf).buf.drop n = buf.drop n
  ended : buf ≠ [] → ((read r buf).result = .ok 0 ↔
    r.prev_bytes = [] ∧ r.body.inner.dropWhile emptyChunk = [])
  failed : buf ≠ [] → ∀ e, (read r buf).result = .error e ↔ r.prev_bytes = [] ∧
    ∃ err rest, e = ⟨.other, err⟩ ∧ r.body.inner.dropWhile emptyChunk = .error err :: rest
  /-- An error is passed on alone. -/
  passed : ∀ e, (read r buf).result = .error e → (read r buf).buf = buf ∧
    (read r buf).reader.prev_bytes = [] ∧
    ∃ err, pulled = r.body.inner.takeWhile emptyChunk ++ [.error err]

theorem exact_full : Exact r [] [] := by
  constructor <;> simp [read_full, Outcome.delivered, chunks]

theorem exact_carried (room : buf ≠ []) (carried : r.prev_bytes ≠ []) : Exact r buf [] := by
  have call := read_carried room carried
  have copied : (r.prev_bytes.take buf.length).length = min buf.length r.prev_bytes.length :=
    List.length_take
  constructor
  · rw [call]
    rfl
  · rw [call, Outcome.delivered_ok rfl, List.take_left' copied, List.take_append_drop, chunks,
      List.append_nil]
  · exact fun pulled => absurd rfl pulled
  · rw [call]
    simp only [List.length_append, List.length_drop, copied]
    omega
  · intro n result
    rw [call] at result ⊢
    cases result
    refine ⟨Nat.min_le_left _ _, ?_⟩
    rw [List.drop_left' copied]
    rcases Nat.le_total buf.length r.prev_bytes.length with fits | short
    · rw [Nat.min_eq_left fits, List.drop_eq_nil_of_le fits, List.drop_length]
    · rw [Nat.min_eq_right short]
  · intro _
    rw [call]
    simp [carried, room]
  · intro _ e
    rw [call]
    simp [carried]
  · intro e result
    rw [call] at result
    cases result

/-- The empty chunks at the front are passed over. -/
theorem read_dropWhile (room : buf ≠ []) (items : Items H) :
    read (⟨⟨items⟩, []⟩ : BodyReader H) buf =
      read ⟨⟨items.dropWhile emptyChunk⟩, []⟩ buf := by
  induction items with
  | nil => rfl
  | cons item rest ih =>
    by_cases empty : emptyChunk item
    · rw [List.dropWhile_cons_of_pos empty, eq_of_emptyChunk empty, read_chunk room, ih]
    · rw [List.dropWhile_cons_of_neg empty]

theorem exact_end (room : buf ≠ []) : Exact (⟨⟨[]⟩, []⟩ : BodyReader H) buf [] := by
  have call := read_end (H := H) room
  constructor <;> simp [call, Outcome.delivered, chunks]

theorem exact_error (room : buf ≠ []) :
    Exact (⟨⟨.error err :: rest⟩, []⟩ : BodyReader H) buf [.error err] := by
  have call : read (⟨⟨.error err :: rest⟩, []⟩ : BodyReader H) buf = _ := read_error room
  constructor
  case failed => simp [call, emptyChunk, eq_comm]
  all_goals simp [call, Outcome.delivered, chunks, room, emptyChunk]

theorem exact_chunk (room : buf ≠ []) (filled : chunk ≠ []) :
    Exact (⟨⟨.ok chunk :: rest⟩, []⟩ : BodyReader H) buf [.ok chunk] := by
  have call : read (⟨⟨.ok chunk :: rest⟩, []⟩ : BodyReader H) buf = _ := read_chunk room
  have carried : Exact (⟨⟨rest⟩, chunk⟩ : BodyReader H) buf [] := exact_carried room filled
  have kept : emptyChunk (.ok chunk : Except H Bytes) = false := by
    cases chunk with
    | nil => exact absurd rfl filled
    | cons byte bytes => rfl
  constructor
  · rw [call]
    exact congrArg (.ok chunk :: ·) carried.items
  · rw [call, carried.bytes]
    rfl
  · exact fun _ => ⟨room, rfl, by simp⟩
  · rw [call, carried.length]
  · rw [call]
    exact carried.count
  · intro _
    rw [call, carried.ended room]
    simp [filled, kept]
  · intro _ e
    rw [call, carried.failed room e]
    simp [filled, kept]
  · intro e result
    rw [call] at result
    exact absurd ((carried.failed room e).mp result).1 filled

theorem takeWhile_dropWhile (items : Items H) :
    (items.dropWhile emptyChunk).takeWhile emptyChunk = [] := by
  induction items with
  | nil => rfl
  | cons item rest ih => by_cases empty : emptyChunk item <;> simp [empty, ih]

theorem exact_empties (room : buf ≠ []) {items pulled : Items H}
    (law : Exact (⟨⟨items.dropWhile emptyChunk⟩, []⟩ : BodyReader H) buf pulled) :
    Exact (⟨⟨items⟩, []⟩ : BodyReader H) buf (items.takeWhile emptyChunk ++ pulled) := by
  have call := read_dropWhile room items
  have no_bytes : chunks (items.takeWhile emptyChunk) = [] :=
    chunks_empty fun _ listed => eq_of_mem_takeWhile listed
  constructor
  · rw [call, List.append_assoc, ← law.items]
    exact List.takeWhile_append_dropWhile.symm
  · rw [call, law.bytes, chunks_append, no_bytes]
    rfl
  · refine fun _ => ⟨room, rfl, fun item listed => ?_⟩
    by_cases more : pulled = []
    · rw [more, List.append_nil] at listed
      exact eq_of_mem_takeWhile (List.mem_of_mem_dropLast listed)
    · rw [List.dropLast_append_of_ne_nil more, List.mem_append] at listed
      exact listed.elim eq_of_mem_takeWhile fun last => (law.pulls more).2.2 item last
  · rw [call, law.length]
  · rw [call]
    exact law.count
  · intro _
    rw [call, law.ended room, List.dropWhile_idempotent]
  · intro _ e
    rw [call, law.failed room e, List.dropWhile_idempotent]
  · intro e result
    rw [call] at result ⊢
    obtain ⟨same, used_up, err, last⟩ := law.passed e result
    rw [takeWhile_dropWhile, List.nil_append] at last
    exact ⟨same, used_up, err, by rw [last]⟩

theorem exact_pulling (room : buf ≠ []) (items : Items H) :
    ∃ pulled, Exact (⟨⟨items⟩, []⟩ : BodyReader H) buf pulled := by
  suffices ∃ pulled, Exact (⟨⟨items.dropWhile emptyChunk⟩, []⟩ : BodyReader H) buf pulled by
    obtain ⟨pulled, law⟩ := this
    exact ⟨_, exact_empties room law⟩
  have front := List.head?_dropWhile_not emptyChunk items
  generalize items.dropWhile emptyChunk = tail at front ⊢
  rcases tail with _ | ⟨err | chunk, rest⟩
  · exact ⟨_, exact_end room⟩
  · exact ⟨_, exact_error room⟩
  · refine ⟨_, exact_chunk room ?_⟩
    rintro rfl
    cases front

theorem exists_exact (r : BodyReader H) (buf : Bytes) : ∃ pulled, Exact r buf pulled := by
  by_cases room : buf = []
  · subst room
    exact ⟨[], exact_full⟩
  · by_cases carried : r.prev_bytes = []
    · obtain ⟨⟨items⟩, prev_bytes⟩ := r
      subst carried
      exact exact_pulling room items
    · exact ⟨[], exact_carried room carried⟩

/-- A sequence of calls: the reader after them, and all they have delivered. -/
def reads (r : BodyReader H) : List Bytes → BodyReader H × Bytes
  | [] => (r, [])
  | buf :: rest =>
    let out := read r buf
    let (r', more) := reads out.reader rest
    (r', out.delivered ++ more)

theorem reads_law (r : BodyReader H) (bufs : List Bytes) :
    ∃ pulled, r.body.inner = pulled ++ (reads r bufs).1.body.inner ∧
      (reads r bufs).2 ++ (reads r bufs).1.prev_bytes = r.prev_bytes ++ chunks pulled := by
  induction bufs generalizing r with
  | nil => exact ⟨[], rfl, by simp [reads, chunks]⟩
  | cons buf rest ih =>
    obtain ⟨now, law⟩ := exists_exact r buf
    obtain ⟨later, items, bytes⟩ := ih (read r buf).reader
    refine ⟨now ++ later, ?_, ?_⟩
    · rw [law.items, items, List.append_assoc]
      rfl
    · calc
        (read r buf).delivered ++ (reads (read r buf).reader rest).2 ++
            (reads (read r buf).reader rest).1.prev_bytes
          = (read r buf).delivered ++ ((read r buf).reader.prev_bytes ++ chunks later) := by
            rw [List.append_assoc, bytes]
        _ = r.prev_bytes ++ chunks (now ++ later) := by
            rw [← List.append_assoc, law.bytes, chunks_append, List.append_assoc]

/-- Whatever the buffers, the calls deliver the chunks that they pull. -/
theorem read_delivers_exactly (body : Body (Items H)) (bufs : List Bytes) (buf : Bytes) :
    let s := reads (reader body) bufs
    (∃ pulled, body.inner = pulled ++ s.1.body.inner ∧ s.2 ++ s.1.prev_bytes = chunks pulled) ∧
      ∃ pulled, Exact s.1 buf pulled :=
  ⟨reads_law (reader body) bufs, exists_exact _ buf⟩

/-! ## Readers that are dropped -/

/-- A body, or the one reader that borrows it. -/
inductive Session (H : Type u) where
  | free (body : Body (Items H))
  | reading (r : BodyReader H)

inductive Op where
  | reader
  | read (buf : Bytes)
  | drop
  | next

namespace Session

def items : Session H → Items H
  | .free body => body.inner
  | .reading r => r.body.inner

/-- What the present reader carries. -/
def carried : Session H → Bytes
  | .free _ => []
  | .reading r => r.prev_bytes

def enabled : Session H → Op → Prop
  | .free _, .reader => True
  | .free _, .next => True
  | .reading _, .read _ => True
  | .reading _, .drop => True
  | _, _ => False

/-- `BodyReader` has no `Drop`: what it carries goes with it. -/
def effect : Session H → Op → Session H
  | .free body, .reader => .reading (BodyReading.reader body)
  | .free body, .next => .free (BodyReading.next body).2
  | .reading r, .read buf => .reading (BodyReading.read r buf).reader
  | .reading r, .drop => .free r.body
  | s, _ => s

def system : System (Session H) Op := ⟨enabled, effect⟩

/-- The bytes that the program gets. -/
def obtained : Session H × Op → Bytes
  | (.free body, .next) =>
    match (BodyReading.next body).1 with
    | some (.ok chunk) => chunk
    | _ => []
  | (.reading r, .read buf) => (BodyReading.read r buf).delivered
  | _ => []

def lost : Session H × Op → Bytes
  | (.reading r, .drop) => r.prev_bytes
  | _ => []

/-- The body reports its end: a pull gives nothing, or a read no bytes. -/
def Ends : Session H → Op → Prop
  | .free body, .next => (BodyReading.next body).1 = none
  | .reading r, .read buf => buf ≠ [] ∧ (BodyReading.read r buf).result = .ok 0
  | _, _ => False

variable {s t : Session H} {op : Op} {history : List (Session H × Op)}

theorem step_law (h : enabled s op) :
    ∃ pulled, s.items = pulled ++ (effect s op).items ∧
      obtained (s, op) ++ lost (s, op) ++ (effect s op).carried = s.carried ++ chunks pulled := by
  cases s with
  | free body =>
    cases op with
    | reader => exact ⟨[], rfl, rfl⟩
    | read buf => cases h
    | drop => cases h
    | next =>
      obtain ⟨_ | ⟨err | chunk, rest⟩⟩ := body
      · exact ⟨[], rfl, rfl⟩
      · exact ⟨[.error err], rfl, rfl⟩
      · exact ⟨[.ok chunk], rfl, by simp [obtained, lost, effect, carried, chunks]⟩
  | reading r =>
    cases op with
    | reader => cases h
    | read buf =>
      obtain ⟨pulled, law⟩ := exists_exact r buf
      refine ⟨pulled, law.items, ?_⟩
      change (BodyReading.read r buf).delivered ++ [] ++ _ = _
      rw [List.append_nil]
      exact law.bytes
    | drop => exact ⟨[], rfl, by simp [obtained, lost, effect, carried, chunks]⟩
    | next => cases h

theorem run_law {body : Body (Items H)} (run : Run system (.free body) history t) :
    ∃ pulled, body.inner = pulled ++ t.items ∧
      history.flatMap (fun p => obtained p ++ lost p) ++ t.carried = chunks pulled := by
  refine run.history_invariant (fun history t => ∃ pulled, body.inner = pulled ++ t.items ∧
    history.flatMap (fun p => obtained p ++ lost p) ++ t.carried = chunks pulled)
    ⟨[], rfl, rfl⟩ ?_
  rintro past t op _ ⟨before, items, bytes⟩ h
  obtain ⟨now, items', bytes'⟩ := step_law h
  refine ⟨before ++ now, ?_, ?_⟩
  · rw [items, items', List.append_assoc]
    rfl
  · rw [List.flatMap_append, List.flatMap_singleton, List.append_assoc]
    exact (congrArg _ bytes').trans (by rw [← List.append_assoc, bytes, chunks_append])

theorem nothing_left (ends : Ends t op) : t.carried = [] ∧ chunks t.items = [] := by
  cases t with
  | free body =>
    cases op with
    | next =>
      obtain ⟨_ | ⟨_ | _, _⟩⟩ := body
      · exact ⟨rfl, rfl⟩
      · cases ends
      · cases ends
    | _ => cases ends
  | reading r =>
    cases op with
    | read buf =>
      obtain ⟨pulled, law⟩ := exists_exact r buf
      obtain ⟨used_up, blank⟩ := (law.ended ends.1).mp ends.2
      rw [List.dropWhile_eq_nil_iff] at blank
      exact ⟨used_up, chunks_empty fun item listed => eq_of_emptyChunk (blank item listed)⟩
    | _ => cases ends

theorem flatMap_obtained (kept : ∀ p ∈ history, lost p = []) :
    history.flatMap (fun p => obtained p ++ lost p) = history.flatMap obtained :=
  List.flatMap_congr fun p hp => by rw [kept p hp, List.append_nil]

theorem length_flatMap (history : List (Session H × Op)) :
    (history.flatMap fun p => obtained p ++ lost p).length =
      (history.flatMap obtained).length + (history.flatMap lost).length := by
  induction history with
  | nil => rfl
  | cons p rest ih =>
    simp only [List.flatMap_cons, List.length_append, ih]
    omega

/-- What a program gets is what it pulls without what the dropped readers carried. -/
theorem obtained_with_lost {body : Body (Items H)} (run : Run system (.free body) history t) :
    (∃ pulled, body.inner = pulled ++ t.items ∧
      history.flatMap (fun p => obtained p ++ lost p) ++ t.carried = chunks pulled) ∧
    ((∀ p ∈ history, lost p = []) → history.flatMap obtained <+: chunks body.inner) ∧
    ∀ op, Ends t op →
      (history.flatMap obtained = chunks body.inner ↔ ∀ p ∈ history, lost p = []) := by
  obtain ⟨pulled, items, bytes⟩ := run_law run
  refine ⟨⟨pulled, items, bytes⟩, ?_, ?_⟩
  · intro kept
    rw [flatMap_obtained kept] at bytes
    rw [items, chunks_append, ← bytes, List.append_assoc]
    exact List.prefix_append _ _
  · intro op ends
    obtain ⟨used_up, no_more⟩ := nothing_left ends
    have whole : history.flatMap (fun p => obtained p ++ lost p) = chunks body.inner := by
      rw [items, chunks_append, no_more, ← bytes, used_up, List.append_nil, List.append_nil]
    constructor
    · intro same
      have lengths := length_flatMap history
      rw [whole, ← same] at lengths
      have nothing : history.flatMap lost = [] := List.length_eq_zero_iff.mp (by omega)
      exact List.flatMap_eq_nil_iff.mp nothing
    · intro kept
      rw [← whole, flatMap_obtained kept]

def twoChunks : Body (Items Empty) := ⟨[.ok [1, 2], .ok [3]]⟩

/-- A reader takes the first chunk with a buffer of some size and is dropped. -/
def oneRead (buf : Bytes) : List Op := [.reader, .read buf, .drop, .next]

theorem oneRead_legal (buf : Bytes) : Legal system (.free twoChunks) (oneRead buf) :=
  ⟨trivial, trivial, trivial, trivial, trivial⟩

theorem read_twoChunks {buf : Bytes} (room : buf ≠ []) :
    BodyReading.read (BodyReading.reader twoChunks) buf =
      ⟨⟨⟨[.ok [3]]⟩, [1, 2].drop buf.length⟩, [1, 2].take buf.length ++ buf.drop 2,
        .ok (min buf.length 2)⟩ := by
  rw [BodyReading.reader, twoChunks, read_chunk room, read_carried room (by simp)]
  rfl

theorem obtained_with_lost_aligned :
    (transitions system (.free twoChunks) (oneRead [0, 0])).flatMap obtained =
      chunks twoChunks.inner := by
  have call := read_twoChunks (List.cons_ne_nil 0 [0])
  have ends : Ends (final system (.free twoChunks) (oneRead [0, 0])) .next := by
    simp [oneRead, final, system, effect, Ends, call]
  refine ((obtained_with_lost (run_of_legal _ (oneRead_legal [0, 0]))).2.2 .next ends).mpr ?_
  simp [oneRead, transitions, system, effect, lost, call]

/-- One byte of the first chunk is never seen, although the body reports its end. -/
theorem drop_loses_bytes :
    ∃ history t, Run system (.free twoChunks) history t ∧ history.map Prod.snd = oneRead [0] ∧
      Ends t .next ∧ history.flatMap obtained = [1, 3] ∧ chunks twoChunks.inner = [1, 2, 3] ∧
      ¬ history.flatMap obtained <+: chunks twoChunks.inner := by
  have call := read_twoChunks (List.cons_ne_nil 0 [])
  have gets : (transitions system (.free twoChunks) (oneRead [0])).flatMap obtained = [1, 3] := by
    simp [oneRead, transitions, system, effect, obtained, call, Outcome.delivered]
  refine ⟨_, _, run_of_legal _ (oneRead_legal [0]), transitions_actions _, ?_, gets, rfl, ?_⟩
  · simp [oneRead, final, system, effect, Ends, call]
  · rw [gets]
    decide

end Session

end BodyReading
