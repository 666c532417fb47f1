import Azrath.BodyReading
import Azrath.ReaderStreams

/-!
# From a reader to a body and back

`BodyReader` is a reader of the chunks of its body, up to the first error of the
body, so `read_to_end` on it can be told from the body alone. A body made by
`wrap_reader` has the bytes that its stream has taken from the reader it was made
from, and its error.
-/

namespace BodyRoundTrips

open BodyForwarding (Body)
open ByteReaders ErrorTypes BodyReading ReaderStreams

universe u
variable {H R X : Type u}

/-- The chunks before the first error. -/
def beforeError : Items H → Bytes
  | .ok chunk :: rest => chunk ++ beforeError rest
  | _ => []

def error? {α : Type} : Except H α → Option H
  | .ok _ => none
  | .error err => some err

/-- How a reading up to the end goes out; `wrap` is what becomes of the error. -/
def ending {E : Type u} {α : Type} (wrap : H → E) (items : List (Except H α)) : Except E Unit :=
  (items.findSome? error?).elim (.ok ()) fun err => .error (wrap err)

/-- What a `BodyReader` has still to say. -/
def said (r : BodyReader H) : Bytes × Except (IoError H) Unit :=
  (r.prev_bytes ++ beforeError r.body.inner, ending (fun err => ⟨.other, err⟩) r.body.inner)

theorem said_chunk (chunk : Bytes) (rest : Items H) :
    said (⟨⟨.ok chunk :: rest⟩, []⟩ : BodyReader H) = said ⟨⟨rest⟩, chunk⟩ := rfl

/-- One call takes its bytes, or its error, from the front. -/
structure Front (r : BodyReader H) (buf : Bytes) : Prop where
  ended : (read r buf).result = .ok 0 → said r = ([], .ok ())
  gave : ∀ n, (read r buf).result = .ok (n + 1) → said r =
    ((read r buf).delivered ++ (said (read r buf).reader).1, (said (read r buf).reader).2)
  failed : ∀ e, (read r buf).result = .error e → said r = ([], .error e)
  fatal : ∀ e, (read r buf).result = .error e → interrupted e = false

variable {r : BodyReader H} {buf : Bytes}

theorem front_carried (room : buf ≠ []) (carried : r.prev_bytes ≠ []) : Front r buf := by
  have call := read_carried room carried
  have copied : (r.prev_bytes.take buf.length).length = min buf.length r.prev_bytes.length :=
    List.length_take
  have some_room := List.length_pos_iff.mpr room
  have some_byte := List.length_pos_iff.mpr carried
  constructor
  · intro result
    rw [call, Except.ok.injEq] at result
    omega
  · intro n result
    rw [call, Outcome.delivered_ok rfl, List.take_left' copied]
    simp only [said]
    rw [← List.append_assoc, List.take_append_drop]
  · intro e result
    rw [call] at result
    cases result
  · intro e result
    rw [call] at result
    cases result

theorem front_pulling (room : buf ≠ []) (items : Items H) :
    Front (⟨⟨items⟩, []⟩ : BodyReader H) buf := by
  induction items with
  | nil =>
    have call : read (⟨⟨[]⟩, []⟩ : BodyReader H) buf = _ := read_end room
    constructor
    · exact fun _ => rfl
    · intro n result
      rw [call] at result
      cases result
    · intro e result
      rw [call] at result
      cases result
    · intro e result
      rw [call] at result
      cases result
  | cons item rest ih =>
    cases item with
    | error err =>
      have call : read (⟨⟨.error err :: rest⟩, []⟩ : BodyReader H) buf = _ := read_error room
      constructor
      · intro result
        rw [call] at result
        cases result
      · intro n result
        rw [call] at result
        cases result
      · intro e result
        rw [call] at result
        cases result
        rfl
      · intro e result
        rw [call] at result
        cases result
        rfl
    | ok chunk =>
      have call : read (⟨⟨.ok chunk :: rest⟩, []⟩ : BodyReader H) buf = _ := read_chunk room
      have later : Front (⟨⟨rest⟩, chunk⟩ : BodyReader H) buf := by
        by_cases empty : chunk = []
        · subst empty
          exact ih
        · exact front_carried room empty
      constructor
      · rw [call, said_chunk]
        exact later.ended
      · rw [call, said_chunk]
        exact later.gave
      · rw [call, said_chunk]
        exact later.failed
      · rw [call]
        exact later.fatal

theorem front (r : BodyReader H) (room : buf ≠ []) : Front r buf := by
  obtain ⟨⟨items⟩, prev_bytes⟩ := r
  by_cases carried : prev_bytes = []
  · subst carried
    exact front_pulling room items
  · exact front_carried room carried

variable {E : Type u} {source : Reader R E} {alloc : Alloc} {s : ReaderStream R}

/-- These are the items that the stream yields, one in each poll. -/
def Yields (source : Reader R E) (alloc : Alloc) (s : ReaderStream R) (items : Items E) : Prop :=
  ∀ k, s.item source alloc k = items[k]?

theorem Yields.unique {items items' : Items E} (yields : Yields source alloc s items)
    (yields' : Yields source alloc s items') : items = items' :=
  List.ext_getElem? fun k => (yields k).symm.trans (yields' k)

theorem Yields.length_le {items : Items E} (yields : Yields source alloc s items) {k : Nat}
    (ended : (s.after source alloc k).reader = none) : items.length ≤ k := by
  have spent := ReaderStream.item_of_ended ended (Nat.le_refl k)
  rw [yields k] at spent
  exact List.getElem?_eq_none_iff.mp spent

theorem Yields.ended {items : Items E} (yields : Yields source alloc s items) :
    (s.after source alloc (items.length + 1)).reader = none := by
  apply ReaderStream.ended_of_item
  rw [yields]
  exact List.getElem?_eq_none (Nat.le_refl _)

theorem Yields.yielded {items : Items E} (yields : Yields source alloc s items) (k : Nat) :
    s.yielded source alloc k = (items.take k).filterMap Except.toOption := by
  induction k with
  | zero => rfl
  | succ k ih =>
    rw [ReaderStream.yielded, yields k, ih, List.take_add_one, List.filterMap_append]
    rcases items[k]? with _ | e | chunk
    · simp
    · simp [Except.toOption]
    · simp [Except.toOption]

/-- An error is the last of the items. -/
def ErrorLast (items : Items E) : Prop :=
  ∀ j e, items[j]? = some (.error e) → items[j + 1]? = none

theorem ErrorLast.tail {item : Except E Bytes} {rest : Items E} (last : ErrorLast (item :: rest)) :
    ErrorLast rest := fun j => last (j + 1)

end BodyRoundTrips
