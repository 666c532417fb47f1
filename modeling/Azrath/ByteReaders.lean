import Mathlib.Data.List.Basic
import Mathlib.Tactic.Common

/-!
# Readers of bytes

A reader fills the front of the buffer it is given and says how many bytes it has
put there, or fails. Short reads are allowed and depend on the buffer, and so do
the errors that are only to be retried. Another consumer of the same reader is
compared with `read_to_end`, which may choose its buffers as it likes.
-/

namespace ByteReaders

universe u
variable {R E : Type u}

abbrev Bytes := List UInt8

structure Outcome (R E : Type u) where
  reader : R
  buf : Bytes
  result : Except E Nat

namespace Outcome

/-- What one call of `read` has delivered. -/
def delivered (out : Outcome R E) : Bytes :=
  match out.result with
  | .ok n => out.buf.take n
  | .error _ => []

theorem delivered_ok {out : Outcome R E} {n : Nat} (h : out.result = .ok n) :
    out.delivered = out.buf.take n := by
  simp [delivered, h]

theorem delivered_error {out : Outcome R E} {e : E} (h : out.result = .error e) :
    out.delivered = [] := by
  simp [delivered, h]

end Outcome

/-- `std::io::Read` with what its contract says of the count. -/
structure Reader (R E : Type u) where
  read : R → Bytes → Outcome R E
  length_eq : ∀ r buf, (read r buf).buf.length = buf.length
  count_le : ∀ r buf n, (read r buf).result = .ok n → n ≤ buf.length

variable {reader : Reader R E}

theorem Reader.length_delivered (r : R) (buf : Bytes) {n : Nat}
    (h : (reader.read r buf).result = .ok n) : (reader.read r buf).delivered.length = n := by
  rw [Outcome.delivered_ok h, List.length_take, reader.length_eq]
  exact Nat.min_eq_left (reader.count_le r buf n h)

/-- What reads of these buffers, one after another, come to. -/
def Reader.outcomes (reader : Reader R E) : R → List Bytes → List (Outcome R E)
  | _, [] => []
  | r, buf :: rest => reader.read r buf :: reader.outcomes (reader.read r buf).reader rest

def Reader.afterReads (reader : Reader R E) : R → List Bytes → R
  | r, [] => r
  | r, buf :: rest => reader.afterReads (reader.read r buf).reader rest

theorem Reader.outcomes_append (r : R) (bufs later : List Bytes) :
    reader.outcomes r (bufs ++ later) =
      reader.outcomes r bufs ++ reader.outcomes (reader.afterReads r bufs) later := by
  induction bufs generalizing r with
  | nil => rfl
  | cons buf rest ih => exact congrArg _ (ih _)

theorem Reader.afterReads_append (r : R) (bufs later : List Bytes) :
    reader.afterReads r (bufs ++ later) = reader.afterReads (reader.afterReads r bufs) later := by
  induction bufs generalizing r with
  | nil => rfl
  | cons buf rest ih => exact ih _

/-! ## `read_to_end` -/

/-- `std::io::Read::read_to_end`, by what it collects and how it goes out: errors
of the kind `retry` are ignored, any other ends the reading. The size of the next
buffer is at the discretion of the implementation, but never 0. -/
inductive ReadToEnd (reader : Reader R E) (retry : E → Bool) :
    R → Bytes → Except E Unit → Prop where
  | ended {r : R} {buf : Bytes} (room : buf ≠ [])
    (result : (reader.read r buf).result = .ok 0) : ReadToEnd reader retry r [] (.ok ())
  | failed {r : R} {buf : Bytes} {e : E} (room : buf ≠ [])
    (result : (reader.read r buf).result = .error e) (fatal : retry e = false) :
    ReadToEnd reader retry r [] (.error e)
  | again {r : R} {buf : Bytes} {e : E} {bytes : Bytes} {res : Except E Unit} (room : buf ≠ [])
    (result : (reader.read r buf).result = .error e) (passing : retry e = true)
    (rest : ReadToEnd reader retry (reader.read r buf).reader bytes res) :
    ReadToEnd reader retry r bytes res
  | gave {r : R} {buf : Bytes} {n : Nat} {bytes : Bytes} {res : Except E Unit} (room : buf ≠ [])
    (result : (reader.read r buf).result = .ok (n + 1))
    (rest : ReadToEnd reader retry (reader.read r buf).reader bytes res) :
    ReadToEnd reader retry r ((reader.read r buf).delivered ++ bytes) res

variable {retry : E → Bool} {r : R} {bytes bytes' : Bytes} {res res' : Except E Unit}

/-- What there is to be read does not depend on the buffers it is read with: a
call takes its bytes from the front of it, and an error that is to be retried may
come at any call and leaves it as it is. It need not come to an end. -/
structure Steady (reader : Reader R E) (retry : E → Bool) : Prop where
  ended : ∀ {r buf bytes res}, buf ≠ [] → (reader.read r buf).result = .ok 0 →
    ReadToEnd reader retry r bytes res → bytes = [] ∧ res = .ok ()
  failed : ∀ {r buf e bytes res}, buf ≠ [] → (reader.read r buf).result = .error e →
    retry e = false → ReadToEnd reader retry r bytes res → bytes = [] ∧ res = .error e
  again : ∀ {r buf e bytes res}, buf ≠ [] → (reader.read r buf).result = .error e →
    retry e = true → ReadToEnd reader retry r bytes res →
    ReadToEnd reader retry (reader.read r buf).reader bytes res
  gave : ∀ {r buf n bytes res}, buf ≠ [] → (reader.read r buf).result = .ok (n + 1) →
    ReadToEnd reader retry r bytes res →
    ∃ rest, bytes = (reader.read r buf).delivered ++ rest ∧
      ReadToEnd reader retry (reader.read r buf).reader rest res

/-- So `read_to_end` collects the same in whatever buffers. -/
theorem Steady.unique (steady : Steady reader retry) (reads : ReadToEnd reader retry r bytes res)
    (reads' : ReadToEnd reader retry r bytes' res') : bytes = bytes' ∧ res = res' := by
  induction reads generalizing bytes' with
  | ended room result =>
    obtain ⟨nothing, fine⟩ := steady.ended room result reads'
    exact ⟨nothing.symm, fine.symm⟩
  | failed room result fatal =>
    obtain ⟨nothing, fails⟩ := steady.failed room result fatal reads'
    exact ⟨nothing.symm, fails.symm⟩
  | again room result passing rest ih => exact ih (steady.again room result passing reads')
  | gave room result rest ih =>
    obtain ⟨rest', rfl, later⟩ := steady.gave room result reads'
    obtain ⟨rfl, same⟩ := ih later
    exact ⟨rfl, same⟩

/-- What the reader has to say from each of its states on: finitely many bytes,
and its end of file or an error. -/
structure Tells (reader : Reader R E) (retry : E → Bool) (tells : R → Bytes × Except E Unit) :
    Prop where
  ended : ∀ r buf, buf ≠ [] → (reader.read r buf).result = .ok 0 → tells r = ([], .ok ())
  failed : ∀ r buf e, buf ≠ [] → (reader.read r buf).result = .error e → retry e = false →
    tells r = ([], .error e)
  again : ∀ r buf e, buf ≠ [] → (reader.read r buf).result = .error e → retry e = true →
    tells r = tells (reader.read r buf).reader
  gave : ∀ r buf n, buf ≠ [] → (reader.read r buf).result = .ok (n + 1) →
    tells r = ((reader.read r buf).delivered ++ (tells (reader.read r buf).reader).1,
      (tells (reader.read r buf).reader).2)

namespace Tells

variable {tells : R → Bytes × Except E Unit}

/-- `read_to_end` collects nothing else. -/
theorem eq_of_reads (law : Tells reader retry tells) (reads : ReadToEnd reader retry r bytes res) :
    tells r = (bytes, res) := by
  induction reads with
  | ended room result => exact law.ended _ _ room result
  | failed room result fatal => exact law.failed _ _ _ room result fatal
  | again room result passing rest ih => rw [law.again _ _ _ room result passing, ih]
  | gave room result rest ih => rw [law.gave _ _ _ room result, ih]

/-- It does come to an end when the reader cannot go on being interrupted. -/
theorem reads (law : Tells reader retry tells) (patience : R → Nat)
    (tires : ∀ r buf e, buf ≠ [] → (reader.read r buf).result = .error e → retry e = true →
      patience (reader.read r buf).reader < patience r) (r : R) :
    ReadToEnd reader retry r (tells r).1 (tells r).2 := by
  induction amount : (tells r).1.length using Nat.strongRecOn generalizing r with
  | _ amount shorter =>
  induction left : patience r using Nat.strongRecOn generalizing r with
  | _ left calmer =>
  have room : [(0 : UInt8)] ≠ [] := List.cons_ne_nil _ _
  rcases result : (reader.read r [0]).result with e | _ | n
  · cases kind : retry e with
    | false =>
      rw [law.failed r _ e room result kind]
      exact .failed room result kind
    | true =>
      have same := law.again r _ e room result kind
      rw [same] at amount ⊢
      exact .again room result kind (calmer _ (left ▸ tires r _ e room result kind) _ amount rfl)
  · rw [law.ended r _ room result]
    exact .ended room result
  · have here := law.gave r _ n room result
    have delivered := reader.length_delivered r _ result
    rw [here] at amount ⊢
    rw [List.length_append] at amount
    exact .gave room result (shorter _ (by omega) _ rfl)

theorem steady (law : Tells reader retry tells)
    (reads : ∀ r, ReadToEnd reader retry r (tells r).1 (tells r).2) : Steady reader retry where
  ended room result collects := by
    have same := (law.eq_of_reads collects).symm.trans (law.ended _ _ room result)
    exact ⟨congrArg Prod.fst same, congrArg Prod.snd same⟩
  failed room result fatal collects := by
    have same := (law.eq_of_reads collects).symm.trans (law.failed _ _ _ room result fatal)
    exact ⟨congrArg Prod.fst same, congrArg Prod.snd same⟩
  again {r buf e bytes res} room result passing collects := by
    have same := (law.again _ _ _ room result passing).symm.trans (law.eq_of_reads collects)
    have next := reads (reader.read r buf).reader
    rwa [same] at next
  gave {r buf n bytes res} room result collects := by
    have same := (law.gave _ _ _ room result).symm.trans (law.eq_of_reads collects)
    have next := reads (reader.read r buf).reader
    obtain ⟨rfl, rfl⟩ := Prod.mk.inj same
    exact ⟨_, rfl, next⟩

end Tells

/-! ## Readers that follow a script -/

/-- What `read_to_end` collects of a script. -/
def gather (retry : E → Bool) : List (Except E UInt8) → Bytes × Except E Unit
  | [] => ([], .ok ())
  | .ok byte :: rest => (byte :: (gather retry rest).1, (gather retry rest).2)
  | .error e :: rest => if retry e then gather retry rest else ([], .error e)

theorem gather_append (retry : E → Bool) (bytes : Bytes) (rest : List (Except E UInt8)) :
    gather retry (bytes.map .ok ++ rest) =
      (bytes ++ (gather retry rest).1, (gather retry rest).2) := by
  induction bytes with
  | nil => rfl
  | cons byte bytes ih => simp [gather, ih]

/-- The bytes before the first error. -/
def leading : List (Except E UInt8) → Bytes
  | .ok byte :: rest => byte :: leading rest
  | _ => []

theorem map_leading (n : Nat) (script : List (Except E UInt8)) :
    script = ((leading script).take n).map .ok ++ script.drop ((leading script).take n).length := by
  induction script generalizing n with
  | nil => simp [leading]
  | cons item rest ih =>
    cases item with
    | error e => simp [leading]
    | ok byte =>
      cases n with
      | zero => simp
      | succ n =>
        have tail := ih n
        simp only [leading, List.take_succ_cons, List.map_cons, List.length_cons,
          List.drop_succ_cons, List.cons_append]
        rw [← tail]

/-- As many bytes of the script as fit, up to its first error. -/
def give (script : List (Except E UInt8)) (buf : Bytes) : Outcome (List (Except E UInt8)) E :=
  let given := (leading script).take buf.length
  ⟨script.drop given.length, given ++ buf.drop given.length, .ok given.length⟩

theorem delivered_give (script : List (Except E UInt8)) (buf : Bytes) :
    (give script buf).delivered = (leading script).take buf.length := by
  rw [Outcome.delivered_ok rfl]
  exact List.take_left

/-- The reader that gives what a script says. -/
def scripted (E : Type u) : Reader (List (Except E UInt8)) E where
  read script buf :=
    match script with
    | .error e :: rest => ⟨rest, buf, .error e⟩
    | _ => give script buf
  length_eq script buf := by
    rcases script with _ | ⟨e | byte, rest⟩
    · simp [give, leading]
    · rfl
    · simp only [give, List.length_append, List.length_take, List.length_drop]
      omega
  count_le script buf n h := by
    rcases script with _ | ⟨e | byte, rest⟩ <;> simp [give] at h <;> omega

/-- What it says is its script, and its errors are used up with it. -/
theorem scripted_tells (retry : E → Bool) : Tells (scripted E) retry (gather retry) where
  ended script buf room h := by
    rcases script with _ | ⟨e | byte, rest⟩
    · rfl
    · cases h
    · have given : ((leading (.ok byte :: rest : List (Except E UInt8))).take
          buf.length).length = 0 := Except.ok.inj h
      have room := List.length_pos_iff.mpr room
      simp only [leading, List.length_take, List.length_cons] at given
      omega
  failed script buf e room h fatal := by
    rcases script with _ | ⟨e | byte, rest⟩ <;> cases h
    simp [gather, fatal]
  again script buf e room h passing := by
    rcases script with _ | ⟨e | byte, rest⟩ <;> cases h
    simp [gather, passing, scripted]
  gave script buf n room h := by
    rcases script with _ | ⟨e | byte, rest⟩
    · simp [scripted, give, leading] at h
    · cases h
    · have given : ((scripted E).read (.ok byte :: rest) buf).delivered =
          (leading (.ok byte :: rest)).take buf.length := delivered_give _ buf
      rw [given, ← gather_append]
      exact congrArg _ (map_leading _ _)

theorem scripted_tires (script : List (Except E UInt8)) (buf : Bytes) (e : E)
    (result : ((scripted E).read script buf).result = .error e) :
    ((scripted E).read script buf).reader.length < script.length := by
  rcases script with _ | ⟨e | byte, rest⟩ <;> cases result
  exact Nat.lt_succ_self _

theorem scripted_reads (retry : E → Bool) (script : List (Except E UInt8)) :
    ReadToEnd (scripted E) retry script (gather retry script).1 (gather retry script).2 :=
  (scripted_tells retry).reads List.length
    (fun script buf e _ result _ => scripted_tires script buf e result) script

theorem scripted_steady (retry : E → Bool) : Steady (scripted E) retry :=
  (scripted_tells retry).steady (scripted_reads retry)

/-- A reader that is interrupted before every call that it does answer. -/
def interrupting (reader : Reader R E) (e : E) : Reader (R × Bool) E where
  read r buf :=
    if r.2 then ⟨(r.1, false), buf, .error e⟩
    else
      let out := reader.read r.1 buf
      ⟨(out.reader, true), out.buf, out.result⟩
  length_eq r buf := by
    split
    · rfl
    · exact reader.length_eq _ _
  count_le r buf n h := by
    split at h
    · cases h
    · exact reader.count_le _ _ n h

variable {tells : R → Bytes × Except E Unit} {e : E}

theorem interrupting_tells (law : Tells reader retry tells) (passing : retry e = true) :
    Tells (interrupting reader e) retry fun r => tells r.1 where
  ended r buf room h := by
    obtain ⟨r, _ | _⟩ := r
    · exact law.ended r buf room h
    · cases h
  failed r buf e' room h fatal := by
    obtain ⟨r, _ | _⟩ := r
    · exact law.failed r buf e' room h fatal
    · cases h
      cases fatal.symm.trans passing
  again r buf e' room h passing := by
    obtain ⟨r, _ | _⟩ := r
    · exact law.again r buf e' room h passing
    · rfl
  gave r buf n room h := by
    obtain ⟨r, _ | _⟩ := r
    · exact law.gave r buf n room h
    · cases h

theorem interrupting_reads (law : Tells reader retry tells) (passing : retry e = true)
    (patience : R → Nat)
    (tires : ∀ r buf e, buf ≠ [] → (reader.read r buf).result = .error e → retry e = true →
      patience (reader.read r buf).reader < patience r) (r : R × Bool) :
    ReadToEnd (interrupting reader e) retry r (tells r.1).1 (tells r.1).2 := by
  apply (interrupting_tells law passing).reads fun r => 2 * patience r.1 + r.2.toNat
  rintro ⟨r, _ | _⟩ buf e' room result kind
  · have := tires r buf e' room result kind
    simp only [interrupting, Bool.false_eq_true, if_false, Bool.toNat_true, Bool.toNat_false]
    omega
  · simp [interrupting]

/-- It keeps nothing from a caller who goes on. -/
theorem interrupting_scripted_steady {e : E} (passing : retry e = true) :
    Steady (interrupting (scripted E) e) retry :=
  (interrupting_tells (scripted_tells retry) passing).steady fun r =>
    interrupting_reads (scripted_tells retry) passing List.length
      (fun script buf e _ result _ => scripted_tires script buf e result) r

end ByteReaders
