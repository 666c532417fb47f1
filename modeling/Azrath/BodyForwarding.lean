import Azrath.ParkerModel

/-!
# The `HttpBody` implementation of `Body`

`Body` wraps `hyper::Body` and forwards the two polls to it; the two other
methods of the trait keep their defaults. The wrapped body is a parameter, and
so is what the outside supplies at each poll.
-/

namespace BodyForwarding

open ParkerModel (Poll)

universe u v
variable {B I E H : Type u}

abbrev Bytes := List UInt8

structure SizeHint where
  lower : Nat
  upper : Option Nat
  deriving DecidableEq

def SizeHint.default : SizeHint := ⟨0, none⟩

def SizeHint.with_exact (value : Nat) : SizeHint := ⟨value, some value⟩

/-- The trait with its default methods; a poll gets an input `I` from outside. -/
structure HttpBody (B I E H : Type u) where
  poll_data : B → I → B × Poll (Option (Except E Bytes))
  poll_trailers : B → I → B × Poll (Except E (Option H))
  is_end_stream : B → Bool := fun _ => false
  size_hint : B → SizeHint := fun _ => SizeHint.default

structure Body (B : Type u) where
  inner : B

def Body.new (from_bytes : Bytes → B) (data : Bytes) : Body B := ⟨from_bytes data⟩

/-- `impl HttpBody for Body`. -/
def Body.httpBody (hyper : HttpBody B I E H) : HttpBody (Body B) I E H where
  poll_data body i :=
    let (inner, res) := hyper.poll_data body.inner i
    (⟨inner⟩, res)
  poll_trailers body i :=
    let (inner, res) := hyper.poll_trailers body.inner i
    (⟨inner⟩, res)

inductive Request (I : Type u) where
  | data (i : I)
  | trailers (i : I)

/-- The body after a sequence of polls. -/
def HttpBody.after (ops : HttpBody B I E H) (body : B) : List (Request I) → B
  | [] => body
  | .data i :: rest => ops.after (ops.poll_data body i).1 rest
  | .trailers i :: rest => ops.after (ops.poll_trailers body i).1 rest

/-- The wrapper's polls are the wrapped body's polls. -/
theorem after_httpBody (hyper : HttpBody B I E H) (body : Body B) (polls : List (Request I)) :
    (Body.httpBody hyper).after body polls = ⟨hyper.after body.inner polls⟩ := by
  induction polls generalizing body with
  | nil => rfl
  | cons request rest ih => cases request <;> exact ih _

/-- No observation tells the two bodies apart. -/
structure Same {B' : Type u} (ops : HttpBody B I E H) (body : B) (ops' : HttpBody B' I E H)
    (body' : B') : Prop where
  poll_data : ∀ i, (ops.poll_data body i).2 = (ops'.poll_data body' i).2
  poll_trailers : ∀ i, (ops.poll_trailers body i).2 = (ops'.poll_trailers body' i).2
  is_end_stream : ops.is_end_stream body = ops'.is_end_stream body'
  size_hint : ops.size_hint body = ops'.size_hint body'

theorem same_iff (hyper : HttpBody B I E H) (body : Body B) :
    Same (Body.httpBody hyper) body hyper body.inner ↔
      hyper.is_end_stream body.inner = false ∧
        hyper.size_hint body.inner = SizeHint.default := by
  constructor
  · intro same
    exact ⟨same.is_end_stream.symm, same.size_hint.symm⟩
  · rintro ⟨more, unknown⟩
    exact ⟨fun _ => rfl, fun _ => rfl, more.symm, unknown.symm⟩

theorem with_exact_ne_default (value : Nat) : SizeHint.with_exact value ≠ SizeHint.default := by
  simp [SizeHint.with_exact, SizeHint.default]

/-- The wrapper is transparent exactly at the points where the wrapped body has
nothing to say about its end and its size. A body made from bytes is at no such
point before it is polled, and the wrapper never reports an end. -/
theorem transparent_iff (hyper : HttpBody B I E H) (from_bytes : Bytes → B)
    (exact : ∀ s, hyper.size_hint (from_bytes s) = SizeHint.with_exact s.length) :
    (∀ body polls,
      Same (Body.httpBody hyper) ((Body.httpBody hyper).after body polls) hyper
          (hyper.after body.inner polls) ↔
        hyper.is_end_stream (hyper.after body.inner polls) = false ∧
          hyper.size_hint (hyper.after body.inner polls) = SizeHint.default) ∧
    (∀ s, ¬ Same (Body.httpBody hyper) (Body.new from_bytes s) hyper (from_bytes s) ∧
      (Body.httpBody hyper).size_hint (Body.new from_bytes s) ≠ SizeHint.with_exact s.length) ∧
    ∀ body polls, (Body.httpBody hyper).is_end_stream ((Body.httpBody hyper).after body polls) =
      false := by
  refine ⟨?_, ?_, fun _ _ => rfl⟩
  · intro body polls
    rw [after_httpBody]
    exact same_iff hyper ⟨hyper.after body.inner polls⟩
  · intro s
    refine ⟨fun same => ?_, (with_exact_ne_default _).symm⟩
    have unknown := ((same_iff hyper (Body.new from_bytes s)).mp same).2
    exact with_exact_ne_default _ ((exact s).symm.trans unknown)

/-- A `hyper::Body` of the kind that is made from bytes: it yields them at once. -/
def once : HttpBody (Option Bytes) Unit Empty Empty where
  poll_data body _ := (none, .ready (body.map .ok))
  poll_trailers body _ := (body, .ready (.ok none))
  is_end_stream body := body.isNone
  size_hint body := SizeHint.with_exact (body.getD []).length

def once_from_bytes (data : Bytes) : Option Bytes := if data.isEmpty then none else some data

theorem once_exact (s : Bytes) :
    once.size_hint (once_from_bytes s) = SizeHint.with_exact s.length := by
  cases s <;> rfl

theorem transparent_iff_once :
    Same (Body.httpBody once) ((Body.httpBody once).after ⟨some [72, 105]⟩ [.data ()]) once
        (once.after (some [72, 105]) [.data ()]) ↔
      once.is_end_stream (once.after (some [72, 105]) [.data ()]) = false ∧
        once.size_hint (once.after (some [72, 105]) [.data ()]) = SizeHint.default :=
  (transparent_iff once once_from_bytes once_exact).1 ⟨some [72, 105]⟩ [.data ()]

/-- Two bytes: their number is not reported, and after them the end is not. -/
theorem length_and_end_hidden :
    once.size_hint (once_from_bytes [72, 105]) = SizeHint.with_exact 2 ∧
    (Body.httpBody once).size_hint (Body.new once_from_bytes [72, 105]) = SizeHint.default ∧
    ¬ Same (Body.httpBody once) (Body.new once_from_bytes [72, 105]) once
      (once_from_bytes [72, 105]) ∧
    once.is_end_stream (once.after (once_from_bytes [72, 105]) [.data ()]) = true ∧
    (Body.httpBody once).is_end_stream
      ((Body.httpBody once).after (Body.new once_from_bytes [72, 105]) [.data ()]) = false := by
  refine ⟨rfl, rfl, fun same => ?_, rfl, rfl⟩
  exact absurd same.size_hint (by decide)

end BodyForwarding
