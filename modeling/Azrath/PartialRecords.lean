import Mathlib.Data.List.Nodup
import Mathlib.Logic.Function.Basic
import Mathlib.Tactic.Common

/-!
# Records with missing fields

A record is a function on its keys, and a partial record one whose fields may be
missing. A partial record is laid over another record, is collected field by
field when each field can fail, and is applied to a state by one setter for each
key. Setters overwrite each other, so the order of the keys counts.
-/

namespace PartialRecords

universe u v w x y
variable {K : Type u} {V : K → Type v}

/-- The fields of `m`, and those of `d` where they are missing. -/
def overlay (d : ∀ k, V k) (m : ∀ k, Option (V k)) (k : K) : V k := (m k).getD (d k)

/-! ## Collecting the fields -/

section Collecting
variable {E : Type w} (get : ∀ k, Except E (V k))

def firstError : List K → Option E
  | [] => none
  | k :: rest =>
    match get k with
    | .error err => some err
    | .ok _ => firstError rest

variable {get}

theorem firstError_eq_none_iff {keys : List K} :
    firstError get keys = none ↔ ∀ k ∈ keys, ∃ v, get k = .ok v := by
  induction keys with
  | nil => simp [firstError]
  | cons k rest ih =>
    cases field : get k with
    | error err => simp [firstError, field]
    | ok v => simp [firstError, field, ih]

/-- What a result that is no error holds. -/
def okValue {T : Type v} : (x : Except E T) → (∃ v, x = .ok v) → T
  | .ok v, _ => v
  | .error _, h => absurd h (by simp)

theorem ok_okValue {T : Type v} : ∀ (x : Except E T) (h : ∃ v, x = .ok v), x = .ok (okValue x h)
  | .ok _, _ => rfl
  | .error _, h => absurd h (by simp)

theorem exists_of_firstError {keys : List K} {err : E} (h : firstError get keys = some err) :
    ∃ k, get k = .error err := by
  induction keys with
  | nil => cases h
  | cons k rest ih =>
    cases field : get k with
    | error first =>
      simp only [firstError, field, Option.some.injEq] at h
      exact ⟨k, field.trans (congrArg _ h)⟩
    | ok v => exact ih (by simpa [firstError, field] using h)

variable (get) in
/-- The record whose fields are the results, unless one of them is an error. -/
def collect (keys : List K) (all : ∀ k, k ∈ keys) : Except E (∀ k, V k) :=
  match first : firstError get keys with
  | some err => .error err
  | none => .ok fun k => okValue (get k) (firstError_eq_none_iff.mp first k (all k))

theorem collect_eq_error_iff {keys : List K} {all : ∀ k, k ∈ keys} {err : E} :
    collect get keys all = .error err ↔ firstError get keys = some err := by
  unfold collect
  split <;> rename_i first <;> simp [first]

theorem collect_eq_ok_iff {keys : List K} {all : ∀ k, k ∈ keys} {r : ∀ k, V k} :
    collect get keys all = .ok r ↔ ∀ k, get k = .ok (r k) := by
  unfold collect
  split
  · rename_i err first
    constructor
    · intro h
      cases h
    · intro fields
      rw [firstError_eq_none_iff.mpr fun k _ => ⟨r k, fields k⟩] at first
      cases first
  · rename_i first
    constructor
    · intro h k
      cases h
      exact ok_okValue _ _
    · intro fields
      congr 1
      funext k
      exact Except.ok.inj ((ok_okValue _ _).symm.trans (fields k))

end Collecting

/-! ## Applying the fields -/

section Applying
variable {S : Type w} {A : Type x}

/-- One setter after the other, for the fields that are there. -/
def applyAll (set : ∀ k, V k → S → S) (m : ∀ k, Option (V k)) : List K → S → S
  | [], s => s
  | k :: rest, s =>
    match m k with
    | none => applyAll set m rest s
    | some v => applyAll set m rest (set k v s)

variable {set : ∀ k, V k → S → S} {m : ∀ k, Option (V k)}

/-- A view that only some setters touch needs only their keys. -/
theorem applyAll_filter (f : S → A) {touches : K → Bool}
    (kept : ∀ k, touches k = false → ∀ v s, f (set k v s) = f s)
    (reads : ∀ k v s s', f s = f s' → f (set k v s) = f (set k v s')) (keys : List K) (s : S) :
    f (applyAll set m keys s) = f (applyAll set m (keys.filter touches) s) := by
  have agree : ∀ (keys : List K) (s s' : S), f s = f s' →
      f (applyAll set m keys s) = f (applyAll set m (keys.filter touches) s') := by
    intro keys
    induction keys with
    | nil => exact fun _ _ same => same
    | cons k rest ih =>
      intro s s' same
      cases touched : touches k with
      | true =>
        simp only [List.filter_cons_of_pos, touched, applyAll]
        cases m k with
        | none => exact ih s s' same
        | some v => exact ih _ _ (reads k v s s' same)
      | false =>
        simp only [List.filter_cons_of_neg, touched, applyAll, Bool.false_eq_true,
          not_false_eq_true]
        cases m k with
        | none => exact ih s s' same
        | some v => exact ih _ _ ((kept k touched v s).trans same)
  exact agree keys s s rfl

/-- What one setter overwrites and no other touches is the field of its key, if
that is there. -/
theorem applyAll_owned [DecidableEq K] (f : S → A) {k : K} {g : V k → A}
    (own : ∀ v s, f (set k v s) = g v) (others : ∀ k', k' ≠ k → ∀ v s, f (set k' v s) = f s)
    {keys : List K} (mem : k ∈ keys) (nodup : keys.Nodup) (s : S) :
    f (applyAll set m keys s) = ((m k).map g).getD (f s) := by
  have once : keys.filter (· == k) = [k] := by
    rw [List.filter_beq, List.count_eq_one_of_mem nodup mem]
    rfl
  have reads : ∀ k' v s s', f s = f s' → f (set k' v s) = f (set k' v s') := by
    intro k' v s s' same
    by_cases here : k' = k
    · subst here
      rw [own, own]
    · rw [others k' here, others k' here, same]
  have kept : ∀ k', (k' == k) = false → ∀ v s, f (set k' v s) = f s :=
    fun k' apart => others k' (by simpa using apart)
  rw [applyAll_filter f kept reads, once]
  simp only [applyAll]
  cases m k with
  | none => rfl
  | some v => exact own v s

end Applying

/-! ## Setters that may fail -/

section Failing
variable {S : Type w} {A : Type x} {E : Type y}

def tryAll (set : ∀ k, V k → S → Except E S) (m : ∀ k, Option (V k)) :
    List K → S → Except E S
  | [], s => .ok s
  | k :: rest, s =>
    match m k with
    | none => tryAll set m rest s
    | some v =>
      match set k v s with
      | .error err => .error err
      | .ok s => tryAll set m rest s

/-- Each setter takes the values that `accepts` allows, and is then seen through
`f` as the total setter `effect`. -/
structure Realises (set : ∀ k, V k → S → Except E S) (accepts : ∀ k, V k → Prop)
    (f : S → A) (effect : ∀ k, V k → A → A) : Prop where
  takes : ∀ k v s, accepts k v → ∃ s', set k v s = .ok s' ∧ f s' = effect k v (f s)
  refuses : ∀ k v s, ¬ accepts k v → ∃ err, set k v s = .error err

variable {set : ∀ k, V k → S → Except E S} {accepts : ∀ k, V k → Prop} {f : S → A}
variable {effect : ∀ k, V k → A → A} {m : ∀ k, Option (V k)}

theorem tryAll_accepted (real : Realises set accepts f effect) {keys : List K}
    (h : ∀ k ∈ keys, ∀ v, m k = some v → accepts k v) (s : S) :
    ∃ s', tryAll set m keys s = .ok s' ∧ f s' = applyAll effect m keys (f s) := by
  induction keys generalizing s with
  | nil => exact ⟨s, rfl, rfl⟩
  | cons k rest ih =>
    have later : ∀ s, ∃ s', tryAll set m rest s = .ok s' ∧ f s' = applyAll effect m rest (f s) :=
      ih fun k' mem => h k' (List.mem_cons_of_mem k mem)
    simp only [tryAll, applyAll]
    cases field : m k with
    | none => exact later s
    | some v =>
      obtain ⟨next, done, view⟩ := real.takes k v s (h k List.mem_cons_self v field)
      simpa only [done, view] using later next

theorem accepted_of_tryAll (real : Realises set accepts f effect) {keys : List K} {s s' : S}
    (done : tryAll set m keys s = .ok s') {k : K} (mem : k ∈ keys) {v : V k}
    (field : m k = some v) : accepts k v := by
  induction keys generalizing s with
  | nil => cases mem
  | cons first rest ih =>
    rw [tryAll] at done
    by_contra refused
    rcases List.mem_cons.mp mem with rfl | mem
    · obtain ⟨err, failed⟩ := real.refuses k v s refused
      simp only [field, failed] at done
      cases done
    · split at done
      · exact refused (ih done mem)
      · split at done
        · cases done
        · exact refused (ih done mem)

/-- The setters all go through exactly when every field that is there is accepted. -/
theorem tryAll_ok_iff (real : Realises set accepts f effect) {keys : List K} {s : S} :
    (∃ s', tryAll set m keys s = .ok s') ↔ ∀ k ∈ keys, ∀ v, m k = some v → accepts k v :=
  ⟨fun ⟨_, done⟩ _ mem _ field => accepted_of_tryAll real done mem field,
    fun h => (tryAll_accepted real h s).imp fun _ => And.left⟩

theorem view_of_tryAll (real : Realises set accepts f effect) {keys : List K} {s s' : S}
    (done : tryAll set m keys s = .ok s') : f s' = applyAll effect m keys (f s) := by
  obtain ⟨s'', again, view⟩ := tryAll_accepted real
    (fun k mem v field => accepted_of_tryAll real done mem field) s
  have same : s' = s'' := Except.ok.inj (done.symm.trans again)
  rw [same, view]

end Failing

/-! ## Building field by field -/

/-- A record that is written at each of some keys holds what was written. -/
theorem foldl_update [DecidableEq K] (r : ∀ k, V k) {k : K} (keys : List K) (start : ∀ k, V k)
    (h : k ∈ keys ∨ start k = r k) :
    keys.foldl (fun m k => Function.update m k (r k)) start k = r k := by
  induction keys generalizing start with
  | nil => simpa using h
  | cons first rest ih =>
    apply ih
    by_cases same : k = first
    · subst same
      exact Or.inr (Function.update_self k (r k) start)
    · simpa [same, Function.update_of_ne same] using h

end PartialRecords
