import Mathlib.Data.List.Basic
import Mathlib.Tactic.Common

/-!
# Lists of threads under one update

A thread keeps its position for life, so the threads of a process are a list
that only grows at its end. One step rewrites one entry. The lemmas say what
such a step does to a count of threads and to what the threads carry.
-/

namespace ThreadLists

universe u v

variable {W : Type u} {T : Type v}

/-- One rewritten entry, in the additive form that `omega` reads. -/
theorem countP_set (p : W → Bool) {threads : List W} {i : Nat} {old : W}
    (h : threads[i]? = some old) (new : W) :
    (threads.set i new).countP p + (p old).toNat = threads.countP p + (p new).toNat := by
  induction threads generalizing i with
  | nil => simp at h
  | cons w rest ih =>
    cases i with
    | zero =>
      have hw : w = old := by simpa using h
      subst hw
      cases hp : p w <;> cases hn : p new <;> simp [hp, hn]
    | succ i =>
      have tail := ih (by simpa using h)
      simp only [List.set_cons_succ, List.countP_cons]
      omega

theorem countP_set_same {p : W → Bool} {threads : List W} {i : Nat} {old new : W}
    (h : threads[i]? = some old) (same : p new = p old) :
    (threads.set i new).countP p = threads.countP p := by
  have change := countP_set p h new
  rw [same] at change
  omega

theorem countP_snoc (p : W → Bool) (threads : List W) (new : W) :
    (threads ++ [new]).countP p = threads.countP p + (p new).toNat := by
  cases hp : p new <;> simp [hp]

theorem countP_pos_of_get {p : W → Bool} {threads : List W} {i : Nat} {w : W}
    (h : threads[i]? = some w) (hp : p w = true) : 0 < threads.countP p :=
  List.countP_pos_iff.mpr ⟨w, List.mem_of_getElem? h, hp⟩

theorem countP_eq_zero_iff {p : W → Bool} {threads : List W} :
    threads.countP p = 0 ↔ ∀ w ∈ threads, p w = false := by
  simp [List.countP_eq_zero]

theorem filterMap_snoc (f : W → Option T) (threads : List W) (new : W) :
    (threads ++ [new]).filterMap f = threads.filterMap f ++ (f new).toList := by
  cases hf : f new <;> simp [hf]

/-- What the threads carry changes by what the rewritten entry gives up and takes. -/
theorem filterMap_set_perm (f : W → Option T) {threads : List W} {i : Nat} {old : W}
    (h : threads[i]? = some old) (new : W) :
    ((f old).toList ++ (threads.set i new).filterMap f).Perm
      ((f new).toList ++ threads.filterMap f) := by
  have head : ∀ (w : W) (rest : List W), (w :: rest).filterMap f =
      (f w).toList ++ rest.filterMap f := by
    intro w rest
    cases hw : f w <;> simp [hw]
  induction threads generalizing i with
  | nil => simp at h
  | cons w rest ih =>
    cases i with
    | zero =>
      have hw : w = old := by simpa using h
      subst hw
      rw [List.set_cons_zero, head, head]
      exact List.perm_append_comm_assoc _ _ _
    | succ i =>
      have tail := ih (by simpa using h)
      rw [List.set_cons_succ, head, head]
      apply (List.perm_append_comm_assoc _ _ _).trans
      exact (tail.append_left _).trans (List.perm_append_comm_assoc _ _ _)

/-! ## What one thread shows -/

theorem bind_set (f : W → Option T) {threads : List W} {i : Nat} {old : W}
    (h : threads[i]? = some old) (new : W) (j : Nat) :
    ((threads.set i new)[j]?).bind f = if j = i then f new else (threads[j]?).bind f := by
  have bound : i < threads.length := (List.getElem?_eq_some_iff.mp h).1
  by_cases same : j = i
  · subst same
    simp [bound]
  · rw [List.getElem?_set_ne (Ne.symm same), if_neg same]

theorem bind_set_same (f : W → Option T) {threads : List W} {i : Nat} {old new : W}
    (h : threads[i]? = some old) (same : f new = f old) (j : Nat) :
    ((threads.set i new)[j]?).bind f = (threads[j]?).bind f := by
  rw [bind_set f h]
  by_cases here : j = i
  · rw [if_pos here, here, h]
    exact same
  · exact if_neg here

/-- A new thread that shows nothing cannot be told from none. -/
theorem bind_snoc (f : W → Option T) (threads : List W) {new : W} (h : f new = none) (j : Nat) :
    ((threads ++ [new])[j]?).bind f = (threads[j]?).bind f := by
  rcases Nat.lt_trichotomy j threads.length with old | last | beyond
  · rw [List.getElem?_append_left old]
  · subst last
    simp [h]
  · rw [List.getElem?_eq_none (by simp; omega), List.getElem?_eq_none (by omega)]

end ThreadLists
