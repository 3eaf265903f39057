import Mathlib.Logic.Function.Basic
import Mathlib.Data.List.Basic

/-!
Answers kept by key. Asking for keys in turn, each time for what is not kept yet, keeps
the same as asking at once for what was not kept at the start. And answers written back
to the places their questions came from.
-/
namespace Memo
variable {K V : Type} [DecidableEq K]

def ask (answer : K → Option V) (kept : K → Option V) (k : K) : K → Option V :=
  match kept k with
  | some _ => kept
  | none => Function.update kept k (answer k)

def filled (answer kept : K → Option V) (keys : List K) : K → Option V := fun k =>
  (kept k).or (if k ∈ keys then answer k else none)

theorem ask_at (answer kept : K → Option V) (k k' : K) :
    ask answer kept k k' = (kept k').or (if k' = k then answer k' else none) := by
  unfold ask
  cases there : kept k with
  | some v =>
    by_cases same : k' = k
    · subst same
      simp [there]
    · simp [same]
  | none =>
    by_cases same : k' = k
    · subst same
      simp [there]
    · simp [same]

theorem ask_in_turn (answer kept : K → Option V) (keys : List K) :
    keys.foldl (ask answer) kept = filled answer kept keys := by
  induction keys generalizing kept with
  | nil =>
    funext k
    simp [filled]
  | cons first keys ih =>
    rw [List.foldl_cons, ih]
    funext k
    rw [filled, filled, ask_at, Option.or_assoc]
    by_cases same : k = first
    · subst same
      cases answer k <;> simp
    · simp [same]

theorem written_at (answer kept : K → Option V) (keys : List K) (k : K) :
    keys.foldl (fun kept k => Function.update kept k (answer k)) kept k =
      if k ∈ keys then answer k else kept k := by
  induction keys generalizing kept with
  | nil => rfl
  | cons first keys ih =>
    rw [List.foldl_cons, ih]
    by_cases later : k ∈ keys
    · simp [later]
    · by_cases same : k = first
      · subst same
        simp [later]
      · simp [later, same]

theorem ask_at_once {answer kept : K → Option V} {keys asked : List K}
    (missing : ∀ k ∈ asked, k ∈ keys ∧ kept k = none)
    (rest : ∀ k ∈ keys, kept k = none → k ∈ asked ∨ answer k = none) :
    asked.foldl (fun kept k => Function.update kept k (answer k)) kept = filled answer kept keys := by
  funext k
  rw [written_at, filled]
  by_cases here : k ∈ asked
  · obtain ⟨listed, none_⟩ := missing k here
    simp [here, listed, none_]
  · rw [if_neg here]
    cases there : kept k with
    | some v => rfl
    | none =>
      by_cases listed : k ∈ keys
      · have silent := (rest k listed there).resolve_left here
        simp [listed, silent]
      · simp [listed]

theorem scattered_at {A : Type} (answers : Nat → A) (l : List A) (places : List Nat) (j : Nat) :
    (places.foldl (fun l i => l.set i (answers i)) l)[j]? =
      if j ∈ places ∧ j < l.length then some (answers j) else l[j]? := by
  induction places generalizing l with
  | nil => simp
  | cons first places ih =>
    rw [List.foldl_cons, ih, List.length_set]
    by_cases later : j ∈ places
    · by_cases within : j < l.length
      · simp [later, within]
      · simp [later, within]
    · by_cases same : j = first
      · subst same
        by_cases within : j < l.length
        · simp [later, within]
        · simp [later, within]
      · have apart : first ≠ j := fun is => same is.symm
        simp [later, same, List.getElem?_set_ne apart]

end Memo
