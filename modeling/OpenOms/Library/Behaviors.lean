import OpenOms.Library.Runs

/-!
Endless runs of a step function, and what must happen in them. An action is fair
when it is taken again and again if it can be again and again. Nothing here knows
what the states or the actions are.
-/
namespace Behaviors
open Runs
variable {S A : Type} {step : S → A → Option S}

structure Behavior (step : S → A → Option S) where
  state : Nat → S
  act : Nat → A
  follows : ∀ n, step (state n) (act n) = some (state (n + 1))

/-- Possible again and again, and so taken again and again. -/
def Fair (b : Behavior step) (a : A) : Prop :=
  (∀ n, ∃ m, n ≤ m ∧ (step (b.state m) a).isSome = true) → ∀ n, ∃ m, n ≤ m ∧ b.act m = a

theorem always_from (b : Behavior step) {P : S → Prop}
    (keeps : ∀ s a t, P s → step s a = some t → P t) {n m : Nat} (later : n ≤ m)
    (now : P (b.state n)) : P (b.state m) := by
  induction later with
  | refl => exact now
  | step _ ih => exact keeps _ _ _ ih (b.follows _)

theorem stays_or_ends (b : Behavior step) {P : S → Prop} {Event : S → A → Prop}
    (keeps : ∀ s a t, P s → ¬ Event s a → step s a = some t → P t) {n : Nat}
    (now : P (b.state n)) :
    (∀ m, n ≤ m → P (b.state m) ∧ ¬ Event (b.state m) (b.act m)) ∨
      ∃ m, n ≤ m ∧ P (b.state m) ∧ Event (b.state m) (b.act m) := by
  by_cases ends : ∃ m, n ≤ m ∧ P (b.state m) ∧ Event (b.state m) (b.act m)
  · exact Or.inr ends
  · refine Or.inl ?_
    have no : ∀ m, n ≤ m → P (b.state m) → ¬ Event (b.state m) (b.act m) :=
      fun m later holds event => ends ⟨m, later, holds, event⟩
    intro m later
    induction later with
    | refl => exact ⟨now, no n (Nat.le_refl n) now⟩
    | @step m later ih =>
      have next := keeps _ _ _ ih.1 ih.2 (b.follows m)
      exact ⟨next, no _ (Nat.le_succ_of_le later) next⟩

/-- The rule for fair actions: what waits for the action, and lets it be taken in the
    end, sees it taken. -/
theorem fair_taken (b : Behavior step) {a : A} (fair : Fair b a) {P : S → Prop}
    (waits : ∀ s c t, P s → c ≠ a → step s c = some t → P t)
    (can : ∀ n, (∀ m, n ≤ m → P (b.state m)) → ∃ m, n ≤ m ∧ (step (b.state m) a).isSome = true)
    {n : Nat} (now : P (b.state n)) : ∃ m, n ≤ m ∧ P (b.state m) ∧ b.act m = a := by
  have both := stays_or_ends b (P := P) waits now
  cases both with
  | inr ends => exact ends
  | inl stays =>
    have often : ∀ k, ∃ m, k ≤ m ∧ (step (b.state m) a).isSome = true := by
      intro k
      obtain ⟨m, later, able⟩ := can (max n k) fun m later =>
        (stays m (Nat.le_trans (Nat.le_max_left n k) later)).1
      exact ⟨m, Nat.le_trans (Nat.le_max_right n k) later, able⟩
    obtain ⟨m, later, taken⟩ := fair often n
    exact absurd taken (stays m later).2

theorem fair_of_often {b : Behavior step} {a : A} (often : ∀ n, ∃ m, n ≤ m ∧ b.act m = a) :
    Fair b a := fun _ => often

theorem fair_of_never {b : Behavior step} {a : A} {n : Nat}
    (never : ∀ m, n ≤ m → step (b.state m) a = none) : Fair b a := by
  intro possible
  obtain ⟨m, later, able⟩ := possible n
  rw [never m later] at able
  cases able

def Behavior.cons (b : Behavior step) (s : S) (a : A) (first : step s a = some (b.state 0)) :
    Behavior step where
  state
    | 0 => s
    | n + 1 => b.state n
  act
    | 0 => a
    | n + 1 => b.act n
  follows
    | 0 => first
    | n + 1 => b.follows n

theorem exists_after {s : S} {as : List A} (b : Behavior step)
    (ends : run step s as = some (b.state 0)) :
    ∃ c : Behavior step, c.state 0 = s ∧ (∀ n a, as[n]? = some a → c.act n = a) ∧
      (∀ n, n ≤ as.length → run step s (as.take n) = some (c.state n)) ∧
      ∀ n, c.state (as.length + n) = b.state n ∧ c.act (as.length + n) = b.act n := by
  induction as generalizing s with
  | nil =>
    cases ends
    refine ⟨b, rfl, by simp, ?_, by simp⟩
    intro n within
    rw [Nat.le_zero.mp within]
    rfl
  | cons a as ih =>
    obtain ⟨t, first, rest⟩ := run_cons.mp ends
    obtain ⟨c, starts, acts, states, tail⟩ := ih rest
    refine ⟨c.cons s a (by rw [starts]; exact first), rfl, ?_, ?_, ?_⟩
    · intro n c' there
      cases n with
      | zero =>
        cases there
        rfl
      | succ n => exact acts n c' there
    · intro n within
      cases n with
      | zero => rfl
      | succ n =>
        rw [List.take_succ_cons]
        exact run_cons.mpr ⟨t, first, states n (Nat.le_of_succ_le_succ within)⟩
    · intro n
      rw [List.length_cons, Nat.succ_add]
      exact tail n

end Behaviors
