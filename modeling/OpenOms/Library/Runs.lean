/-!
Finite runs of a step function that may refuse an action. `run` is the state
after a list of actions, `Along` a condition met by every step where it is
taken, `Throughout` a property of every state passed. Nothing here knows what
the states or the actions are.
-/
namespace Runs
variable {S A : Type}

/-- The state after the actions, if none of them is refused. -/
def run (step : S → A → Option S) (s : S) : List A → Option S
  | [] => some s
  | a :: as => (step s a).bind fun t => run step t as

/-- Every action of the run meets `ok` in the state it is taken from. -/
def Along (step : S → A → Option S) (ok : S → A → Prop) (s : S) : List A → Prop
  | [] => True
  | a :: as => ok s a ∧ ∀ t, step s a = some t → Along step ok t as

/-- `P` holds in every state of the run, the first and the last included. -/
def Throughout (step : S → A → Option S) (P : S → Prop) (s : S) : List A → Prop
  | [] => P s
  | a :: as => P s ∧ ∀ t, step s a = some t → Throughout step P t as

instance decidableAlong {step : S → A → Option S} {ok : S → A → Prop}
    [∀ s a, Decidable (ok s a)] (s : S) : (as : List A) → Decidable (Along step ok s as)
  | [] => isTrue trivial
  | a :: as =>
    match taken : step s a with
    | none => decidable_of_iff (ok s a) (by simp [Along, taken])
    | some t =>
      have : Decidable (Along step ok t as) := decidableAlong t as
      decidable_of_iff (ok s a ∧ Along step ok t as) (by simp [Along, taken])

theorem run_cons {step : S → A → Option S} {s t : S} {a : A} {as : List A} :
    run step s (a :: as) = some t ↔ ∃ m, step s a = some m ∧ run step m as = some t := by
  simp [run, Option.bind_eq_some_iff]

theorem run_append {step : S → A → Option S} {s m t : S} {as bs : List A}
    (first : run step s as = some m) (rest : run step m bs = some t) :
    run step s (as ++ bs) = some t := by
  induction as generalizing s with
  | nil =>
    cases first
    exact rest
  | cons a as ih =>
    obtain ⟨next, taken, tail⟩ := run_cons.mp first
    exact run_cons.mpr ⟨next, taken, ih tail⟩

theorem throughout_along {step : S → A → Option S} {ok : S → A → Prop} {Inv : S → Prop}
    (keeps : ∀ s a t, Inv s → ok s a → step s a = some t → Inv t)
    {s : S} {as : List A} (start : Inv s) (steps : Along step ok s as) :
    Throughout step Inv s as := by
  induction as generalizing s with
  | nil => exact start
  | cons a as ih =>
    exact ⟨start, fun t first => ih (keeps s a t start steps.1 first) (steps.2 t first)⟩

/-- A condition on the actions alone is met wherever they are taken. -/
theorem along_of_mem {step : S → A → Option S} {ok : S → A → Prop} {as : List A}
    (each : ∀ a ∈ as, ∀ s, ok s a) (s : S) : Along step ok s as := by
  induction as generalizing s with
  | nil => trivial
  | cons a as ih =>
    obtain ⟨here, rest⟩ := List.forall_mem_cons.mp each
    exact ⟨here s, fun t _ => ih rest t⟩

theorem along_of_along {step : S → A → Option S} {ok good : S → A → Prop} {Inv : S → Prop}
    (keeps : ∀ s a t, Inv s → ok s a → step s a = some t → Inv t)
    (gives : ∀ s a, Inv s → ok s a → good s a)
    {s : S} {as : List A} (start : Inv s) (steps : Along step ok s as) : Along step good s as := by
  induction as generalizing s with
  | nil => trivial
  | cons a as ih =>
    refine ⟨gives s a start steps.1, fun t first => ?_⟩
    exact ih (keeps s a t start steps.1 first) (steps.2 t first)

theorem throughout_keeps {step : S → A → Option S} {Inv : S → Prop}
    (keeps : ∀ s a t, Inv s → step s a = some t → Inv t) {s : S} (start : Inv s) (as : List A) :
    Throughout step Inv s as := by
  induction as generalizing s with
  | nil => exact start
  | cons a as ih => exact ⟨start, fun t first => ih (keeps s a t start first)⟩

theorem throughout_start {step : S → A → Option S} {P : S → Prop} {s : S} {as : List A}
    (holds : Throughout step P s as) : P s := by
  cases as with
  | nil => exact holds
  | cons a as => exact holds.1

theorem throughout_end {step : S → A → Option S} {P : S → Prop} {s : S} {as : List A}
    (holds : Throughout step P s as) : ∀ t ∈ run step s as, P t := by
  intro t ends
  induction as generalizing s with
  | nil =>
    cases ends
    exact holds
  | cons a as ih =>
    obtain ⟨m, first, rest⟩ := run_cons.mp ends
    exact ih (holds.2 m first) rest

theorem not_throughout {step : S → A → Option S} {P : S → Prop} {s : S} {as : List A}
    (bad : ∃ t ∈ run step s as, ¬ P t) : ¬ Throughout step P s as := by
  intro holds
  obtain ⟨t, ends, bad⟩ := bad
  exact bad (throughout_end holds t ends)

/-- The exact condition: steps meeting `ok` keep the invariant and with it `P`,
    and a step that fails `ok` lands outside `P`. -/
theorem throughout_iff_along {step : S → A → Option S} {ok : S → A → Prop} {Inv P : S → Prop}
    (keeps : ∀ s a t, Inv s → ok s a → step s a = some t → Inv t)
    (gives : ∀ s, Inv s → P s)
    (breaks : ∀ s a, Inv s → ¬ ok s a → ∃ t, step s a = some t ∧ ¬ P t)
    {s : S} {as : List A} (start : Inv s) : Throughout step P s as ↔ Along step ok s as := by
  induction as generalizing s with
  | nil => simp [Throughout, Along, gives s start]
  | cons a as ih =>
    by_cases met : ok s a
    · simp only [Throughout, Along, gives s start, met, true_and]
      exact forall₂_congr fun t first => ih (keeps s a t start met first)
    · obtain ⟨t, first, outside⟩ := breaks s a start met
      constructor
      · intro holds
        exact absurd (throughout_start (holds.2 t first)) outside
      · intro steps
        exact absurd steps.1 met

/-- A mark that steps failing `ok` leave, and nothing else leaves or removes. -/
theorem marked_iff_along {step : S → A → Option S} {ok : S → A → Prop} {Inv Marked : S → Prop}
    (keeps : ∀ s a t, Inv s → step s a = some t → Inv t)
    (marks : ∀ s a t, Inv s → step s a = some t → (Marked t ↔ Marked s ∨ ¬ ok s a))
    {s t : S} {as : List A} (start : Inv s) (ends : run step s as = some t) :
    Marked t ↔ Marked s ∨ ¬ Along step ok s as := by
  induction as generalizing s with
  | nil =>
    cases ends
    simp [Along]
  | cons a as ih =>
    obtain ⟨m, first, rest⟩ := run_cons.mp ends
    have later := ih (keeps s a m start first) rest
    have here := marks s a m start first
    have along : Along step ok s (a :: as) ↔ ok s a ∧ Along step ok m as := by
      simp [Along, first]
    rw [later, here, along, Classical.not_and_iff_not_or_not, or_assoc]

theorem throughout_mono {step : S → A → Option S} {P Q : S → Prop}
    (weaker : ∀ s, P s → Q s) {s : S} {as : List A} (holds : Throughout step P s as) :
    Throughout step Q s as := by
  induction as generalizing s with
  | nil => exact weaker s holds
  | cons a as ih => exact ⟨weaker s holds.1, fun t first => ih (holds.2 t first)⟩

end Runs
