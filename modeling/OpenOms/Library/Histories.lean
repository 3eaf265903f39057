import Mathlib.Data.List.Basic

/-!
Properties of every element of a list in view of those before it. Nothing here
knows what the elements are.
-/
namespace Histories
variable {A : Type}

/-- `P` holds of every element, given `before` and the elements ahead of it. -/
def AfterEach (P : List A → A → Prop) (before : List A) : List A → Prop
  | [] => True
  | a :: as => P before a ∧ AfterEach P (before ++ [a]) as

/-- `P` holds of every element, given the elements ahead of it. -/
def AtEach (P : List A → A → Prop) (as : List A) : Prop := AfterEach P [] as

instance decidableAfterEach {P : List A → A → Prop} [∀ before a, Decidable (P before a)]
    (before : List A) : (as : List A) → Decidable (AfterEach P before as)
  | [] => isTrue trivial
  | a :: as =>
    have : Decidable (AfterEach P (before ++ [a]) as) := decidableAfterEach (before ++ [a]) as
    decidable_of_iff (P before a ∧ AfterEach P (before ++ [a]) as) Iff.rfl

instance {P : List A → A → Prop} [∀ before a, Decidable (P before a)] (as : List A) :
    Decidable (AtEach P as) := decidableAfterEach [] as

def Stands (opens ends : A → Prop) (history before : List A) (x : A) (behind : List A) : Prop :=
  history = before ++ x :: behind ∧ opens x ∧ ∀ later ∈ behind, ¬ ends later

theorem stands_snoc {opens ends : A → Prop} {history before behind : List A} {x y : A} :
    Stands opens ends (history ++ [y]) before x behind ↔
      (before = history ∧ x = y ∧ behind = [] ∧ opens y) ∨
        ∃ rest, behind = rest ++ [y] ∧ ¬ ends y ∧ Stands opens ends history before x rest := by
  constructor
  · rintro ⟨split, opened, quiet⟩
    rcases List.eq_nil_or_concat behind with rfl | ⟨rest, last, rfl⟩
    · obtain ⟨rfl, same⟩ := List.append_inj' split rfl
      obtain ⟨rfl, _⟩ := List.cons.inj same
      exact Or.inl ⟨rfl, rfl, rfl, opened⟩
    · rw [List.concat_eq_append, ← List.cons_append, ← List.append_assoc] at split
      obtain ⟨rfl, same⟩ := List.append_inj' split rfl
      obtain ⟨rfl, _⟩ := List.cons.inj same
      refine Or.inr ⟨rest, by simp, quiet y (by simp), rfl, opened, ?_⟩
      exact fun later member => quiet later (by simp [member])
  · rintro (⟨rfl, rfl, rfl, opened⟩ | ⟨rest, rfl, stays, rfl, opened, quiet⟩)
    · exact ⟨rfl, opened, by simp⟩
    · refine ⟨by simp, opened, ?_⟩
      intro later member
      rcases List.mem_append.mp member with there | new
      · exact quiet later there
      · rw [List.mem_singleton.mp new]
        exact stays

theorem after_each_split {P : List A → A → Prop} {before as : List A} :
    AfterEach P before as ↔ ∀ ahead a behind, as = ahead ++ a :: behind → P (before ++ ahead) a := by
  induction as generalizing before with
  | nil => simp [AfterEach]
  | cons first rest ih =>
    constructor
    · intro each ahead a behind split
      cases ahead with
      | nil =>
        obtain ⟨rfl, rfl⟩ := List.cons.inj split
        simpa using each.1
      | cons b ahead =>
        obtain ⟨rfl, rfl⟩ := List.cons.inj split
        simpa using ih.mp each.2 ahead a behind rfl
    · intro each
      constructor
      · simpa using each [] first rest rfl
      · refine ih.mpr ?_
        intro ahead a behind split
        have here := each (first :: ahead) a behind (by rw [split]; rfl)
        simpa using here

theorem at_each_split {P : List A → A → Prop} {as : List A} :
    AtEach P as ↔ ∀ ahead a behind, as = ahead ++ a :: behind → P ahead a := by
  rw [AtEach, after_each_split]
  simp only [List.nil_append]

theorem at_each_snoc {P : List A → A → Prop} {as : List A} {a : A} :
    AtEach P (as ++ [a]) ↔ AtEach P as ∧ P as a := by
  have from_ : ∀ before, AfterEach P before (as ++ [a]) ↔
      AfterEach P before as ∧ P (before ++ as) a := by
    induction as with
    | nil => simp [AfterEach]
    | cons first rest ih =>
      intro before
      rw [List.cons_append, AfterEach, AfterEach, ih, and_assoc, List.append_assoc]
      rfl
  exact from_ []

/-- The exact condition: as long as every element is `ok` the invariant holds, and
    under the invariant `good` and `ok` are the same. -/
theorem after_each_iff {good ok lawful : List A → A → Prop} {Inv : List A → Prop}
    (keeps : ∀ before a, Inv before → lawful before a → ok before a → Inv (before ++ [a]))
    (same : ∀ before a, Inv before → lawful before a → (good before a ↔ ok before a))
    {before as : List A} (start : Inv before) (law : AfterEach lawful before as) :
    AfterEach good before as ↔ AfterEach ok before as := by
  induction as generalizing before with
  | nil => exact Iff.rfl
  | cons a as ih =>
    have here := same before a start law.1
    constructor
    · intro each
      have met := here.mp each.1
      exact ⟨met, (ih (keeps before a start law.1 met) law.2).mp each.2⟩
    · intro each
      exact ⟨here.mpr each.1, (ih (keeps before a start law.1 each.1) law.2).mpr each.2⟩

end Histories
