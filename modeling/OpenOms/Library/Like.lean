import Mathlib.Data.List.Infix

/-!
Patterns with a wildcard for any run of letters and one for any one letter, where an
escape takes the letter after it for itself.
-/
namespace Like
variable {A : Type}

/-- The letters of an alphabet that mean more in a pattern than themselves. -/
structure Special (A : Type) where
  many : A
  one : A
  escape : A
  many_plain : many ≠ escape
  one_plain : one ≠ escape
  many_one : many ≠ one

inductive Token (A : Type) where
  | lit (a : A)
  | one
  | many
  deriving DecidableEq, Repr

variable [DecidableEq A]

def Special.among (s : Special A) (a : A) : Bool := a = s.many || a = s.one || a = s.escape

def Special.token (s : Special A) (c : A) : Token A :=
  if c = s.many then .many else if c = s.one then .one else .lit c

def tokens (s : Special A) (quoted : Bool) : List A → Option (List (Token A))
  | [] => if quoted then none else some []
  | c :: rest =>
    if quoted then (tokens s false rest).map (.lit c :: ·)
    else if c = s.escape then tokens s true rest
    else (tokens s false rest).map (s.token c :: ·)

def fits : List (Token A) → List A → Bool
  | [], text => text.isEmpty
  | .lit _ :: _, [] => false
  | .lit a :: pattern, x :: text => x = a && fits pattern text
  | .one :: _, [] => false
  | .one :: pattern, _ :: text => fits pattern text
  | .many :: pattern, text => text.tails.any (fits pattern)

def like (s : Special A) (pattern text : List A) : Option Bool :=
  (tokens s false pattern).map (fits · text)

def escaped (s : Special A) (text : List A) : List A :=
  text.flatMap fun a => if s.among a then [s.escape, a] else [a]

variable {s : Special A}

theorem among_iff {a : A} : s.among a = true ↔ a = s.many ∨ a = s.one ∨ a = s.escape := by
  simp only [Special.among, Bool.or_eq_true, decide_eq_true_eq, or_assoc]

theorem tokens_plain {a : A} (plain : s.among a = false) (pattern : List A) :
    tokens s false (a :: pattern) = (tokens s false pattern).map (.lit a :: ·) := by
  simp only [Special.among, Bool.or_eq_false_iff, decide_eq_false_iff_not] at plain
  simp only [tokens, Bool.false_eq_true, if_false, if_neg plain.2, Special.token, if_neg plain.1.1,
    if_neg plain.1.2]

theorem tokens_nil : tokens s false [] = some [] := rfl

theorem tokens_many (pattern : List A) :
    tokens s false (s.many :: pattern) = (tokens s false pattern).map (.many :: ·) := by
  simp only [tokens, Bool.false_eq_true, if_false, if_neg s.many_plain, Special.token, if_true]

theorem tokens_quoted (a : A) (pattern : List A) :
    tokens s false (s.escape :: a :: pattern) = (tokens s false pattern).map (.lit a :: ·) := by
  simp only [tokens, Bool.false_eq_true, if_false, if_true]

theorem tokens_escaped (text pattern : List A) :
    tokens s false (escaped s text ++ pattern) =
      (tokens s false pattern).map (text.map .lit ++ ·) := by
  induction text with
  | nil => simp [escaped]
  | cons a text ih =>
    have first : tokens s false (escaped s (a :: text) ++ pattern) =
        (tokens s false (escaped s text ++ pattern)).map (.lit a :: ·) := by
      rw [escaped, List.flatMap_cons, List.append_assoc]
      cases plain : s.among a with
      | false => exact tokens_plain plain _
      | true => exact tokens_quoted a _
    rw [first, ih, Option.map_map]
    rfl

theorem fits_lits (text : List A) (pattern : List (Token A)) (whole : List A) :
    fits (text.map .lit ++ pattern) whole = true ↔
      ∃ rest, whole = text ++ rest ∧ fits pattern rest = true := by
  induction text generalizing whole with
  | nil => simp
  | cons a text ih =>
    rw [List.map_cons, List.cons_append]
    cases whole with
    | nil => simp [fits]
    | cons x whole =>
      simp only [fits, Bool.and_eq_true, decide_eq_true_eq, ih, List.cons_append, List.cons.injEq]
      constructor
      · rintro ⟨own, rest, same, fit⟩
        exact ⟨rest, ⟨own, same⟩, fit⟩
      · rintro ⟨rest, ⟨own, same⟩, fit⟩
        exact ⟨own, rest, same, fit⟩

theorem fits_many (pattern : List (Token A)) (whole : List A) :
    fits (.many :: pattern) whole = true ↔
      ∃ start rest, whole = start ++ rest ∧ fits pattern rest = true := by
  rw [fits, List.any_eq_true]
  constructor
  · rintro ⟨rest, tail, fit⟩
    obtain ⟨start, rfl⟩ := List.mem_tails _ _ |>.mp tail
    exact ⟨start, rest, rfl, fit⟩
  · rintro ⟨start, rest, rfl, fit⟩
    exact ⟨rest, (List.mem_tails _ _).mpr ⟨start, rfl⟩, fit⟩

theorem fits_any (whole : List A) : fits [.many] whole = true :=
  (fits_many [] whole).mpr ⟨whole, [], (List.append_nil _).symm, rfl⟩

theorem like_starts (text whole : List A) :
    like s (escaped s text ++ [s.many]) whole = some (decide (text <+: whole)) := by
  rw [like, tokens_escaped, tokens_many, tokens_nil, Option.map_some, Option.map_some, Option.map_some,
    Option.some_inj, Bool.eq_iff_iff, fits_lits, decide_eq_true_eq]
  constructor
  · rintro ⟨rest, rfl, -⟩
    exact List.prefix_append _ _
  · rintro ⟨rest, rfl⟩
    exact ⟨rest, rfl, fits_any rest⟩

/-- After a wildcard the text may stand anywhere, with plain letters before it. -/
theorem like_within {before : List A} (plain : ∀ a ∈ before, s.among a = false)
    (text whole : List A) :
    like s (s.many :: before ++ escaped s text ++ [s.many]) whole =
      some (decide (before ++ text <:+: whole)) := by
  have same : before = escaped s before := by
    induction before with
    | nil => rfl
    | cons a before ih =>
      rw [escaped, List.flatMap_cons, plain a List.mem_cons_self]
      exact congrArg (a :: ·) (ih fun b there => plain b (List.mem_cons_of_mem _ there))
  have joined : escaped s before ++ escaped s text = escaped s (before ++ text) :=
    (List.flatMap_append).symm
  rw [List.cons_append, List.cons_append, same, joined, like, tokens_many, tokens_escaped,
    tokens_many, tokens_nil, Option.map_some, Option.map_some, Option.map_some, Option.map_some,
    Option.some_inj, Bool.eq_iff_iff, fits_many, decide_eq_true_eq, ← same]
  constructor
  · rintro ⟨start, rest, rfl, fit⟩
    obtain ⟨tail, rfl, -⟩ := (fits_lits _ _ _).mp fit
    exact ⟨start, tail, List.append_assoc _ _ _⟩
  · rintro ⟨start, tail, rfl⟩
    exact ⟨start, _, List.append_assoc _ _ _, (fits_lits _ _ _).mpr ⟨tail, rfl, fits_any tail⟩⟩

end Like
