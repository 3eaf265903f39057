import Mathlib.Data.List.Basic

/-!
A text as the list of its characters, measured and cut by the bytes of its UTF-8
form.
-/
namespace Utf8

def len : List Char → Nat
  | [] => 0
  | c :: s => c.utf8Size + len s

/-- Cut at a byte offset: `none` inside a character, and past the end. -/
def cut : List Char → Nat → Option (List Char × List Char)
  | s, 0 => some ([], s)
  | [], _ + 1 => none
  | c :: s, n + 1 =>
    if c.utf8Size ≤ n + 1 then
      (cut s (n + 1 - c.utf8Size)).map fun (before, after) => (c :: before, after)
    else none

@[simp] theorem len_nil : len [] = 0 := rfl

@[simp] theorem len_cons (c : Char) (s : List Char) : len (c :: s) = c.utf8Size + len s := rfl

@[simp] theorem len_append (s t : List Char) : len (s ++ t) = len s + len t := by
  induction s with
  | nil => simp
  | cons c s ih =>
    rw [List.cons_append, len_cons, len_cons, ih]
    omega

theorem length_le_len (s : List Char) : s.length ≤ len s := by
  induction s with
  | nil => exact Nat.le_refl 0
  | cons c s ih =>
    rw [List.length_cons, len_cons, Nat.add_comm]
    exact Nat.add_le_add c.utf8Size_pos ih

theorem len_of_single {s : List Char} (single : ∀ c ∈ s, c.utf8Size = 1) : len s = s.length := by
  induction s with
  | nil => rfl
  | cons c s ih =>
    rw [List.forall_mem_cons] at single
    rw [len_cons, List.length_cons, single.1, ih single.2, Nat.add_comm]

theorem cut_append (before after : List Char) :
    cut (before ++ after) (len before) = some (before, after) := by
  induction before with
  | nil => cases after <;> rfl
  | cons c before ih =>
    obtain ⟨n, size⟩ := Nat.exists_eq_succ_of_ne_zero (Nat.ne_of_gt c.utf8Size_pos)
    have offset : len (c :: before) = (n + len before) + 1 := by
      rw [len_cons, size]
      omega
    have left : n + len before + 1 - (n + 1) = len before := by omega
    rw [List.cons_append, offset, cut, size, if_pos (by omega), left, ih]
    rfl

theorem cut_iff (s : List Char) (n : Nat) (before after : List Char) :
    cut s n = some (before, after) ↔ before ++ after = s ∧ len before = n := by
  constructor
  · intro parts
    induction s generalizing n before with
    | nil =>
      cases n with
      | zero =>
        cases parts
        exact ⟨rfl, rfl⟩
      | succ n => cases parts
    | cons c s ih =>
      cases n with
      | zero =>
        cases parts
        exact ⟨rfl, rfl⟩
      | succ n =>
        rw [cut] at parts
        split at parts
        · rename_i fits
          obtain ⟨⟨before', after'⟩, rest, same⟩ := Option.map_eq_some_iff.mp parts
          cases same
          obtain ⟨joined, measured⟩ := ih _ _ rest
          constructor
          · rw [List.cons_append, joined]
          · rw [len_cons, measured]
            omega
        · cases parts
  · intro split_
    obtain ⟨joined, measured⟩ := split_
    rw [← joined, ← measured]
    exact cut_append before after

end Utf8
