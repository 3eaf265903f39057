import OpenOms.Library.Lists
import Mathlib.Data.List.Pairwise

/-!
A table under a partial unique index. `key` is what the index has of a row: nothing
for a row it leaves out. A row's id is its place in the table. Nothing here knows
what the rows are.
-/
namespace PartialIndex
open Lists
variable {R K : Type} (key : R → Option K)

def Apart (a b : R) : Prop := ∀ k ∈ key a, k ∉ key b

def Unique (rows : List R) : Prop := rows.Pairwise (Apart key)

def Within (old new : R) : Prop := ∀ k ∈ key new, k ∈ key old

section
variable {key} {rows : List R}

theorem modify_unique {i : Nat} {change : R → R} (unique : Unique key rows)
    (within : ∀ r ∈ rows[i]?, Within key r (change r)) : Unique key (rows.modify i change) := by
  refine pairwise_modify unique ?_ ?_
  · intro r at_ other apart k left
    exact apart k (within r at_ k left)
  · intro r at_ other apart k left right
    exact apart k left (within r at_ k right)

theorem map_unique {change : R → R} (unique : Unique key rows)
    (within : ∀ r, Within key r (change r)) : Unique key (rows.map change) := by
  rw [Unique, List.pairwise_map]
  refine unique.imp ?_
  intro a b apart k left right
  exact apart k (within a k left) (within b k right)

theorem unique_id (unique : Unique key rows) {i j : Nat} {a b : R} {k : K}
    (left : rows[i]? = some a) (right : rows[j]? = some b) (here : k ∈ key a) (there : k ∈ key b) :
    i = j := by
  obtain ⟨boundA, rfl⟩ := List.getElem?_eq_some_iff.mp left
  obtain ⟨boundB, rfl⟩ := List.getElem?_eq_some_iff.mp right
  have pairs := List.pairwise_iff_getElem.mp unique
  rcases Nat.lt_trichotomy i j with before | same | after
  · exact absurd there (pairs i j boundA boundB before k here)
  · exact same
  · exact absurd here (pairs j i boundB boundA after k there)

end

variable [DecidableEq K]

instance (a b : R) : Decidable (Apart key a b) :=
  match there : key a with
  | none => isTrue (by simp [Apart, there])
  | some k => decidable_of_iff (k ∉ key b) (by simp [Apart, there])

instance (rows : List R) : Decidable (Unique key rows) :=
  inferInstanceAs (Decidable (rows.Pairwise _))

def insert (rows : List R) (r : R) : Option (List R) :=
  if ∀ other ∈ rows, Apart key other r then some (rows ++ [r]) else none

def update (rows : List R) (i : Nat) (change : R → R) : Option (List R) :=
  let changed := rows.modify i change
  if Unique key changed then some changed else none

variable {key} {rows : List R}

theorem insert_some {r : R} {next : List R} (done : insert key rows r = some next) :
    (∀ other ∈ rows, Apart key other r) ∧ next = rows ++ [r] := by
  unfold insert at done
  split at done
  · rename_i apart
    exact ⟨apart, (Option.some.inj done).symm⟩
  · cases done

theorem insert_none {r : R} (refused : insert key rows r = none) :
    ∃ other ∈ rows, ∃ k ∈ key other, k ∈ key r := by
  unfold insert at refused
  split at refused
  · cases refused
  · rename_i blocked
    simpa [Apart] using blocked

theorem insert_unique {r : R} {next : List R} (unique : Unique key rows)
    (done : insert key rows r = some next) : Unique key next := by
  obtain ⟨apart, rfl⟩ := insert_some done
  refine List.pairwise_append.mpr ⟨unique, List.pairwise_singleton _ _, ?_⟩
  intro a there b new
  rw [List.mem_singleton.mp new]
  exact apart a there

theorem update_some {i : Nat} {change : R → R} {next : List R}
    (done : update key rows i change = some next) : next = rows.modify i change := by
  unfold update at done
  dsimp only at done
  split at done
  · exact (Option.some.inj done).symm
  · cases done

theorem update_within {i : Nat} {change : R → R} (unique : Unique key rows)
    (within : ∀ r ∈ rows[i]?, Within key r (change r)) :
    update key rows i change = some (rows.modify i change) :=
  if_pos (modify_unique unique within)

end PartialIndex
