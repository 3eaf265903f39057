import Mathlib.Data.List.Basic

/-!
One receiver of a broadcast channel that keeps the last messages only. A receiver that
is further behind is told so and goes on with the oldest message kept.
-/
namespace Broadcast
variable {A : Type}

inductive RecvError where
  | lagged (missed : Nat)
  | closed
  deriving DecidableEq, Repr

structure Receiver (A : Type) where
  log : List A
  next : Nat
  deriving DecidableEq, Repr

def Receiver.subscribe : Receiver A := ⟨[], 0⟩

def Receiver.send (r : Receiver A) (a : A) : Receiver A := { r with log := r.log ++ [a] }

def Receiver.oldest (capacity : Nat) (r : Receiver A) : Nat := r.log.length - capacity

def Receiver.Behind (r : Receiver A) : Prop := r.next < r.log.length

instance (r : Receiver A) : Decidable r.Behind := inferInstanceAs (Decidable (_ < _))

def Receiver.recv (capacity : Nat) (closed : Bool) (r : Receiver A) :
    Option (Except RecvError A × Receiver A) :=
  if r.next < r.oldest capacity then
    some (.error (.lagged (r.oldest capacity - r.next)), { r with next := r.oldest capacity })
  else
    match r.log[r.next]? with
    | some a => some (.ok a, { r with next := r.next + 1 })
    | none => if closed then some (.error .closed, r) else none

theorem recv_kept {capacity : Nat} {closed : Bool} {r : Receiver A} {a : A}
    (kept : r.oldest capacity ≤ r.next) (at_ : r.log[r.next]? = some a) :
    r.recv capacity closed = some (.ok a, { r with next := r.next + 1 }) := by
  unfold Receiver.recv
  rw [if_neg (Nat.not_lt.mpr kept), at_]

theorem recv_lags {capacity : Nat} {closed : Bool} {r : Receiver A}
    (lags : r.next < r.oldest capacity) :
    r.recv capacity closed =
      some (.error (.lagged (r.oldest capacity - r.next)), { r with next := r.oldest capacity }) := by
  unfold Receiver.recv
  rw [if_pos lags]

theorem recv_cases {capacity : Nat} {closed : Bool} {r r' : Receiver A} {got : Except RecvError A}
    (received : r.recv capacity closed = some (got, r')) :
    (r.next < r.oldest capacity ∧ got = .error (.lagged (r.oldest capacity - r.next)) ∧
      r' = { r with next := r.oldest capacity }) ∨
    (r.oldest capacity ≤ r.next ∧ (∃ a, r.log[r.next]? = some a ∧ got = .ok a) ∧
      r' = { r with next := r.next + 1 }) ∨
    (¬ r.Behind ∧ closed = true ∧ got = .error .closed ∧ r' = r) := by
  unfold Receiver.recv at received
  split at received
  · rename_i lags
    cases received
    exact Or.inl ⟨lags, rfl, rfl⟩
  · rename_i keeps
    split at received
    · rename_i a at_
      cases received
      exact Or.inr (Or.inl ⟨by omega, ⟨a, at_, rfl⟩, rfl⟩)
    · rename_i drained
      have done := List.getElem?_eq_none_iff.mp drained
      split at received
      · cases received
        refine Or.inr (Or.inr ⟨?_, by assumption, rfl, rfl⟩)
        unfold Receiver.Behind
        omega
      · cases received

theorem recv_log {capacity : Nat} {closed : Bool} {r r' : Receiver A} {got : Except RecvError A}
    (received : r.recv capacity closed = some (got, r')) : r'.log = r.log := by
  rcases recv_cases received with ⟨-, -, rfl⟩ | ⟨-, -, rfl⟩ | ⟨-, -, -, rfl⟩ <;> rfl

theorem recv_next {capacity : Nat} {closed : Bool} {r r' : Receiver A} {got : Except RecvError A}
    (received : r.recv capacity closed = some (got, r')) (behind : r.Behind) :
    (r.next < r.oldest capacity ∧ r'.next = r.oldest capacity) ∨
      (r.oldest capacity ≤ r.next ∧ r'.next = r.next + 1) := by
  rcases recv_cases received with ⟨lags, -, rfl⟩ | ⟨kept, -, rfl⟩ | ⟨drained, -, -, -⟩
  · exact Or.inl ⟨lags, rfl⟩
  · exact Or.inr ⟨kept, rfl⟩
  · exact absurd behind drained

theorem recv_behind {capacity : Nat} {closed : Bool} {r : Receiver A} (behind : r.Behind) :
    (r.recv capacity closed).isSome = true := by
  unfold Receiver.recv
  split
  · rfl
  · rw [List.getElem?_eq_getElem behind]
    rfl

theorem recv_drained {capacity : Nat} {r : Receiver A} (drained : ¬ r.Behind) :
    r.recv capacity false = none := by
  have read : r.log.length ≤ r.next := Nat.not_lt.mp drained
  unfold Receiver.recv Receiver.oldest
  rw [if_neg (by omega), List.getElem?_eq_none_iff.mpr read]
  rfl

end Broadcast
