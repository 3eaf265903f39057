import OpenOms.Library.Lists
import OpenOms.Library.Runs
import Mathlib.Data.List.Basic
import Mathlib.Logic.Function.Basic

/-!
Read-modify-write transactions under READ COMMITTED. A change loads its row with
a lock, computes the new value and upserts it. The lock is the row's: a row that
is not there yet cannot be locked, and the load then proceeds from `fresh`.

As long as no upsert meets a row its load did not find, the committed table is
the committed changes applied one after the other.
-/
namespace ReadCommitted
open Lists Runs
variable {K V C : Type} [DecidableEq K]

/-- A transaction in flight: the changes to come, the row loaded for the first
    of them, the changes done with their uncommitted values, the rows it locks. -/
structure Tx (K V C : Type) where
  pending : List (K × C)
  loaded : Option (Option V)
  done : List (K × C)
  written : K → Option V
  held : List K

structure State (K V C : Type) where
  table : K → Option V
  txs : List (Tx K V C)
  history : List (K × C)

inductive Action (K C : Type) where
  | begin (changes : List (K × C))
  | load (i : Nat)
  | upsert (i : Nat)
  | commit (i : Nat)
  | abort (i : Nat)
  deriving DecidableEq, Repr

def State.start (table : K → Option V) : State K V C := ⟨table, [], []⟩

def Tx.start (changes : List (K × C)) : Tx K V C := ⟨changes, none, [], fun _ => none, []⟩

def Tx.sees (tx : Tx K V C) (table : K → Option V) (k : K) : Option V := (tx.written k).or (table k)

def heldElsewhere (txs : List (Tx K V C)) (i : Nat) (k : K) : Bool :=
  (txs.eraseIdx i).any fun tx => k ∈ tx.held

variable (fresh : V) (apply : C → V → V)

def stepLoad (s : State K V C) (i : Nat) (tx : Tx K V C) (k : K) : Option (State K V C) :=
  match tx.written k, s.table k with
  | some v, _ => some { s with txs := s.txs.set i { tx with loaded := some (some v) } }
  | none, none => some { s with txs := s.txs.set i { tx with loaded := some none } }
  | none, some v =>
    if heldElsewhere s.txs i k then none
    else
      some { s with
        txs := s.txs.set i { tx with loaded := some (some v), held := k :: tx.held } }

def wrote (tx : Tx K V C) (k : K) (c : C) (row : Option V) (rest : List (K × C)) : Tx K V C :=
  { pending := rest
    loaded := none
    done := tx.done ++ [(k, c)]
    written := Function.update tx.written k (some (apply c (row.getD fresh)))
    held := k :: tx.held }

def step (s : State K V C) : Action K C → Option (State K V C)
  | .begin changes => some { s with txs := s.txs ++ [.start changes] }
  | .load i =>
    match s.txs[i]? with
    | none => none
    | some tx =>
      match tx.pending, tx.loaded with
      | (k, _) :: _, none => stepLoad s i tx k
      | _, _ => none
  | .upsert i =>
    match s.txs[i]? with
    | none => none
    | some tx =>
      match tx.pending, tx.loaded with
      | (k, c) :: rest, some row =>
        if heldElsewhere s.txs i k then none
        else some { s with txs := s.txs.set i (wrote fresh apply tx k c row rest) }
      | _, _ => none
  | .commit i =>
    match s.txs[i]? with
    | none => none
    | some tx =>
      if tx.pending.isEmpty then
        some ⟨tx.sees s.table, s.txs.eraseIdx i, s.history ++ tx.done⟩
      else none
  | .abort i => some { s with txs := s.txs.eraseIdx i }

def MeetsMissedRow (s : State K V C) (a : Action K C) : Prop :=
  match a with
  | .upsert i => ∃ tx ∈ s.txs[i]?, tx.loaded = some none ∧
      ∃ change ∈ tx.pending.head?, (tx.sees s.table change.1).isSome
  | _ => False

instance [DecidableEq V] (s : State K V C) (a : Action K C) : Decidable (MeetsMissedRow s a) := by
  unfold MeetsMissedRow
  split <;> infer_instance

def settle (row : Option V) (changes : List C) : Option V :=
  changes.foldl (fun row c => some (apply c (row.getD fresh))) row

def changesAt (k : K) (changes : List (K × C)) : List C :=
  (changes.filter fun change => change.1 = k).map (·.2)

def serial (table : K → Option V) (changes : List (K × C)) (k : K) : Option V :=
  settle fresh apply (table k) (changesAt k changes)

theorem settle_append (row : Option V) (early late : List C) :
    settle fresh apply row (early ++ late) =
      settle fresh apply (settle fresh apply row early) late := by
  simp [settle]

omit fresh apply in
theorem changes_at_append (k : K) (early late : List (K × C)) :
    changesAt k (early ++ late) = changesAt k early ++ changesAt k late := by
  simp [changesAt]

theorem serial_append (table : K → Option V) (early late : List (K × C)) :
    serial fresh apply table (early ++ late) =
      serial fresh apply (serial fresh apply table early) late := by
  funext k
  simp [serial, changes_at_append, settle_append]

theorem serial_at (table : K → Option V) (k : K) (c : C) (other : K) :
    serial fresh apply table [(k, c)] other =
      if other = k then some (apply c ((table k).getD fresh)) else table other := by
  by_cases same : other = k
  · subst same
    simp [serial, changesAt, settle]
  · simp [serial, changesAt, settle, same, Ne.symm same]

theorem serial_congr {table table' : K → Option V} {k : K} (same : table k = table' k)
    (changes : List (K × C)) :
    serial fresh apply table changes k = serial fresh apply table' changes k := by
  rw [serial, same, serial]

structure Consistent (table : K → Option V) (tx : Tx K V C) : Prop where
  sees : ∀ k, tx.sees table k = serial fresh apply table tx.done k
  writtenHeld : ∀ k, (tx.written k).isSome → k ∈ tx.held
  doneWritten : ∀ change ∈ tx.done, (tx.written change.1).isSome
  found : ∀ v k c rest, tx.loaded = some (some v) → tx.pending = (k, c) :: rest →
    k ∈ tx.held ∧ tx.sees table k = some v

def Apart (a b : Tx K V C) : Prop := ∀ k ∈ a.held, k ∉ b.held

structure Inv (table : K → Option V) (s : State K V C) : Prop where
  consistent : ∀ tx ∈ s.txs, Consistent fresh apply s.table tx
  apart : s.txs.Pairwise Apart
  history : s.table = serial fresh apply table s.history

omit [DecidableEq K] in
theorem apart_symm (a b : Tx K V C) (apart : Apart a b) : Apart b a :=
  fun k inB inA => apart k inA inB

omit fresh apply in
theorem free_elsewhere {txs : List (Tx K V C)} {i : Nat} {k : K}
    (free : ¬ heldElsewhere txs i k = true) : ∀ tx ∈ txs.eraseIdx i, k ∉ tx.held := by
  intro tx member held
  exact free (List.any_eq_true.mpr ⟨tx, member, by simpa using held⟩)

theorem start_consistent (table : K → Option V) (changes : List (K × C)) :
    Consistent fresh apply table (.start changes) :=
  ⟨fun _ => rfl, by simp [Tx.start], by simp [Tx.start], by simp [Tx.start]⟩

omit [DecidableEq K] in
theorem unheld_unwritten {a : Tx K V C} (writtenHeld : ∀ k, (a.written k).isSome → k ∈ a.held)
    {k : K} (unheld : k ∉ a.held) : a.written k = none := by
  cases written : a.written k with
  | none => rfl
  | some v => exact absurd (writtenHeld k (by simp [written])) unheld

theorem table_consistent {table table' : K → Option V} {tx : Tx K V C}
    (kept : ∀ k ∈ tx.held, table' k = table k) (consistent : Consistent fresh apply table tx) :
    Consistent fresh apply table' tx := by
  refine ⟨fun k => ?_, consistent.writtenHeld, consistent.doneWritten, ?_⟩
  · by_cases held : k ∈ tx.held
    · have same := kept k held
      rw [serial_congr fresh apply same, ← consistent.sees k]
      exact congrArg (fun row => (tx.written k).or row) same
    · have untouched := unheld_unwritten consistent.writtenHeld held
      have no_change : changesAt k tx.done = [] := by
        simp only [changesAt, List.map_eq_nil_iff, List.filter_eq_nil_iff, decide_eq_true_eq]
        rintro change member rfl
        have written := consistent.doneWritten change member
        simp [untouched] at written
      simp [serial, no_change, settle, Tx.sees, untouched]
  · intro v k c rest loaded pending
    obtain ⟨held, sees⟩ := consistent.found v k c rest loaded pending
    refine ⟨held, ?_⟩
    rw [Tx.sees, kept k held]
    exact sees

theorem commit_consistent {table : K → Option V} {a b : Tx K V C} (apart : Apart a b)
    (left : Consistent fresh apply table a) (right : Consistent fresh apply table b) :
    Consistent fresh apply (a.sees table) b := by
  refine table_consistent fresh apply (fun k held => ?_) right
  simp [Tx.sees, unheld_unwritten left.writtenHeld (fun inA => apart k inA held)]

theorem wrote_consistent {table : K → Option V} {tx : Tx K V C}
    (consistent : Consistent fresh apply table tx) {k : K} {c : C} {rest : List (K × C)}
    {row : Option V} (sees : tx.sees table k = row) :
    Consistent fresh apply table (wrote fresh apply tx k c row rest) := by
  refine ⟨fun other => ?_, fun other => ?_, ?_, by simp [wrote]⟩
  · rw [wrote, serial_append, serial_at, ← consistent.sees k, ← consistent.sees other, sees]
    by_cases same : other = k
    · simp [Tx.sees, same]
    · simp [Tx.sees, same]
  · intro written
    by_cases same : other = k
    · simp [wrote, same]
    · simp only [wrote, Function.update_of_ne same] at written
      exact List.mem_cons_of_mem _ (consistent.writtenHeld other written)
  · intro change member
    rcases List.mem_append.mp member with old | new
    · by_cases same : change.1 = k
      · simp [wrote, same]
      · simpa [wrote, Function.update_of_ne same] using consistent.doneWritten change old
    · cases List.mem_singleton.mp new
      simp [wrote]

theorem replaced_keeps {table : K → Option V} {s : State K V C} (inv : Inv fresh apply table s)
    {i : Nat} {tx : Tx K V C} (consistent : Consistent fresh apply s.table tx)
    (apart : ∀ other ∈ s.txs.eraseIdx i, Apart tx other) :
    Inv fresh apply table { s with txs := s.txs.set i tx } := by
  exact ⟨forall_mem_set inv.consistent consistent, pairwise_set apart_symm inv.apart i apart,
    inv.history⟩

theorem load_keeps {table : K → Option V} {s t : State K V C} (inv : Inv fresh apply table s)
    {i : Nat} {tx : Tx K V C} (there : s.txs[i]? = some tx) {k : K} {c : C}
    {rest : List (K × C)} (pending : tx.pending = (k, c) :: rest)
    (next : stepLoad s i tx k = some t) : Inv fresh apply table t := by
  have consistent := inv.consistent tx (List.mem_of_getElem? there)
  have others := pairwise_others apart_symm inv.apart i there
  unfold stepLoad at next
  split at next
  · rename_i v _ own
    cases next
    refine replaced_keeps fresh apply inv ⟨consistent.sees, consistent.writtenHeld,
      consistent.doneWritten, ?_⟩ others
    intro v' k' c' rest' loaded pending'
    cases loaded
    cases pending.symm.trans pending'
    exact ⟨consistent.writtenHeld k (by simp [own]), by simp [Tx.sees, own]⟩
  · cases next
    refine replaced_keeps fresh apply inv ⟨consistent.sees, consistent.writtenHeld,
      consistent.doneWritten, ?_⟩ others
    intro v' k' c' rest' loaded
    cases loaded
  · rename_i v unwritten stored
    split at next
    · cases next
    · rename_i free
      cases next
      refine replaced_keeps fresh apply inv ⟨consistent.sees,
        fun k' written => List.mem_cons_of_mem _ (consistent.writtenHeld k' written),
        consistent.doneWritten, ?_⟩ ?_
      · intro v' k' c' rest' loaded pending'
        cases loaded
        cases pending.symm.trans pending'
        exact ⟨List.mem_cons_self, by simp [Tx.sees, unwritten, stored]⟩
      · intro other member k' held
        rcases List.mem_cons.mp held with rfl | old
        · exact free_elsewhere free other member
        · exact others other member k' old

theorem upsert_keeps {table : K → Option V} {s : State K V C} (inv : Inv fresh apply table s)
    {i : Nat} {tx : Tx K V C} (there : s.txs[i]? = some tx) {k : K} {c : C}
    {rest : List (K × C)} {row : Option V} (pending : tx.pending = (k, c) :: rest)
    (loaded : tx.loaded = some row) (free : ¬ heldElsewhere s.txs i k = true)
    (ok : ¬ MeetsMissedRow s (.upsert i)) :
    Inv fresh apply table { s with txs := s.txs.set i (wrote fresh apply tx k c row rest) } := by
  have consistent := inv.consistent tx (List.mem_of_getElem? there)
  have others := pairwise_others apart_symm inv.apart i there
  have sees : tx.sees s.table k = row := by
    cases row with
    | some v => exact (consistent.found v k c rest loaded pending).2
    | none =>
      by_contra met
      refine ok ⟨tx, there, loaded, (k, c), by simp [pending], ?_⟩
      exact Option.isSome_iff_ne_none.mpr met
  refine replaced_keeps fresh apply inv (wrote_consistent fresh apply consistent sees) ?_
  intro other member k' held
  rcases List.mem_cons.mp held with rfl | old
  · exact free_elsewhere free other member
  · exact others other member k' old

theorem commit_keeps {table : K → Option V} {s : State K V C} (inv : Inv fresh apply table s)
    {i : Nat} {tx : Tx K V C} (there : s.txs[i]? = some tx) :
    Inv fresh apply table ⟨tx.sees s.table, s.txs.eraseIdx i, s.history ++ tx.done⟩ := by
  have consistent := inv.consistent tx (List.mem_of_getElem? there)
  have others := pairwise_others apart_symm inv.apart i there
  refine ⟨?_, inv.apart.sublist (List.eraseIdx_sublist s.txs i), ?_⟩
  · intro other member
    exact commit_consistent fresh apply (others other member) consistent
      (inv.consistent other (List.mem_of_mem_eraseIdx member))
  · change tx.sees s.table = _
    rw [serial_append, ← inv.history]
    exact funext consistent.sees

theorem step_keeps {table : K → Option V} {s t : State K V C} {a : Action K C}
    (inv : Inv fresh apply table s) (ok : ¬ MeetsMissedRow s a)
    (next : step fresh apply s a = some t) : Inv fresh apply table t := by
  cases a with
  | begin changes =>
    cases next
    refine ⟨?_, ?_, inv.history⟩
    · intro tx member
      rcases List.mem_append.mp member with old | new
      · exact inv.consistent tx old
      · exact List.mem_singleton.mp new ▸ start_consistent fresh apply s.table changes
    · refine List.pairwise_append.mpr ⟨inv.apart, List.pairwise_singleton _ _, ?_⟩
      intro a _ b new k _
      cases List.mem_singleton.mp new
      simp [Tx.start]
  | load i =>
    simp only [step] at next
    split at next
    · cases next
    · rename_i tx there
      split at next
      · rename_i k c rest pending loaded
        exact load_keeps fresh apply inv there pending next
      · cases next
  | upsert i =>
    simp only [step] at next
    split at next
    · cases next
    · rename_i tx there
      split at next
      · rename_i k c rest row pending loaded
        split at next
        · cases next
        · rename_i free
          cases next
          exact upsert_keeps fresh apply inv there pending loaded free ok
      · cases next
  | commit i =>
    simp only [step] at next
    split at next
    · cases next
    · rename_i tx there
      split at next
      · cases next
        exact commit_keeps fresh apply inv there
      · cases next
  | abort i =>
    cases next
    exact ⟨fun tx member => inv.consistent tx (List.mem_of_mem_eraseIdx member),
      inv.apart.sublist (List.eraseIdx_sublist s.txs i), inv.history⟩

theorem work_step {s t : State K V C} {a : Action K C} {i : Nat}
    (work : a = .load i ∨ a = .upsert i) (next : step fresh apply s a = some t) :
    ∃ tx tx', s.txs[i]? = some tx ∧ tx.pending ≠ [] ∧
      tx'.done ++ tx'.pending = tx.done ++ tx.pending ∧ t = { s with txs := s.txs.set i tx' } := by
  rcases work with rfl | rfl
  · simp only [step] at next
    split at next
    · cases next
    rename_i tx there
    split at next
    · rename_i k c rest pending loaded
      unfold stepLoad at next
      split at next
      · cases next
        refine ⟨tx, _, there, by simp [pending], ?_, rfl⟩
        rfl
      · cases next
        refine ⟨tx, _, there, by simp [pending], ?_, rfl⟩
        rfl
      · split at next
        · cases next
        · cases next
          refine ⟨tx, _, there, by simp [pending], ?_, rfl⟩
          rfl
    · cases next
  · simp only [step] at next
    split at next
    · cases next
    rename_i tx there
    split at next
    · rename_i k c rest row pending loaded
      split at next
      · cases next
      · cases next
        exact ⟨tx, _, there, by simp [pending], by simp [wrote, pending], rfl⟩
    · cases next

theorem commit_step {s t : State K V C} {i : Nat} (next : step fresh apply s (.commit i) = some t) :
    ∃ tx, s.txs[i]? = some tx ∧ tx.pending = [] ∧
      t = ⟨tx.sees s.table, s.txs.eraseIdx i, s.history ++ tx.done⟩ := by
  simp only [step] at next
  split at next
  · cases next
  rename_i tx there
  split at next
  · rename_i finished
    cases next
    exact ⟨tx, there, by simpa using finished, rfl⟩
  · cases next

theorem missed_keeps {table : K → Option V} {s : State K V C} (inv : Inv fresh apply table s)
    {i : Nat} {tx : Tx K V C} (there : s.txs[i]? = some tx) :
    Inv fresh apply table
      { s with txs := s.txs.set i { tx with loaded := some none } } := by
  have consistent := inv.consistent tx (List.mem_of_getElem? there)
  have others := pairwise_others apart_symm inv.apart i there
  refine replaced_keeps fresh apply inv ⟨consistent.sees, consistent.writtenHeld,
    consistent.doneWritten, ?_⟩ others
  intro v k c rest loaded
  cases loaded

theorem retabled_keeps {table : K → Option V} {s : State K V C} (inv : Inv fresh apply table s)
    (table' : K → Option V)
    (free : ∀ tx ∈ s.txs, ∀ k ∈ tx.held, s.table k = none ∧ table' k = none) :
    Inv fresh apply table' ⟨table', s.txs, []⟩ := by
  refine ⟨fun tx member => ?_, inv.apart, rfl⟩
  refine table_consistent fresh apply (fun k held => ?_) (inv.consistent tx member)
  obtain ⟨old, new⟩ := free tx member k held
  exact new.trans old.symm

theorem committed_is_serial (table : K → Option V) {as : List (Action K C)}
    (steps : Along (step fresh apply) (fun s a => ¬ MeetsMissedRow s a) (.start table) as) :
    Throughout (step fresh apply) (fun s => s.table = serial fresh apply table s.history)
      (.start table) as := by
  have start : Inv fresh apply table (.start table) :=
    ⟨by simp [State.start], by simp [State.start], rfl⟩
  exact throughout_mono (fun _ inv => Inv.history inv)
    (throughout_along (fun _ _ _ inv ok next => step_keeps fresh apply inv ok next) start steps)

end ReadCommitted
