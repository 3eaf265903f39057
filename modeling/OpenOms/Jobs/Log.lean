import Mathlib.Data.List.DropRight
import Mathlib.Data.List.Induction
import Mathlib.Data.List.MinMax
import Mathlib.Order.Basic

/-!
A job's own log: each line is inserted and then the lines beyond the newest are
deleted, by two statements that the statements of other writers may run between.
-/
namespace OmsJobLog

/-- Newest log lines kept per job. -/
def LOG_CAP : Nat := 500

structure LogLine where
  id : Nat
  jobId : Nat
  level : String
  message : String
  deriving DecidableEq, Repr

structure JobLog where
  rows : List LogLine
  nextId : Nat
  deriving DecidableEq, Repr

/-- `done` says whether the statement succeeded: one that failed has used up its id. -/
inductive Statement where
  | insert (jobId : Nat) (level message : String) (done : Bool)
  | delete (jobId : Nat) (done : Bool)
  deriving DecidableEq, Repr

def cutoff (ids : List Nat) : Option Nat := (ids.reverse.take LOG_CAP).min?

def ofJob (jobId : Nat) (rows : List LogLine) : List LogLine :=
  rows.filter fun row => row.jobId = jobId

def deleteOld (jobId : Nat) (rows : List LogLine) : List LogLine :=
  let least := cutoff ((ofJob jobId rows).map LogLine.id)
  rows.filter fun row => !(row.jobId = jobId && least.any (row.id < ·))

def execute (log : JobLog) : Statement → JobLog
  | .insert jobId level message done =>
    let rows := if done then log.rows ++ [⟨log.nextId, jobId, level, message⟩] else log.rows
    ⟨rows, log.nextId + 1⟩
  | .delete jobId done => if done then { log with rows := deleteOld jobId log.rows } else log

def after (statements : List Statement) : JobLog := statements.foldl execute ⟨[], 1⟩

def shown (jobId : Nat) (log : JobLog) : List (String × String) :=
  (ofJob jobId log.rows).map fun row => (row.level, row.message)

def written (jobId : Nat) (statements : List Statement) : List (String × String) :=
  statements.filterMap fun
    | .insert job level message done => if job = jobId ∧ done = true then some (level, message) else none
    | .delete _ _ => none

def throughDelete (jobId : Nat) (statements : List Statement) : List Statement :=
  statements.rdropWhile fun s => s ≠ .delete jobId true

theorem after_snoc (statements : List Statement) (s : Statement) :
    after (statements ++ [s]) = execute (after statements) s := by
  simp [after]

theorem written_snoc (jobId : Nat) (statements : List Statement) (s : Statement) :
    written jobId (statements ++ [s]) = written jobId statements ++ written jobId [s] := by
  simp [written]

theorem through_delete_snoc (jobId : Nat) (statements : List Statement) (s : Statement) :
    throughDelete jobId (statements ++ [s]) =
      if s = .delete jobId true then statements ++ [s] else throughDelete jobId statements := by
  rw [throughDelete, List.rdropWhile_concat]
  by_cases own : s = .delete jobId true
  · simp [own]
  · simp [own, throughDelete]

structure Sequenced (log : JobLog) : Prop where
  rising : log.rows.Pairwise fun a b => a.id < b.id
  drawn : ∀ row ∈ log.rows, row.id < log.nextId

theorem delete_sublist (jobId : Nat) (rows : List LogLine) :
    (deleteOld jobId rows).Sublist rows := List.filter_sublist

theorem execute_sequenced {log : JobLog} (sequenced : Sequenced log) (s : Statement) :
    Sequenced (execute log s) := by
  obtain ⟨rising, drawn⟩ := sequenced
  cases s with
  | insert jobId level message done =>
    cases done with
    | false => exact ⟨rising, fun row member => Nat.lt_succ_of_lt (drawn row member)⟩
    | true =>
      constructor
      · refine List.pairwise_append.mpr ⟨rising, List.pairwise_singleton _ _, ?_⟩
        intro a there b new
        rw [List.mem_singleton.mp new]
        exact drawn a there
      · intro row member
        rcases List.mem_append.mp member with old | new
        · exact Nat.lt_succ_of_lt (drawn row old)
        · rw [List.mem_singleton.mp new]
          exact Nat.lt_succ_self _
  | delete jobId done =>
    cases done with
    | false => exact ⟨rising, drawn⟩
    | true =>
      exact ⟨rising.sublist (delete_sublist jobId log.rows),
        fun row member => drawn row ((delete_sublist jobId log.rows).subset member)⟩

theorem after_sequenced (statements : List Statement) : Sequenced (after statements) := by
  induction statements using List.reverseRecOn with
  | nil => exact ⟨List.Pairwise.nil, by simp [after]⟩
  | append_singleton statements s ih =>
    rw [after_snoc]
    exact execute_sequenced ih s

theorem min_of_rising {n : Nat} {ids : List Nat} (least : ∀ i ∈ ids, n < i) :
    (n :: ids).min? = some n := by
  refine List.min?_eq_some_iff.mpr ⟨List.mem_cons_self, ?_⟩
  intro i member
  rcases List.mem_cons.mp member with rfl | later
  · exact Nat.le_refl _
  · exact Nat.le_of_lt (least i later)

theorem cutoff_rising {ids : List Nat} (rising : ids.Pairwise (· < ·)) :
    cutoff ids = (ids.drop (ids.length - LOG_CAP)).head? := by
  have last : (ids.reverse.take LOG_CAP).min? = (ids.drop (ids.length - LOG_CAP)).min? := by
    rw [List.take_reverse]
    cases least : (ids.drop (ids.length - LOG_CAP)).min? with
    | none =>
      rw [List.min?_eq_none_iff] at least ⊢
      rw [least]
      rfl
    | some n =>
      obtain ⟨member, below⟩ := List.min?_eq_some_iff.mp least
      refine List.min?_eq_some_iff.mpr ⟨List.mem_reverse.mpr member, ?_⟩
      exact fun i there => below i (List.mem_reverse.mp there)
  rw [cutoff, last]
  have tail := rising.sublist (List.drop_sublist (ids.length - LOG_CAP) ids)
  cases newest : ids.drop (ids.length - LOG_CAP) with
  | nil => rfl
  | cons n rest =>
    rw [newest] at tail
    exact min_of_rising (List.pairwise_cons.mp tail).1

theorem newest_kept {rows : List LogLine} (rising : rows.Pairwise fun a b => a.id < b.id) :
    (rows.filter fun row => !((cutoff (rows.map LogLine.id)).any (row.id < ·))) =
      rows.drop (rows.length - LOG_CAP) := by
  have ids : (rows.map LogLine.id).Pairwise (· < ·) := List.pairwise_map.mpr rising
  rw [cutoff_rising ids, ← List.map_drop, List.length_map]
  conv_lhs => rw [← List.take_append_drop (rows.length - LOG_CAP) rows]
  rw [List.filter_append]
  have pairs := rising
  rw [← List.take_append_drop (rows.length - LOG_CAP) rows] at pairs
  obtain ⟨-, tail, across⟩ := List.pairwise_append.mp pairs
  rw [List.take_append_drop]
  cases newest : rows.drop (rows.length - LOG_CAP) with
  | nil =>
    have none_ : rows = [] := by
      have short := List.drop_eq_nil_iff.mp newest
      have cap : LOG_CAP = 500 := rfl
      exact List.length_eq_zero_iff.mp (by omega)
    rw [none_]
    rfl
  | cons first rest =>
    rw [newest] at tail across
    have gone : (rows.take (rows.length - LOG_CAP)).filter
        (fun row => !(((first :: rest).map LogLine.id).head?.any (row.id < ·))) = [] := by
      refine List.filter_eq_nil_iff.mpr fun row member => ?_
      simpa using across row member first List.mem_cons_self
    have kept : (first :: rest).filter
        (fun row => !(((first :: rest).map LogLine.id).head?.any (row.id < ·))) = first :: rest := by
      refine List.filter_eq_self.mpr fun row member => ?_
      rcases List.mem_cons.mp member with rfl | later
      · simp
      · have above := (List.pairwise_cons.mp tail).1 row later
        simp only [List.map_cons, List.head?_cons, Option.any_some, Bool.not_eq_true',
          decide_eq_false_iff_not]
        omega
    rw [gone, kept, List.nil_append]

theorem delete_own {rows : List LogLine} (rising : rows.Pairwise fun a b => a.id < b.id)
    (jobId : Nat) : ofJob jobId (deleteOld jobId rows) =
      (ofJob jobId rows).drop ((ofJob jobId rows).length - LOG_CAP) := by
  have own : (ofJob jobId rows).Pairwise fun a b => a.id < b.id := rising.sublist List.filter_sublist
  rw [← newest_kept own, deleteOld, ofJob, ofJob, List.filter_filter, List.filter_filter]
  refine List.filter_congr fun row _ => ?_
  by_cases mine : row.jobId = jobId <;> simp [mine]

theorem delete_other {jobId other : Nat} (apart : jobId ≠ other) (rows : List LogLine) :
    ofJob other (deleteOld jobId rows) = ofJob other rows := by
  rw [deleteOld, ofJob, ofJob, List.filter_filter]
  refine List.filter_congr fun row _ => ?_
  by_cases mine : row.jobId = other
  · simp [mine, Ne.symm apart]
  · simp [mine]

theorem written_through (jobId : Nat) (statements : List Statement) :
    (written jobId (throughDelete jobId statements)).length ≤ (written jobId statements).length :=
  ((List.rdropWhile_prefix _ statements).filterMap _).length_le

theorem shown_insert (jobId job : Nat) (level message : String) (done : Bool) (log : JobLog) :
    shown jobId (execute log (.insert job level message done)) =
      shown jobId log ++ written jobId [.insert job level message done] := by
  cases done with
  | false => simp [shown, execute, written]
  | true =>
    by_cases own : job = jobId <;> simp [shown, ofJob, execute, written, own]

theorem shown_delete (jobId : Nat) {log : JobLog} (sequenced : Sequenced log) :
    shown jobId (execute log (.delete jobId true)) =
      (shown jobId log).drop ((shown jobId log).length - LOG_CAP) := by
  rw [shown, execute, if_pos rfl, delete_own sequenced.rising, shown, List.length_map, List.map_drop]

theorem shown_kept (jobId job : Nat) {done : Bool} (log : JobLog)
    (other : Statement.delete job done ≠ .delete jobId true) :
    shown jobId (execute log (.delete job done)) = shown jobId log := by
  cases done with
  | false => rfl
  | true =>
    have apart : job ≠ jobId := by
      rintro rfl
      exact other rfl
    rw [shown, execute, if_pos rfl, delete_other apart, shown]

/-- Whatever statements run between, the page has the newest lines: those since the job's
    last delete and as many from before it as the cap leaves. -/
theorem log_exact (statements : List Statement) (jobId : Nat) :
    shown jobId (after statements) = (written jobId statements).drop
      ((written jobId (throughDelete jobId statements)).length - LOG_CAP) := by
  induction statements using List.reverseRecOn with
  | nil => simp [shown, after, ofJob, written]
  | append_singleton statements s ih =>
    have through := written_through jobId statements
    rw [after_snoc, written_snoc, through_delete_snoc]
    cases s with
    | insert job level message done =>
      rw [if_neg (by simp), shown_insert, ih, List.drop_append_of_le_length (by omega)]
    | delete job done =>
      have none_ : written jobId [.delete job done] = [] := rfl
      rw [none_, List.append_nil]
      split
      · rename_i own
        rw [own, shown_delete jobId (after_sequenced statements), ih, List.length_drop,
          List.drop_drop, written_snoc]
        have more : written jobId [.delete jobId true] = [] := rfl
        rw [more, List.append_nil]
        have cut : ∀ cap all upTo : Nat, upTo ≤ all →
            upTo - cap + (all - (upTo - cap) - cap) = all - cap := by omega
        rw [cut _ _ _ through]
      · rename_i other
        rw [shown_kept jobId job _ other, ih]

end OmsJobLog
