import OpenOms.Jobs.Table
import OpenOms.Library.Runs
import OpenOms.Library.Lists

/-!
Background jobs as a process runs them: any number of requests to create one, each with
its two attempts, the tasks of the jobs created, and restarts, which leave nothing
running. A statement may fail, or take effect with its answer lost.
-/
namespace OmsJobRuns
open OmsJobs PartialIndex Runs Lists

inductive Reply where
  | heard
  -- it took effect, its answer was lost
  | unheard
  | failed
  deriving DecidableEq, Repr

inductive Created where
  | ok (id : Nat)
  | alreadyRunning (id : Nat)
  | db
  deriving DecidableEq, Repr

/-- `left` counts the attempts after this one. -/
inductive CallStage where
  | inserting (left : Nat)
  | lookingUp (left : Nat)
  | returned (result : Created)
  | gone
  deriving DecidableEq, Repr

structure Call where
  kind : JobKind
  subject : Option String
  startedBy : String
  stage : CallStage
  deriving DecidableEq, Repr

abbrev Outcome := Except String Report

inductive TaskStage where
  | starting
  | working
  | recording (outcome : Outcome) (left : Nat)
  | ended (outcome : Outcome)

structure Task where
  job : Nat
  kind : JobKind
  subject : Option String
  stage : TaskStage

/-- `orphans` are the jobs left active with no task to end them: the caller did not hear
    that it was inserted, its outcome could not be recorded, or the boot after its
    process could not mark it interrupted. -/
structure Jobs where
  rows : List JobRow
  calls : List Call
  tasks : List Task
  orphans : List Nat

def Jobs.start : Jobs := ⟨[], [], [], []⟩

inductive Action where
  | request (kind : JobKind) (subject : Option String) (startedBy : String)
  | insert (c : Nat) (now : Nat) (reply : Reply)
  | lookUp (c : Nat) (ok : Bool)
  | drop (c : Nat)
  | start (t : Nat) (reply : Reply)
  | progress (t : Nat) (done : Int) (total : Option Int) (reply : Reply)
  | finish (t : Nat) (outcome : Outcome)
  | record (t : Nat) (reply : Reply)
  | restart (marked : Reply)

def create (kind : JobKind) (subject : Option String) (startedBy : String) : Call :=
  ⟨kind, subject, startedBy, .inserting 1⟩

/-- A universe job's outcome is written again once if that failed, another's is not. -/
def retries (kind : JobKind) : Nat := if kind.writesUniverse then 1 else 0

def write (rows : List JobRow) (id : Nat) (change : JobRow → JobRow) (reply : Reply) :
    List JobRow × Bool :=
  match reply, update indexKey rows id change with
  | .heard, some changed => (changed, true)
  | .unheard, some changed => (changed, false)
  | _, _ => (rows, false)

def recorded : Outcome → JobRow → JobRow
  | .ok result => JobRow.succeed result
  | .error error => JobRow.fail error

def isActive (rows : List JobRow) (id : Nat) : Bool := rows[id]?.any fun row => row.status.active

def setCall (s : Jobs) (c : Nat) (call : Call) (stage : CallStage) : Jobs :=
  { s with calls := s.calls.set c { call with stage } }

def setTask (s : Jobs) (t : Nat) (task : Task) (stage : TaskStage) : Jobs :=
  { s with tasks := s.tasks.set t { task with stage } }

def insertStep (s : Jobs) (c : Nat) (call : Call) (left now : Nat) (reply : Reply) : Jobs :=
  let id := s.rows.length
  match insert indexKey s.rows (.queued call.kind call.subject call.startedBy now), reply with
  | some rows, .heard =>
    let created := setCall { s with rows } c call (.returned (.ok id))
    { created with tasks := s.tasks ++ [⟨id, call.kind, call.subject, .starting⟩] }
  | some rows, .unheard =>
    let created := setCall { s with rows } c call (.returned .db)
    { created with orphans := id :: s.orphans }
  | none, .heard => setCall s c call (.lookingUp left)
  | _, _ => setCall s c call (.returned .db)

def lookUpStep (s : Jobs) (c : Nat) (call : Call) (left : Nat) (ok : Bool) : Jobs :=
  if ok then
    match lookUp s.rows call.kind call.subject, left with
    | some id, _ => setCall s c call (.returned (.alreadyRunning id))
    | none, left + 1 => setCall s c call (.inserting left)
    | none, 0 => setCall s c call (.returned .db)
  else setCall s c call (.returned .db)

def recordStep (s : Jobs) (t : Nat) (task : Task) (outcome : Outcome) (left : Nat)
    (reply : Reply) : Jobs :=
  let (rows, done) := write s.rows task.job (recorded outcome) reply
  let next := { s with rows }
  match done, left with
  | true, _ => setTask next t task (.ended outcome)
  | false, left + 1 => setTask next t task (.recording outcome left)
  | false, 0 =>
    let given := setTask next t task (.ended outcome)
    if isActive rows task.job then { given with orphans := task.job :: s.orphans } else given

def Call.leave (call : Call) : Call :=
  match call.stage with
  | .returned _ => call
  | _ => { call with stage := .gone }

def activeIds (rows : List JobRow) : List Nat :=
  (List.range rows.length).filter (isActive rows)

def restartStep (s : Jobs) (marked : Reply) : Jobs :=
  let left := { s with calls := s.calls.map Call.leave, tasks := [] }
  match marked with
  | .failed => { left with orphans := activeIds s.rows ++ s.orphans }
  | _ => { left with rows := markInterrupted s.rows }

def step (s : Jobs) : Action → Option Jobs
  | .request kind subject startedBy =>
    some { s with calls := s.calls ++ [create kind subject startedBy] }
  | .insert c now reply =>
    match s.calls[c]? with
    | some call =>
      match call.stage with
      | .inserting left => some (insertStep s c call left now reply)
      | _ => none
    | none => none
  | .lookUp c ok =>
    match s.calls[c]? with
    | some call =>
      match call.stage with
      | .lookingUp left => some (lookUpStep s c call left ok)
      | _ => none
    | none => none
  | .drop c =>
    match s.calls[c]? with
    | some call => some { s with calls := s.calls.set c call.leave }
    | none => none
  | .start t reply =>
    match s.tasks[t]? with
    | some task =>
      match task.stage with
      | .starting =>
        let (rows, _) := write s.rows task.job JobRow.start reply
        some (setTask { s with rows } t task .working)
      | _ => none
    | none => none
  | .progress t done total reply =>
    match s.tasks[t]? with
    | some task =>
      match task.stage with
      | .working =>
        let (rows, _) := write s.rows task.job (JobRow.progress done total) reply
        some (setTask { s with rows } t task .working)
      | _ => none
    | none => none
  | .finish t outcome =>
    match s.tasks[t]? with
    | some task =>
      match task.stage, outcome with
      | .working, _ => some (setTask s t task (.recording outcome (retries task.kind)))
      | .starting, .error _ => some (setTask s t task (.recording outcome (retries task.kind)))
      | _, _ => none
    | none => none
  | .record t reply =>
    match s.tasks[t]? with
    | some task =>
      match task.stage with
      | .recording outcome left => some (recordStep s t task outcome left reply)
      | _ => none
    | none => none
  | .restart marked => some (restartStep s marked)

def TaskStage.busy : TaskStage → Bool
  | .starting | .working => true
  | _ => false

def TaskStage.isEnded : TaskStage → Bool
  | .ended _ => true
  | _ => false

def Excludes (t u : Task) : Prop :=
  t.kind ∈ blockingKinds u.kind ∧ t.subject = u.subject ∧ t.subject.isSome = true

def Reads (row : JobRow) : Outcome → Prop
  | .ok result => row.status = .succeeded ∧ row.result = some result
  | .error error => row.status = .failed ∧ row.error = some error

def Answers (rows : List JobRow) (c : Call) : Created → Prop
  | .ok id => ∃ row, rows[id]? = some row ∧ row.kind = c.kind ∧ row.subject = c.subject ∧
      row.startedBy = c.startedBy
  | .alreadyRunning id => ∃ row, rows[id]? = some row ∧ row.kind ∈ blockingKinds c.kind ∧
      row.subject = c.subject
  | .db => True

/-- No two jobs that exclude each other are active, or at work, a job at work is active,
    what has ended tells how it ended, and an active job has a task to end it or is an
    orphan. -/
structure Exclusive (s : Jobs) : Prop where
  one : ∀ (i j : Nat) row other, s.rows[i]? = some row → s.rows[j]? = some other →
    row.status.active = true → other.status.active = true →
    row.kind ∈ blockingKinds other.kind → row.subject = other.subject →
    row.subject.isSome = true → i = j
  alone : s.tasks.Pairwise fun t u => t.stage.busy = true → u.stage.busy = true → ¬ Excludes t u
  busy : ∀ t ∈ s.tasks, t.stage.busy = true → isActive s.rows t.job = true
  ended : ∀ t ∈ s.tasks, ∀ outcome, t.stage = .ended outcome →
    t.job ∈ s.orphans ∨ ∃ row, s.rows[t.job]? = some row ∧ Reads row outcome
  owned : ∀ id, isActive s.rows id = true →
    id ∈ s.orphans ∨ ∃ t ∈ s.tasks, t.job = id ∧ t.stage.isEnded = false
  answered : ∀ c ∈ s.calls, ∀ result, c.stage = .returned result → Answers s.rows c result

def Stands (orphans : List Nat) (t : Task) (row : JobRow) : Prop :=
  match t.stage with
  | .starting | .working => row.status.active = true
  | .recording outcome _ => row.status.active = true ∨ Reads row outcome
  | .ended outcome => t.job ∈ orphans ∨ Reads row outcome

structure Fits (rows : List JobRow) (orphans : List Nat) (t : Task) (row : JobRow) : Prop where
  there : rows[t.job]? = some row
  kind : row.kind = t.kind
  subject : row.subject = t.subject
  stands : Stands orphans t row

structure Inv (s : Jobs) : Prop where
  unique : Unique indexKey s.rows
  apart : s.tasks.Pairwise fun t u => t.job ≠ u.job
  fits : ∀ t ∈ s.tasks, ∃ row, Fits s.rows s.orphans t row
  owned : ∀ id, isActive s.rows id = true →
    id ∈ s.orphans ∨ ∃ t ∈ s.tasks, t.job = id ∧ t.stage.isEnded = false
  answered : ∀ c ∈ s.calls, ∀ result, c.stage = .returned result → Answers s.rows c result

theorem start_inv : Inv .start where
  unique := List.Pairwise.nil
  apart := List.Pairwise.nil
  fits := by simp [Jobs.start]
  owned := by simp [Jobs.start, isActive]
  answered := by simp [Jobs.start]

def SameJob (row new : JobRow) : Prop :=
  new.kind = row.kind ∧ new.subject = row.subject ∧ new.startedBy = row.startedBy ∧
    new.createdAt = row.createdAt

def Carried (rows next : List JobRow) : Prop :=
  ∀ (id : Nat) row, rows[id]? = some row → ∃ new, next[id]? = some new ∧ SameJob row new

theorem answers_carried {rows next : List JobRow} {c : Call} {result : Created}
    (carried : Carried rows next) (answers : Answers rows c result) : Answers next c result := by
  cases result with
  | db => trivial
  | ok id =>
    obtain ⟨row, there, kind, subject, startedBy⟩ := answers
    obtain ⟨new, here, same⟩ := carried id row there
    exact ⟨new, here, same.1.trans kind, same.2.1.trans subject, same.2.2.1.trans startedBy⟩
  | alreadyRunning id =>
    obtain ⟨row, there, kind, subject⟩ := answers
    obtain ⟨new, here, same⟩ := carried id row there
    exact ⟨new, here, by rw [same.1]; exact kind, same.2.1.trans subject⟩

theorem carried_append (rows : List JobRow) (row : JobRow) : Carried rows (rows ++ [row]) := by
  intro id old there
  have bound := (List.getElem?_eq_some_iff.mp there).1
  exact ⟨old, by rw [List.getElem?_append_left bound, there], rfl, rfl, rfl, rfl⟩

theorem carried_modify {rows : List JobRow} {change : JobRow → JobRow}
    (same : ∀ row, SameJob row (change row)) (i : Nat) : Carried rows (rows.modify i change) := by
  intro id row there
  rw [List.getElem?_modify, there]
  split
  · exact ⟨change row, rfl, same row⟩
  · exact ⟨row, rfl, rfl, rfl, rfl, rfl⟩

theorem carried_map {rows : List JobRow} {change : JobRow → JobRow}
    (same : ∀ row, SameJob row (change row)) : Carried rows (rows.map change) := by
  intro id row there
  exact ⟨change row, by rw [List.getElem?_map, there]; rfl, same row⟩

theorem write_cases {rows : List JobRow} {id : Nat} {change : JobRow → JobRow} {reply : Reply}
    (unique : Unique indexKey rows)
    (within : ∀ row ∈ rows[id]?, Within indexKey row (change row)) :
    (∃ done, write rows id change reply = (rows.modify id change, done)) ∨
      write rows id change reply = (rows, false) := by
  unfold write
  rw [update_within unique within]
  cases reply with
  | heard => exact Or.inl ⟨true, rfl⟩
  | unheard => exact Or.inl ⟨false, rfl⟩
  | failed => exact Or.inr rfl

theorem is_active_iff {rows : List JobRow} {id : Nat} :
    isActive rows id = true ↔ ∃ row, rows[id]? = some row ∧ row.status.active = true := by
  unfold isActive
  cases rows[id]? <;> simp

theorem modify_elsewhere {rows : List JobRow} {i j : Nat} {change : JobRow → JobRow}
    (other : i ≠ j) : (rows.modify i change)[j]? = rows[j]? := by
  rw [List.getElem?_modify]
  split
  · rename_i same
    exact absurd same other
  · simp

theorem modify_here {rows : List JobRow} {i : Nat} {row : JobRow} {change : JobRow → JobRow}
    (there : rows[i]? = some row) : (rows.modify i change)[i]? = some (change row) := by
  rw [List.getElem?_modify, there]
  simp

theorem revise_keeps {s : Jobs} {t : Nat} {task : Task} {stage : TaskStage}
    {change : JobRow → JobRow} {row : JobRow} {orphans : List Nat} (inv : Inv s)
    (there : s.tasks[t]? = some task) (fits : Fits s.rows s.orphans task row)
    (same : ∀ row, SameJob row (change row)) (within : Within indexKey row (change row))
    (grows : ∀ id ∈ s.orphans, id ∈ orphans)
    (stands : Stands orphans { task with stage } (change row))
    (given : stage.isEnded = true → (change row).status.active = true → task.job ∈ orphans) :
    Inv ⟨s.rows.modify task.job change, s.calls, s.tasks.set t { task with stage }, orphans⟩ := by
  have here : (s.rows.modify task.job change)[task.job]? = some (change row) :=
    modify_here fits.there
  have others : ∀ u ∈ s.tasks.eraseIdx t, task.job ≠ u.job :=
    pairwise_others (fun _ _ other => other.symm) inv.apart t there
  have split : ∀ u ∈ s.tasks.set t { task with stage },
      u = { task with stage } ∨ u ∈ s.tasks ∧ task.job ≠ u.job := by
    intro u member
    rcases mem_set_others t member with new | old
    · exact Or.inl new
    · exact Or.inr ⟨List.mem_of_mem_eraseIdx old, others u old⟩
  refine ⟨?_, ?_, ?_, ?_, ?_⟩
  · refine modify_unique inv.unique fun r at_ => ?_
    rw [Option.mem_def, fits.there] at at_
    cases at_
    exact within
  · exact pairwise_set (fun _ _ other => other.symm) inv.apart t others
  · intro u member
    rcases split u member with rfl | ⟨old, apart⟩
    · exact ⟨change row, here, (same row).1.trans fits.kind, (same row).2.1.trans fits.subject, stands⟩
    · obtain ⟨r, at_, kind, subject, stood⟩ := inv.fits u old
      refine ⟨r, by rw [modify_elsewhere apart, at_], kind, subject, ?_⟩
      unfold Stands at stood ⊢
      split <;> rename_i own <;> simp only [own] at stood
      · exact stood
      · exact stood
      · exact stood
      · exact stood.imp_left (grows _)
  · intro id active
    by_cases own : task.job = id
    · subst own
      by_cases over_ : stage.isEnded = true
      · obtain ⟨r, at_, on⟩ := is_active_iff.mp active
        rw [here] at at_
        cases at_
        exact Or.inl (given over_ on)
      · refine Or.inr ⟨{ task with stage }, ?_, rfl, by simpa using over_⟩
        exact List.mem_set (List.getElem?_eq_some_iff.mp there).1 _
    · have before : isActive s.rows id = true := by
        rw [isActive, modify_elsewhere own] at active
        exact active
      rcases inv.owned id before with orphan | ⟨u, member, is, alive⟩
      · exact Or.inl (grows id orphan)
      · right
        refine ⟨u, ?_, is, alive⟩
        obtain ⟨j, at_⟩ := List.mem_iff_getElem?.mp member
        have apart : t ≠ j := by
          rintro rfl
          rw [there] at at_
          cases at_
          exact own is
        exact List.mem_iff_getElem?.mpr ⟨j, by rw [List.getElem?_set_ne apart, at_]⟩
  · intro c member result stage
    exact answers_carried (carried_modify same task.job) (inv.answered c member result stage)

theorem call_keeps {s : Jobs} {c : Nat} {call : Call} {stage : CallStage} (inv : Inv s)
    (answers : ∀ result, stage = .returned result → Answers s.rows call result) :
    Inv (setCall s c call stage) where
  unique := inv.unique
  apart := inv.apart
  fits := inv.fits
  owned := inv.owned
  answered := forall_mem_set inv.answered answers

theorem look_up_some {rows : List JobRow} {kind : JobKind} {subject : Option String} {id : Nat}
    (found : lookUp rows kind subject = some id) : ∃ row, rows[id]? = some row ∧
      row.kind ∈ blockingKinds kind ∧ row.subject = subject ∧ row.status.active = true := by
  obtain ⟨bound, blocked, _⟩ := List.findIdx?_eq_some_iff_getElem.mp found
  refine ⟨rows[id], List.getElem?_eq_getElem bound, ?_⟩
  simpa [blocks, and_assoc] using blocked

theorem look_up_keeps {s : Jobs} {c : Nat} {call : Call} (left : Nat) (ok : Bool) (inv : Inv s) :
    Inv (lookUpStep s c call left ok) := by
  unfold lookUpStep
  split
  · split
    · rename_i id _ found
      refine call_keeps inv fun result is => ?_
      cases is
      obtain ⟨row, there, kind, subject, _⟩ := look_up_some found
      exact ⟨row, there, kind, subject⟩
    · exact call_keeps inv fun result is => nomatch is
    · refine call_keeps inv fun result is => ?_
      cases is
      trivial
  · refine call_keeps inv fun result is => ?_
    cases is
    trivial

theorem append_here (rows : List JobRow) (row : JobRow) :
    (rows ++ [row])[rows.length]? = some row := by
  simp

theorem append_fits {rows : List JobRow} {row : JobRow} {orphans more : List Nat} {t : Task}
    {old : JobRow} (fits : Fits rows orphans t old) (grows : ∀ id ∈ orphans, id ∈ more) :
    Fits (rows ++ [row]) more t old := by
  obtain ⟨there, kind, subject, stands⟩ := fits
  have bound := (List.getElem?_eq_some_iff.mp there).1
  refine ⟨by rw [List.getElem?_append_left bound, there], kind, subject, ?_⟩
  unfold Stands at stands ⊢
  split <;> rename_i own <;> simp only [own] at stands
  · exact stands
  · exact stands
  · exact stands
  · exact stands.imp_left (grows _)

theorem append_active {rows : List JobRow} {row : JobRow} {id : Nat}
    (active : isActive (rows ++ [row]) id = true) : id = rows.length ∨ isActive rows id = true := by
  obtain ⟨r, there, on⟩ := is_active_iff.mp active
  rcases at_append there with ⟨_, old⟩ | ⟨last, _⟩
  · exact Or.inr (is_active_iff.mpr ⟨r, old, on⟩)
  · exact Or.inl last

theorem append_answered {s : Jobs} {c : Nat} {call : Call} {row : JobRow} {stage : CallStage}
    (inv : Inv s)
    (answers : ∀ result, stage = .returned result → Answers (s.rows ++ [row]) call result) :
    ∀ k ∈ s.calls.set c { call with stage }, ∀ result, k.stage = .returned result →
      Answers (s.rows ++ [row]) k result := by
  refine forall_mem_set ?_ answers
  intro k member result is
  exact answers_carried (carried_append s.rows row) (inv.answered k member result is)

theorem insert_keeps {s : Jobs} {c : Nat} {call : Call} (left now : Nat) (reply : Reply)
    (inv : Inv s) : Inv (insertStep s c call left now reply) := by
  unfold insertStep
  dsimp only
  split
  · rename_i rows done
    have unique := insert_unique inv.unique done
    obtain ⟨-, rfl⟩ := insert_some done
    refine ⟨unique, ?_, ?_, ?_, ?_⟩
    · refine List.pairwise_append.mpr ⟨inv.apart, List.pairwise_singleton _ _, ?_⟩
      intro t member u new
      rw [List.mem_singleton.mp new]
      obtain ⟨row, fits⟩ := inv.fits t member
      have bound := (List.getElem?_eq_some_iff.mp fits.there).1
      exact Nat.ne_of_lt bound
    · intro t member
      rcases List.mem_append.mp member with old | new
      · obtain ⟨row, fits⟩ := inv.fits t old
        exact ⟨row, append_fits fits fun _ => id⟩
      · rw [List.mem_singleton.mp new]
        exact ⟨_, append_here _ _, rfl, rfl, rfl⟩
    · intro id active
      rcases append_active active with rfl | old
      · refine Or.inr ⟨⟨s.rows.length, call.kind, call.subject, .starting⟩, ?_, rfl, rfl⟩
        exact List.mem_append_right _ (List.mem_singleton_self _)
      · refine (inv.owned id old).imp_right ?_
        rintro ⟨t, member, alive⟩
        exact ⟨t, List.mem_append_left _ member, alive⟩
    · refine append_answered inv fun result is => ?_
      cases is
      exact ⟨_, append_here _ _, rfl, rfl, rfl⟩
  · rename_i rows done
    have unique := insert_unique inv.unique done
    obtain ⟨-, rfl⟩ := insert_some done
    refine ⟨unique, inv.apart, ?_, ?_, ?_⟩
    · intro t member
      obtain ⟨row, fits⟩ := inv.fits t member
      exact ⟨row, append_fits fits fun _ => List.mem_cons_of_mem _⟩
    · intro id active
      rcases append_active active with rfl | old
      · exact Or.inl List.mem_cons_self
      · exact (inv.owned id old).imp_left (List.mem_cons_of_mem _)
    · refine append_answered inv fun result is => ?_
      cases is
      trivial
  · exact call_keeps inv fun result is => nomatch is
  · refine call_keeps inv fun result is => ?_
    cases is
    trivial

theorem leave_answered {rows : List JobRow} {call : Call} {result : Created}
    (answered : ∀ result, call.stage = .returned result → Answers rows call result)
    (is : call.leave.stage = .returned result) : Answers rows call.leave result := by
  unfold Call.leave at is ⊢
  split at is
  · exact answered result is
  · cases is

theorem interrupt_same (row : JobRow) : SameJob row row.interrupt := by
  unfold JobRow.interrupt
  split <;> exact ⟨rfl, rfl, rfl, rfl⟩

theorem mem_active_ids {rows : List JobRow} {id : Nat} :
    id ∈ activeIds rows ↔ isActive rows id = true := by
  simp only [activeIds, List.mem_filter, List.mem_range, and_iff_right_iff_imp]
  intro active
  obtain ⟨_, there, _⟩ := is_active_iff.mp active
  exact (List.getElem?_eq_some_iff.mp there).1

theorem none_interrupted (rows : List JobRow) (id : Nat) :
    isActive (markInterrupted rows) id = false := by
  unfold isActive markInterrupted
  rw [List.getElem?_map]
  cases rows[id]? with
  | none => rfl
  | some row => exact interrupted_inactive row

theorem restart_keeps {s : Jobs} (marked : Reply) (inv : Inv s) : Inv (restartStep s marked) := by
  have answered : ∀ c ∈ s.calls.map Call.leave, ∀ result, c.stage = .returned result →
      Answers s.rows c result := by
    intro c member result is
    obtain ⟨call, there, rfl⟩ := List.mem_map.mp member
    exact leave_answered (inv.answered call there) is
  have interrupted : Inv { s with
      rows := markInterrupted s.rows, calls := s.calls.map Call.leave, tasks := [] } := by
    refine ⟨map_unique inv.unique interrupt_within, List.Pairwise.nil, by simp, ?_, ?_⟩
    · intro id active
      rw [none_interrupted] at active
      cases active
    · intro c member result is
      exact answers_carried (carried_map interrupt_same) (answered c member result is)
  cases marked with
  | failed =>
    refine ⟨inv.unique, List.Pairwise.nil, by simp [restartStep], ?_, answered⟩
    intro id active
    exact Or.inl (List.mem_append_left _ (mem_active_ids.mpr active))
  | heard => exact interrupted
  | unheard => exact interrupted

theorem modify_none (rows : List JobRow) (i : Nat) : rows.modify i (fun row => row) = rows :=
  List.modify_id i rows

theorem work_keeps {s : Jobs} {t : Nat} {task : Task} {stage : TaskStage}
    {change : JobRow → JobRow} {row : JobRow} (reply : Reply) (inv : Inv s)
    (there : s.tasks[t]? = some task) (fits : Fits s.rows s.orphans task row)
    (same : ∀ row, SameJob row (change row)) (within : Within indexKey row (change row))
    (alive : stage.isEnded = false) (stood : Stands s.orphans { task with stage } row)
    (stands : Stands s.orphans { task with stage } (change row)) :
    Inv (setTask { s with rows := (write s.rows task.job change reply).1 } t task stage) := by
  have inside : ∀ r ∈ s.rows[task.job]?, Within indexKey r (change r) := by
    intro r at_
    rw [Option.mem_def, fits.there] at at_
    cases at_
    exact within
  have given : ∀ new : JobRow, stage.isEnded = true → new.status.active = true →
      task.job ∈ s.orphans := by
    intro _ over_
    rw [alive] at over_
    cases over_
  rcases @write_cases _ _ _ reply inv.unique inside with ⟨done, wrote⟩ | same_
  · rw [wrote]
    exact revise_keeps inv there fits same within (fun _ => id) stands (given _)
  · rw [same_]
    have kept := @revise_keeps s t task stage (fun r => r) row s.orphans inv there fits
      (fun _ => ⟨rfl, rfl, rfl, rfl⟩) (fun _ => id) (fun _ => id) stood (given _)
    rw [modify_none] at kept
    exact kept

theorem recorded_same (outcome : Outcome) (row : JobRow) : SameJob row (recorded outcome row) := by
  cases outcome <;> exact ⟨rfl, rfl, rfl, rfl⟩

theorem recorded_over (outcome : Outcome) (row : JobRow) :
    (recorded outcome row).status.active = false := by
  cases outcome <;> rfl

theorem recorded_reads (outcome : Outcome) (row : JobRow) : Reads (recorded outcome row) outcome := by
  cases outcome <;> exact ⟨rfl, rfl⟩

theorem record_keeps {s : Jobs} {t : Nat} {task : Task} {outcome : Outcome} {left : Nat}
    (reply : Reply) (inv : Inv s) (there : s.tasks[t]? = some task)
    (own : task.stage = .recording outcome left) :
    Inv (recordStep s t task outcome left reply) := by
  obtain ⟨row, fits⟩ := inv.fits task (List.mem_of_getElem? there)
  have stood : row.status.active = true ∨ Reads row outcome := by
    have stands := fits.stands
    unfold Stands at stands
    rw [own] at stands
    exact stands
  have within : Within indexKey row (recorded outcome row) :=
    ended_within (recorded_over outcome row)
  have inside : ∀ r ∈ s.rows[task.job]?, Within indexKey r (recorded outcome r) :=
    fun r _ => ended_within (recorded_over outcome r)
  have over_ : ∀ {P : Prop}, (recorded outcome row).status.active = true → P := by
    intro P on
    rw [recorded_over] at on
    cases on
  unfold recordStep
  rcases @write_cases _ _ _ reply inv.unique inside with ⟨done, wrote⟩ | same
  · rw [wrote]
    have ends : Inv (setTask { s with rows := s.rows.modify task.job (recorded outcome) } t task
        (.ended outcome)) :=
      revise_keeps inv there fits (recorded_same outcome) within (fun _ => id)
        (Or.inr (recorded_reads outcome row)) fun _ => over_
    have quiet : isActive (s.rows.modify task.job (recorded outcome)) task.job = false := by
      rw [isActive, modify_here fits.there]
      exact recorded_over outcome row
    cases done with
    | true => exact ends
    | false =>
      cases left with
      | succ left =>
        exact revise_keeps inv there fits (recorded_same outcome) within (fun _ => id)
          (Or.inr (recorded_reads outcome row)) fun more => nomatch more
      | zero =>
        simp only [quiet, Bool.false_eq_true, if_false]
        exact ends
  · rw [same]
    have stays : ∀ (stage : TaskStage) (orphans : List Nat), (∀ id ∈ s.orphans, id ∈ orphans) →
        Stands orphans { task with stage } row →
        (stage.isEnded = true → row.status.active = true → task.job ∈ orphans) →
        Inv ⟨s.rows, s.calls, s.tasks.set t { task with stage }, orphans⟩ := by
      intro stage orphans grows stands given
      have kept := @revise_keeps s t task stage (fun r => r) row orphans inv there fits
        (fun _ => ⟨rfl, rfl, rfl, rfl⟩) (fun _ => id) grows stands given
      rw [modify_none] at kept
      exact kept
    cases left with
    | succ left => exact stays _ _ (fun _ => id) stood fun more => nomatch more
    | zero =>
      dsimp only
      split
      · exact stays _ _ (fun _ => List.mem_cons_of_mem _) (Or.inl List.mem_cons_self)
          fun _ _ => List.mem_cons_self
      · rename_i quiet
        have ended : row.status.active ≠ true := fun on =>
          quiet (is_active_iff.mpr ⟨row, fits.there, on⟩)
        exact stays _ _ (fun _ => id) (Or.inr (stood.resolve_left ended)) fun _ on => absurd on ended

theorem start_keeps {s : Jobs} {t : Nat} {task : Task} (reply : Reply) (inv : Inv s)
    (there : s.tasks[t]? = some task) (own : task.stage = .starting) :
    Inv (setTask { s with rows := (write s.rows task.job JobRow.start reply).1 } t task .working) := by
  obtain ⟨row, fits⟩ := inv.fits task (List.mem_of_getElem? there)
  have active : row.status.active = true := by
    have stands := fits.stands
    unfold Stands at stands
    rw [own] at stands
    exact stands
  exact work_keeps reply inv there fits (fun _ => ⟨rfl, rfl, rfl, rfl⟩) (start_within active) rfl active rfl

theorem progress_keeps {s : Jobs} {t : Nat} {task : Task} (done : Int) (total : Option Int)
    (reply : Reply) (inv : Inv s) (there : s.tasks[t]? = some task)
    (own : task.stage = .working) :
    Inv (setTask { s with rows := (write s.rows task.job (JobRow.progress done total) reply).1 }
      t task .working) := by
  obtain ⟨row, fits⟩ := inv.fits task (List.mem_of_getElem? there)
  have active : row.status.active = true := by
    have stands := fits.stands
    unfold Stands at stands
    rw [own] at stands
    exact stands
  exact work_keeps reply inv there fits (fun _ => ⟨rfl, rfl, rfl, rfl⟩) (progress_within done total row)
    rfl active active

theorem finish_keeps {s : Jobs} {t : Nat} {task : Task} (outcome : Outcome) (left : Nat)
    (inv : Inv s) (there : s.tasks[t]? = some task) (own : task.stage.busy = true) :
    Inv (setTask s t task (.recording outcome left)) := by
  obtain ⟨row, fits⟩ := inv.fits task (List.mem_of_getElem? there)
  have active : row.status.active = true := by
    have stands := fits.stands
    unfold Stands at stands
    unfold TaskStage.busy at own
    cases at_ : task.stage <;> rw [at_] at stands own
    · exact stands
    · exact stands
    · cases own
    · cases own
  have kept := @revise_keeps s t task (.recording outcome left) (fun r => r) row s.orphans inv there
    fits (fun _ => ⟨rfl, rfl, rfl, rfl⟩) (fun _ => id) (fun _ => id) (Or.inl active)
    fun more => nomatch more
  rw [modify_none] at kept
  exact kept

theorem drop_keeps {s : Jobs} {c : Nat} {call : Call} (inv : Inv s) (there : s.calls[c]? = some call) :
    Inv { s with calls := s.calls.set c call.leave } where
  unique := inv.unique
  apart := inv.apart
  fits := inv.fits
  owned := inv.owned
  answered := forall_mem_set inv.answered fun _ is =>
    leave_answered (inv.answered call (List.mem_of_getElem? there)) is

theorem step_keeps {s next : Jobs} {a : Action} (inv : Inv s) (taken : step s a = some next) :
    Inv next := by
  unfold step at taken
  split at taken
  · cases taken
    refine ⟨inv.unique, inv.apart, inv.fits, inv.owned, ?_⟩
    intro c member result is
    rcases List.mem_append.mp member with old | new
    · exact inv.answered c old result is
    · rw [List.mem_singleton.mp new] at is
      cases is
  · split at taken
    · split at taken <;> cases taken
      exact insert_keeps _ _ _ inv
    · cases taken
  · split at taken
    · split at taken <;> cases taken
      exact look_up_keeps _ _ inv
    · cases taken
  · split at taken <;> cases taken
    rename_i there
    exact drop_keeps inv there
  · split at taken
    · rename_i there
      split at taken <;> cases taken
      rename_i own
      exact start_keeps _ inv there own
    · cases taken
  · split at taken
    · rename_i there
      split at taken <;> cases taken
      rename_i own
      exact progress_keeps _ _ _ inv there own
    · cases taken
  · split at taken
    · rename_i there
      split at taken <;> cases taken
      · rename_i own
        exact finish_keeps _ _ inv there (by rw [own]; rfl)
      · rename_i own
        exact finish_keeps _ _ inv there (by rw [own]; rfl)
    · cases taken
  · split at taken
    · rename_i there
      split at taken <;> cases taken
      rename_i own
      exact record_keeps _ inv there own
    · cases taken
  · cases taken
    exact restart_keeps _ inv

theorem busy_active {s : Jobs} {t : Task} (inv : Inv s) (member : t ∈ s.tasks)
    (busy : t.stage.busy = true) : ∃ row, Fits s.rows s.orphans t row ∧ row.status.active = true := by
  obtain ⟨row, fits⟩ := inv.fits t member
  refine ⟨row, fits, ?_⟩
  have stands := fits.stands
  unfold Stands at stands
  unfold TaskStage.busy at busy
  cases at_ : t.stage <;> rw [at_] at stands busy
  · exact stands
  · exact stands
  · cases busy
  · cases busy

/-- Two active rows that exclude each other would stand under one key of the index. -/
theorem active_one {rows : List JobRow} {i j : Nat} {a b : JobRow} (unique : Unique indexKey rows)
    (here : rows[i]? = some a) (there : rows[j]? = some b) (onA : a.status.active = true)
    (onB : b.status.active = true) (blocked : a.kind ∈ blockingKinds b.kind)
    (same : a.subject = b.subject) (named : a.subject.isSome = true) : i = j := by
  obtain ⟨subject, own⟩ := Option.isSome_iff_exists.mp named
  have keyA : b.kind.key subject ∈ indexKey a :=
    index_key_iff.mpr ⟨onA, subject, own, blocks_key subject blocked⟩
  have keyB : b.kind.key subject ∈ indexKey b :=
    index_key_iff.mpr ⟨onB, subject, same.symm.trans own, rfl⟩
  exact unique_id unique here there keyA keyB

theorem busy_apart {s : Jobs} {t u : Task} (inv : Inv s) (here : t ∈ s.tasks) (there : u ∈ s.tasks)
    (other : t.job ≠ u.job) (first : t.stage.busy = true) (second : u.stage.busy = true) :
    ¬ Excludes t u := by
  rintro ⟨blocked, same, named⟩
  obtain ⟨a, fitsA, onA⟩ := busy_active inv here first
  obtain ⟨b, fitsB, onB⟩ := busy_active inv there second
  rw [← fitsA.kind, ← fitsB.kind] at blocked
  rw [← fitsA.subject, ← fitsB.subject] at same
  rw [← fitsA.subject] at named
  exact other (active_one inv.unique fitsA.there fitsB.there onA onB blocked same named)

theorem inv_exclusive {s : Jobs} (inv : Inv s) : Exclusive s where
  one := by
    intro i j row other here there onA onB blocked same named
    exact active_one inv.unique here there onA onB blocked same named
  alone := by
    refine List.Pairwise.imp_of_mem ?_ inv.apart
    intro t u here there other first second
    exact busy_apart inv here there other first second
  busy := by
    intro t member busy
    obtain ⟨row, fits, active⟩ := busy_active inv member busy
    exact is_active_iff.mpr ⟨row, fits.there, active⟩
  ended := by
    intro t member outcome own
    obtain ⟨row, fits⟩ := inv.fits t member
    have stands := fits.stands
    unfold Stands at stands
    rw [own] at stands
    exact stands.imp_right fun read => ⟨row, fits.there, read⟩
  owned := inv.owned
  answered := inv.answered

/-- However creates, tasks and restarts are interleaved and whatever statements fail, jobs
    that exclude each other never work at once, and what stays active has a task to end
    it or was lost in one of the three ways. -/
theorem jobs_exclusive (acts : List Action) : Throughout step Exclusive .start acts :=
  throughout_mono (fun _ => inv_exclusive)
    (throughout_keeps (fun _ _ _ inv taken => step_keeps inv taken) start_inv acts)

end OmsJobRuns
