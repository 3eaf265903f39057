import OpenOms.Domain.Course
import OpenOms.Library.Lists
import OpenOms.Systems.PositionWriters

/-!
Rebuilding the positions from the event log while fills and allocations run. A
fill's transaction changes the position and then appends its event; an
allocation's appends none. The rebuild reads the log in one statement and
replaces the table in a later transaction.
-/
namespace OmsRebuild
open OmsOrders OmsAggregate OmsPositions OmsOrderStore OmsCourse OmsPositionWriters
open Lists ReadCommitted Runs

structure JoinedEvent where
  event : OrderDomainEvent
  portfolioId : String
  instrumentId : String
  side : OrderSide
  typed : payloadType event.payload = event.eventType
  deriving DecidableEq

def JoinedEvent.key (joined : JoinedEvent) : PositionKey :=
  ⟨joined.portfolioId, joined.instrumentId⟩

def JoinedEvent.change (joined : JoinedEvent) : Option (PositionKey × Change) :=
  joined.event.payload.execution.map fun execution =>
    (joined.key, .fill joined.side execution.qty execution.price)

structure LogRow where
  globalPosition : Nat
  joined : JoinedEvent
  deriving DecidableEq

def isFillType : OrderEventType → Bool
  | .orderPartiallyFilled | .orderFilled => true
  | _ => false

/-- The rebuild's query: the fill events `ORDER BY e.global_position`. -/
def selectFills (log : List LogRow) : List LogRow :=
  (log.filter fun row => isFillType row.joined.event.eventType).mergeSort
    fun a b => a.globalPosition ≤ b.globalPosition

abbrev Positions := PositionKey → Option PositionMath

def replay (acc : Positions) (row : LogRow) : Positions :=
  match row.joined.event.payload with
  | .orderPartiallyFilled fill | .orderFilled fill =>
    let entry := (acc row.joined.key).getD .flat
    Function.update acc row.joined.key
      (some (entry.applyFill row.joined.side fill.fillQty fill.fillPrice))
  | _ => acc

def rebuildPositions (rows : List LogRow) : Positions := rows.foldl replay noPositions

inductive Source where
  | report (joined : JoinedEvent)
  | allocation (fromPortfolio instrumentId : String) (side : OrderSide) (price : ℚ)
      (splits : List (String × ℚ))

def Source.changes : Source → List (PositionKey × Change)
  | .report joined => joined.change.toList
  | .allocation fromPortfolio instrumentId side price splits =>
    allocationChanges fromPortfolio instrumentId side price splits

/-- A transaction in flight, with the log position its event has been given. -/
structure Job where
  source : Source
  position : Option Nat

def Job.rows (job : Job) : Option (List LogRow) :=
  match job.source, job.position with
  | .report joined, some position => some [⟨position, joined⟩]
  | .report _, none => none
  | .allocation .., _ => some []

/-- `live` is the table with the transactions on it, the i-th run for the i-th
    job, and `live.history` what they have committed since the table was last
    replaced or lost; `past` is what was committed before. -/
structure Projection where
  live : State PositionKey PositionMath Change
  jobs : List Job
  log : List LogRow
  nextPosition : Nat
  past : List (PositionKey × Change)
  read : Option (List LogRow)
  lost : Bool

def Projection.start : Projection := ⟨.start noPositions, [], [], 1, [], none, false⟩

def Projection.committed (s : Projection) : List (PositionKey × Change) :=
  s.past ++ s.live.history

/-- `lose` empties the table. The loads in `waiting` are those that block on rows
    a rebuild deletes, and find none when it commits. -/
inductive Action where
  | begin (source : Source)
  | load (i : Nat)
  | upsert (i : Nat)
  | append (i : Nat)
  | commit (i : Nat)
  | abort (i : Nat)
  | lose
  | readLog
  | replace (waiting : List Nat)

def liveStep (s : Projection) (a : ReadCommitted.Action PositionKey Change) : Option Projection :=
  (ReadCommitted.step .flat Change.apply s.live a).map fun live => { s with live := live }

def rowHeld (s : Projection) (table table' : Positions) : Bool :=
  s.live.txs.any fun tx => tx.held.any fun k => (table k).isSome || (table' k).isSome

def missLoad (live : State PositionKey PositionMath Change) (i : Nat) :
    State PositionKey PositionMath Change :=
  match live.txs[i]? with
  | none => live
  | some tx =>
    match tx.pending, tx.loaded with
    | (k, _) :: _, none =>
      if (live.table k).isSome then
        { live with txs := live.txs.set i { tx with loaded := some none } }
      else live
    | _, _ => live

def putTable (s : Projection) (live : State PositionKey PositionMath Change) (table : Positions)
    (lost : Bool) : Option Projection :=
  if rowHeld s s.live.table table then none
  else some { s with live := ⟨table, live.txs, []⟩, past := s.committed, lost := lost }

def step (s : Projection) : Action → Option Projection
  | .begin source =>
    (liveStep s (.begin source.changes)).map fun t => { t with jobs := s.jobs ++ [⟨source, none⟩] }
  | .load i => liveStep s (.load i)
  | .upsert i => liveStep s (.upsert i)
  | .append i =>
    match s.jobs[i]?, s.live.txs[i]? with
    | some ⟨.report joined, none⟩, some tx =>
      if tx.pending.isEmpty then
        some { s with
          jobs := s.jobs.set i ⟨.report joined, some s.nextPosition⟩
          nextPosition := s.nextPosition + 1 }
      else none
    | _, _ => none
  | .commit i =>
    match s.jobs[i]?.bind Job.rows with
    | none => none
    | some rows => (liveStep s (.commit i)).map fun t =>
        { t with jobs := s.jobs.eraseIdx i, log := s.log ++ rows }
  | .abort i => (liveStep s (.abort i)).map fun t => { t with jobs := s.jobs.eraseIdx i }
  | .lose => putTable s s.live noPositions true
  | .readLog => some { s with read := some (selectFills s.log) }
  | .replace waiting =>
    match s.read with
    | none => none
    | some rows =>
      (putTable s (waiting.foldl missLoad s.live) (rebuildPositions rows) false).map fun t =>
        { t with read := none }

/-- The table is what the live path builds over everything committed. -/
def FollowsHistory (s : Projection) : Prop :=
  s.lost = false → s.live.table = serial .flat Change.apply noPositions s.committed

def isTransferOut : Change → Bool
  | .transferOut .. => true
  | .fill .. => false

def allocated (s : Projection) : Bool := s.committed.any fun change => isTransferOut change.2

/-- What parts the table from the history: an upsert over a row its load missed,
    and a rebuild from a log that lacks a committed change. -/
def Misses (s : Projection) (a : Action) : Prop :=
  match a with
  | .upsert i => MeetsMissedRow s.live (.upsert i)
  | .replace _ => allocated s = true ∨ ∃ rows ∈ s.read, rows ≠ selectFills s.log
  | _ => False

instance (s : Projection) (a : Action) : Decidable (Misses s a) := by
  unfold Misses
  split <;> infer_instance

def replayed (log : List LogRow) : List (PositionKey × Change) :=
  log.filterMap fun row => row.joined.change

theorem replay_serial (acc : Positions) (row : LogRow) :
    replay acc row = serial .flat Change.apply acc row.joined.change.toList := by
  funext key
  have changed : ∀ fill : FillPayload, Function.update acc row.joined.key
      (some (((acc row.joined.key).getD .flat).applyFill row.joined.side fill.fillQty
        fill.fillPrice)) key =
      serial .flat Change.apply acc
        [(row.joined.key, .fill row.joined.side fill.fillQty fill.fillPrice)] key := by
    intro fill
    rw [serial_at, Function.update_apply]
    rfl
  unfold replay JoinedEvent.change
  cases row.joined.event.payload with
  | orderPartiallyFilled fill => exact changed fill
  | orderFilled fill => exact changed fill
  | orderSubmitted => rfl
  | orderRejected reason => rfl
  | orderRouted venue externalOrderId => rfl
  | orderAmended => rfl
  | orderCanceled reason => rfl
  | cancelRejected reason => rfl
  | orderExpired reason => rfl
  | orderSuspended reason resumeToStatus => rfl
  | orderReleased resumedToStatus => rfl

theorem rebuild_serial (rows : List LogRow) :
    rebuildPositions rows = serial .flat Change.apply noPositions (replayed rows) := by
  suffices general : ∀ acc, rows.foldl replay acc =
      serial .flat Change.apply acc (replayed rows) from general noPositions
  induction rows with
  | nil =>
    intro acc
    funext key
    rfl
  | cons row rows ih =>
    intro acc
    rw [List.foldl_cons, ih, replay_serial, ← serial_append]
    congr 1
    cases change : row.joined.change <;> simp [replayed, change]

def LogRow.changes (row : LogRow) (key : PositionKey) : Bool :=
  row.joined.change.any fun change => change.1 = key

theorem row_changes {row : LogRow} {key : PositionKey} :
    row.changes key = true ↔ ∃ change, row.joined.change = some change ∧ change.1 = key := by
  simp [LogRow.changes, Option.any_eq_true]

theorem fill_type_of_change {joined : JoinedEvent} (change : joined.change.isSome) :
    isFillType joined.event.eventType = true := by
  rw [← joined.typed]
  unfold JoinedEvent.change at change
  cases payload : joined.event.payload <;>
    simp_all [OrderEventPayload.execution, payloadType, isFillType]

theorem changes_at_replayed (key : PositionKey) (rows : List LogRow) :
    changesAt key (replayed rows) =
      changesAt key (replayed (rows.filter fun row => row.changes key)) := by
  induction rows with
  | nil => rfl
  | cons row rows ih =>
    cases change : row.joined.change with
    | none =>
      have skipped : row.changes key = false := by
        simp [LogRow.changes, change]
      simpa [replayed, change, skipped] using ih
    | some made =>
      by_cases own : made.1 = key
      · have taken : row.changes key = true := by
          simp [LogRow.changes, change, own]
        simp only [changesAt, replayed] at ih
        simp [replayed, change, taken, changesAt, own, ih]
      · have skipped : row.changes key = false := by
          simp [LogRow.changes, change, own]
        simp only [changesAt, replayed] at ih
        simp [replayed, change, skipped, changesAt, own, ih]

structure Fits (job : Job) (tx : Tx PositionKey PositionMath Change) : Prop where
  changes : tx.done ++ tx.pending = job.source.changes
  appended : job.position.isSome → tx.pending = []

/-- The live path's own invariant since the last replacement, and the history
    up to it. -/
def LiveKept (s : Projection) : Prop :=
  ∃ base, ReadCommitted.Inv .flat Change.apply base s.live ∧
    (s.lost = false → base = serial .flat Change.apply noPositions s.past)

/-- Per key the log's positions are in the order of the commits: a transaction
    holds its row from before its event is appended until it commits. -/
structure Ordered (s : Projection) : Prop where
  logBelow : ∀ row ∈ s.log, row.globalPosition < s.nextPosition
  jobsBelow : ∀ job ∈ s.jobs, ∀ position, job.position = some position →
    position < s.nextPosition
  above : ∀ job ∈ s.jobs, ∀ position, job.position = some position →
    ∀ change ∈ job.source.changes, ∀ row ∈ s.log, row.changes change.1 = true →
      row.globalPosition < position
  sorted : ∀ key, (s.log.filter fun row => row.changes key).Pairwise
    fun a b => a.globalPosition < b.globalPosition

structure Inv (s : Projection) : Prop where
  live : LiveKept s
  fits : List.Forall₂ Fits s.jobs s.live.txs
  ordered : Ordered s
  logged : allocated s = false → replayed s.log = s.committed

theorem ordered_frame {s t : Projection} (ordered : Ordered s) (log : t.log = s.log)
    (jobs : t.jobs = s.jobs) (given : t.nextPosition = s.nextPosition) : Ordered t where
  logBelow := by
    rw [log, given]
    exact ordered.logBelow
  jobsBelow := by
    rw [jobs, given]
    exact ordered.jobsBelow
  above := by
    rw [jobs, log]
    exact ordered.above
  sorted := by
    rw [log]
    exact ordered.sorted

theorem start_inv : Inv .start := by
  refine ⟨⟨noPositions, ⟨?_, ?_, rfl⟩, fun _ => rfl⟩, .nil, ⟨?_, ?_, ?_, ?_⟩, fun _ => rfl⟩ <;>
    simp [Projection.start, State.start]

theorem finished_holds {s : Projection} (inv : Inv s) {job : Job}
    {tx : Tx PositionKey PositionMath Change} (member : tx ∈ s.live.txs) (fits : Fits job tx)
    (finished : tx.pending = []) : ∀ change ∈ job.source.changes, change.1 ∈ tx.held := by
  obtain ⟨base, live, _⟩ := inv.live
  have consistent := live.consistent tx member
  intro change made
  rw [← fits.changes, finished, List.append_nil] at made
  exact consistent.writtenHeld _ (consistent.doneWritten change made)

theorem follows_history {s : Projection} (inv : Inv s) : FollowsHistory s := by
  intro current
  obtain ⟨base, live, start⟩ := inv.live
  rw [live.history, start current, ← serial_append]
  rfl

theorem rebuild_follows {s : Projection} (inv : Inv s) (events : allocated s = false) :
    rebuildPositions (selectFills s.log) =
      serial .flat Change.apply noPositions s.committed := by
  rw [rebuild_serial, ← inv.logged events]
  funext key
  unfold serial
  congr 1
  rw [changes_at_replayed key (selectFills s.log), changes_at_replayed key s.log, selectFills,
    filter_merge_sort]
  · rw [List.filter_filter]
    congr 2
    refine List.filter_congr fun row _ => ?_
    cases taken : row.changes key with
    | false => rfl
    | true =>
      obtain ⟨change, made, _⟩ := row_changes.mp taken
      simp [fill_type_of_change (Option.isSome_of_eq_some made)]
  · intro a b c first second
    simp only [decide_eq_true_eq] at *
    omega
  · intro a b
    simp only [Bool.or_eq_true, decide_eq_true_eq]
    omega
  · rw [List.filter_comm]
    refine ((inv.ordered.sorted key).filter _).imp ?_
    intro a b less
    simpa using less.le

theorem live_step {s t : Projection} {a : ReadCommitted.Action PositionKey Change}
    (next : liveStep s a = some t) :
    ∃ live, ReadCommitted.step .flat Change.apply s.live a = some live ∧
      t = { s with live := live } := by
  obtain ⟨live, taken, rfl⟩ := Option.map_eq_some_iff.mp next
  exact ⟨live, taken, rfl⟩

theorem live_keeps {s : Projection} (inv : Inv s)
    {a : ReadCommitted.Action PositionKey Change} {live : State PositionKey PositionMath Change}
    (ok : ¬ MeetsMissedRow s.live a)
    (taken : ReadCommitted.step .flat Change.apply s.live a = some live) :
    LiveKept { s with live := live } := by
  obtain ⟨base, kept, start⟩ := inv.live
  exact ⟨base, ReadCommitted.step_keeps .flat Change.apply kept ok taken, start⟩

theorem work_keeps {s t : Projection} (inv : Inv s)
    {a : ReadCommitted.Action PositionKey Change} {i : Nat} (work : a = .load i ∨ a = .upsert i)
    (ok : ¬ MeetsMissedRow s.live a) (next : liveStep s a = some t) : Inv t := by
  obtain ⟨live, taken, rfl⟩ := live_step next
  have kept := live_keeps inv ok taken
  obtain ⟨tx, tx', there, unfinished, changes, rfl⟩ := work_step .flat Change.apply work taken
  refine ⟨kept, ?_, ordered_frame inv.ordered rfl rfl rfl, inv.logged⟩
  refine paired_set_right inv.fits i fun job here => ?_
  have fits := paired_at inv.fits here there
  refine ⟨changes.trans fits.changes, fun appended => ?_⟩
  exact absurd (fits.appended appended) unfinished

theorem begin_keeps {s t : Projection} (inv : Inv s) {source : Source}
    (next : step s (.begin source) = some t) : Inv t := by
  simp only [step] at next
  obtain ⟨u, begun, rfl⟩ := Option.map_eq_some_iff.mp next
  obtain ⟨live, taken, rfl⟩ := live_step begun
  have kept := live_keeps inv (by simp [MeetsMissedRow]) taken
  cases taken
  refine ⟨kept, List.rel_append inv.fits (.cons ⟨rfl, by simp⟩ .nil), ⟨inv.ordered.logBelow, ?_, ?_,
    inv.ordered.sorted⟩, inv.logged⟩
  · intro job member position given
    rcases List.mem_append.mp member with old | new
    · exact inv.ordered.jobsBelow job old position given
    · cases List.mem_singleton.mp new
      cases given
  · intro job member position given
    rcases List.mem_append.mp member with old | new
    · exact inv.ordered.above job old position given
    · cases List.mem_singleton.mp new
      cases given

theorem append_keeps {s t : Projection} (inv : Inv s) {i : Nat}
    (next : step s (.append i) = some t) : Inv t := by
  simp only [step] at next
  split at next
  · rename_i joined tx here there
    split at next
    · rename_i finished
      cases next
      refine ⟨inv.live, ?_, ⟨?_, ?_, ?_, inv.ordered.sorted⟩, inv.logged⟩
      · refine paired_set_left inv.fits i fun tx' there' => ?_
        cases there.symm.trans there'
        exact ⟨(paired_at inv.fits here there).changes, fun _ => by simpa using finished⟩
      · intro row member
        exact Nat.lt_succ_of_lt (inv.ordered.logBelow row member)
      · intro job member position given
        rcases List.mem_or_eq_of_mem_set member with old | rfl
        · exact Nat.lt_succ_of_lt (inv.ordered.jobsBelow job old position given)
        · cases given
          exact Nat.lt_succ_self _
      · intro job member position given change made row logged taken
        rcases List.mem_or_eq_of_mem_set member with old | rfl
        · exact inv.ordered.above job old position given change made row logged taken
        · cases given
          exact inv.ordered.logBelow row logged
    · cases next
  · cases next

theorem erase_jobs {s : Projection} (ordered : Ordered s) (i : Nat) :
    Ordered { s with jobs := s.jobs.eraseIdx i } :=
  ⟨ordered.logBelow, fun job member => ordered.jobsBelow job (List.mem_of_mem_eraseIdx member),
    fun job member => ordered.above job (List.mem_of_mem_eraseIdx member), ordered.sorted⟩

theorem abort_keeps {s t : Projection} (inv : Inv s) {i : Nat}
    (next : step s (.abort i) = some t) : Inv t := by
  simp only [step] at next
  obtain ⟨u, aborted, rfl⟩ := Option.map_eq_some_iff.mp next
  obtain ⟨live, taken, rfl⟩ := live_step aborted
  have kept := live_keeps inv (by simp [MeetsMissedRow]) taken
  cases taken
  have ordered := erase_jobs inv.ordered i
  exact ⟨kept, paired_erase inv.fits i, ordered_frame ordered rfl rfl rfl, inv.logged⟩

theorem replayed_append (log rows : List LogRow) :
    replayed (log ++ rows) = replayed log ++ replayed rows := by
  simp [replayed]

theorem job_rows {job : Job} {rows : List LogRow} (ready : job.rows = some rows) :
    (∃ joined position, job.source = .report joined ∧ job.position = some position ∧
        rows = [⟨position, joined⟩]) ∨
      rows = [] ∧ ((job.source.changes.any fun change => isTransferOut change.2) = false →
        job.source.changes = []) := by
  unfold Job.rows at ready
  split at ready
  · rename_i joined position source given
    cases ready
    exact .inl ⟨joined, position, source, given, rfl⟩
  · cases ready
  · rename_i fromPortfolio instrumentId side price splits source
    cases ready
    refine .inr ⟨rfl, ?_⟩
    rw [source]
    intro none_out
    cases splits with
    | nil => rfl
    | cons split splits =>
      simp [Source.changes, allocationChanges, transferChanges, isTransferOut] at none_out

theorem commit_ordered {s : Projection} (inv : Inv s) {i : Nat} {job : Job}
    {tx : Tx PositionKey PositionMath Change} (here : s.jobs[i]? = some job)
    (there : s.live.txs[i]? = some tx) (finished : tx.pending = []) {rows : List LogRow}
    (ready : job.rows = some rows) :
    Ordered { s with jobs := s.jobs.eraseIdx i, log := s.log ++ rows } := by
  have erased := erase_jobs inv.ordered i
  rcases job_rows ready with ⟨joined, position, source, given, rfl⟩ | ⟨rfl, _⟩
  · have member := List.mem_of_getElem? here
    have holds := finished_holds inv (List.mem_of_getElem? there) (paired_at inv.fits here there)
      finished
    have made : ∀ key, (LogRow.mk position joined).changes key = true →
        ∃ change ∈ job.source.changes, change.1 = key := by
      intro key changed
      obtain ⟨change, reported, own⟩ := row_changes.mp changed
      refine ⟨change, ?_, own⟩
      rw [source]
      simp [Source.changes, reported]
    refine ⟨?_, erased.jobsBelow, ?_, ?_⟩
    · intro row logged
      rcases List.mem_append.mp logged with old | new
      · exact inv.ordered.logBelow row old
      · cases List.mem_singleton.mp new
        exact inv.ordered.jobsBelow job member position given
    · intro other there' position' given' change changed row logged takes
      rcases List.mem_append.mp logged with old | new
      · exact erased.above other there' position' given' change changed row old takes
      · cases List.mem_singleton.mp new
        exfalso
        obtain ⟨own, mine, same⟩ := made _ takes
        obtain ⟨j, at_j⟩ := List.mem_iff_getElem?.mp there'
        obtain ⟨tx', partner, fits⟩ := paired_partner (paired_erase inv.fits i) at_j
        have among := List.mem_of_getElem? partner
        have theirs := finished_holds inv (List.mem_of_mem_eraseIdx among) fits
          (fits.appended (by simp [given'])) change changed
        obtain ⟨base, live, _⟩ := inv.live
        have apart := pairwise_others apart_symm live.apart i there tx' among
        exact apart _ (holds own mine) (same ▸ theirs)
    · intro key
      rw [List.filter_append]
      refine List.pairwise_append.mpr ⟨inv.ordered.sorted key, ?_, ?_⟩
      · exact List.Pairwise.filter _ (List.pairwise_singleton _ _)
      · intro row earlier last new
        obtain ⟨old, takes⟩ := List.mem_filter.mp earlier
        obtain ⟨is_new, changed⟩ := List.mem_filter.mp new
        cases List.mem_singleton.mp is_new
        obtain ⟨own, mine, rfl⟩ := made key changed
        exact inv.ordered.above job member position given own mine row old takes
  · rw [List.append_nil]
    exact erased

theorem commit_keeps {s t : Projection} (inv : Inv s) {i : Nat}
    (next : step s (.commit i) = some t) : Inv t := by
  simp only [step] at next
  split at next
  · cases next
  rename_i rows readied
  obtain ⟨job, here, ready⟩ := Option.bind_eq_some_iff.mp readied
  obtain ⟨u, committed, rfl⟩ := Option.map_eq_some_iff.mp next
  obtain ⟨live, taken, rfl⟩ := live_step committed
  have kept := live_keeps inv (by simp [MeetsMissedRow]) taken
  obtain ⟨tx, there, finished, rfl⟩ := commit_step .flat Change.apply taken
  have fits := paired_at inv.fits here there
  have ordered := commit_ordered inv here there finished ready
  refine ⟨kept, paired_erase inv.fits i, ordered_frame ordered rfl rfl rfl, ?_⟩
  have done : tx.done = job.source.changes := by
    rw [← fits.changes, finished, List.append_nil]
  change ((s.past ++ (s.live.history ++ tx.done)).any _) = false →
    replayed (s.log ++ rows) = s.past ++ (s.live.history ++ tx.done)
  intro events
  rw [← List.append_assoc, List.any_append, Bool.or_eq_false_iff] at events
  rw [replayed_append, inv.logged events.1, ← List.append_assoc, done]
  refine congrArg (s.committed ++ ·) ?_
  rcases job_rows ready with ⟨joined, position, source, _, rfl⟩ | ⟨rfl, only⟩
  · rw [source]
    cases change : joined.change <;> simp [replayed, Source.changes, change]
  · rw [only (done ▸ events.2)]
    rfl

theorem miss_load_keeps {s : Projection} (inv : Inv s) (i : Nat) :
    Inv { s with live := missLoad s.live i } := by
  unfold missLoad
  split
  · exact inv
  rename_i tx there
  split
  · split
    · obtain ⟨base, kept, start⟩ := inv.live
      refine ⟨⟨base, missed_keeps .flat Change.apply kept there, start⟩, ?_,
        ordered_frame inv.ordered rfl rfl rfl, inv.logged⟩
      refine paired_set_right inv.fits i fun job here => ?_
      have fits := paired_at inv.fits here there
      exact ⟨fits.changes, fits.appended⟩
    · exact inv
  · exact inv

theorem miss_loads_keep {s : Projection} (inv : Inv s) (waiting : List Nat) :
    Inv { s with live := waiting.foldl missLoad s.live } := by
  induction waiting generalizing s with
  | nil => exact inv
  | cons i waiting ih => exact ih (miss_load_keeps inv i)

theorem miss_loads_frame (live : State PositionKey PositionMath Change) (waiting : List Nat) :
    (waiting.foldl missLoad live).table = live.table ∧
      (waiting.foldl missLoad live).history = live.history ∧
      ∀ tx ∈ (waiting.foldl missLoad live).txs, ∃ was ∈ live.txs, tx.held = was.held := by
  induction waiting generalizing live with
  | nil => exact ⟨rfl, rfl, fun tx member => ⟨tx, member, rfl⟩⟩
  | cons i waiting ih =>
    obtain ⟨table, history, held⟩ := ih (missLoad live i)
    have one : (missLoad live i).table = live.table ∧
        (missLoad live i).history = live.history ∧
        ∀ tx ∈ (missLoad live i).txs, ∃ was ∈ live.txs, tx.held = was.held := by
      have same : ∀ tx ∈ live.txs, ∃ was ∈ live.txs, tx.held = was.held :=
        fun tx member => ⟨tx, member, rfl⟩
      unfold missLoad
      split
      · exact ⟨rfl, rfl, same⟩
      rename_i tx there
      split
      · split
        · refine ⟨rfl, rfl, fun other member => ?_⟩
          rcases List.mem_or_eq_of_mem_set member with old | rfl
          · exact same other old
          · exact ⟨tx, List.mem_of_getElem? there, rfl⟩
        · exact ⟨rfl, rfl, same⟩
      · exact ⟨rfl, rfl, same⟩
    refine ⟨table.trans one.1, history.trans one.2.1, fun tx member => ?_⟩
    obtain ⟨middle, between, first⟩ := held tx member
    obtain ⟨was, before, second⟩ := one.2.2 middle between
    exact ⟨was, before, first.trans second⟩

theorem put_table_keeps {s t : Projection} (inv : Inv s) (waiting : List Nat) {table : Positions}
    {lost : Bool} (next : putTable s (waiting.foldl missLoad s.live) table lost = some t)
    (follows : lost = false → table = serial .flat Change.apply noPositions s.committed) :
    Inv t := by
  unfold putTable at next
  split at next
  · cases next
  rename_i free
  cases next
  have missed := miss_loads_keep inv waiting
  obtain ⟨same, history, held⟩ := miss_loads_frame s.live waiting
  obtain ⟨base, kept, _⟩ := missed.live
  refine ⟨⟨table, retabled_keeps .flat Change.apply kept table ?_, follows⟩, missed.fits,
    ordered_frame inv.ordered rfl rfl rfl, ?_⟩
  · intro tx member key holds
    obtain ⟨was, before, locks⟩ := held tx member
    have unlocked : ((s.live.table key).isSome || (table key).isSome) = false := by
      by_contra some_row
      refine free (List.any_eq_true.mpr
        ⟨was, before, List.any_eq_true.mpr ⟨key, locks ▸ holds, ?_⟩⟩)
      exact eq_true_of_ne_false some_row
    rw [same]
    simpa using unlocked
  · intro events
    change (s.committed ++ []).any _ = false at events
    change replayed s.log = s.committed ++ []
    rw [List.append_nil] at *
    exact inv.logged events

theorem step_keeps {s t : Projection} {a : Action} (inv : Inv s) (ok : ¬ Misses s a)
    (next : step s a = some t) : Inv t := by
  cases a with
  | begin source => exact begin_keeps inv next
  | load i => exact work_keeps inv (.inl rfl) (by simp [MeetsMissedRow]) next
  | upsert i => exact work_keeps inv (.inr rfl) ok next
  | append i => exact append_keeps inv next
  | commit i => exact commit_keeps inv next
  | abort i => exact abort_keeps inv next
  | lose => exact put_table_keeps inv [] next (by simp)
  | readLog =>
    cases next
    exact ⟨inv.live, inv.fits, ordered_frame inv.ordered rfl rfl rfl, inv.logged⟩
  | replace waiting =>
    simp only [step] at next
    split at next
    · cases next
    rename_i rows selected
    obtain ⟨u, replaced, rfl⟩ := Option.map_eq_some_iff.mp next
    simp only [Misses, not_or, not_exists, not_and, not_not, Bool.not_eq_true] at ok
    have current := ok.2 rows selected
    have kept := put_table_keeps inv waiting replaced
      (fun _ => current ▸ rebuild_follows inv ok.1)
    exact ⟨kept.live, kept.fits, ordered_frame kept.ordered rfl rfl rfl, kept.logged⟩

/-- Along such a run the stored table, rebuilt or not, is key by key what the
    live path builds over the committed history. -/
theorem positions_follow_history (as : List Action)
    (steps : Along step (fun s a => ¬ Misses s a) .start as) :
    Throughout step FollowsHistory .start as :=
  throughout_mono (fun _ inv => follows_history inv)
    (throughout_along (fun _ _ _ inv ok next => step_keeps inv ok next) start_inv steps)

def fillEvent (qty : ℚ) : JoinedEvent where
  event := { eventId := "e1", eventType := .orderPartiallyFilled, orderId := "o1", timestamp := 0
             actor := "oms", version := 2, statusAfter := .partiallyFilled
             payload := .orderPartiallyFilled ⟨"x", qty, 100, qty, 1, 100, "V"⟩ }
  portfolioId := "p1"
  instrumentId := "i1"
  side := .buy
  typed := rfl

def filled (i : Nat) : List Action := [.load i, .upsert i, .append i]

/-- Ten bought, the table lost, rebuilt while two more fills wait for the row. -/
def rebuildAmongFills : List Action :=
  .begin (.report (fillEvent 10)) :: filled 0 ++ [.commit 0, .lose, .readLog,
    .begin (.report (fillEvent 5)), .replace []] ++ filled 0 ++
    [.begin (.report (fillEvent 1)), .commit 0] ++ filled 0 ++ [.commit 0]

theorem rebuild_among_fills_follows : Throughout step FollowsHistory .start rebuildAmongFills :=
  positions_follow_history rebuildAmongFills (by decide +kernel)

/-- Ten bought and four of them allocated: the rebuild gives the four back to the
    source, and the destination nothing. -/
theorem rebuilt_without_allocation : ¬ ∀ as, Throughout step FollowsHistory .start as := by
  intro always
  have last := throughout_end (always (.begin (.report (fillEvent 10)) :: filled 0 ++
    [.commit 0, .begin (.allocation "p1" "i1" .buy 100 [("p2", 4)]), .load 0, .upsert 0,
      .load 0, .upsert 0, .commit 0, .readLog, .replace []]))
  have followed := fun s ends current => congrFun (last s ends current) held
  revert followed
  decide +kernel

end OmsRebuild
