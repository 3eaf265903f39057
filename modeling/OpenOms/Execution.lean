import OpenOms.OrderStore

/-!
The one path that books execution reports. `applyOnce` is one attempt against
the row as its SELECT found it; `processExecutionReport` retries it on a version
conflict.
-/
namespace OmsExecution
open OmsOrders OmsLifecycle OmsAggregate OmsOrderStore

/-- How an attempt that returns `Ok(())` got there. -/
inductive ApplyResult where
  | alreadyTerminal (status : OrderStatus)
  | refused (rejection : CommandRejection)
  | applied (events : List OrderDomainEvent)
  deriving DecidableEq, Repr

inductive ExecutionError where
  | concurrencyRetry (error : ConcurrencyError)
  | other (message : String)
  deriving DecidableEq, Repr

/-- The column list of the UPDATE in `apply_once`: `resume_to_status` is not in it. -/
def executionColumns (newState : OrderAggregateState) (row : OrderRow) : OrderRow :=
  { row with
    status := newState.status
    leavesQty := newState.leavesQty
    cumQty := newState.cumQty
    avgPx := newState.avgPx
    version := newState.version }

/-- One attempt. `snapshot` is the row its SELECT returned, `db` the database its
    writes meet; the two differ when another writer committed in between. -/
def applyOnce (snapshot : OrderRow) (report : ExecutionReport) (metadata : EventMetadata)
    (db : OrderDb) : Except ExecutionError (ApplyResult × OrderDb) :=
  if snapshot.status.isTerminal then .ok (.alreadyTerminal snapshot.status, db)
  else
    let aggregate := OrderAggregate.fromState snapshot.toOrderAggregateState
    match aggregate.decide (.receiveExecutionReport snapshot.orderId report) metadata with
    | .error rejection => .ok (.refused rejection, db)
    | .ok events =>
      match aggregate.applyAll events with
      | .error rejection => .error (.other s!"apply failed: {rejection.message}")
      | .ok applied =>
        match applied.state with
        | none => .error (.other "missing aggregate state after apply")
        | some newState =>
          -- A lost race updates no row here; the version check below notices it.
          let updated := (updateWhereVersion db snapshot.version (executionColumns newState)).1
          let filled := persistFills updated newState.side events
          match appendEventsInTx filled snapshot.version events with
          | .error conflict => .error (.concurrencyRetry conflict)
          | .ok committed => .ok (.applied events, committed)

/-- What the database does to one attempt: nothing, a commit by another writer
    between its read and its append, or an error. -/
inductive AttemptFate where
  | clean
  | raced
  | failed
  deriving DecidableEq, Repr

def maxAttempts : Nat := 5

def attempt (fate : AttemptFate) (report : ExecutionReport) (metadata : EventMetadata)
    (db : OrderDb) : Except ExecutionError (Option ApplyResult × OrderDb) :=
  if fate = .failed then .error (.other "database error")
  else
    match db.row with
    | none => .ok (none, db)
    | some snapshot => do
      let (result, committed) ← applyOnce snapshot report metadata db
      match result with
      | .applied _ =>
        if fate = .raced then
          .error (.concurrencyRetry ⟨snapshot.version, currentVersion db.log + 1⟩)
        else .ok (some result, committed)
      | _ => .ok (some result, committed)

def attempts (fates : List AttemptFate) (report : ExecutionReport) (metadata : EventMetadata)
    (db : OrderDb) : Nat → Except ExecutionError (Option ApplyResult × OrderDb)
  | 0 => .error (.other "unreachable")
  | left + 1 =>
    match attempt (fates.headD .clean) report metadata db with
    | .error (.concurrencyRetry conflict) =>
      if left = 0 then .error (.concurrencyRetry conflict)
      else attempts fates.tail report metadata db left
    | settled => settled

def processExecutionReport (fates : List AttemptFate) (report : ExecutionReport)
    (metadata : EventMetadata) (db : OrderDb) :
    Except ExecutionError (Option ApplyResult × OrderDb) :=
  attempts fates report metadata db maxAttempts

theorem apply_once_terminal {snapshot : OrderRow} (closed : snapshot.status.isTerminal = true)
    (report : ExecutionReport) (metadata : EventMetadata) (db : OrderDb) :
    applyOnce snapshot report metadata db = .ok (.alreadyTerminal snapshot.status, db) := by
  simp [applyOnce, closed]

theorem apply_once_refused {snapshot : OrderRow} (isOpen : snapshot.status.isTerminal = false)
    {report : ExecutionReport} (misfit : ¬ ReportFits snapshot.toOrderAggregateState report)
    (metadata : EventMetadata) (db : OrderDb) :
    ∃ rejection, applyOnce snapshot report metadata db = .ok (.refused rejection, db) := by
  cases decided : (OrderAggregate.fromState snapshot.toOrderAggregateState).decide
      (.receiveExecutionReport snapshot.orderId report) metadata with
  | error rejection => exact ⟨rejection, by simp [applyOnce, isOpen, decided]⟩
  | ok events => exact absurd (decided_accepts decided).2 misfit

/-- The database after `applyOnce` books one event against an unraced snapshot. -/
def bookedDb (db : OrderDb) (snapshot : OrderRow) (report : ExecutionReport)
    (event : OrderDomainEvent) : OrderDb :=
  let newState := reportState snapshot.toOrderAggregateState report
  let updated := (updateWhereVersion db snapshot.version (executionColumns newState)).1
  let filled := persistFills updated newState.side [event]
  { filled with log := db.log ++ [⟨snapshot.version + 1, event⟩] }

/-- An open order and a fitting report: the attempt books one event, or loses
    the race, as the log's version says. -/
theorem apply_once_open {snapshot : OrderRow} (isOpen : snapshot.status.isTerminal = false)
    {report : ExecutionReport} (fits : ReportFits snapshot.toOrderAggregateState report)
    (metadata : EventMetadata) {db : OrderDb} (num : Numbered db) :
    ∃ event, Yields snapshot.toOrderAggregateState
        (.receiveExecutionReport snapshot.orderId report) event ∧
      applyOnce snapshot report metadata db =
        if db.log.length = snapshot.version then
          .ok (.applied [event], bookedDb db snapshot report event)
        else .error (.concurrencyRetry ⟨snapshot.version, db.log.length⟩) := by
  have allowed : kind (.receiveExecutionReport snapshot.orderId report) ∈
      allowedKindsForStatus snapshot.status :=
    (allowed_iff_listed _ _).mp (open_takes_report isOpen)
  obtain ⟨event, decided, yields⟩ := decide_accepts ⟨allowed, fits⟩ metadata
  refine ⟨event, yields, ?_⟩
  have applied : (OrderAggregate.fromState snapshot.toOrderAggregateState).applyAll [event] =
      .ok (.fromState (reportState snapshot.toOrderAggregateState report)) := by
    rw [OrderAggregate.applyAll, yields.applies]
    rfl
  have appended := append_one num (persistFills (updateWhereVersion db snapshot.version
    (executionColumns (reportState snapshot.toOrderAggregateState report))).1
    (reportState snapshot.toOrderAggregateState report).side [event]) (by simp)
    snapshot.version event
  simp only [OrderAggregate.fromState] at decided applied
  simp only [applyOnce, isOpen, Bool.false_eq_true, if_false, OrderAggregate.fromState, decided,
    applied, appended]
  by_cases current : db.log.length = snapshot.version
  · simp [current, bookedDb]
  · simp [current]

end OmsExecution
