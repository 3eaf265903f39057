import OpenOms.OrderWrites
import OpenOms.ReconOrders

/-!
The order engine, the only place that books: an event becomes execution reports,
weighed against what is booked already, and each report is its own call of
`processExecutionReport`. The fates say what storage does to each attempt.
-/
namespace OmsOrderEngine
open OmsOrders OmsLifecycle OmsAggregate OmsOrderStore OmsExecution OmsOrderEntry OmsOrderWrites
open OmsGateway OmsReconOrders

def needsBookedState : ExecKind → Bool
  | .cumulative .. | .terminal _ => true
  | _ => false

def closingReports (outcome : BrokerOrderOutcome) (venue : String) : List ExecutionReport :=
  match outcome with
  | .canceled => [.canceled none (some venue)]
  | .rejected => [.reject "rejected" (some venue)]
  | .filled | .working => []

def reportsFor (ev : ExecEvent) (bookedCum : ℚ) (bookedAvg : Option ℚ) : List ExecutionReport :=
  match ev.kind with
  | .fill executionId qty price => [.fill executionId qty price ev.venue]
  | .cumulative cumQty avgPx =>
    ((missingQty bookedCum cumQty).map fun fillQty =>
      ExecutionReport.fill s!"{ev.venue}-{ev.orderId}-{cumQty}" fillQty
        (incrementPrice bookedCum bookedAvg cumQty avgPx) ev.venue).toList
  | .terminal st =>
    ((missingQty bookedCum st.executedQty).map fun fillQty =>
      ExecutionReport.fill s!"recon-{ev.orderId}" fillQty
        (incrementPrice bookedCum bookedAvg st.executedQty st.avgPx) ev.venue).toList ++
      closingReports st.outcome ev.venue
  | .canceled reason => [.canceled reason (some ev.venue)]
  | .rejected reason => [.reject reason (some ev.venue)]
  | .ack _ => []

def bookReport (fates : List AttemptFate) (report : ExecutionReport) (metadata : EventMetadata)
    (db : OrderDb) : OrderDb :=
  match processExecutionReport fates report metadata db with
  | .ok (_, committed) => committed
  | .error _ => db

/-- The loop of `apply_exec`: an error on one report does not stop the next. -/
def bookReports (fates : List (List AttemptFate)) (metadata : EventMetadata) (db : OrderDb) :
    List ExecutionReport → OrderDb
  | [] => db
  | report :: reports =>
    bookReports fates.tail metadata (bookReport (fates.headD []) report metadata db) reports

/-- What `oms_fill_state` reads for the event; an order it cannot read stops it. -/
def bookedState (kind : ExecKind) (db : OrderDb) : Option (ℚ × Option ℚ) :=
  if needsBookedState kind then db.row.map (fun row => (row.cumQty, row.avgPx))
  else some (0, none)

/-- `apply_exec` for every event but an `Ack`, which routes and books nothing. -/
def applyExec (fates : List (List AttemptFate)) (ev : ExecEvent) (metadata : EventMetadata)
    (db : OrderDb) : OrderDb :=
  match bookedState ev.kind db with
  | none => db
  | some (bookedCum, bookedAvg) =>
    bookReports fates metadata db (reportsFor ev bookedCum bookedAvg)

/-- The call ends in an error although there was something to append: storage
    failed, or every attempt lost its race. -/
def callFails (fates : List AttemptFate) : Nat → Bool
  | 0 => true
  | left + 1 =>
    match fates.headD .clean with
    | .clean => false
    | .failed => true
    | .raced => callFails fates.tail left

def Fails (fates : List AttemptFate) : Prop := callFails fates maxAttempts = true

instance (fates : List AttemptFate) : Decidable (Fails fates) := by
  unfold Fails
  infer_instance

/-- A first attempt that settles without a commit ends the call with nothing done. -/
theorem book_report_idle {db : OrderDb} {fates : List AttemptFate} {report : ExecutionReport}
    {metadata : EventMetadata}
    (settles : attempt (fates.headD .clean) report metadata db = .error (.other "database error") ∨
      ∃ result, attempt (fates.headD .clean) report metadata db = .ok (result, db)) :
    bookReport fates report metadata db = db := by
  unfold bookReport processExecutionReport maxAttempts attempts
  rcases settles with run | ⟨result, run⟩ <;> rw [run]

theorem attempt_closed {db : OrderDb} {row : OrderRow} (stored : db.row = some row)
    (closed : row.status.isTerminal = true) (fate : AttemptFate) (report : ExecutionReport)
    (metadata : EventMetadata) :
    attempt fate report metadata db = .error (.other "database error") ∨
      ∃ result, attempt fate report metadata db = .ok (result, db) := by
  by_cases failed : fate = .failed
  · exact .inl (by simp [attempt, failed])
  · refine .inr ⟨some (.alreadyTerminal row.status), ?_⟩
    simp [attempt, failed, stored, apply_once_terminal closed, bind, Except.bind]

theorem attempt_misfit {db : OrderDb} {row : OrderRow} (stored : db.row = some row)
    (isOpen : row.status.isTerminal = false) {report : ExecutionReport}
    (misfit : ¬ ReportFits row.toOrderAggregateState report) (fate : AttemptFate)
    (metadata : EventMetadata) :
    attempt fate report metadata db = .error (.other "database error") ∨
      ∃ result, attempt fate report metadata db = .ok (result, db) := by
  by_cases failed : fate = .failed
  · exact .inl (by simp [attempt, failed])
  · obtain ⟨rejection, refused⟩ := apply_once_refused isOpen misfit metadata db
    refine .inr ⟨some (.refused rejection), ?_⟩
    simp [attempt, failed, stored, refused, bind, Except.bind]

def reportedDb (db : OrderDb) (row : OrderRow) (report : ExecutionReport)
    (event : OrderDomainEvent) : OrderDb :=
  { row := some (reportedRow row report), log := logged db event
    position := (persistFills db row.side [event]).position }

theorem attempt_open {db : OrderDb} (num : Numbered db) {row : OrderRow}
    (stored : db.row = some row) (lively : Lively row.toOrderAggregateState)
    (isOpen : row.status.isTerminal = false) {report : ExecutionReport}
    (fits : ReportFits row.toOrderAggregateState report) (metadata : EventMetadata) :
    ∃ event, Yields row.toOrderAggregateState (.receiveExecutionReport row.orderId report) event ∧
      attempt .clean report metadata db =
        .ok (some (.applied [event]), reportedDb db row report event) ∧
      (∃ conflict, attempt .raced report metadata db = .error (.concurrencyRetry conflict)) ∧
      attempt .failed report metadata db = .error (.other "database error") := by
  obtain ⟨event, yields, once⟩ := apply_once_open isOpen fits metadata num
  rw [if_pos (num.rowVersion row stored).symm,
    booked_db_eq num stored rfl lively.resume report event] at once
  refine ⟨event, yields, ?_, ⟨⟨row.version, currentVersion db.log + 1⟩, ?_⟩, by simp [attempt]⟩
  · simp [attempt, stored, once, bind, Except.bind, reportedDb]
  · simp [attempt, stored, once, bind, Except.bind]

theorem book_report_closed {db : OrderDb} {row : OrderRow} (stored : db.row = some row)
    (closed : row.status.isTerminal = true) (fates : List AttemptFate) (report : ExecutionReport)
    (metadata : EventMetadata) : bookReport fates report metadata db = db :=
  book_report_idle (attempt_closed stored closed _ report metadata)

theorem book_report_misfit {db : OrderDb} {row : OrderRow} (stored : db.row = some row)
    (isOpen : row.status.isTerminal = false) {report : ExecutionReport}
    (misfit : ¬ ReportFits row.toOrderAggregateState report) (fates : List AttemptFate)
    (metadata : EventMetadata) : bookReport fates report metadata db = db :=
  book_report_idle (attempt_misfit stored isOpen misfit _ metadata)

theorem attempt_absent {db : OrderDb} (absent : db.row = none) (fate : AttemptFate)
    (report : ExecutionReport) (metadata : EventMetadata) :
    attempt fate report metadata db = .error (.other "database error") ∨
      ∃ result, attempt fate report metadata db = .ok (result, db) := by
  by_cases failed : fate = .failed
  · exact .inl (by simp [attempt, failed])
  · exact .inr ⟨none, by simp [attempt, failed, absent]⟩

theorem book_report_absent {db : OrderDb} (absent : db.row = none) (fates : List AttemptFate)
    (report : ExecutionReport) (metadata : EventMetadata) :
    bookReport fates report metadata db = db :=
  book_report_idle (attempt_absent absent _ report metadata)

theorem attempts_open {db : OrderDb} {report : ExecutionReport} {metadata : EventMetadata}
    {result : Option ApplyResult × OrderDb}
    (clean : attempt .clean report metadata db = .ok result)
    (raced : ∃ conflict, attempt .raced report metadata db = .error (.concurrencyRetry conflict))
    (failed : attempt .failed report metadata db = .error (.other "database error"))
    (left : Nat) (fates : List AttemptFate) :
    if callFails fates left then ∃ error, attempts fates report metadata db left = .error error
    else attempts fates report metadata db left = .ok result := by
  obtain ⟨conflict, raced⟩ := raced
  induction left generalizing fates with
  | zero => exact ⟨_, rfl⟩
  | succ left ih =>
    cases fate : fates.headD .clean with
    | clean => simp only [callFails, attempts, fate, clean, Bool.false_eq_true, if_false]
    | failed =>
      simp only [callFails, attempts, fate, failed, if_true]
      exact ⟨_, rfl⟩
    | raced =>
      simp only [callFails, attempts, fate, raced]
      by_cases last : left = 0
      · simp [last, callFails]
      · simpa [last] using ih fates.tail

theorem book_report_open {db : OrderDb} (num : Numbered db) {row : OrderRow}
    (stored : db.row = some row) (lively : Lively row.toOrderAggregateState)
    (isOpen : row.status.isTerminal = false) {report : ExecutionReport}
    (fits : ReportFits row.toOrderAggregateState report) (fates : List AttemptFate)
    (metadata : EventMetadata) :
    ∃ event, Yields row.toOrderAggregateState (.receiveExecutionReport row.orderId report) event ∧
      bookReport fates report metadata db =
        if Fails fates then db else reportedDb db row report event := by
  obtain ⟨event, yields, clean, raced, failed⟩ :=
    attempt_open num stored lively isOpen fits metadata
  refine ⟨event, yields, ?_⟩
  have loop := attempts_open clean raced failed maxAttempts fates
  by_cases fails : Fails fates
  · rw [if_pos (show callFails fates maxAttempts = true from fails)] at loop
    rw [if_pos fails]
    obtain ⟨error, run⟩ := loop
    simp [bookReport, processExecutionReport, run]
  · rw [if_neg (show ¬ callFails fates maxAttempts = true from fails)] at loop
    rw [if_neg fails]
    simp [bookReport, processExecutionReport, loop]

theorem book_report_cases {db : OrderDb} (num : Numbered db)
    (lively : ∀ row, db.row = some row → Lively row.toOrderAggregateState)
    (fates : List AttemptFate) (report : ExecutionReport) (metadata : EventMetadata) :
    (bookReport fates report metadata db = db ∧ ∀ row, db.row = some row →
        row.status.isTerminal = true ∨ ¬ ReportFits row.toOrderAggregateState report ∨
          Fails fates) ∨
      ∃ row event, db.row = some row ∧ row.status.isTerminal = false ∧
        ReportFits row.toOrderAggregateState report ∧ ¬ Fails fates ∧
        bookReport fates report metadata db = reportedDb db row report event ∧
        Write db (.report report) (reportedDb db row report event) := by
  cases stored : db.row with
  | none =>
    refine .inl ⟨book_report_absent stored fates report metadata, ?_⟩
    intro row missing
    cases missing
  | some row =>
    cases closed : row.status.isTerminal with
    | true =>
      refine .inl ⟨book_report_closed stored closed fates report metadata, ?_⟩
      intro found same
      cases same
      exact .inl closed
    | false =>
      by_cases fits : ReportFits row.toOrderAggregateState report
      · obtain ⟨event, yields, run⟩ :=
          book_report_open num stored (lively row stored) closed fits fates metadata
        by_cases fails : Fails fates
        · refine .inl ⟨by rw [run, if_pos fails], ?_⟩
          intro found same
          exact .inr (.inr fails)
        · exact .inr ⟨row, event, rfl, closed, fits, fails, by rw [run, if_neg fails],
            .reported row report event stored closed fits yields⟩
      · refine .inl ⟨book_report_misfit stored closed fits fates metadata, ?_⟩
        intro found same
        cases same
        exact .inr (.inl fits)

theorem book_report_reached {db : OrderDb} (reached : Reached db) (fates : List AttemptFate)
    (report : ExecutionReport) (metadata : EventMetadata) :
    Reached (bookReport fates report metadata db) := by
  rcases book_report_cases (reached_numbered reached) (reached_lively reached) fates report
    metadata with ⟨same, _⟩ | ⟨row, event, _, _, _, _, same, write⟩
  · rw [same]
    exact reached
  · rw [same]
    exact .write reached write

theorem book_reports_reached {db : OrderDb} (reached : Reached db)
    (fates : List (List AttemptFate)) (metadata : EventMetadata)
    (reports : List ExecutionReport) : Reached (bookReports fates metadata db reports) := by
  induction reports generalizing db fates with
  | nil => exact reached
  | cons report reports ih => exact ih (book_report_reached reached _ report metadata) fates.tail

theorem apply_exec_reached {db : OrderDb} (reached : Reached db)
    (fates : List (List AttemptFate)) (ev : ExecEvent) (metadata : EventMetadata) :
    Reached (applyExec fates ev metadata db) := by
  unfold applyExec
  split
  · exact reached
  · exact book_reports_reached reached fates metadata _

theorem apply_exec_row {db : OrderDb} {row : OrderRow} (stored : db.row = some row)
    (fates : List (List AttemptFate)) (ev : ExecEvent) (metadata : EventMetadata) :
    applyExec fates ev metadata db =
      bookReports fates metadata db (reportsFor ev row.cumQty row.avgPx) := by
  cases named : ev.kind <;>
    simp [applyExec, bookedState, needsBookedState, named, stored, reportsFor]

theorem calls_succeed : ¬ Fails [] := by
  decide

theorem book_fitting {db : OrderDb} (reached : Reached db) {row : OrderRow}
    (stored : db.row = some row) (isOpen : row.status.isTerminal = false)
    {report : ExecutionReport} (fits : ReportFits row.toOrderAggregateState report)
    (metadata : EventMetadata) :
    Reached (bookReport [] report metadata db) ∧
      (bookReport [] report metadata db).row = some (reportedRow row report) := by
  obtain ⟨event, yields, run⟩ := book_report_open (reached_numbered reached) stored
    (reached_lively reached row stored) isOpen fits [] metadata
  rw [run, if_neg calls_succeed]
  exact ⟨.write reached (.reported row report event stored isOpen fits yields), rfl⟩

theorem booked_logged (db : OrderDb) {db' : OrderDb} (event : OrderDomainEvent)
    (grown : db'.log = logged db event) :
    booked db' = booked db ++ event.payload.execution.toList := by
  cases execution : event.payload.execution <;>
    simp [booked, events, grown, logged, execution]

theorem book_fitting_booked {db : OrderDb} (reached : Reached db) {row : OrderRow}
    (stored : db.row = some row) (isOpen : row.status.isTerminal = false)
    {report : ExecutionReport} (fits : ReportFits row.toOrderAggregateState report)
    (metadata : EventMetadata) :
    booked (bookReport [] report metadata db) =
      booked db ++
        (OrderCommand.execution (.receiveExecutionReport row.orderId report)).toList := by
  obtain ⟨event, yields, run⟩ := book_report_open (reached_numbered reached) stored
    (reached_lively reached row stored) isOpen fits [] metadata
  rw [run, if_neg calls_succeed, booked_logged db event rfl, yields.execution]

theorem book_reports_append (metadata : EventMetadata) (early late : List ExecutionReport)
    (db : OrderDb) : bookReports [] metadata db (early ++ late) =
      bookReports [] metadata (bookReports [] metadata db early) late := by
  induction early generalizing db with
  | nil => rfl
  | cons report early ih => exact ih _

theorem book_reports_closed {db : OrderDb} {row : OrderRow} (stored : db.row = some row)
    (closed : row.status.isTerminal = true) (fates : List (List AttemptFate))
    (metadata : EventMetadata) (reports : List ExecutionReport) :
    bookReports fates metadata db reports = db := by
  induction reports generalizing fates with
  | nil => rfl
  | cons report reports ih => rw [bookReports, book_report_closed stored closed, ih]

theorem apply_exec_closed {db : OrderDb} {row : OrderRow} (stored : db.row = some row)
    (closed : row.status.isTerminal = true) (fates : List (List AttemptFate)) (ev : ExecEvent)
    (metadata : EventMetadata) : applyExec fates ev metadata db = db := by
  rw [apply_exec_row stored, book_reports_closed stored closed]

/-- Who an event names, and the stamp its booking carries. -/
structure Sender where
  orderId : String
  venue : String
  actor : String
  metadata : EventMetadata
  deriving DecidableEq, Repr

def Sender.event (sender : Sender) (source : ExecSource) (kind : ExecKind) : ExecEvent :=
  ⟨sender.orderId, sender.venue, sender.actor, source, kind⟩

end OmsOrderEngine
