import OpenOms.Execution
import OpenOms.OrderEntry

/-!
What one committed transaction can do to an order, whichever path ran it. The
write paths are inverted here once; every later invariant is shown against the
cases of `Write` and never against a path's own code.
-/
namespace OmsOrderWrites
open OmsOrders OmsLifecycle OmsAggregate OmsOrderStore OmsExecution OmsOrderEntry

/-- `snapshot` is the row as some earlier SELECT read it. -/
def SnapshotOf (db : OrderDb) (snapshot : OrderRow) : Prop :=
  ∃ row, db.row = some row ∧ snapshot.version ≤ row.version ∧
    (snapshot.version = row.version →
      snapshot.toOrderAggregateState = row.toOrderAggregateState)

/-- What submit, route, reports and cancels keep of an order's state. Nothing on
    these paths suspends an order. -/
structure Lively (s : OrderAggregateState) : Prop where
  resume : s.resumeToStatus = none
  notSuspended : s.status ≠ .suspended
  cumNonneg : 0 ≤ s.cumQty
  cumLe : s.cumQty ≤ s.originalQty
  room : s.status.isTerminal = false → s.cumQty < s.originalQty
  leaves : s.status.isTerminal = false → s.leavesQty = s.originalQty - s.cumQty

def reportedRow (row : OrderRow) (report : ExecutionReport) : OrderRow :=
  { row with toOrderAggregateState := reportState row.toOrderAggregateState report }

def routedRow (row : OrderRow) (externalOrderId : String) : OrderRow :=
  { row with
    toOrderAggregateState := closeState row.toOrderAggregateState .routed
    externalOrderId := some externalOrderId }

theorem fill_closes_iff (row : OrderRow) (id : String) (qty price : ℚ) (venue : String) :
    (reportedRow row (.fill id qty price venue)).status.isTerminal = true ↔
      row.originalQty ≤ row.cumQty + qty := by
  simp only [reportedRow, reportState, fillState]
  split
  · rename_i left
    simp only [OrderStatus.isTerminal, Bool.false_eq_true, false_iff]
    linarith
  · rename_i done
    simp only [OrderStatus.isTerminal, true_iff]
    linarith

/-- The cancel's state, except that `leaves_qty` keeps its old value. -/
def locallyCanceledRow (row : OrderRow) : OrderRow :=
  { row with
    toOrderAggregateState :=
      { cancelState row.toOrderAggregateState with leavesQty := row.leavesQty } }

def logged (db : OrderDb) (event : OrderDomainEvent) : List OrderEventRecord :=
  db.log ++ [⟨db.log.length + 1, event⟩]

inductive WriteKind where
  | submit
  | report (report : ExecutionReport)
  | route (externalOrderId : String)
  | localCancel
  | recordId (externalOrderId : String)
  deriving DecidableEq, Repr

inductive Write (db : OrderDb) : WriteKind → OrderDb → Prop where
  | submitted (cmd : SubmitOrder) (event : OrderDomainEvent) (code : String) (createdAt : Nat)
      (absent : db.row = none) (positive : 0 < cmd.quantity) (version : event.version = 1)
      (noFill : event.payload.execution = none) (noRoute : event.payload.routedId = none)
      (applies : ∀ self : OrderAggregate, self.apply event = .ok (.fromState (submitState cmd))) :
      Write db .submit
        { db with row := some ⟨submitState cmd, none, code, createdAt⟩, log := [⟨1, event⟩] }
  | reported (row : OrderRow) (report : ExecutionReport) (event : OrderDomainEvent)
      (stored : db.row = some row) (isOpen : row.status.isTerminal = false)
      (fits : ReportFits row.toOrderAggregateState report)
      (yields : Yields row.toOrderAggregateState
        (.receiveExecutionReport row.orderId report) event) :
      Write db (.report report)
        { row := some (reportedRow row report), log := logged db event
          position := (persistFills db row.side [event]).position }
  | routed (row : OrderRow) (venue externalOrderId : String) (event : OrderDomainEvent)
      (stored : db.row = some row) (submitted : row.status = .submitted)
      (yields : Yields row.toOrderAggregateState
        (.routeOrder row.orderId venue externalOrderId) event) :
      Write db (.route externalOrderId)
        { db with row := some (routedRow row externalOrderId), log := logged db event }
  | canceled (row : OrderRow) (reason : Option String) (event : OrderDomainEvent)
      (stored : db.row = some row) (isOpen : row.status.isTerminal = false)
      (yields : Yields row.toOrderAggregateState (.cancelOrder row.orderId reason) event) :
      Write db .localCancel
        { db with row := some (locallyCanceledRow row), log := logged db event }
  | recorded (externalOrderId : String) :
      Write db (.recordId externalOrderId) (recordExternalId db externalOrderId)

theorem snapshot_current {db : OrderDb} {snapshot : OrderRow} (num : Numbered db)
    (read : SnapshotOf db snapshot) (won : db.log.length = snapshot.version) :
    ∃ row, db.row = some row ∧ row.version = snapshot.version ∧
      snapshot.toOrderAggregateState = row.toOrderAggregateState := by
  obtain ⟨row, stored, _, same⟩ := read
  have version : row.version = snapshot.version := (num.rowVersion row stored).trans won
  exact ⟨row, stored, version, same version.symm⟩

theorem execution_columns_report {row : OrderRow} (resume : row.resumeToStatus = none)
    (report : ExecutionReport) :
    executionColumns (reportState row.toOrderAggregateState report) row =
      reportedRow row report := by
  cases report <;>
    simp [executionColumns, reportedRow, reportState, fillState, closeState, cancelState, resume]

theorem route_columns {row : OrderRow} (resume : row.resumeToStatus = none)
    (externalOrderId : String) :
    routeColumns (closeState row.toOrderAggregateState .routed) externalOrderId row =
      routedRow row externalOrderId := by
  simp [routeColumns, routedRow, closeState, resume]

theorem cancel_columns (row : OrderRow) :
    cancelColumns (cancelState row.toOrderAggregateState) row = locallyCanceledRow row := rfl

theorem persist_fills_position {db db' : OrderDb} (same : db.position = db'.position)
    (side : OrderSide) (events : List OrderDomainEvent) :
    (persistFills db side events).position = (persistFills db' side events).position := by
  induction events generalizing db db' with
  | nil => exact same
  | cons event events ih =>
    simp only [persistFills]
    split
    · exact ih (by simp [persistFill, same])
    · exact ih same

theorem update_where_version_position (db : OrderDb) (expected : Nat)
    (set : OrderRow → OrderRow) :
    (updateWhereVersion db expected set).1.position = db.position := by
  unfold updateWhereVersion
  split
  · split <;> rfl
  · rfl

theorem booked_db_eq {db : OrderDb} {snapshot row : OrderRow} (num : Numbered db)
    (stored : db.row = some row)
    (same : snapshot.toOrderAggregateState = row.toOrderAggregateState)
    (resume : row.resumeToStatus = none) (report : ExecutionReport) (event : OrderDomainEvent) :
    bookedDb db snapshot report event =
      { row := some (reportedRow row report), log := logged db event
        position := (persistFills db row.side [event]).position } := by
  have length := num.rowVersion row stored
  have sameSide : (reportState row.toOrderAggregateState report).side = row.side := by
    cases report <;> rfl
  simp only [bookedDb, same, persist_fills_row, logged, length, sameSide]
  congr 1
  · simp [updateWhereVersion, stored, length, execution_columns_report resume]
  · exact persist_fills_position (update_where_version_position _ _ _) _ _

theorem apply_once_cases {db db' : OrderDb} {snapshot : OrderRow} {report : ExecutionReport}
    {metadata : EventMetadata} {result : ApplyResult} (num : Numbered db)
    (read : SnapshotOf db snapshot)
    (lively : ∀ row, db.row = some row → Lively row.toOrderAggregateState)
    (run : applyOnce snapshot report metadata db = .ok (result, db')) :
    (snapshot.status.isTerminal = true ∧ result = .alreadyTerminal snapshot.status ∧ db' = db) ∨
    (snapshot.status.isTerminal = false ∧ ¬ ReportFits snapshot.toOrderAggregateState report ∧
      (∃ rejection, result = .refused rejection) ∧ db' = db) ∨
    (∃ row event, db.row = some row ∧ row.version = snapshot.version ∧
      snapshot.toOrderAggregateState = row.toOrderAggregateState ∧
      row.status.isTerminal = false ∧ ReportFits row.toOrderAggregateState report ∧
      Yields row.toOrderAggregateState (.receiveExecutionReport row.orderId report) event ∧
      result = .applied [event] ∧
      db' = { row := some (reportedRow row report), log := logged db event
              position := (persistFills db row.side [event]).position }) := by
  cases closed : snapshot.status.isTerminal with
  | true =>
    rw [apply_once_terminal closed] at run
    cases run
    exact .inl ⟨rfl, rfl, rfl⟩
  | false =>
    by_cases fits : ReportFits snapshot.toOrderAggregateState report
    · obtain ⟨event, yields, attempt⟩ := apply_once_open closed fits metadata num
      rw [attempt] at run
      split at run
      · rename_i won
        obtain ⟨row, stored, version, same⟩ := snapshot_current num read won
        cases run
        refine .inr (.inr ⟨row, event, stored, version, same, ?_, ?_, ?_, rfl, ?_⟩)
        · rw [← same]; exact closed
        · rw [← same]; exact fits
        · rw [← same]; exact yields
        · exact booked_db_eq num stored same (lively row stored).resume report event
      · cases run
    · obtain ⟨rejection, refused⟩ := apply_once_refused closed fits metadata db
      rw [refused] at run
      cases run
      exact .inr (.inl ⟨rfl, fits, ⟨rejection, rfl⟩, rfl⟩)

theorem route_once_cases {db db' : OrderDb} {snapshot : OrderRow} {venue externalOrderId : String}
    {metadata : EventMetadata} {result : RouteResult} (num : Numbered db)
    (read : SnapshotOf db snapshot)
    (lively : ∀ row, db.row = some row → Lively row.toOrderAggregateState)
    (run : persistRoutedOnce snapshot venue externalOrderId metadata db = .ok (result, db')) :
    (snapshot.status.isTerminal = true ∧ result = .terminal snapshot.status ∧ db' = db) ∨
    (snapshot.status.isTerminal = false ∧ snapshot.status ≠ .submitted ∧
      result = .notSubmitted ∧ db' = recordExternalId db externalOrderId) ∨
    (∃ row event, db.row = some row ∧ row.version = snapshot.version ∧
      snapshot.toOrderAggregateState = row.toOrderAggregateState ∧ row.status = .submitted ∧
      Yields row.toOrderAggregateState (.routeOrder row.orderId venue externalOrderId) event ∧
      result = .routed ∧
      db' = { db with row := some (routedRow row externalOrderId), log := logged db event }) := by
  cases closed : snapshot.status.isTerminal with
  | true =>
    simp only [persistRoutedOnce, closed, if_true] at run
    cases run
    exact .inl ⟨rfl, rfl, rfl⟩
  | false =>
    by_cases submitted : snapshot.status = .submitted
    · obtain ⟨event, yields, attempt⟩ :=
        route_once_submitted submitted venue externalOrderId metadata num
      rw [attempt] at run
      split at run
      · rename_i won
        obtain ⟨row, stored, version, same⟩ := snapshot_current num read won
        have length := num.rowVersion row stored
        cases run
        refine .inr (.inr ⟨row, event, stored, version, same, ?_, ?_, rfl, ?_⟩)
        · rw [← same]; exact submitted
        · rw [← same]; exact yields
        · simp [routedDb, updateWhereVersion, stored, version, same, logged, won,
            route_columns (lively row stored).resume]
      · cases run
    · simp only [persistRoutedOnce, closed, submitted, Bool.false_eq_true, if_false, ne_eq,
        not_false_eq_true, if_true] at run
      cases run
      exact .inr (.inl ⟨rfl, submitted, rfl, rfl⟩)

theorem cancel_locally_cases {db db' : OrderDb} {snapshot : OrderRow} {reason : Option String}
    {metadata : EventMetadata} (num : Numbered db) (read : SnapshotOf db snapshot)
    (isOpen : snapshot.status.isTerminal = false)
    (run : cancelLocally snapshot reason metadata db = .ok db') :
    ∃ row event, db.row = some row ∧ row.version = snapshot.version ∧
      snapshot.toOrderAggregateState = row.toOrderAggregateState ∧
      Yields row.toOrderAggregateState (.cancelOrder row.orderId reason) event ∧
      db' = { db with row := some (locallyCanceledRow row), log := logged db event } := by
  have found := read
  obtain ⟨row, stored, _⟩ := found
  obtain ⟨event, yields, attempt⟩ := cancel_locally_open isOpen reason metadata num stored
  rw [attempt] at run
  split at run
  · rename_i won
    obtain ⟨row', stored', version, same⟩ := snapshot_current num read won
    cases stored.symm.trans stored'
    cases run
    refine ⟨row, event, stored, version, same, by rw [← same]; exact yields, ?_⟩
    simp [canceledDb, updateWhereVersion, stored, version, same, logged, won, cancel_columns]
  · cases run

theorem logged_numbered {db db' : OrderDb} {row' : OrderRow} {event : OrderDomainEvent}
    (num : Numbered db) (grown : db'.log = logged db event) (stored' : db'.row = some row')
    (next : row'.version = db.log.length + 1) : Numbered db' := by
  obtain ⟨gapless, _⟩ := gapless_snoc num grown
  refine ⟨gapless, ?_, ?_⟩
  · intro row found
    cases stored'.symm.trans found
    rw [next, grown]
    simp [logged]
  · intro missing
    rw [stored'] at missing
    cases missing

theorem write_numbered {db db' : OrderDb} {kind : WriteKind} (num : Numbered db)
    (write : Write db kind db') : Numbered db' := by
  cases write with
  | submitted cmd event code createdAt absent positive version noFill noRoute applies =>
    refine ⟨rfl, ?_, fun missing => by cases missing⟩
    intro row found
    cases found
    rfl
  | reported row report event stored isOpen fits yields =>
    refine logged_numbered num rfl rfl ?_
    have length := num.rowVersion row stored
    cases report <;> simp [reportedRow, reportState, fillState, closeState, cancelState, length]
  | routed row venue externalOrderId event stored submitted yields =>
    refine logged_numbered num rfl rfl ?_
    simp [routedRow, closeState, num.rowVersion row stored]
  | canceled row reason event stored isOpen yields =>
    refine logged_numbered num rfl rfl ?_
    simp [locallyCanceledRow, cancelState, closeState, num.rowVersion row stored]
  | recorded externalOrderId =>
    refine ⟨num.gapless, ?_, ?_⟩
    · intro row found
      simp only [recordExternalId, Option.map_eq_some_iff] at found
      obtain ⟨old, stored, rfl⟩ := found
      exact num.rowVersion old stored
    · intro missing
      simp only [recordExternalId, Option.map_eq_none_iff] at missing
      exact num.noRow missing

theorem report_lively {s : OrderAggregateState} (lively : Lively s) {report : ExecutionReport}
    (fits : ReportFits s report) : Lively (reportState s report) := by
  cases report with
  | reject reason venue =>
    exact ⟨rfl, by simp [reportState, closeState], lively.cumNonneg, lively.cumLe,
      by simp [reportState, closeState, OrderStatus.isTerminal],
      by simp [reportState, closeState, OrderStatus.isTerminal]⟩
  | canceled reason venue =>
    exact ⟨rfl, by simp [reportState, cancelState, closeState], lively.cumNonneg, lively.cumLe,
      by simp [reportState, cancelState, closeState, OrderStatus.isTerminal],
      by simp [reportState, cancelState, closeState, OrderStatus.isTerminal]⟩
  | fill executionId qty price venue =>
    obtain ⟨positive, priced, room⟩ := fits
    have start := lively.cumNonneg
    refine ⟨lively.resume, ?_, ?_, room, ?_, fun _ => rfl⟩
    · simp only [reportState, fillState]
      split <;> simp
    · simp only [reportState, fillState]
      linarith
    · simp only [reportState, fillState]
      split
      · intro _
        linarith
      · simp [OrderStatus.isTerminal]

theorem submit_lively {cmd : SubmitOrder} (positive : 0 < cmd.quantity) :
    Lively (submitState cmd) :=
  ⟨rfl, by simp [submitState], le_refl _, positive.le, fun _ => positive,
    fun _ => by simp [submitState]⟩

theorem write_lively {db db' : OrderDb} {kind : WriteKind} (write : Write db kind db')
    (lively : ∀ row, db.row = some row → Lively row.toOrderAggregateState) :
    ∀ row, db'.row = some row → Lively row.toOrderAggregateState := by
  intro row' stored'
  cases write with
  | submitted cmd event code createdAt absent positive version noFill noRoute applies =>
    cases stored'
    exact submit_lively positive
  | reported row report event stored isOpen fits yields =>
    cases stored'
    exact report_lively (lively row stored) fits
  | routed row venue externalOrderId event stored submitted yields =>
    cases stored'
    have old := lively row stored
    have isOpen : row.status.isTerminal = false := by rw [submitted]; rfl
    exact ⟨rfl, by simp [routedRow, closeState], old.cumNonneg, old.cumLe,
      fun _ => old.room isOpen, fun _ => old.leaves isOpen⟩
  | canceled row reason event stored isOpen yields =>
    cases stored'
    have old := lively row stored
    exact ⟨rfl, by simp [locallyCanceledRow, cancelState, closeState], old.cumNonneg, old.cumLe,
      by simp [locallyCanceledRow, cancelState, closeState, OrderStatus.isTerminal],
      by simp [locallyCanceledRow, cancelState, closeState, OrderStatus.isTerminal]⟩
  | recorded externalOrderId =>
    simp only [recordExternalId, Option.map_eq_some_iff] at stored'
    obtain ⟨old, stored, rfl⟩ := stored'
    exact lively old stored

theorem newer_snapshot {db db' : OrderDb} {snapshot row row' : OrderRow}
    (read : SnapshotOf db snapshot) (stored : db.row = some row) (stored' : db'.row = some row')
    (newer : row.version < row'.version) : SnapshotOf db' snapshot := by
  obtain ⟨found, there, older, _⟩ := read
  cases stored.symm.trans there
  exact ⟨row', stored', by omega, fun same => by omega⟩

theorem write_snapshot {db db' : OrderDb} {kind : WriteKind} {snapshot : OrderRow}
    (read : SnapshotOf db snapshot) (write : Write db kind db') : SnapshotOf db' snapshot := by
  cases write with
  | submitted cmd event code createdAt absent positive version noFill noRoute applies =>
    obtain ⟨row, stored, _⟩ := read
    rw [absent] at stored
    cases stored
  | reported row report event stored isOpen fits yields =>
    refine newer_snapshot read stored rfl ?_
    cases report <;> simp [reportedRow, reportState, fillState, closeState, cancelState]
  | routed row venue externalOrderId event stored submitted yields =>
    exact newer_snapshot read stored rfl (by simp [routedRow, closeState])
  | canceled row reason event stored isOpen yields =>
    exact newer_snapshot read stored rfl
      (by simp [locallyCanceledRow, cancelState, closeState])
  | recorded externalOrderId =>
    obtain ⟨row, stored, older, same⟩ := read
    exact ⟨{ row with externalOrderId := row.externalOrderId.or (some externalOrderId) },
      by rw [recordExternalId, stored]; rfl, older, same⟩

def FoldsTo (db : OrderDb) (s : OrderAggregateState) : Prop :=
  OrderAggregate.rehydrate (events db) = .ok (.fromState s)

theorem folds_snoc {db db' : OrderDb} {s : OrderAggregateState} {command : OrderCommand}
    {event : OrderDomainEvent} (folds : FoldsTo db s) (yields : Yields s command event)
    (grown : db'.log = logged db event) : FoldsTo db' (after s command) := by
  have same : events db' = events db ++ [event] := by simp [events, grown, logged]
  rw [FoldsTo, same]
  exact rehydrate_snoc folds yields.applies

theorem write_folds {db db' : OrderDb} {kind : WriteKind} (write : Write db kind db')
    (kept : kind ≠ .localCancel)
    (folds : ∀ row, db.row = some row → FoldsTo db row.toOrderAggregateState) :
    ∀ row, db'.row = some row → FoldsTo db' row.toOrderAggregateState := by
  intro row' stored'
  cases write with
  | submitted cmd event code createdAt absent positive version noFill noRoute applies =>
    cases stored'
    exact @rehydrate_snoc [] event _ _ rfl (applies .empty)
  | reported row report event stored isOpen fits yields =>
    cases stored'
    exact folds_snoc (folds row stored) yields rfl
  | routed row venue externalOrderId event stored submitted yields =>
    cases stored'
    exact folds_snoc (folds row stored) yields rfl
  | canceled row reason event stored isOpen yields => exact absurd rfl kept
  | recorded externalOrderId =>
    simp only [recordExternalId, Option.map_eq_some_iff] at stored'
    obtain ⟨old, there, rfl⟩ := stored'
    exact folds old there

theorem write_open_folds {db db' : OrderDb} {kind : WriteKind} (write : Write db kind db')
    (folds : ∀ row, db.row = some row → row.status.isTerminal = false →
      FoldsTo db row.toOrderAggregateState) :
    ∀ row, db'.row = some row → row.status.isTerminal = false →
      FoldsTo db' row.toOrderAggregateState := by
  intro row' stored' isOpen'
  cases write with
  | submitted cmd event code createdAt absent positive version noFill noRoute applies =>
    cases stored'
    exact @rehydrate_snoc [] event _ _ rfl (applies .empty)
  | reported row report event stored isOpen fits yields =>
    cases stored'
    exact folds_snoc (folds row stored isOpen) yields rfl
  | routed row venue externalOrderId event stored submitted yields =>
    cases stored'
    exact folds_snoc (folds row stored (by rw [submitted]; rfl)) yields rfl
  | canceled row reason event stored isOpen yields =>
    cases stored'
    cases isOpen'
  | recorded externalOrderId =>
    simp only [recordExternalId, Option.map_eq_some_iff] at stored'
    obtain ⟨old, there, rfl⟩ := stored'
    exact folds old there isOpen'

/-- After a local cancel the log folds to a cancelled order with nothing left,
    while the row still shows the old `leaves_qty`. -/
theorem local_cancel_folds {db db' : OrderDb} (write : Write db .localCancel db')
    (folds : ∀ row, db.row = some row → FoldsTo db row.toOrderAggregateState) :
    ∃ row, db.row = some row ∧ row.status.isTerminal = false ∧
      db'.row = some (locallyCanceledRow row) ∧
      FoldsTo db' (cancelState row.toOrderAggregateState) := by
  cases write with
  | canceled row reason event stored isOpen yields =>
    exact ⟨row, stored, isOpen, rfl, folds_snoc (folds row stored) yields rfl⟩

inductive Writer where
  | report (report : ExecutionReport) (metadata : EventMetadata)
  | route (venue externalOrderId : String) (metadata : EventMetadata)
  | cancel (reason : Option String) (metadata : EventMetadata)
  deriving DecidableEq, Repr

/-- The snapshot a writer goes on with: a cancel stops at a closed order, and at
    one with a venue id it asks the broker and writes nothing. -/
def readRow (writer : Writer) (row : Option OrderRow) : Option OrderRow :=
  match writer with
  | .cancel .. =>
    match cancelPath row with
    | .ok (.locally snapshot) => some snapshot
    | _ => none
  | _ => row

/-- The database after the writer's transaction: unchanged when it rolls back. -/
def perform (writer : Writer) (snapshot : OrderRow) (db : OrderDb) : OrderDb :=
  match writer with
  | .report report metadata =>
    match applyOnce snapshot report metadata db with
    | .ok (_, committed) => committed
    | .error _ => db
  | .route venue externalOrderId metadata =>
    match persistRoutedOnce snapshot venue externalOrderId metadata db with
    | .ok (_, committed) => committed
    | .error _ => db
  | .cancel reason metadata =>
    match cancelLocally snapshot reason metadata db with
    | .ok committed => committed
    | .error _ => db

def commitNow (writer : Writer) (db : OrderDb) : OrderDb :=
  match readRow writer db.row with
  | some snapshot => perform writer snapshot db
  | none => db

def Current (db : OrderDb) (snapshot : OrderRow) : Prop :=
  ∃ row, db.row = some row ∧ row.version = snapshot.version

/-- The kinds of write a writer's transaction can be. All but the record of a
    venue id need the row to be as it was read. -/
def Makes (writer : Writer) (snapshot : OrderRow) (db : OrderDb) (kind : WriteKind) : Prop :=
  match writer with
  | .report report _ => kind = .report report ∧ Current db snapshot
  | .route _ externalOrderId _ =>
    kind = .route externalOrderId ∧ Current db snapshot ∨ kind = .recordId externalOrderId
  | .cancel .. => kind = .localCancel ∧ Current db snapshot

theorem makes_local_cancel {writer : Writer} {snapshot : OrderRow} {db : OrderDb}
    (makes : Makes writer snapshot db .localCancel) :
    ∃ reason metadata row, writer = .cancel reason metadata ∧ db.row = some row ∧
      row.version = snapshot.version := by
  cases writer with
  | report report metadata => cases makes.1
  | route venue externalOrderId metadata => rcases makes with ⟨wrong, _⟩ | wrong <;> cases wrong
  | cancel reason metadata =>
    obtain ⟨_, row, stored, version⟩ := makes
    exact ⟨reason, metadata, row, rfl, stored, version⟩

theorem makes_venue_id {writer : Writer} {snapshot : OrderRow} {db : OrderDb} {kind : WriteKind}
    {externalOrderId : String} (makes : Makes writer snapshot db kind)
    (names : kind = .route externalOrderId ∨ kind = .recordId externalOrderId) :
    ∃ venue metadata, writer = .route venue externalOrderId metadata := by
  cases writer with
  | report report metadata => rcases names with rfl | rfl <;> cases makes.1
  | route venue name metadata =>
    rcases names with rfl | rfl <;> rcases makes with ⟨same, _⟩ | same <;> cases same <;>
      exact ⟨venue, metadata, rfl⟩
  | cancel reason metadata => rcases names with rfl | rfl <;> cases makes.1

theorem makes_report {writer : Writer} {snapshot : OrderRow} {db : OrderDb}
    {report : ExecutionReport} (makes : Makes writer snapshot db (.report report)) :
    ∃ metadata, writer = .report report metadata ∧ Current db snapshot := by
  cases writer with
  | report found metadata =>
    obtain ⟨same, current⟩ := makes
    cases same
    exact ⟨metadata, rfl, current⟩
  | route venue externalOrderId metadata => rcases makes with ⟨wrong, _⟩ | wrong <;> cases wrong
  | cancel reason metadata => cases makes.1

theorem perform_writes {db : OrderDb} {writer : Writer} {snapshot : OrderRow} (num : Numbered db)
    (lively : ∀ row, db.row = some row → Lively row.toOrderAggregateState)
    (read : SnapshotOf db snapshot)
    (opens : ∀ reason metadata, writer = .cancel reason metadata →
      snapshot.status.isTerminal = false) :
    perform writer snapshot db = db ∨
      ∃ kind, Makes writer snapshot db kind ∧ Write db kind (perform writer snapshot db) := by
  cases writer with
  | report report metadata =>
    cases run : applyOnce snapshot report metadata db with
    | error failure => exact .inl (by simp [perform, run])
    | ok outcome =>
      obtain ⟨result, committed⟩ := outcome
      simp only [perform, run]
      rcases apply_once_cases num read lively run with
        ⟨_, _, same⟩ | ⟨_, _, _, same⟩ |
          ⟨row, event, stored, version, _, isOpen, fits, yields, _, same⟩
      · exact .inl same
      · exact .inl same
      · exact .inr ⟨_, ⟨rfl, row, stored, version⟩,
          same ▸ .reported row report event stored isOpen fits yields⟩
  | route venue externalOrderId metadata =>
    cases run : persistRoutedOnce snapshot venue externalOrderId metadata db with
    | error failure => exact .inl (by simp [perform, run])
    | ok outcome =>
      obtain ⟨result, committed⟩ := outcome
      simp only [perform, run]
      rcases route_once_cases num read lively run with
        ⟨_, _, same⟩ | ⟨_, _, _, same⟩ |
          ⟨row, event, stored, version, _, submitted, yields, _, same⟩
      · exact .inl same
      · exact .inr ⟨_, .inr rfl, same ▸ .recorded externalOrderId⟩
      · exact .inr ⟨_, .inl ⟨rfl, row, stored, version⟩,
          same ▸ .routed row venue externalOrderId event stored submitted yields⟩
  | cancel reason metadata =>
    cases run : cancelLocally snapshot reason metadata db with
    | error failure => exact .inl (by simp [perform, run])
    | ok committed =>
      have isOpen := opens reason metadata rfl
      obtain ⟨row, event, stored, version, same, yields, result⟩ :=
        cancel_locally_cases num read isOpen run
      simp only [perform, run]
      refine .inr ⟨_, ⟨rfl, row, stored, version⟩,
        result ▸ .canceled row reason event stored ?_ yields⟩
      rw [← same]
      exact isOpen

theorem read_row_snapshot {db : OrderDb} {writer : Writer} {snapshot : OrderRow}
    (read : readRow writer db.row = some snapshot) : db.row = some snapshot ∧
      ∀ reason metadata, writer = .cancel reason metadata → snapshot.status.isTerminal = false := by
  cases writer with
  | report report metadata => exact ⟨read, fun _ _ wrong => by cases wrong⟩
  | route venue externalOrderId metadata => exact ⟨read, fun _ _ wrong => by cases wrong⟩
  | cancel reason metadata =>
    simp only [readRow, cancelPath] at read
    cases stored : db.row with
    | none => simp [stored] at read
    | some row =>
      cases closed : row.status.isTerminal with
      | true => simp [stored, closed] at read
      | false =>
        cases known : row.externalOrderId with
        | some externalOrderId => simp [stored, closed, known] at read
        | none =>
          simp only [stored, closed, known, Bool.false_eq_true, if_false, Option.some.injEq] at read
          subst read
          exact ⟨rfl, fun _ _ _ => closed⟩

def WriteKind.fromEntry : WriteKind → Prop
  | .submit | .report _ => False
  | .route _ | .localCancel | .recordId _ => True

theorem entry_write_keeps {db db' : OrderDb} {kind : WriteKind} (write : Write db kind db')
    (entry : kind.fromEntry) : db'.position = db.position ∧ ∀ row', db'.row = some row' →
      ∃ row, db.row = some row ∧ row'.cumQty = row.cumQty ∧ row'.originalQty = row.originalQty ∧
        row'.avgPx = row.avgPx ∧ row'.side = row.side ∧
        (row'.status.isTerminal = false → row.status.isTerminal = false) := by
  cases write with
  | submitted cmd event code createdAt absent positive version noFill noRoute applies => cases entry
  | reported row report event stored isOpen fits yields => cases entry
  | routed row venue externalOrderId event stored submitted yields =>
    refine ⟨rfl, fun row' stored' => ?_⟩
    cases stored'
    exact ⟨row, stored, rfl, rfl, rfl, rfl, fun _ => by rw [submitted]; rfl⟩
  | canceled row reason event stored isOpen yields =>
    refine ⟨rfl, fun row' stored' => ?_⟩
    cases stored'
    exact ⟨row, stored, rfl, rfl, rfl, rfl, fun _ => isOpen⟩
  | recorded externalOrderId =>
    refine ⟨rfl, fun row' stored' => ?_⟩
    simp only [recordExternalId, Option.map_eq_some_iff] at stored'
    obtain ⟨row, stored, rfl⟩ := stored'
    exact ⟨row, stored, rfl, rfl, rfl, rfl, fun still => still⟩

theorem write_cum_grows {db db' : OrderDb} {kind : WriteKind} (write : Write db kind db')
    {row : OrderRow} (stored : db.row = some row) :
    ∃ row', db'.row = some row' ∧ row.cumQty ≤ row'.cumQty := by
  cases write with
  | submitted cmd event code createdAt absent => cases absent.symm.trans stored
  | reported found report event there isOpen fits yields =>
    cases there.symm.trans stored
    refine ⟨reportedRow row report, rfl, ?_⟩
    cases report with
    | fill id qty price venue =>
      have positive := fits.1
      change row.cumQty ≤ row.cumQty + qty
      linarith
    | reject reason venue => exact le_refl _
    | canceled reason venue => exact le_refl _
  | routed found venue externalOrderId event there submitted yields =>
    cases there.symm.trans stored
    exact ⟨routedRow row externalOrderId, rfl, le_refl _⟩
  | canceled found reason event there isOpen yields =>
    cases there.symm.trans stored
    exact ⟨locallyCanceledRow row, rfl, le_refl _⟩
  | recorded externalOrderId =>
    refine ⟨{ row with externalOrderId := row.externalOrderId.or (some externalOrderId) }, ?_,
      le_refl _⟩
    simp [recordExternalId, stored]

def FromEntry (writer : Writer) : Prop :=
  match writer with
  | .report _ _ => False
  | _ => True

theorem makes_from_entry {writer : Writer} {snapshot : OrderRow} {db : OrderDb} {kind : WriteKind}
    (makes : Makes writer snapshot db kind) (entry : FromEntry writer) :
    kind.fromEntry := by
  cases writer with
  | report report metadata => exact entry.elim
  | route venue externalOrderId metadata => rcases makes with ⟨rfl, _⟩ | rfl <;> trivial
  | cancel reason metadata =>
    obtain ⟨rfl, _⟩ := makes
    trivial

/-- A database some history of the write paths leaves, over any position the
    instrument had before the order. -/
inductive Reached : OrderDb → Prop where
  | start (position : Option OmsPositions.PositionMath) : Reached ⟨none, [], position⟩
  | write {db db' : OrderDb} {kind : WriteKind} (before : Reached db) (write : Write db kind db') :
      Reached db'

theorem reached_numbered {db : OrderDb} (reached : Reached db) : Numbered db := by
  induction reached with
  | start position => exact ⟨rfl, (by intro _ missing; cases missing), fun _ => rfl⟩
  | write _ write num => exact write_numbered num write

theorem reached_lively {db : OrderDb} (reached : Reached db) :
    ∀ row, db.row = some row → Lively row.toOrderAggregateState := by
  induction reached with
  | start position =>
    intro row missing
    cases missing
  | write _ write lively => exact write_lively write lively

theorem reached_finished {db : OrderDb} (reached : Reached db) : ∀ row, db.row = some row →
    row.status ≠ .expired ∧ (row.status = .filled → row.originalQty ≤ row.cumQty) := by
  induction reached with
  | start position => intro _ missing; cases missing
  | write before write ih =>
    intro row' there'
    cases write with
    | submitted cmd event code createdAt =>
      cases there'
      simp [submitState]
    | reported row report event stored isOpen fits yields =>
      cases there'
      cases report with
      | fill id qty price venue =>
        refine ⟨?_, fun filled => ?_⟩
        · simp only [reportedRow, reportState, fillState]
          split <;> simp
        · have closed : (reportedRow row (.fill id qty price venue)).status.isTerminal = true := by
            rw [filled]
            rfl
          exact (fill_closes_iff row id qty price venue).mp closed
      | reject reason venue => simp [reportedRow, reportState, closeState]
      | canceled reason venue => simp [reportedRow, reportState, cancelState, closeState]
    | routed row venue externalOrderId event stored submitted yields =>
      cases there'
      simp [routedRow, closeState]
    | canceled row reason event stored isOpen yields =>
      cases there'
      simp [locallyCanceledRow, cancelState, closeState]
    | recorded externalOrderId =>
      simp only [recordExternalId, Option.map_eq_some_iff] at there'
      obtain ⟨row, there, rfl⟩ := there'
      exact ih row there

theorem submit_tx_writes {db db' : OrderDb} {cmd : SubmitOrder} {metadata : EventMetadata}
    {code : String} {createdAt : Nat} (num : Numbered db)
    (inserted : submitTx cmd metadata code createdAt db = .ok db') : Write db .submit db' := by
  obtain ⟨absent, positive, event, version, noFill, noRoute, applies, same⟩ :=
    submit_tx_inserts num inserted
  exact same ▸ .submitted cmd event code createdAt absent positive version noFill noRoute applies

theorem commit_now_writes {db : OrderDb} (num : Numbered db)
    (lively : ∀ row, db.row = some row → Lively row.toOrderAggregateState) {writer : Writer}
    (entry : FromEntry writer) :
    commitNow writer db = db ∨
      ∃ kind : WriteKind, kind.fromEntry ∧ Write db kind (commitNow writer db) := by
  unfold commitNow
  cases found : readRow writer db.row with
  | none => exact .inl rfl
  | some snapshot =>
    obtain ⟨stored, opens⟩ := read_row_snapshot found
    have read : SnapshotOf db snapshot := ⟨snapshot, stored, le_refl _, fun _ => rfl⟩
    rcases perform_writes num lively read opens with same | ⟨kind, makes, write⟩
    · exact .inl same
    · exact .inr ⟨kind, makes_from_entry makes entry, write⟩

theorem commit_now_reached {db : OrderDb} (reached : Reached db) (writer : Writer) :
    Reached (commitNow writer db) := by
  unfold commitNow
  cases found : readRow writer db.row with
  | none => exact reached
  | some snapshot =>
    obtain ⟨stored, opens⟩ := read_row_snapshot found
    have read : SnapshotOf db snapshot := ⟨snapshot, stored, le_refl _, fun _ => rfl⟩
    rcases perform_writes (reached_numbered reached) (reached_lively reached) read opens with
      same | ⟨kind, _, write⟩
    · change Reached (perform writer snapshot db)
      rw [same]
      exact reached
    · exact .write reached write

/-- The database of a stored buy of ten that no venue has answered. -/
def boughtTen : OrderDb :=
  match submitTx buyTen stamp "paper" 0 .empty with
  | .ok db => db
  | .error _ => .empty

def boughtRow : OrderRow := ⟨submitState buyTen, none, "paper", 0⟩

theorem bought_ten_stored : submitTx buyTen stamp "paper" 0 .empty = .ok boughtTen := by
  decide +kernel

theorem bought_ten_row : boughtTen.row = some boughtRow := by
  decide +kernel

theorem bought_ten_reached : Reached boughtTen :=
  .write (.start none) (submit_tx_writes (reached_numbered (.start none)) bought_ten_stored)

end OmsOrderWrites
