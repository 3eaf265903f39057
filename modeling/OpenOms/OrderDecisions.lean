import OpenOms.OrderWrites

/-!
A writer's transaction taken apart: what it has decided from the row it read,
before any statement of it writes, and the statements that are left.
-/
namespace OmsOrderDecisions
open OmsOrders OmsLifecycle OmsAggregate OmsPositions OmsOrderStore OmsExecution OmsOrderEntry
open OmsOrderWrites

/-- The events to append, the UPDATE's column list, the fills to book on the
    position, and whether the UPDATE's row count is looked at. -/
structure Plan where
  events : List OrderDomainEvent
  columns : OrderRow → OrderRow
  fills : List Execution
  side : OrderSide
  mustHit : Bool

inductive Decision where
  | nothing
  | recordId (externalOrderId : String)
  | write (plan : Plan)

def decideWrite (writer : Writer) (snapshot : OrderRow) : Decision :=
  let aggregate := OrderAggregate.fromState snapshot.toOrderAggregateState
  match writer with
  | .report report metadata =>
    if snapshot.status.isTerminal then .nothing
    else
      match aggregate.decide (.receiveExecutionReport snapshot.orderId report) metadata with
      | .error _ => .nothing
      | .ok events =>
        match aggregate.applyAll events with
        | .error _ => .nothing
        | .ok applied =>
          match applied.state with
          | none => .nothing
          | some newState =>
            .write
              { events, columns := executionColumns newState
                fills := events.filterMap fun event => event.payload.execution
                side := newState.side, mustHit := false }
  | .route venue externalOrderId metadata =>
    if snapshot.status.isTerminal then .nothing
    else if snapshot.status ≠ .submitted then .recordId externalOrderId
    else
      match aggregate.decide (.routeOrder snapshot.orderId venue externalOrderId) metadata with
      | .error _ => .nothing
      | .ok events =>
        match foldEvents aggregate events "missing aggregate state after routing" with
        | .error _ => .nothing
        | .ok routedState =>
          .write
            { events, columns := routeColumns routedState externalOrderId, fills := []
              side := snapshot.side, mustHit := false }
  | .cancel reason metadata =>
    match aggregate.decide (.cancelOrder snapshot.orderId reason) metadata with
    | .error _ => .nothing
    | .ok events =>
      match foldEvents aggregate events "missing aggregate state after cancel" with
      | .error _ => .nothing
      | .ok state =>
        .write
          { events, columns := cancelColumns state, fills := [], side := snapshot.side
            mustHit := true }

def bookFills (side : OrderSide) (db : OrderDb) (fills : List Execution) : OrderDb :=
  fills.foldl (fun db execution => persistFill db side execution) db

def runPlan (plan : Plan) (version : Nat) (db : OrderDb) : OrderDb :=
  let (updated, rowsAffected) := updateWhereVersion db version plan.columns
  if plan.mustHit && rowsAffected = 0 then db
  else
    match appendEventsInTx (bookFills plan.side updated plan.fills) version plan.events with
    | .ok committed => committed
    | .error _ => db

theorem persist_fills_book (side : OrderSide) (events : List OrderDomainEvent) (db : OrderDb) :
    persistFills db side events =
      bookFills side db (events.filterMap fun event => event.payload.execution) := by
  induction events generalizing db with
  | nil => rfl
  | cons event events ih =>
    cases fill : event.payload.execution <;> simp [persistFills, fill, ih, bookFills]

theorem perform_decides (writer : Writer) (snapshot : OrderRow) (db : OrderDb) :
    perform writer snapshot db =
      match decideWrite writer snapshot with
      | .nothing => db
      | .recordId externalOrderId => recordExternalId db externalOrderId
      | .write plan => runPlan plan snapshot.version db := by
  cases writer with
  | report report metadata =>
    cases closed : snapshot.status.isTerminal with
    | true => simp [perform, applyOnce, decideWrite, closed]
    | false =>
      simp only [perform, applyOnce, decideWrite, closed, Bool.false_eq_true, if_false]
      cases (OrderAggregate.fromState snapshot.toOrderAggregateState).decide
          (.receiveExecutionReport snapshot.orderId report) metadata with
      | error rejection => rfl
      | ok events =>
        cases applies :
            (OrderAggregate.fromState snapshot.toOrderAggregateState).applyAll events with
        | error rejection => simp [applies]
        | ok applied =>
          cases result : applied.state with
          | none => simp [applies, result]
          | some newState =>
            simp only [applies, result, runPlan, persist_fills_book, Bool.false_and,
              Bool.false_eq_true, if_false]
            cases appendEventsInTx _ _ _ <;> rfl
  | route venue externalOrderId metadata =>
    cases closed : snapshot.status.isTerminal with
    | true => simp [perform, persistRoutedOnce, decideWrite, closed]
    | false =>
      by_cases submitted : snapshot.status = .submitted
      · simp only [perform, persistRoutedOnce, decideWrite, submitted, OrderStatus.isTerminal,
          ne_eq, not_true_eq_false, Bool.false_eq_true, if_false]
        cases (OrderAggregate.fromState snapshot.toOrderAggregateState).decide
            (.routeOrder snapshot.orderId venue externalOrderId) metadata with
        | error rejection => rfl
        | ok events =>
          cases folded : foldEvents (.fromState snapshot.toOrderAggregateState) events
              "missing aggregate state after routing" with
          | error failure => simp [folded]
          | ok routedState =>
            simp only [folded, runPlan, bookFills, List.foldl_nil, Bool.false_and,
              Bool.false_eq_true, if_false]
            cases appendEventsInTx _ _ _ <;> rfl
      · simp [perform, persistRoutedOnce, decideWrite, closed, submitted]
  | cancel reason metadata =>
    simp only [perform, cancelLocally, decideWrite, bind, Except.bind]
    cases (OrderAggregate.fromState snapshot.toOrderAggregateState).decide
        (.cancelOrder snapshot.orderId reason) metadata with
    | error rejection => rfl
    | ok events =>
      cases folded : foldEvents (.fromState snapshot.toOrderAggregateState) events
          "missing aggregate state after cancel" with
      | error failure => simp [folded]
      | ok state =>
        simp only [folded, runPlan, bookFills, List.foldl_nil, Bool.true_and, decide_eq_true_eq]
        by_cases missed : (updateWhereVersion db snapshot.version (cancelColumns state)).2 = 0
        · simp [missed]
        · simp only [missed, if_false, appendOr500]
          cases appendEventsInTx _ _ _ <;> rfl

theorem planned_decided {writer : Writer} {snapshot : OrderRow} {plan : Plan}
    (decides : decideWrite writer snapshot = .write plan) :
    ∃ command metadata event, plan.events = [event] ∧
      (OrderAggregate.fromState snapshot.toOrderAggregateState).decide command metadata =
        .ok [event] := by
  have one : ∀ {command metadata events},
      (OrderAggregate.fromState snapshot.toOrderAggregateState).decide command metadata =
        .ok events → plan.events = events → ∃ command metadata event, plan.events = [event] ∧
      (OrderAggregate.fromState snapshot.toOrderAggregateState).decide command metadata =
        .ok [event] := by
    intro command metadata events decided same
    obtain ⟨event, rfl, _⟩ := decided_yields decided
    exact ⟨command, metadata, event, same, decided⟩
  cases writer with
  | report report metadata =>
    simp only [decideWrite] at decides
    split at decides
    · cases decides
    split at decides
    · cases decides
    rename_i events decided
    split at decides
    · cases decides
    split at decides
    · cases decides
    · cases decides
      exact one decided rfl
  | route venue externalOrderId metadata =>
    simp only [decideWrite] at decides
    split at decides
    · cases decides
    split at decides
    · cases decides
    split at decides
    · cases decides
    rename_i events decided
    split at decides
    · cases decides
    · cases decides
      exact one decided rfl
  | cancel reason metadata =>
    simp only [decideWrite] at decides
    split at decides
    · cases decides
    rename_i events decided
    split at decides
    · cases decides
    · cases decides
      exact one decided rfl

theorem planned_open {writer : Writer} {snapshot : OrderRow} {plan : Plan}
    (decides : decideWrite writer snapshot = .write plan) :
    snapshot.status.isTerminal = false := by
  obtain ⟨command, metadata, event, _, decided⟩ := planned_decided decides
  have allowed := (decided_accepts decided).1
  by_contra closed
  exact terminal_allows_nothing (by simpa using closed) (kind command)
    ((allowed_iff_listed _ _).mpr allowed)

theorem book_fills_frame (side : OrderSide) (db : OrderDb) (fills : List Execution) :
    (bookFills side db fills).row = db.row ∧ (bookFills side db fills).log = db.log := by
  induction fills generalizing db with
  | nil => exact ⟨rfl, rfl⟩
  | cons fill fills ih => exact ih (persistFill db side fill)

theorem book_fills_position (side : OrderSide) {db db' : OrderDb}
    (same : db.position = db'.position) (fills : List Execution) :
    (bookFills side db fills).position = (bookFills side db' fills).position := by
  induction fills generalizing db db' with
  | nil => exact same
  | cons fill fills ih => exact ih (by simp [persistFill, same])

theorem book_fills_snoc (side : OrderSide) (db : OrderDb) (fills : List Execution)
    (fill : Execution) :
    (bookFills side db (fills ++ [fill])).position =
      some (((bookFills side db fills).position.getD .flat).applyFill side fill.qty
        fill.price) := by
  simp [bookFills, persistFill]

theorem won_plan {writer : Writer} {snapshot row : OrderRow} {plan : Plan} {db : OrderDb}
    (decides : decideWrite writer snapshot = .write plan) (num : Numbered db)
    (stored : db.row = some row) (current : row.version = snapshot.version) :
    perform writer snapshot db =
      ⟨some (plan.columns row), db.log ++ numbered snapshot.version plan.events,
        (bookFills plan.side db plan.fills).position⟩ := by
  obtain ⟨_, _, event, only, _⟩ := planned_decided decides
  have hit : updateWhereVersion db snapshot.version plan.columns =
      ({ db with row := some (plan.columns row) }, 1) := by
    simp [updateWhereVersion, stored, current]
  obtain ⟨sameRow, sameLog⟩ := book_fills_frame plan.side
    { db with row := some (plan.columns row) } plan.fills
  have won : db.log.length = snapshot.version := (num.rowVersion row stored).symm.trans current
  have appended := append_one num (bookFills plan.side
    { db with row := some (plan.columns row) } plan.fills) sameLog snapshot.version event
  rw [if_pos won] at appended
  have position := book_fills_position plan.side
    (show ({ db with row := some (plan.columns row) } : OrderDb).position = db.position from rfl)
    plan.fills
  rw [perform_decides, decides]
  simp only [runPlan, hit, only, appended, sameRow, position, numbered, Nat.one_ne_zero,
    decide_false, Bool.and_false, Bool.false_eq_true, if_false]

end OmsOrderDecisions
