import OpenOms.Library.Keyed
import OpenOms.ReconQueries
import OpenOms.Scope

/-!
A followed account's fill, booked as an external order of the strategy's
portfolio: one order per venue trade, so a fill that arrives twice finds its
order. The order is stored routed; its fill then goes to the order engine.
-/
namespace OmsBooking
open OmsOrders OmsLifecycle OmsAggregate OmsPositions OmsOrderStore OmsExecution OmsOrderEntry
open OmsOrderWrites OmsGateway OmsReconOrders OmsReconQueries OmsOrderEngine OmsRiskEngine OmsScope
open Keyed

/-- Binance numbers its trades; the fill carries the number as text. -/
structure ExternalFill where
  tradeId : Nat
  venueOrderId : String
  clientOrderId : String
  symbol : String
  buy : Bool
  qty : ℚ
  price : ℚ
  deriving DecidableEq, Repr

/-- The broker's symbols of the catalog's instruments. A pair it lacks is added
    before its first order, so every symbol has its own. -/
structure Catalog where
  instrumentId : String → String
  brokerSymbol : String → String
  mapped : ∀ symbol, brokerSymbol (instrumentId symbol) = symbol

/-- A co-located strategy and the account it trades on. -/
structure Followed where
  code : String
  portfolioId : String
  account : String
  connection : String
  followSince : Option Int
  catalog : Catalog

def externalName (strategyCode symbol : String) (tradeId : Nat) : String :=
  s!"{strategyCode}:{symbol}:{tradeId}"

def externalOrderId (newV5 : String → String) (strategyCode symbol : String) (tradeId : Nat) :
    String :=
  newV5 (externalName strategyCode symbol tradeId)

inductive Existing where
  | missing
  -- the order exists but its fill never reached the engine
  | needsFill
  | booked
  deriving DecidableEq, Repr

def existingOrder : Option ℚ → Existing
  | none => .missing
  | some q => if q ≤ 0 then .needsFill else .booked

def ExternalFill.side (fill : ExternalFill) : OrderSide := if fill.buy then .buy else .sell

def externalSubmit (strategy : Followed) (orderId : String) (fill : ExternalFill) : SubmitOrder :=
  { orderId := orderId
    clientOrderId := fill.clientOrderId
    portfolioId := strategy.portfolioId
    accountId := strategy.account
    instrumentId := strategy.catalog.instrumentId fill.symbol
    side := fill.side
    orderType := .limit
    timeInForce := .gtc
    limitPrice := some fill.price
    quantity := fill.qty }

def decideAll (aggregate : OrderAggregate) : List (OrderCommand × EventMetadata) →
    Except CommandRejection (OrderAggregate × List OrderDomainEvent)
  | [] => .ok (aggregate, [])
  | (command, metadata) :: rest => do
    let decided ← aggregate.decide command metadata
    let next ← aggregate.applyAll decided
    let (last, events) ← decideAll next rest
    .ok (last, decided ++ events)

/-- `book_fill`'s transaction. A row under the id already fails the INSERT. -/
def insertExternal (strategy : Followed) (orderId : String) (fill : ExternalFill)
    (submitted routed : EventMetadata) (createdAt : Nat) (db : OrderDb) :
    Except String OrderDb :=
  match decideAll .empty [(.submitOrder (externalSubmit strategy orderId fill), submitted),
      (.routeOrder orderId "BINANCE" fill.venueOrderId, routed)] with
  | .error rejection => .error rejection.message
  | .ok (aggregate, events) =>
    match aggregate.state with
    | none => .error "no order state"
    | some state =>
      if db.row.isSome then .error "duplicate key"
      else
        let inserted := insertOrderState db state strategy.connection createdAt
        let set (row : OrderRow) : OrderRow :=
          { row with externalOrderId := some fill.venueOrderId }
        match appendEventsInTx { inserted with row := inserted.row.map set } 0 events with
        | .error _ => .error "version conflict"
        | .ok committed => .ok committed

def fillEvent (orderId : String) (fill : ExternalFill) : ExecEvent :=
  { orderId := orderId
    venue := "BINANCE"
    actor := "colo"
    source := .session
    kind := .fill s!"{fill.tradeId}" fill.qty fill.price }

/-- What the OMS keeps: its orders, a position for each instrument, and the
    engine's queue, which a crash empties. -/
structure Oms where
  orders : Table String StoredOrder (·.row.orderId)
  positions : String → Option PositionMath
  queue : List ExecEvent

inductive CallStage where
  | reading
  | creating
  | sending
  deriving DecidableEq, Repr

structure BookCall where
  fill : ExternalFill
  stage : CallStage
  deriving DecidableEq, Repr

inductive CallAction where
  | read
  -- `answered` is false where the commit's answer is lost
  | create (submitted routed : EventMetadata) (createdAt : Nat) (answered : Bool)
  | send
  | fail
  deriving DecidableEq, Repr

inductive Progress where
  | goes (call : BookCall)
  | returned
  | failed
  deriving DecidableEq, Repr

variable (newV5 : String → String) (strategy : Followed)

def orderIdOf (fill : ExternalFill) : String :=
  externalOrderId newV5 strategy.code fill.symbol fill.tradeId

/-- One step of `book_fill`: its SELECT, its transaction, its event. -/
def callStep (oms : Oms) (call : BookCall) : CallAction → Option (Progress × Oms)
  | .read =>
    if call.stage = .reading then
      match existingOrder ((oms.orders.find (orderIdOf newV5 strategy call.fill)).map
          (·.row.cumQty)) with
      | .booked => some (.returned, oms)
      | .needsFill => some (.goes { call with stage := .sending }, oms)
      | .missing => some (.goes { call with stage := .creating }, oms)
    else none
  | .create submitted routed createdAt answered =>
    if call.stage = .creating then
      let orderId := orderIdOf newV5 strategy call.fill
      match oms.orders.find orderId with
      | some _ => some (.failed, oms)
      | none =>
        match insertExternal strategy orderId call.fill submitted routed createdAt .empty with
        | .error _ => some (.failed, oms)
        | .ok db =>
          match db.row with
          | none => some (.failed, oms)
          | some row =>
            some (if answered then .goes { call with stage := .sending } else .failed,
              { oms with orders := oms.orders.insert ⟨row, db.log⟩ })
    else none
  | .send =>
    if call.stage = .sending then
      some (.returned, { oms with
        queue := oms.queue ++ [fillEvent (orderIdOf newV5 strategy call.fill) call.fill] })
    else none
  | .fail => if call.stage = .sending then none else some (.failed, oms)

def engineStep (oms : Oms) (metadata : EventMetadata) : Option Oms :=
  match oms.queue with
  | [] => none
  | ev :: rest =>
    match oms.orders.find ev.orderId with
    | none => some { oms with queue := rest }
    | some order =>
      let instrument := order.row.instrumentId
      let db := applyExec [] ev metadata (order.db (oms.positions instrument))
      some
        { orders := oms.orders.put (order.of db)
          positions := Function.update oms.positions instrument db.position
          queue := rest }

/-- The row `load_oms_working_orders` returns of an order; it does not leave an
    external one out. -/
def workingOrder (order : StoredOrder) : Option OmsWorkingOrder :=
  if isAtVenue order.row.status then
    (workingId (order.db none) order.row).map fun ext =>
      ⟨order.row.orderId, strategy.catalog.brokerSymbol order.row.instrumentId, ext,
        order.row.cumQty, order.row.avgPx⟩
  else none

/-- What creation sets on a fill's order and no later write changes. -/
structure OrderFor (orderId : String) (fill : ExternalFill) (order : StoredOrder) : Prop where
  sound : Sound order
  id : order.row.orderId = orderId
  side : order.row.side = fill.side
  instrument : order.row.instrumentId = strategy.catalog.instrumentId fill.symbol
  quantity : order.row.originalQty = fill.qty
  venueId : extId (order.db none) order.row = some fill.venueOrderId

def Waiting (order : StoredOrder) : Prop :=
  order.row.status.isTerminal = false ∧ order.row.cumQty = 0

def FilledBy (fill : ExternalFill) (order : StoredOrder) : Prop :=
  order.row.status = .filled ∧ order.row.cumQty = fill.qty ∧ order.row.avgPx = some fill.price

def Shut (order : StoredOrder) : Prop :=
  order.row.status.isTerminal = true ∧ order.row.status ≠ .filled ∧ order.row.cumQty = 0

inductive Books (orderId : String) (fill : ExternalFill) (order : StoredOrder)
    (position : Option PositionMath) : OrderDb → Prop where
  | idle : Books orderId fill order position (order.db position)
  | filled {db : OrderDb} (waiting : Waiting order)
      (is : OrderFor strategy orderId fill (order.of db)) (done : FilledBy fill (order.of db))
      (moved : positionQty db.position = positionQty position + fill.side.signed fill.qty) :
      Books orderId fill order position db
  | shut {db : OrderDb} (waiting : Waiting order)
      (is : OrderFor strategy orderId fill (order.of db)) (done : Shut (order.of db))
      (kept : db.position = position) : Books orderId fill order position db

variable {newV5 strategy}

theorem last_split_unique {A : Type} {a : A} {x x' z z' : List A}
    (same : x ++ a :: z = x' ++ a :: z') (clean : a ∉ z) (clean' : a ∉ z') :
    x = x' ∧ z = z' := by
  rcases List.append_eq_append_iff.mp same with ⟨c, rfl, tail⟩ | ⟨c, rfl, tail⟩
  · cases c with
    | nil => simpa using tail
    | cons b c =>
      simp only [List.cons_append, List.cons.injEq] at tail
      exact absurd (by simp [tail.2]) clean
  · cases c with
    | nil => simpa [eq_comm] using tail
    | cons b c =>
      simp only [List.cons_append, List.cons.injEq] at tail
      exact absurd (by simp [tail.2]) clean'

theorem digits_unseparated (n : Nat) : ':' ∉ Nat.toDigits 10 n := by
  intro member
  have digit := Nat.isDigit_of_mem_toDigits (by decide) (by decide) member
  revert digit
  decide

/-- Within a strategy the name tells the pair and the trade, whatever the pair is called. -/
theorem external_name_injective {strategyCode symbol symbol' : String} {tradeId tradeId' : Nat}
    (same : externalName strategyCode symbol tradeId =
      externalName strategyCode symbol' tradeId') : symbol = symbol' ∧ tradeId = tradeId' := by
  have chars := congrArg String.toList same
  simp only [externalName, toString, String.toList_append] at chars
  simp at chars
  obtain ⟨symbols, digits⟩ :=
    last_split_unique chars (digits_unseparated _) (digits_unseparated _)
  have value := congrArg (fun cs => Nat.ofDigitChars 10 cs 0) digits
  simp at value
  exact ⟨String.toList_inj.mp symbols, value⟩

theorem submit_decides {cmd : SubmitOrder}
    (valid : validateSubmit cmd.quantity cmd.orderType cmd.limitPrice = .ok ())
    (metadata : EventMetadata) :
    ∃ event, OrderAggregate.empty.decide (.submitOrder cmd) metadata = .ok [event] := by
  simp only [OrderAggregate.decide, OrderAggregate.empty, Option.map_none, ensureCommandAllowed,
    kind, if_true, bind, Except.bind, valid]
  exact ⟨_, rfl⟩

theorem submit_then_route {cmd : SubmitOrder}
    (valid : validateSubmit cmd.quantity cmd.orderType cmd.limitPrice = .ok ())
    (venue externalOrderId : String) (submitted routed : EventMetadata) :
    ∃ first second, decideAll .empty [(.submitOrder cmd, submitted),
        (.routeOrder cmd.orderId venue externalOrderId, routed)] =
        .ok (.fromState (closeState (submitState cmd) .routed), [first, second]) ∧
      first.payload.routedId = none ∧ second.payload.routedId = some externalOrderId := by
  obtain ⟨first, decided⟩ := submit_decides valid submitted
  obtain ⟨_, event, same, _, _, noRoute, applies⟩ := submit_decided decided
  cases same
  have accepts : Accepts (submitState cmd) (.routeOrder cmd.orderId venue externalOrderId) :=
    ⟨by simp [kind, submitState, allowedKindsForStatus], trivial⟩
  obtain ⟨second, routes, yields⟩ := decide_accepts accepts routed
  refine ⟨first, second, ?_, noRoute, yields.routedId⟩
  simp only [decideAll, decided, OrderAggregate.applyAll, applies, routes, yields.applies, after,
    bind, Except.bind, List.append_nil, List.cons_append, List.nil_append]

theorem insert_external_opens (orderId : String) {fill : ExternalFill} (sized : 0 < fill.qty)
    (priced : 0 < fill.price) (submitted routed : EventMetadata) (createdAt : Nat) :
    ∃ order, insertExternal strategy orderId fill submitted routed createdAt .empty =
        .ok (order.db none) ∧ OrderFor strategy orderId fill order ∧ Waiting order := by
  have valid : validateSubmit fill.qty .limit (some fill.price) = .ok () := by
    simp [validateSubmit, sized, priced]
  obtain ⟨first, second, run, unrouted, named⟩ :=
    @submit_then_route (externalSubmit strategy orderId fill) valid "BINANCE" fill.venueOrderId
      submitted routed
  let state := closeState (submitState (externalSubmit strategy orderId fill)) .routed
  have decided : decideAll .empty [(.submitOrder (externalSubmit strategy orderId fill), submitted),
      (.routeOrder orderId "BINANCE" fill.venueOrderId, routed)] =
      .ok (.fromState state, [first, second]) := run
  refine ⟨⟨⟨state, some fill.venueOrderId, strategy.connection, createdAt⟩,
    [⟨1, first⟩, ⟨2, second⟩]⟩, ?_, ?_, rfl, rfl⟩
  · rw [insertExternal, decided]
    rfl
  · refine ⟨⟨⟨rfl, ?_, ?_⟩, ?_⟩, rfl, rfl, rfl, rfl, ?_⟩
    · intro found stored
      cases stored
      rfl
    · intro absent
      cases absent
    · exact ⟨rfl, by simp [state, closeState], le_refl _, sized.le, fun _ => sized,
        fun _ => (sub_zero _).symm⟩
    · simp [extId, events, StoredOrder.db, unrouted, named]

/-- A booked report leaves what creation set, the venue's id in the log included. -/
theorem reported_order_for {orderId : String} {fill : ExternalFill} {order : StoredOrder}
    (is : OrderFor strategy orderId fill order) (isOpen : order.row.status.isTerminal = false)
    {report : ExecutionReport} (fits : ReportFits order.row.toOrderAggregateState report)
    {event : OrderDomainEvent}
    (yields : Yields order.row.toOrderAggregateState
      (.receiveExecutionReport order.row.orderId report) event) (position : Option PositionMath) :
    OrderFor strategy orderId fill
      (order.of (reportedDb (order.db position) order.row report event)) := by
  have sound := sound_of_write is.sound
    (.reported order.row report event rfl isOpen fits yields :
      Write (order.db position) (.report report) _)
  have kept : (order.of (reportedDb (order.db position) order.row report event)).row =
      reportedRow order.row report := rfl
  refine ⟨sound, ?_, ?_, ?_, ?_, ?_⟩
  · rw [kept, ← is.id]
    cases report <;> rfl
  · rw [kept, ← is.side]
    cases report <;> rfl
  · rw [kept, ← is.instrument]
    cases report <;> rfl
  · rw [kept, ← is.quantity]
    cases report <;> rfl
  · have routed := is.venueId
    have unrouted : event.payload.routedId = none := yields.routedId
    simp only [extId, events, StoredOrder.db, StoredOrder.of, reportedDb, logged, List.map_append,
      List.map_cons, List.map_nil, List.findSome?_append, List.findSome?_cons, unrouted,
      List.findSome?_nil, Option.or_none] at routed ⊢
    exact routed

theorem book_report_clean {orderId : String} {fill : ExternalFill} {order : StoredOrder}
    (is : OrderFor strategy orderId fill order) (isOpen : order.row.status.isTerminal = false)
    {report : ExecutionReport} (fits : ReportFits order.row.toOrderAggregateState report)
    (metadata : EventMetadata) (position : Option PositionMath) :
    ∃ event, Yields order.row.toOrderAggregateState
        (.receiveExecutionReport order.row.orderId report) event ∧
      bookReport [] report metadata (order.db position) =
        reportedDb (order.db position) order.row report event := by
  obtain ⟨event, yields, run⟩ := book_report_open (sound_numbered is.sound position) rfl
    is.sound.lively isOpen fits [] metadata
  exact ⟨event, yields, by rw [run, if_neg (by decide)]⟩

theorem waiting_filled {orderId : String} {fill : ExternalFill} {order : StoredOrder}
    (is : OrderFor strategy orderId fill order) (waiting : Waiting order) (sized : 0 < fill.qty)
    (priced : 0 < fill.price) (id venue : String) (metadata : EventMetadata)
    (position : Option PositionMath) :
    let db := bookReport [] (.fill id fill.qty fill.price venue) metadata (order.db position)
    db.row = some (reportedRow order.row (.fill id fill.qty fill.price venue)) ∧
      OrderFor strategy orderId fill (order.of db) ∧ FilledBy fill (order.of db) ∧
      positionQty db.position = positionQty position + fill.side.signed fill.qty := by
  obtain ⟨isOpen, none_yet⟩ := waiting
  have fits : ReportFits order.row.toOrderAggregateState (.fill id fill.qty fill.price venue) := by
    refine ⟨sized, priced, ?_⟩
    rw [none_yet, is.quantity, zero_add]
  obtain ⟨event, yields, run⟩ := book_report_clean is isOpen fits metadata position
  intro db
  have same : db = reportedDb (order.db position) order.row _ event := run
  rw [same]
  refine ⟨rfl, reported_order_for is isOpen fits yields position, ⟨?_, ?_, ?_⟩, ?_⟩
  · simp [StoredOrder.of, reportedDb, reportedRow, reportState, fillState, none_yet, is.quantity]
  · simp [StoredOrder.of, reportedDb, reportedRow, reportState, fillState, none_yet]
  · have whole : fill.qty ≠ 0 := ne_of_gt sized
    simp [StoredOrder.of, reportedDb, reportedRow, reportState, fillState, none_yet, whole]
  · have moves := (fill_moves is.sound (.reported order.row _ event rfl isOpen fits yields :
      Write (order.db position) (.report (.fill id fill.qty fill.price venue)) _)).position
    rw [← is.side]
    exact moves

/-- A venue answer that closes an order still waiting, without being exactly its
    fill: the venue's order has executed other trades too, or too little to see. -/
def ClosesUnfilled (order : StoredOrder) (ev : ExecEvent) : Prop :=
  match ev.kind with
  | .terminal st => Waiting order ∧ (st.outcome = .canceled ∨ st.outcome = .rejected) ∧
      ¬ (EPS < st.executedQty ∧ st.executedQty = order.row.originalQty)
  | _ => False

instance (order : StoredOrder) (ev : ExecEvent) : Decidable (ClosesUnfilled order ev) := by
  unfold ClosesUnfilled Waiting
  split <;> infer_instance

theorem closed_not_waiting {order : StoredOrder} (closed : order.row.status.isTerminal = true) :
    ¬ Waiting order := by
  intro waiting
  have isOpen := waiting.1
  rw [closed] at isOpen
  cases isOpen

theorem filled_closed {order : StoredOrder} {fill : ExternalFill} (filled : FilledBy fill order) :
    order.row.status.isTerminal = true := by
  rw [filled.1]
  rfl

theorem fill_event_books {orderId : String} {fill : ExternalFill} {order : StoredOrder}
    (is : OrderFor strategy orderId fill order) (sized : 0 < fill.qty) (priced : 0 < fill.price)
    (staged : Waiting order ∨ order.row.status.isTerminal = true) (metadata : EventMetadata)
    (position : Option PositionMath) :
    let db := applyExec [] (fillEvent orderId fill) metadata (order.db position)
    Books strategy orderId fill order position db ∧ ¬ Waiting (order.of db) ∧
      (Shut (order.of db) ↔ Shut order) := by
  intro db
  rcases staged with waiting | closed
  · have booked := waiting_filled is waiting sized priced s!"{fill.tradeId}" "BINANCE" metadata
      position
    obtain ⟨_, same, done, moved⟩ := booked
    refine ⟨.filled waiting same done moved, closed_not_waiting (filled_closed done), ?_, ?_⟩
    · intro shut
      exact absurd done.1 shut.2.1
    · intro shut
      exact absurd waiting (closed_not_waiting shut.1)
  · have still : db = order.db position := book_reports_closed rfl closed _ _ _
    rw [still]
    exact ⟨.idle, closed_not_waiting closed, .rfl⟩

theorem close_shuts {orderId : String} {fill : ExternalFill} {order : StoredOrder}
    (is : OrderFor strategy orderId fill order) (waiting : Waiting order)
    {report : ExecutionReport} (close : ∀ id qty price venue, report ≠ .fill id qty price venue)
    (metadata : EventMetadata) (position : Option PositionMath) :
    let db := bookReport [] report metadata (order.db position)
    OrderFor strategy orderId fill (order.of db) ∧ Shut (order.of db) ∧ db.position = position := by
  obtain ⟨isOpen, none_yet⟩ := waiting
  have fits : ReportFits order.row.toOrderAggregateState report := by
    cases report with
    | fill id qty price venue => exact absurd rfl (close id qty price venue)
    | reject reason venue => trivial
    | canceled reason venue => trivial
  obtain ⟨event, yields, run⟩ := book_report_clean is isOpen fits metadata position
  have moved := reported_position (order.db position) yields
  intro db
  have same : db = reportedDb (order.db position) order.row report event := run
  rw [same]
  refine ⟨reported_order_for is isOpen fits yields position, ?_⟩
  cases report with
  | fill id qty price venue => exact absurd rfl (close id qty price venue)
  | reject reason venue => exact ⟨⟨rfl, nofun, none_yet⟩, moved⟩
  | canceled reason venue => exact ⟨⟨rfl, nofun, none_yet⟩, moved⟩

theorem closing_shuts {orderId : String} {fill : ExternalFill} {order : StoredOrder}
    (is : OrderFor strategy orderId fill order) (waiting : Waiting order)
    {outcome : BrokerOrderOutcome} (closing : outcome = .canceled ∨ outcome = .rejected)
    (venue : String) (metadata : EventMetadata) (position : Option PositionMath) :
    let db := bookReports [] metadata (order.db position) (closingReports outcome venue)
    OrderFor strategy orderId fill (order.of db) ∧ Shut (order.of db) ∧ db.position = position := by
  rcases closing with rfl | rfl
  · exact close_shuts is waiting (by simp) metadata position
  · exact close_shuts is waiting (by simp) metadata position

/-- More than the order is for, or too little to see: the answer's fill changes nothing. -/
theorem misfit_passes {orderId : String} {fill : ExternalFill} {order : StoredOrder}
    (is : OrderFor strategy orderId fill order) (waiting : Waiting order) {executed : ℚ}
    (covers : fill.qty ≤ executed) (other : ¬ (EPS < executed ∧ executed = order.row.originalQty))
    (id venue : String) (price : ℚ) (metadata : EventMetadata) (position : Option PositionMath)
    (rest : List ExecutionReport) :
    bookReports [] metadata (order.db position)
        (((missingQty order.row.cumQty executed).map fun fillQty =>
          ExecutionReport.fill id fillQty price venue).toList ++ rest) =
      bookReports [] metadata (order.db position) rest := by
  cases missing : missingQty order.row.cumQty executed with
  | none => rfl
  | some fillQty =>
    obtain ⟨visible, rfl⟩ := missing_qty_some.mp missing
    have misfit : ¬ ReportFits order.row.toOrderAggregateState
        (.fill id (executed - order.row.cumQty) price venue) := by
      rintro ⟨_, _, room⟩
      rw [is.quantity] at room other
      refine other ⟨by linarith [waiting.2], ?_⟩
      linarith
    have passes := book_report_misfit (show (order.db position).row = some order.row from rfl)
      waiting.1 misfit [] metadata
    simp only [Option.map_some, Option.toList_some, List.cons_append, List.nil_append, bookReports,
      List.headD_nil, List.tail_nil, passes]

theorem apply_answer {ev : ExecEvent} {st : BrokerOrderState} (answer : ev.kind = .terminal st)
    (order : StoredOrder) (metadata : EventMetadata) (position : Option PositionMath) :
    applyExec [] ev metadata (order.db position) =
      bookReports [] metadata (order.db position)
        (((missingQty order.row.cumQty st.executedQty).map fun fillQty =>
          ExecutionReport.fill s!"recon-{ev.orderId}" fillQty
            (incrementPrice order.row.cumQty order.row.avgPx st.executedQty st.avgPx)
            ev.venue).toList ++ closingReports st.outcome ev.venue) := by
  simp [applyExec, bookedState, needsBookedState, reportsFor, answer, StoredOrder.db]

theorem closes_unfilled_iff {ev : ExecEvent} {st : BrokerOrderState}
    (answer : ev.kind = .terminal st) (order : StoredOrder) :
    ClosesUnfilled order ev ↔ Waiting order ∧ (st.outcome = .canceled ∨ st.outcome = .rejected) ∧
      ¬ (EPS < st.executedQty ∧ st.executedQty = order.row.originalQty) := by
  rw [ClosesUnfilled, answer]

theorem own_answer_fills {orderId : String} {fill : ExternalFill} {order : StoredOrder}
    (is : OrderFor strategy orderId fill order) (waiting : Waiting order) (sized : 0 < fill.qty)
    (priced : 0 < fill.price) {ev : ExecEvent} {st : BrokerOrderState}
    (answer : ev.kind = .terminal st) (visible : EPS < st.executedQty)
    (whole : st.executedQty = fill.qty) (alone : st.avgPx = fill.price)
    (metadata : EventMetadata) (position : Option PositionMath) :
    let db := applyExec [] ev metadata (order.db position)
    OrderFor strategy orderId fill (order.of db) ∧ FilledBy fill (order.of db) ∧
      positionQty db.position = positionQty position + fill.side.signed fill.qty := by
  have missing : missingQty order.row.cumQty st.executedQty = some fill.qty := by
    rw [waiting.2, ← whole]
    exact missing_qty_some.mpr ⟨by simpa using visible, by simp⟩
  have price : incrementPrice order.row.cumQty order.row.avgPx st.executedQty st.avgPx =
      fill.price := by
    rw [waiting.2, increment_price_first, alone]
  obtain ⟨stored, filled⟩ :=
    waiting_filled is waiting sized priced s!"recon-{ev.orderId}" ev.venue metadata position
  have closed := filled_closed filled.2.1
  rw [StoredOrder.of, stored] at closed
  intro db
  have booked : db = bookReport [] (.fill s!"recon-{ev.orderId}" fill.qty fill.price ev.venue)
      metadata (order.db position) := by
    change applyExec [] ev metadata (order.db position) = _
    rw [apply_answer answer, missing, price]
    exact book_reports_closed stored closed _ _ _
  rw [booked]
  exact filled

theorem answer_books {orderId : String} {fill : ExternalFill} {order : StoredOrder}
    (is : OrderFor strategy orderId fill order) (sized : 0 < fill.qty) (priced : 0 < fill.price)
    (staged : Waiting order ∨ order.row.status.isTerminal = true) {ev : ExecEvent}
    {st : BrokerOrderState} (answer : ev.kind = .terminal st) (covers : fill.qty ≤ st.executedQty)
    (alone : st.executedQty = fill.qty → st.avgPx = fill.price) (metadata : EventMetadata)
    (position : Option PositionMath) :
    let db := applyExec [] ev metadata (order.db position)
    Books strategy orderId fill order position db ∧
      (Shut (order.of db) ↔ Shut order ∨ ClosesUnfilled order ev) := by
  intro db
  rw [closes_unfilled_iff answer]
  rcases staged with waiting | closed
  · by_cases own : EPS < st.executedQty ∧ st.executedQty = order.row.originalQty
    · have whole : st.executedQty = fill.qty := own.2.trans is.quantity
      obtain ⟨same, done, moved⟩ := own_answer_fills is waiting sized priced answer own.1 whole
        (alone whole) metadata position
      refine ⟨.filled waiting same done moved, ?_⟩
      refine ⟨fun shut => absurd done.1 shut.2.1, ?_⟩
      rintro (shut | ⟨_, _, other⟩)
      · exact absurd waiting (closed_not_waiting shut.1)
      · exact absurd own other
    · have passed : db = bookReports [] metadata (order.db position)
          (closingReports st.outcome ev.venue) := by
        change applyExec [] ev metadata (order.db position) = _
        rw [apply_answer answer]
        exact misfit_passes is waiting covers own _ _ _ _ _ _
      rw [passed]
      by_cases closing : st.outcome = .canceled ∨ st.outcome = .rejected
      · obtain ⟨same, shut, kept⟩ := closing_shuts is waiting closing ev.venue metadata position
        exact ⟨.shut waiting same shut kept, fun _ => .inr ⟨waiting, closing, own⟩, fun _ => shut⟩
      · have still : closingReports st.outcome ev.venue = [] := by
          cases outcome : st.outcome <;> simp_all [closingReports]
        rw [still]
        refine ⟨.idle, .inl, ?_⟩
        rintro (shut | ⟨_, closes, _⟩)
        · exact shut
        · exact absurd closes closing
  · have still : db = order.db position := by
      change applyExec [] ev metadata (order.db position) = _
      rw [apply_answer answer]
      exact book_reports_closed rfl closed _ _ _
    rw [still]
    refine ⟨.idle, .inl, ?_⟩
    rintro (shut | ⟨waiting, _⟩)
    · exact shut
    · exact absurd waiting (closed_not_waiting closed)

end OmsBooking
