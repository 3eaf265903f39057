import OpenOms.OrderStore

/-!
What a strategy is told of its orders over FIX. A trigger on the event's own
insert queues the reports that are owed; the delivery looks each event up again
and builds its report.
-/
namespace OmsReports
open OmsOrders OmsOrderStore

inductive ExecType where
  | new
  | trade
  | canceled
  | rejected
  | expired
  | orderStatus
  deriving DecidableEq, Repr

inductive OrdStatus where
  | new
  | partiallyFilled
  | filled
  | canceled
  | rejected
  | expired
  deriving DecidableEq, Repr

structure ExecReport where
  clOrdId : String
  orderId : String
  execId : String
  execType : ExecType
  ordStatus : OrdStatus
  symbol : String
  side : OrderSide
  orderQty : ℚ
  cumQty : ℚ
  leavesQty : ℚ
  avgPx : ℚ
  lastQty : Option ℚ
  lastPx : Option ℚ
  text : Option String
  deriving DecidableEq, Repr

/-- The answers about an order; a security list and a business reject are not. -/
inductive ClientReport where
  | exec (report : ExecReport)
  | cancelReject (clOrdId origClOrdId text : String)
  deriving DecidableEq, Repr

/-- An order that came over FIX: its `order_state` row carries the ClOrdID, and
    `symbol` is its broker's, empty where the broker has none. -/
structure FixOrder where
  clOrdId : String
  symbol : String
  db : OrderDb
  deriving DecidableEq, Repr

def execFor (eventType : String) : Option (ExecType × OrdStatus) :=
  match eventType with
  | "order_routed" => some (.new, .new)
  | "order_partially_filled" => some (.trade, .partiallyFilled)
  | "order_filled" => some (.trade, .filled)
  | "order_canceled" => some (.canceled, .canceled)
  | "order_rejected" => some (.rejected, .rejected)
  | "order_expired" => some (.expired, .expired)
  | _ => none

def isReported (eventType : String) : Bool :=
  eventType == "cancel_rejected" || (execFor eventType).isSome

def queuedTypes : List String :=
  ["order_routed", "order_partially_filled", "order_filled", "order_canceled",
    "order_rejected", "order_expired", "cancel_rejected"]

def fillOf (payload : OrderEventPayload) : Option (ℚ × ℚ) :=
  payload.execution.map fun execution => (execution.qty, execution.price)

def reasonOf : OrderEventPayload → Option String
  | .orderRejected reason | .cancelRejected reason => some reason
  | .orderCanceled reason | .orderExpired reason | .orderSuspended reason _ => reason
  | _ => none

def ordStatus : OrderStatus → OrdStatus
  | .partiallyFilled => .partiallyFilled
  | .filled => .filled
  | .canceled => .canceled
  | .rejected => .rejected
  | .expired => .expired
  | _ => .new

def statusReport (order : FixOrder) (execType : ExecType) (execId : String)
    (last : Option (ℚ × ℚ)) : Option ExecReport :=
  order.db.row.map fun row =>
    { clOrdId := order.clOrdId, orderId := row.orderId, execId, execType
      ordStatus := ordStatus row.status, symbol := order.symbol, side := row.side
      orderQty := row.originalQty, cumQty := row.cumQty, leavesQty := row.leavesQty
      avgPx := row.avgPx.getD 0, lastQty := last.map (·.1), lastPx := last.map (·.2)
      text := none }

/-- The report one stored order event makes. Quantities are the order's as they
    stand now; the type and the status are the event's. -/
def reportForEvent (order : FixOrder) (globalPosition : Nat) (event : OrderDomainEvent) :
    Option ClientReport :=
  let eventType := event.eventType.asStr
  if eventType = "cancel_rejected" then
    order.db.row.map fun _ =>
      .cancelReject order.clOrdId order.clOrdId
        ((reasonOf event.payload).getD "cancel rejected by the broker")
  else
    match execFor eventType with
    | none => none
    | some (execType, status) =>
      let last := if execType = .trade then fillOf event.payload else none
      (statusReport order execType (toString globalPosition) last).map fun report =>
        .exec { report with ordStatus := status, text := reasonOf event.payload }

structure NewOrder where
  clOrdId : String
  symbol : String
  exDestination : String
  side : OrderSide
  qty : ℚ
  ordType : OmsOrders.OrderType
  price : Option ℚ
  tif : TimeInForce
  deriving DecidableEq, Repr

def rejected (request : NewOrder) (execId text : String) : ClientReport :=
  .exec
    { clOrdId := request.clOrdId, orderId := "NONE", execId, execType := .rejected
      ordStatus := .rejected, symbol := request.symbol, side := request.side
      orderQty := request.qty, cumQty := 0, leavesQty := 0, avgPx := 0
      lastQty := none, lastPx := none, text := some text }

theorem queued_iff_reported (eventType : String) :
    eventType ∈ queuedTypes ↔ isReported eventType = true := by
  constructor
  · intro queued
    simp only [queuedTypes, List.mem_cons, List.not_mem_nil, or_false] at queued
    rcases queued with rfl | rfl | rfl | rfl | rfl | rfl | rfl <;> decide
  · intro reported
    simp only [isReported, Bool.or_eq_true, beq_iff_eq] at reported
    rcases reported with rfl | told
    · decide
    · unfold execFor at told
      split at told
      case h_7 => cases told
      all_goals decide

theorem queued_makes_report {order : FixOrder} {row : OrderRow} (stored : order.db.row = some row)
    (globalPosition : Nat) {event : OrderDomainEvent}
    (queued : event.eventType.asStr ∈ queuedTypes) :
    ∃ report, reportForEvent order globalPosition event = some report := by
  have reported := (queued_iff_reported _).mp queued
  simp only [isReported, Bool.or_eq_true, beq_iff_eq, Option.isSome_iff_exists] at reported
  by_cases told : event.eventType.asStr = "cancel_rejected"
  · simp [reportForEvent, told, stored]
  · obtain ⟨⟨execType, status⟩, found⟩ := reported.resolve_left told
    simp [reportForEvent, told, found, statusReport, stored]

end OmsReports
