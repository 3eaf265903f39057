import OpenOms.Domain.Orders
import OpenOms.Library.Json

/-!
The events as the log stores them. `stamp` writes a time as its text.
-/
namespace OmsEventJson
open OmsOrders Json

def orderTypeStr : OmsOrders.OrderType → String
  | .market => "market"
  | .limit => "limit"

def timeInForceStr : TimeInForce → String
  | .day => "day"
  | .gtc => "gtc"
  | .ioc => "ioc"
  | .fok => "fok"

def side : Codec OrderSide :=
  .named [.buy, .sell] OrderSide.asStr (by intro a; cases a <;> decide) (by decide)

def orderType : Codec OmsOrders.OrderType :=
  .named [.market, .limit] orderTypeStr (by intro a; cases a <;> decide) (by decide)

def timeInForce : Codec TimeInForce :=
  .named [.day, .gtc, .ioc, .fok] timeInForceStr (by intro a; cases a <;> decide) (by decide)

def status : Codec OrderStatus :=
  .named [.submitted, .routed, .partiallyFilled, .filled, .rejected, .canceled, .expired, .suspended]
    OrderStatus.asStr (by intro a; cases a <;> decide) (by decide)

def eventType : Codec OrderEventType :=
  .named [.orderSubmitted, .orderRejected, .orderRouted, .orderAmended, .orderCanceled,
      .cancelRejected, .orderPartiallyFilled, .orderFilled, .orderExpired, .orderSuspended,
      .orderReleased]
    OrderEventType.asStr (by intro a; cases a <;> decide) (by decide)

def reasonOption : Fields (Option String) := .optional "reason" .text fun _ => nofun

def price (name : String) : Fields (Option ℚ) := .optional name .number fun _ => nofun

def fill : Fields FillPayload :=
  .via
    (.and (.one "execution_id" .text) <|
      .and (.one "fill_qty" .number) <|
      .and (.one "fill_price" .number) <|
      .and (.one "cum_qty" .number) <|
      .and (.one "leaves_qty" .number) <|
      .and (.one "avg_px" .number) <|
      .one "venue" .text)
    (fun p => (p.executionId, p.fillQty, p.fillPrice, p.cumQty, p.leavesQty, p.avgPx, p.venue))
    (fun (executionId, fillQty, fillPrice, cumQty, leavesQty, avgPx, venue) =>
      ⟨executionId, fillQty, fillPrice, cumQty, leavesQty, avgPx, venue⟩)
    fun _ => rfl

def submitted : Variant OrderEventPayload where
  tag := "order_submitted"
  fields :=
    .and (.one "client_order_id" .text) <|
      .and (.one "portfolio_id" .text) <|
      .and (.one "account_id" .text) <|
      .and (.one "instrument_id" .text) <|
      .and (.one "side" side) <|
      .and (.one "order_type" orderType) <|
      .and (.one "time_in_force" timeInForce) <|
      .and (price "limit_price") <|
      .one "quantity" .number
  make := fun (clientOrderId, portfolioId, accountId, instrumentId, side, orderType, timeInForce,
      limitPrice, quantity) =>
    .orderSubmitted clientOrderId portfolioId accountId instrumentId side orderType timeInForce
      limitPrice quantity

def rejected : Variant OrderEventPayload :=
  ⟨"order_rejected", .one "reason" .text, .orderRejected⟩

def routed : Variant OrderEventPayload where
  tag := "order_routed"
  fields := .and (.one "venue" .text) (.one "external_order_id" .text)
  make := fun (venue, externalOrderId) => .orderRouted venue externalOrderId

def amended : Variant OrderEventPayload where
  tag := "order_amended"
  fields :=
    .and (price "previous_limit_price") <|
      .and (price "new_limit_price") <|
      .and (.one "previous_quantity" .number) <|
      .one "new_quantity" .number
  make := fun (previousLimitPrice, newLimitPrice, previousQuantity, newQuantity) =>
    .orderAmended previousLimitPrice newLimitPrice previousQuantity newQuantity

def canceled : Variant OrderEventPayload := ⟨"order_canceled", reasonOption, .orderCanceled⟩

def cancelRejected : Variant OrderEventPayload :=
  ⟨"cancel_rejected", .one "reason" .text, .cancelRejected⟩

def partiallyFilled : Variant OrderEventPayload :=
  ⟨"order_partially_filled", fill, .orderPartiallyFilled⟩

def filled : Variant OrderEventPayload := ⟨"order_filled", fill, .orderFilled⟩

def expired : Variant OrderEventPayload := ⟨"order_expired", reasonOption, .orderExpired⟩

def suspended : Variant OrderEventPayload where
  tag := "order_suspended"
  fields := .and reasonOption (.one "resume_to_status" status)
  make := fun (reason, resumeToStatus) => .orderSuspended reason resumeToStatus

def released : Variant OrderEventPayload :=
  ⟨"order_released", .one "resumed_to_status" status, .orderReleased⟩

def split : OrderEventPayload → Σ v : Variant OrderEventPayload, v.Args
  | .orderSubmitted clientOrderId portfolioId accountId instrumentId side orderType timeInForce
      limitPrice quantity =>
    ⟨submitted, clientOrderId, portfolioId, accountId, instrumentId, side, orderType, timeInForce,
      limitPrice, quantity⟩
  | .orderRejected reason => ⟨rejected, reason⟩
  | .orderRouted venue externalOrderId => ⟨routed, venue, externalOrderId⟩
  | .orderAmended previousLimitPrice newLimitPrice previousQuantity newQuantity =>
    ⟨amended, previousLimitPrice, newLimitPrice, previousQuantity, newQuantity⟩
  | .orderCanceled reason => ⟨canceled, reason⟩
  | .cancelRejected reason => ⟨cancelRejected, reason⟩
  | .orderPartiallyFilled p => ⟨partiallyFilled, p⟩
  | .orderFilled p => ⟨filled, p⟩
  | .orderExpired reason => ⟨expired, reason⟩
  | .orderSuspended reason resumeToStatus => ⟨suspended, reason, resumeToStatus⟩
  | .orderReleased resumedToStatus => ⟨released, resumedToStatus⟩

/-- Internally tagged: the tag stands among the case's own members. -/
def payload : Tagged OrderEventPayload where
  key := "event_type"
  variants := [submitted, rejected, routed, amended, canceled, cancelRejected, partiallyFilled,
    filled, expired, suspended, released]
  split := split
  among p := by cases p <;> simp [split]
  whole p := by cases p <;> rfl
  tags := by decide
  nodup := by
    simp only [List.forall_mem_cons]
    decide

def event (stamp : Codec Nat) : Codec OrderDomainEvent :=
  .object
    (.via
      (.and (.one "event_id" .text) <|
        .and (.one "event_type" eventType) <|
        .and (.one "order_id" .text) <|
        .and (.one "timestamp" stamp) <|
        .and (.one "actor" .text) <|
        .and (.one "payload" (.tagged payload)) <|
        .and (.one "version" .count) <|
        .one "status_after" status)
      (fun e => (e.eventId, e.eventType, e.orderId, e.timestamp, e.actor, e.payload, e.version,
        e.statusAfter))
      (fun (eventId, eventType, orderId, timestamp, actor, payload, version, statusAfter) =>
        ⟨eventId, eventType, orderId, timestamp, actor, payload, version, statusAfter⟩)
      fun _ => rfl)
    (by
      show ["event_id", "event_type", "order_id", "timestamp", "actor", "payload", "version",
        "status_after"].Nodup
      decide)

end OmsEventJson
