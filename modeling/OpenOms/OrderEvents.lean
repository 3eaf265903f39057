import OpenOms.Domain.EventJson
import OpenOms.OrderWrites
import OpenOms.Systems.Rebuild

/-!
The log as rows with JSON in them: what a write binds, what the page of an order's
events makes of them and what the rebuild reads. `stamp` writes a time as its text and
`show_` a number.
-/
namespace OmsOrderEvents
open OmsOrders OmsPositions OmsOrderStore OmsOrderEntry OmsPositionWriters OmsRebuild Json

structure NewOrderEvent where
  eventId : String
  eventType : String
  actor : String
  payload : Value
  correlationId : Option String
  causationId : Option String
  schemaVersion : Int

structure StoredEvent extends NewOrderEvent where
  globalPosition : Nat
  orderId : String
  version : Nat
  createdAt : Nat

structure OrderEventView where
  version : Nat
  eventId : String
  eventType : String
  actor : String
  occurredAt : Nat
  recordedAt : Nat
  statusAfter : Option String
  correlationId : Option String
  causationId : Option String
  schemaVersion : Int
  summary : String
  payload : Value

variable (stamp : Codec Nat) (show_ : ℚ → String)

def domainEventToNewEvent (event : OrderDomainEvent) : NewOrderEvent where
  eventId := event.eventId
  eventType := event.eventType.asStr
  actor := event.actor
  payload := (OmsEventJson.event stamp).write event
  correlationId := none
  causationId := none
  schemaVersion := 0

def withReason (verb : String) : Option String → String
  | some reason => s!"{verb}: {reason}"
  | none => verb

def optionalPrice : Option ℚ → String
  | some px => show_ px
  | none => "none"

def summarize (event : OrderDomainEvent) : String :=
  match event.payload with
  | .orderSubmitted _ _ _ instrumentId side orderType timeInForce limitPrice quantity =>
    let type := OmsEventJson.orderTypeStr orderType
    let price := match limitPrice with
      | some px => s!"{type} {show_ px}"
      | none => type
    let tif := OmsEventJson.timeInForceStr timeInForce
    s!"submitted {side.asStr} {show_ quantity} {instrumentId} {price} ({tif})"
  | .orderRejected reason => s!"rejected: {reason}"
  | .orderRouted venue externalOrderId => s!"routed to {venue} as {externalOrderId}"
  | .orderAmended previousLimitPrice newLimitPrice previousQuantity newQuantity =>
    let quantity := if previousQuantity ≠ newQuantity then
      [s!"quantity {show_ previousQuantity} → {show_ newQuantity}"] else []
    let limit := if previousLimitPrice ≠ newLimitPrice then
      [s!"limit {optionalPrice show_ previousLimitPrice} → {optionalPrice show_ newLimitPrice}"]
      else []
    match quantity ++ limit with
    | [] => "amended (no change)"
    | changes => "amended " ++ ", ".intercalate changes
  | .orderCanceled reason => withReason "canceled" reason
  | .cancelRejected reason => s!"cancel rejected: {reason}"
  | .orderExpired reason => withReason "expired" reason
  | .orderSuspended reason resumeToStatus =>
    withReason "suspended" reason ++ s!" (resumes to {resumeToStatus.asStr})"
  | .orderReleased resumedToStatus => s!"released to {resumedToStatus.asStr}"
  | .orderPartiallyFilled fill =>
    s!"partially filled {show_ fill.fillQty} @ {show_ fill.fillPrice} on {fill.venue} " ++
      s!"({show_ fill.cumQty} cumulative, {show_ fill.leavesQty} working, avg {show_ fill.avgPx})"
  | .orderFilled fill =>
    s!"filled {show_ fill.fillQty} @ {show_ fill.fillPrice} on {fill.venue} " ++
      s!"({show_ fill.cumQty} cumulative, avg {show_ fill.avgPx})"

def view (r : StoredEvent) : OrderEventView :=
  let event := (OmsEventJson.event stamp).read r.payload
  { version := r.version
    eventId := r.eventId
    eventType := r.eventType
    actor := r.actor
    occurredAt := (event.map OrderDomainEvent.timestamp).getD r.createdAt
    recordedAt := r.createdAt
    statusAfter := event.map fun e => e.statusAfter.asStr
    correlationId := r.correlationId
    causationId := r.causationId
    schemaVersion := r.schemaVersion
    summary := match event with
      | some e => summarize show_ e
      | none => s!"{r.eventType} (payload not readable at schema version {r.schemaVersion})"
    payload := match event with
      | some _ => (((members r.payload).bind (·.lookup "payload")).getD .null)
      | none => r.payload }

def loadStream (table : List StoredEvent) (orderId : String) : List StoredEvent :=
  (table.filter (·.orderId = orderId)).mergeSort fun a b => a.version ≤ b.version

def loadTimeline (table : List StoredEvent) (orderId : String) : List OrderEventView :=
  (loadStream table orderId).map (view stamp show_)

/-- An unknown order is told apart from one without events. -/
def getOrderEventsAdmin (table : List StoredEvent) (orderId : String) (row : Option OrderRow) :
    Except ApiError (List OrderEventView) :=
  if row.isSome then .ok (loadTimeline stamp show_ table orderId)
  else .error ⟨404, "order not found"⟩

structure StoredJoin where
  row : StoredEvent
  portfolioId : String
  instrumentId : String
  side : String

def StoredJoin.key (r : StoredJoin) : PositionKey := ⟨r.portfolioId, r.instrumentId⟩

def isFillText (eventType : String) : Bool :=
  eventType ∈ ["order_partially_filled", "order_filled"]

def selectStored (log : List StoredJoin) : List StoredJoin :=
  (log.filter fun r => isFillText r.row.eventType).mergeSort
    fun a b => a.row.globalPosition ≤ b.row.globalPosition

def replayStored (acc : Positions) (r : StoredJoin) : Positions :=
  match (OmsEventJson.event stamp).read r.row.payload with
  | none => acc
  | some event =>
    match event.payload with
    | .orderPartiallyFilled fill | .orderFilled fill =>
      let side : OrderSide := if r.side = "buy" then .buy else .sell
      let entry := (acc r.key).getD .flat
      Function.update acc r.key (some (entry.applyFill side fill.fillQty fill.fillPrice))
    | _ => acc

def rebuildStored (rows : List StoredJoin) : Positions :=
  rows.foldl (replayStored stamp) noPositions

end OmsOrderEvents
