import Mathlib.Data.Rat.Defs

/-!
The order's data: its state, the commands offered to it, the events they yield
and the rejections. Quantities and prices are exact rationals, so the `f64`
finiteness checks of the source always pass. Identifiers and timestamps are
opaque: nothing below compares them except for equality.
-/
namespace OmsOrders

inductive OrderSide where
  | buy
  | sell
  deriving DecidableEq, Repr

def OrderSide.asStr : OrderSide → String
  | .buy => "buy"
  | .sell => "sell"

def OrderSide.signed (side : OrderSide) (qty : ℚ) : ℚ :=
  match side with
  | .buy => qty
  | .sell => -qty

inductive OrderType where
  | market
  | limit
  deriving DecidableEq, Repr

inductive TimeInForce where
  | day
  | gtc
  | ioc
  | fok
  deriving DecidableEq, Repr

inductive OrderStatus where
  | submitted
  | routed
  | partiallyFilled
  | filled
  | rejected
  | canceled
  | expired
  | suspended
  deriving DecidableEq, Repr

def OrderStatus.asStr : OrderStatus → String
  | .submitted => "submitted"
  | .routed => "routed"
  | .partiallyFilled => "partially_filled"
  | .filled => "filled"
  | .rejected => "rejected"
  | .canceled => "canceled"
  | .expired => "expired"
  | .suspended => "suspended"

def OrderStatus.debugStr : OrderStatus → String
  | .submitted => "Submitted"
  | .routed => "Routed"
  | .partiallyFilled => "PartiallyFilled"
  | .filled => "Filled"
  | .rejected => "Rejected"
  | .canceled => "Canceled"
  | .expired => "Expired"
  | .suspended => "Suspended"

def OrderStatus.isTerminal : OrderStatus → Bool
  | .filled | .rejected | .canceled | .expired => true
  | _ => false

structure OrderAggregateState where
  orderId : String
  clientOrderId : String
  portfolioId : String
  accountId : String
  instrumentId : String
  side : OrderSide
  orderType : OrderType
  timeInForce : TimeInForce
  limitPrice : Option ℚ
  originalQty : ℚ
  leavesQty : ℚ
  cumQty : ℚ
  avgPx : Option ℚ
  status : OrderStatus
  resumeToStatus : Option OrderStatus
  version : Nat
  deriving DecidableEq, Repr

structure SubmitOrder where
  orderId : String
  clientOrderId : String
  portfolioId : String
  accountId : String
  instrumentId : String
  side : OrderSide
  orderType : OrderType
  timeInForce : TimeInForce
  limitPrice : Option ℚ
  quantity : ℚ
  deriving DecidableEq, Repr

inductive ExecutionReport where
  | fill (executionId : String) (fillQty fillPrice : ℚ) (venue : String)
  | reject (reason : String) (venue : Option String)
  | canceled (reason : Option String) (venue : Option String)
  deriving DecidableEq, Repr

inductive OrderCommand where
  | submitOrder (cmd : SubmitOrder)
  | routeOrder (orderId venue externalOrderId : String)
  | replaceOrder (orderId : String) (newLimitPrice newQuantity : Option ℚ)
  | cancelOrder (orderId : String) (reason : Option String)
  | suspendOrder (orderId : String) (reason : Option String)
  | releaseOrder (orderId : String)
  | receiveExecutionReport (orderId : String) (report : ExecutionReport)
  | expireOrder (orderId : String) (reason : Option String)
  deriving DecidableEq, Repr

inductive OrderEventType where
  | orderSubmitted
  | orderRejected
  | orderRouted
  | orderAmended
  | orderCanceled
  | cancelRejected
  | orderPartiallyFilled
  | orderFilled
  | orderExpired
  | orderSuspended
  | orderReleased
  deriving DecidableEq, Repr

def OrderEventType.asStr : OrderEventType → String
  | .orderSubmitted => "order_submitted"
  | .orderRejected => "order_rejected"
  | .orderRouted => "order_routed"
  | .orderAmended => "order_amended"
  | .orderCanceled => "order_canceled"
  | .cancelRejected => "cancel_rejected"
  | .orderPartiallyFilled => "order_partially_filled"
  | .orderFilled => "order_filled"
  | .orderExpired => "order_expired"
  | .orderSuspended => "order_suspended"
  | .orderReleased => "order_released"

structure FillPayload where
  executionId : String
  fillQty : ℚ
  fillPrice : ℚ
  cumQty : ℚ
  leavesQty : ℚ
  avgPx : ℚ
  venue : String
  deriving DecidableEq, Repr

inductive OrderEventPayload where
  | orderSubmitted (clientOrderId portfolioId accountId instrumentId : String)
      (side : OrderSide) (orderType : OrderType) (timeInForce : TimeInForce)
      (limitPrice : Option ℚ) (quantity : ℚ)
  | orderRejected (reason : String)
  | orderRouted (venue externalOrderId : String)
  | orderAmended (previousLimitPrice newLimitPrice : Option ℚ)
      (previousQuantity newQuantity : ℚ)
  | orderCanceled (reason : Option String)
  | cancelRejected (reason : String)
  | orderPartiallyFilled (fill : FillPayload)
  | orderFilled (fill : FillPayload)
  | orderExpired (reason : Option String)
  | orderSuspended (reason : Option String) (resumeToStatus : OrderStatus)
  | orderReleased (resumedToStatus : OrderStatus)
  deriving DecidableEq, Repr

structure OrderDomainEvent where
  eventId : String
  eventType : OrderEventType
  orderId : String
  timestamp : Nat
  actor : String
  payload : OrderEventPayload
  version : Nat
  statusAfter : OrderStatus
  deriving DecidableEq, Repr

inductive RejectionCode where
  | orderAlreadyExists
  | orderNotFound
  | invalidStateTransition
  | invalidQuantity
  | invalidPrice
  | commandNotAllowed
  | invalidExecutionReport
  deriving DecidableEq, Repr

structure CommandRejection where
  code : RejectionCode
  message : String
  deriving DecidableEq, Repr

structure Execution where
  executionId : String
  qty : ℚ
  price : ℚ
  deriving DecidableEq, Repr

def OrderEventPayload.execution : OrderEventPayload → Option Execution
  | .orderPartiallyFilled fill | .orderFilled fill =>
    some ⟨fill.executionId, fill.fillQty, fill.fillPrice⟩
  | _ => none

def OrderEventPayload.routedId : OrderEventPayload → Option String
  | .orderRouted _ externalOrderId => some externalOrderId
  | _ => none

def OrderEventPayload.isCanceled : OrderEventPayload → Bool
  | .orderCanceled _ => true
  | _ => false

def OrderCommand.execution : OrderCommand → Option Execution
  | .receiveExecutionReport _ (.fill executionId qty price _) => some ⟨executionId, qty, price⟩
  | _ => none

def OrderCommand.routedId : OrderCommand → Option String
  | .routeOrder _ _ externalOrderId => some externalOrderId
  | _ => none

end OmsOrders
