import OpenOms.Domain.Orders

/-!
What a connector tells the engine about one order: plain data, and the errors a
broker adapter answers with.
-/
namespace OmsGateway

inductive ExecSource where
  | session
  | snapshot
  deriving DecidableEq, Repr

/-- How the broker says a no-longer-open order finished. -/
inductive BrokerOrderOutcome where
  | filled
  | canceled
  | rejected
  | working
  deriving DecidableEq, Repr

structure BrokerOrderState where
  outcome : BrokerOrderOutcome
  executedQty : ℚ
  avgPx : ℚ
  deriving DecidableEq, Repr

inductive ExecKind where
  | fill (executionId : String) (qty price : ℚ)
  | cumulative (cumQty avgPx : ℚ)
  | terminal (state : BrokerOrderState)
  | canceled (reason : Option String)
  | rejected (reason : String)
  | ack (venueOrderId : String)
  deriving DecidableEq, Repr

structure ExecEvent where
  orderId : String
  venue : String
  actor : String
  source : ExecSource
  kind : ExecKind
  deriving DecidableEq, Repr

inductive VenueReport where
  | fill (executionId : String) (fillQty fillPrice : ℚ) (venue : String)
  | reject (reason : String) (venue : Option String)
  | canceled (reason : Option String) (venue : Option String)
  deriving DecidableEq, Repr

def ExecEvent.fromReport (orderId venue actor : String) (report : VenueReport) : ExecEvent :=
  let kind : ExecKind :=
    match report with
    | .fill executionId fillQty fillPrice _ => .fill executionId fillQty fillPrice
    | .canceled reason _ => .canceled reason
    | .reject reason _ => .rejected reason
  { orderId, venue, actor, source := .session, kind }

structure BrokerOpenOrder where
  clientOrderId : String
  venueOrderId : String
  symbol : String
  executedQty : ℚ
  deriving DecidableEq, Repr

inductive BrokerError where
  | network (message : String)
  | brokerRejected (reason : String)
  | notConfigured (message : String)
  | noSuchOrder (id : String)
  deriving DecidableEq, Repr

end OmsGateway
