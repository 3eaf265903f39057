import OpenOms.Domain.Aggregate
import OpenOms.Library.Runs
import Mathlib.Tactic.FieldSimp

/-!
The course of one order: any commands offered to it one after another from the
empty aggregate, each decided on the state before it and folded in if accepted.
-/
namespace OmsCourse
open OmsOrders OmsLifecycle OmsAggregate Runs

structure Course where
  aggregate : OrderAggregate
  events : List OrderDomainEvent
  deriving DecidableEq, Repr

def Course.start : Course := ⟨.empty, []⟩

structure Offer where
  command : OrderCommand
  metadata : EventMetadata
  deriving DecidableEq, Repr

/-- A refused command emits no events and leaves the order as it is. -/
def step (c : Course) (offer : Offer) : Option Course :=
  match c.aggregate.decide offer.command offer.metadata with
  | .error _ => some c
  | .ok events =>
    match c.aggregate.applyAll events with
    | .error _ => some c
    | .ok next => some ⟨next, c.events ++ events⟩

def notional (events : List OrderDomainEvent) : ℚ :=
  ((events.filterMap (·.payload.execution)).map fun fill => fill.qty * fill.price).sum

def payloadType : OrderEventPayload → OrderEventType
  | .orderSubmitted .. => .orderSubmitted
  | .orderRejected _ => .orderRejected
  | .orderRouted .. => .orderRouted
  | .orderAmended .. => .orderAmended
  | .orderCanceled _ => .orderCanceled
  | .cancelRejected _ => .cancelRejected
  | .orderPartiallyFilled _ => .orderPartiallyFilled
  | .orderFilled _ => .orderFilled
  | .orderExpired _ => .orderExpired
  | .orderSuspended .. => .orderSuspended
  | .orderReleased _ => .orderReleased

def answers : CommandKind → List OrderEventType
  | .submitOrder => [.orderSubmitted]
  | .routeOrder => [.orderRouted]
  | .replaceOrder => [.orderAmended]
  | .cancelOrder => [.orderCanceled]
  | .suspendOrder => [.orderSuspended]
  | .releaseOrder => [.orderReleased]
  | .receiveExecutionReport =>
    [.orderRejected, .orderCanceled, .orderPartiallyFilled, .orderFilled]
  | .expireOrder => [.orderExpired]

theorem report_typed {s : OrderAggregateState} {orderId : String} {report : ExecutionReport}
    {metadata : EventMetadata} {events : List OrderDomainEvent}
    (decided : decideReport s orderId report metadata = .ok events) :
    ∀ event ∈ events, event.eventType ∈ answers .receiveExecutionReport ∧
      payloadType event.payload = event.eventType := by
  cases report with
  | reject reason venue =>
    cases decided
    simp [newEvent, answers, payloadType]
  | canceled reason venue =>
    cases decided
    simp [newEvent, answers, payloadType]
  | fill executionId qty price venue =>
    simp only [decideReport] at decided
    split at decided
    · cases decided
    · split at decided
      · cases decided
      · split at decided
        · cases decided
        · split at decided <;> cases decided <;> simp [newEvent, answers, payloadType]

theorem decided_typed {c : OrderAggregate} {command : OrderCommand} {metadata : EventMetadata}
    {events : List OrderDomainEvent} (decided : c.decide command metadata = .ok events) :
    ∀ event ∈ events, event.eventType ∈ answers (kind command) ∧
      payloadType event.payload = event.eventType := by
  simp only [OrderAggregate.decide, bind, Except.bind] at decided
  split at decided
  · cases decided
  cases command with
  | replaceOrder orderId newLimitPrice newQuantity =>
    simp only at decided
    split at decided
    · cases decided
    · split at decided
      · cases decided
      · split at decided
        · cases decided
        · cases decided
          simp [newEvent, kind, answers, payloadType]
  | releaseOrder orderId =>
    simp only at decided
    split at decided
    · cases decided
    · split at decided
      · cases decided
      · cases decided
        simp [newEvent, kind, answers, payloadType]
  | receiveExecutionReport orderId report =>
    simp only at decided
    split at decided
    · cases decided
    · exact report_typed decided
  | _ =>
    simp only at decided
    split at decided
    · cases decided
    · cases decided
      simp [newEvent, kind, answers, payloadType]

theorem empty_decided {command : OrderCommand} {metadata : EventMetadata}
    {events : List OrderDomainEvent}
    (decided : OrderAggregate.empty.decide command metadata = .ok events) :
    ∃ cmd, command = .submitOrder cmd ∧
      validateSubmit cmd.quantity cmd.orderType cmd.limitPrice = .ok () := by
  simp only [OrderAggregate.decide, OrderAggregate.empty, Option.map_none, bind,
    Except.bind] at decided
  cases command with
  | submitOrder cmd =>
    refine ⟨cmd, rfl, ?_⟩
    simp only [ensureCommandAllowed, kind, if_true] at decided
    split at decided
    · cases decided
    · assumption
  | _ => simp [ensureCommandAllowed, kind] at decided

theorem step_cases {c next : Course} {offer : Offer} (taken : step c offer = some next) :
    next = c ∨
    (∃ cmd event, c.aggregate = .empty ∧ offer.command = .submitOrder cmd ∧
      validateSubmit cmd.quantity cmd.orderType cmd.limitPrice = .ok () ∧
      event.payload.execution = none ∧
      next = ⟨.fromState (submitState cmd), c.events ++ [event]⟩ ∧
      (OrderAggregate.empty.apply event = .ok (.fromState (submitState cmd)))) ∨
    (∃ s event, c.aggregate = .fromState s ∧ Accepts s offer.command ∧
      c.aggregate.decide offer.command offer.metadata = .ok [event] ∧
      Yields s offer.command event ∧
      next = ⟨.fromState (after s offer.command), c.events ++ [event]⟩) := by
  obtain ⟨⟨state⟩, past⟩ := c
  simp only [step] at taken
  split at taken
  · cases taken
    exact .inl rfl
  · rename_i events decided
    cases state with
    | none =>
      obtain ⟨cmd, same, valid⟩ := empty_decided decided
      rw [same] at decided
      obtain ⟨_, event, single, _, noFill, _, applies⟩ := submit_decided decided
      subst single
      rw [OrderAggregate.applyAll, applies] at taken
      simp only [bind, Except.bind, OrderAggregate.applyAll] at taken
      cases taken
      exact .inr (.inl ⟨cmd, event, rfl, same, valid, noFill, rfl, applies _⟩)
    | some s =>
      obtain ⟨event, single, yields⟩ := decided_yields decided
      subst single
      have applies := yields.applies
      simp only [OrderAggregate.fromState] at applies
      rw [OrderAggregate.applyAll, applies] at taken
      simp only [bind, Except.bind, OrderAggregate.applyAll] at taken
      cases taken
      exact .inr (.inr ⟨s, event, rfl, decided_accepts decided, decided, yields, rfl⟩)

theorem step_accepted {c : Course} {offer : Offer} {s : OrderAggregateState}
    (running : c.aggregate = .fromState s) (accepts : Accepts s offer.command) :
    ∃ event, step c offer = some ⟨.fromState (after s offer.command), c.events ++ [event]⟩ := by
  obtain ⟨event, decided, yields⟩ := decide_accepts accepts offer.metadata
  refine ⟨event, ?_⟩
  simp only [step, running, decided, OrderAggregate.applyAll, yields.applies, bind, Except.bind]

theorem notional_append (early : List OrderDomainEvent) (event : OrderDomainEvent) :
    notional (early ++ [event]) =
      notional early + (event.payload.execution.map fun fill => fill.qty * fill.price).getD 0 := by
  cases fill : event.payload.execution <;> simp [notional, List.filterMap_append, fill]

end OmsCourse
