import OpenOms.Domain.Lifecycle
import Mathlib.Algebra.Order.Field.Rat
import Mathlib.Tactic.Linarith

/-!
The order aggregate: `decide` turns a command into events or refuses it, `apply`
folds an event into the state. `after` states, command by command, what an
accepted command leaves; every later module reasons from `after` and `Accepts`
and never unfolds `decide` or `apply` again.
-/
namespace OmsAggregate
open OmsOrders OmsLifecycle

structure EventMetadata where
  eventId : String
  timestamp : Nat
  actor : String
  deriving DecidableEq, Repr

structure OrderAggregate where
  state : Option OrderAggregateState
  deriving DecidableEq, Repr

def OrderAggregate.empty : OrderAggregate := ⟨none⟩

def OrderAggregate.fromState (state : OrderAggregateState) : OrderAggregate := ⟨some state⟩

def newEvent (metadata : EventMetadata) (eventType : OrderEventType) (orderId : String)
    (payload : OrderEventPayload) (version : Nat) (statusAfter : OrderStatus) :
    OrderDomainEvent :=
  { eventId := metadata.eventId, eventType, orderId, timestamp := metadata.timestamp
    actor := metadata.actor, payload, version, statusAfter }

def decideReport (state : OrderAggregateState) (orderId : String) (report : ExecutionReport)
    (metadata : EventMetadata) : Except CommandRejection (List OrderDomainEvent) :=
  match report with
  | .reject reason _ =>
    .ok [newEvent metadata .orderRejected orderId (.orderRejected reason)
      (state.version + 1) .rejected]
  | .canceled reason _ =>
    .ok [newEvent metadata .orderCanceled orderId (.orderCanceled reason)
      (state.version + 1) .canceled]
  | .fill executionId fillQty fillPrice venue =>
    if fillQty ≤ 0 then
      .error ⟨.invalidExecutionReport, "fill quantity must be greater than zero"⟩
    else if fillPrice ≤ 0 then
      .error ⟨.invalidExecutionReport, "fill price must be greater than zero"⟩
    else
      let nextCum := state.cumQty + fillQty
      if nextCum > state.originalQty then
        .error ⟨.invalidExecutionReport, "fill quantity exceeds remaining quantity"⟩
      else
        let nextLeaves := state.originalQty - nextCum
        let prevNotional := state.cumQty * state.avgPx.getD 0
        let nextAvg := (prevNotional + fillQty * fillPrice) / nextCum
        if nextLeaves > 0 then
          .ok [newEvent metadata .orderPartiallyFilled orderId
            (.orderPartiallyFilled
              ⟨executionId, fillQty, fillPrice, nextCum, nextLeaves, nextAvg, venue⟩)
            (state.version + 1) .partiallyFilled]
        else
          .ok [newEvent metadata .orderFilled orderId
            (.orderFilled ⟨executionId, fillQty, fillPrice, nextCum, 0, nextAvg, venue⟩)
            (state.version + 1) .filled]

def OrderAggregate.decide (self : OrderAggregate) (command : OrderCommand)
    (metadata : EventMetadata) : Except CommandRejection (List OrderDomainEvent) := do
  ensureCommandAllowed (self.state.map (·.status)) (kind command)
  match command with
  | .submitOrder cmd =>
    validateSubmit cmd.quantity cmd.orderType cmd.limitPrice
    .ok [newEvent metadata .orderSubmitted cmd.orderId
      (.orderSubmitted cmd.clientOrderId cmd.portfolioId cmd.accountId cmd.instrumentId cmd.side
        cmd.orderType cmd.timeInForce cmd.limitPrice cmd.quantity) 1 .submitted]
  | .routeOrder orderId venue externalOrderId =>
    let state ← requireExistingOrder self.state
    .ok [newEvent metadata .orderRouted orderId (.orderRouted venue externalOrderId)
      (state.version + 1) .routed]
  | .replaceOrder orderId newLimitPrice newQuantity =>
    let state ← requireExistingOrder self.state
    let newQty := newQuantity.getD state.originalQty
    if newQty ≤ 0 ∨ newQty < state.cumQty then
      .error ⟨.invalidQuantity,
        "new quantity must be positive and cannot be less than cumulative fill"⟩
    else if newLimitPrice.any (fun px => px ≤ 0) then
      .error ⟨.invalidPrice, "new limit price must be positive"⟩
    else
      .ok [newEvent metadata .orderAmended orderId
        (.orderAmended state.limitPrice (newLimitPrice.or state.limitPrice) state.originalQty
          newQty) (state.version + 1) state.status]
  | .cancelOrder orderId reason =>
    let state ← requireExistingOrder self.state
    .ok [newEvent metadata .orderCanceled orderId (.orderCanceled reason)
      (state.version + 1) .canceled]
  | .suspendOrder orderId reason =>
    let state ← requireExistingOrder self.state
    .ok [newEvent metadata .orderSuspended orderId (.orderSuspended reason state.status)
      (state.version + 1) .suspended]
  | .releaseOrder orderId =>
    let state ← requireExistingOrder self.state
    match state.resumeToStatus with
    | none => .error ⟨.invalidStateTransition, "release requires stored pre-suspend status"⟩
    | some resumedToStatus =>
      .ok [newEvent metadata .orderReleased orderId (.orderReleased resumedToStatus)
        (state.version + 1) resumedToStatus]
  | .receiveExecutionReport orderId report =>
    let state ← requireExistingOrder self.state
    decideReport state orderId report metadata
  | .expireOrder orderId reason =>
    let state ← requireExistingOrder self.state
    .ok [newEvent metadata .orderExpired orderId (.orderExpired reason)
      (state.version + 1) .expired]

/-- The state an event finds, or the refusal `apply` gives before a submit. -/
def beforeSubmit (state : Option OrderAggregateState) (message : String) :
    Except CommandRejection OrderAggregateState :=
  match state with
  | some s => .ok s
  | none => .error ⟨.orderNotFound, message⟩

def OrderAggregate.apply (self : OrderAggregate) (event : OrderDomainEvent) :
    Except CommandRejection OrderAggregate :=
  match event.payload with
  | .orderSubmitted clientOrderId portfolioId accountId instrumentId side orderType timeInForce
      limitPrice quantity =>
    .ok (.fromState
      { orderId := event.orderId, clientOrderId, portfolioId, accountId, instrumentId, side
        orderType, timeInForce, limitPrice
        originalQty := quantity, leavesQty := quantity, cumQty := 0, avgPx := none
        status := event.statusAfter, resumeToStatus := none, version := event.version })
  | .orderAmended _ newLimitPrice _ newQuantity => do
    let state ← beforeSubmit self.state "cannot amend state before submit"
    .ok (.fromState
      { state with
        limitPrice := newLimitPrice
        originalQty := newQuantity
        leavesQty := newQuantity - state.cumQty
        status := event.statusAfter
        version := event.version })
  | .orderPartiallyFilled fill | .orderFilled fill => do
    let state ← beforeSubmit self.state "cannot fill state before submit"
    .ok (.fromState
      { state with
        cumQty := fill.cumQty
        leavesQty := fill.leavesQty
        avgPx := some fill.avgPx
        status := event.statusAfter
        version := event.version })
  | .orderSuspended _ resumeToStatus => do
    let state ← beforeSubmit self.state "cannot apply lifecycle event before submit"
    .ok (.fromState
      { state with
        status := event.statusAfter
        resumeToStatus := some resumeToStatus
        version := event.version })
  | .orderReleased resumedToStatus => do
    let state ← beforeSubmit self.state "cannot apply lifecycle event before submit"
    .ok (.fromState
      { state with
        status := resumedToStatus
        resumeToStatus := none
        version := event.version })
  | .orderRejected _ | .orderCanceled _ | .orderExpired _ | .orderRouted ..
  | .cancelRejected _ => do
    let state ← beforeSubmit self.state "cannot apply lifecycle event before submit"
    .ok (.fromState
      { state with
        leavesQty := if event.payload.isCanceled then 0 else state.leavesQty
        status := event.statusAfter
        resumeToStatus :=
          if event.statusAfter ≠ .suspended then none else state.resumeToStatus
        version := event.version })

def OrderAggregate.applyAll (self : OrderAggregate) :
    List OrderDomainEvent → Except CommandRejection OrderAggregate
  | [] => .ok self
  | event :: events => do
    let next ← self.apply event
    next.applyAll events

def OrderAggregate.rehydrate (events : List OrderDomainEvent) :
    Except CommandRejection OrderAggregate :=
  OrderAggregate.empty.applyAll events

theorem apply_all_append (events more : List OrderDomainEvent) :
    ∀ self : OrderAggregate, self.applyAll (events ++ more) =
      (self.applyAll events).bind (fun next => next.applyAll more) := by
  induction events with
  | nil => intro self; rfl
  | cons event events ih =>
    intro self
    simp only [List.cons_append, OrderAggregate.applyAll]
    cases self.apply event with
    | error refusal => rfl
    | ok next => exact ih next

theorem rehydrate_snoc {events : List OrderDomainEvent} {event : OrderDomainEvent}
    {self next : OrderAggregate} (past : OrderAggregate.rehydrate events = .ok self)
    (step : self.apply event = .ok next) :
    OrderAggregate.rehydrate (events ++ [event]) = .ok next := by
  unfold OrderAggregate.rehydrate at *
  rw [apply_all_append, past]
  change self.applyAll [event] = _
  rw [OrderAggregate.applyAll, step]
  rfl

def fillState (s : OrderAggregateState) (qty price : ℚ) : OrderAggregateState :=
  { s with
    cumQty := s.cumQty + qty
    leavesQty := s.originalQty - (s.cumQty + qty)
    avgPx := some ((s.cumQty * s.avgPx.getD 0 + qty * price) / (s.cumQty + qty))
    status := if s.originalQty - (s.cumQty + qty) > 0 then .partiallyFilled else .filled
    version := s.version + 1 }

def closeState (s : OrderAggregateState) (status : OrderStatus) : OrderAggregateState :=
  { s with status, resumeToStatus := none, version := s.version + 1 }

def cancelState (s : OrderAggregateState) : OrderAggregateState :=
  { closeState s .canceled with leavesQty := 0 }

def reportState (s : OrderAggregateState) : ExecutionReport → OrderAggregateState
  | .fill _ qty price _ => fillState s qty price
  | .reject .. => closeState s .rejected
  | .canceled .. => cancelState s

/-- The state an accepted command leaves. A submit on an existing order is
    never accepted; its line only makes the function total. -/
def after (s : OrderAggregateState) : OrderCommand → OrderAggregateState
  | .submitOrder _ => s
  | .routeOrder .. => closeState s .routed
  | .replaceOrder _ newLimitPrice newQuantity =>
    { s with
      limitPrice := newLimitPrice.or s.limitPrice
      originalQty := newQuantity.getD s.originalQty
      leavesQty := newQuantity.getD s.originalQty - s.cumQty
      version := s.version + 1 }
  | .cancelOrder .. => cancelState s
  | .suspendOrder .. =>
    { s with status := .suspended, resumeToStatus := some s.status, version := s.version + 1 }
  | .releaseOrder _ =>
    { s with status := s.resumeToStatus.getD s.status, resumeToStatus := none
             version := s.version + 1 }
  | .receiveExecutionReport _ report => reportState s report
  | .expireOrder .. => closeState s .expired

/-- The field checks of a report, beyond the status table. -/
def ReportFits (s : OrderAggregateState) : ExecutionReport → Prop
  | .fill _ qty price _ => 0 < qty ∧ 0 < price ∧ s.cumQty + qty ≤ s.originalQty
  | _ => True

instance (s : OrderAggregateState) (report : ExecutionReport) :
    Decidable (ReportFits s report) := by
  cases report <;> simp only [ReportFits] <;> infer_instance

def Fits (s : OrderAggregateState) : OrderCommand → Prop
  | .replaceOrder _ newLimitPrice newQuantity =>
    0 < newQuantity.getD s.originalQty ∧ s.cumQty ≤ newQuantity.getD s.originalQty ∧
      ∀ px ∈ newLimitPrice, 0 < px
  | .releaseOrder _ => s.resumeToStatus.isSome
  | .receiveExecutionReport _ report => ReportFits s report
  | _ => True

def Accepts (s : OrderAggregateState) (command : OrderCommand) : Prop :=
  kind command ∈ allowedKindsForStatus s.status ∧ Fits s command

/-- What the one event of an accepted command says: the next version, the state
    `after` describes, and the execution or venue id the command carried. -/
structure Yields (s : OrderAggregateState) (command : OrderCommand) (event : OrderDomainEvent) :
    Prop where
  version : event.version = s.version + 1
  applies : (OrderAggregate.fromState s).apply event = .ok (.fromState (after s command))
  execution : event.payload.execution = command.execution
  routedId : event.payload.routedId = command.routedId

theorem report_decided (s : OrderAggregateState) (orderId : String) (report : ExecutionReport)
    (metadata : EventMetadata) (fits : ReportFits s report) :
    ∃ event, decideReport s orderId report metadata = .ok [event] ∧
      Yields s (.receiveExecutionReport orderId report) event := by
  cases report with
  | reject reason venue => exact ⟨_, rfl, rfl, rfl, rfl, rfl⟩
  | canceled reason venue => exact ⟨_, rfl, rfl, rfl, rfl, rfl⟩
  | fill executionId qty price venue =>
    obtain ⟨positive, priced, room⟩ := fits
    simp only [decideReport, not_le.mpr positive, not_le.mpr priced, not_lt.mpr room, gt_iff_lt,
      if_false]
    split
    · rename_i leaves
      refine ⟨_, rfl, rfl, ?_, rfl, rfl⟩
      simp [OrderAggregate.apply, newEvent, beforeSubmit, after, reportState, fillState, leaves,
        OrderAggregate.fromState]
      rfl
    · rename_i done
      refine ⟨_, rfl, rfl, ?_, rfl, rfl⟩
      have none_left : s.originalQty - (s.cumQty + qty) = 0 := by
        linarith
      simp [OrderAggregate.apply, newEvent, beforeSubmit, after, reportState, fillState, none_left,
        OrderAggregate.fromState]
      rfl

theorem report_refused (s : OrderAggregateState) (orderId : String) (report : ExecutionReport)
    (metadata : EventMetadata) (misfit : ¬ ReportFits s report) :
    ∃ rejection, decideReport s orderId report metadata = .error rejection := by
  cases report with
  | reject reason venue => exact absurd trivial misfit
  | canceled reason venue => exact absurd trivial misfit
  | fill executionId qty price venue =>
    simp only [decideReport]
    split
    · exact ⟨_, rfl⟩
    · split
      · exact ⟨_, rfl⟩
      · split
        · exact ⟨_, rfl⟩
        · rename_i positive priced room
          exact absurd ⟨not_le.mp positive, not_le.mp priced, not_lt.mp room⟩ misfit

theorem decide_accepts {s : OrderAggregateState} {command : OrderCommand}
    (accepts : Accepts s command) (metadata : EventMetadata) :
    ∃ event, (OrderAggregate.fromState s).decide command metadata = .ok [event] ∧
      Yields s command event := by
  obtain ⟨listed, fits⟩ := accepts
  have allowed := (allowed_iff_listed s.status (kind command)).mpr listed
  simp only [OrderAggregate.decide, OrderAggregate.fromState, Option.map_some, allowed]
  cases command with
  | submitOrder cmd =>
    cases status : s.status <;> simp [status, kind, allowedKindsForStatus] at listed
  | routeOrder orderId venue externalOrderId => exact ⟨_, rfl, rfl, rfl, rfl, rfl⟩
  | replaceOrder orderId newLimitPrice newQuantity =>
    obtain ⟨positive, covers, priced⟩ := fits
    have quantity_ok : ¬ (newQuantity.getD s.originalQty ≤ 0 ∨
        newQuantity.getD s.originalQty < s.cumQty) := by
      rintro (low | short) <;> linarith
    have price_ok : newLimitPrice.any (fun px => decide (px ≤ 0)) = false := by
      cases newLimitPrice with
      | none => rfl
      | some px => simpa using priced px rfl
    simp only [requireExistingOrder, bind, Except.bind, quantity_ok, price_ok, if_false,
      Bool.false_eq_true]
    exact ⟨_, rfl, rfl, rfl, rfl, rfl⟩
  | cancelOrder orderId reason => exact ⟨_, rfl, rfl, rfl, rfl, rfl⟩
  | suspendOrder orderId reason => exact ⟨_, rfl, rfl, rfl, rfl, rfl⟩
  | releaseOrder orderId =>
    obtain ⟨resumed, stored⟩ := Option.isSome_iff_exists.mp fits
    refine ⟨newEvent metadata .orderReleased orderId (.orderReleased resumed) (s.version + 1)
      resumed, ?_, ?_⟩
    · simp [requireExistingOrder, bind, Except.bind, stored]
    · exact ⟨rfl, by simp [OrderAggregate.apply, newEvent, beforeSubmit, after, stored,
        OrderAggregate.fromState, bind, Except.bind], rfl, rfl⟩
  | receiveExecutionReport orderId report => exact report_decided s orderId report metadata fits
  | expireOrder orderId reason => exact ⟨_, rfl, rfl, rfl, rfl, rfl⟩

theorem decided_accepts {s : OrderAggregateState} {command : OrderCommand}
    {metadata : EventMetadata} {events : List OrderDomainEvent}
    (decided : (OrderAggregate.fromState s).decide command metadata = .ok events) :
    Accepts s command := by
  simp only [OrderAggregate.decide, OrderAggregate.fromState, Option.map_some] at decided
  cases allowed : ensureCommandAllowed (some s.status) (kind command) with
  | error rejection => simp [allowed, bind, Except.bind] at decided
  | ok done =>
    refine ⟨(allowed_iff_listed s.status (kind command)).mp allowed, ?_⟩
    simp only [allowed, bind, Except.bind, requireExistingOrder] at decided
    cases command with
    | submitOrder cmd => trivial
    | routeOrder orderId venue externalOrderId => trivial
    | replaceOrder orderId newLimitPrice newQuantity =>
      simp only at decided
      split at decided
      · cases decided
      · split at decided
        · cases decided
        · rename_i quantity_ok price_ok
          push Not at quantity_ok
          refine ⟨quantity_ok.1, quantity_ok.2, ?_⟩
          intro px stored
          simpa [Option.mem_def.mp stored] using price_ok
    | cancelOrder orderId reason => trivial
    | suspendOrder orderId reason => trivial
    | releaseOrder orderId =>
      cases stored : s.resumeToStatus with
      | none => simp [stored] at decided
      | some resumed => simp [Fits, stored]
    | receiveExecutionReport orderId report =>
      by_contra misfit
      obtain ⟨rejection, refused⟩ := report_refused s orderId report metadata misfit
      simp [refused] at decided
    | expireOrder orderId reason => trivial

theorem decided_yields {s : OrderAggregateState} {command : OrderCommand}
    {metadata : EventMetadata} {events : List OrderDomainEvent}
    (decided : (OrderAggregate.fromState s).decide command metadata = .ok events) :
    ∃ event, events = [event] ∧ Yields s command event := by
  obtain ⟨event, same, yields⟩ := decide_accepts (decided_accepts decided) metadata
  rw [same] at decided
  exact ⟨event, (Except.ok.inj decided).symm, yields⟩

def submitState (cmd : SubmitOrder) : OrderAggregateState :=
  { orderId := cmd.orderId, clientOrderId := cmd.clientOrderId, portfolioId := cmd.portfolioId
    accountId := cmd.accountId, instrumentId := cmd.instrumentId, side := cmd.side
    orderType := cmd.orderType, timeInForce := cmd.timeInForce, limitPrice := cmd.limitPrice
    originalQty := cmd.quantity, leavesQty := cmd.quantity, cumQty := 0, avgPx := none
    status := .submitted, resumeToStatus := none, version := 1 }

theorem submit_decided {cmd : SubmitOrder} {metadata : EventMetadata}
    {events : List OrderDomainEvent}
    (decided : OrderAggregate.empty.decide (.submitOrder cmd) metadata = .ok events) :
    0 < cmd.quantity ∧ ∃ event, events = [event] ∧ event.version = 1 ∧
      event.payload.execution = none ∧ event.payload.routedId = none ∧
      ∀ self : OrderAggregate, self.apply event = .ok (.fromState (submitState cmd)) := by
  simp only [OrderAggregate.decide, OrderAggregate.empty, Option.map_none, ensureCommandAllowed,
    kind, if_true, bind, Except.bind] at decided
  cases valid : validateSubmit cmd.quantity cmd.orderType cmd.limitPrice with
  | error rejection => simp [valid] at decided
  | ok done =>
    simp only [valid, Except.ok.injEq] at decided
    subst events
    refine ⟨?_, _, rfl, rfl, rfl, rfl, fun self => rfl⟩
    by_contra low
    simp [validateSubmit, not_lt.mp low] at valid

end OmsAggregate
