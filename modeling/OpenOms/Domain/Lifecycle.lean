import OpenOms.Domain.Orders

/-!
Which commands a status admits, and the field checks of a submit. The detailed
checks of the other commands live in the aggregate.
-/
namespace OmsLifecycle
open OmsOrders

inductive CommandKind where
  | submitOrder
  | routeOrder
  | replaceOrder
  | cancelOrder
  | suspendOrder
  | releaseOrder
  | receiveExecutionReport
  | expireOrder
  deriving DecidableEq, Repr

def CommandKind.asStr : CommandKind → String
  | .submitOrder => "submit_order"
  | .routeOrder => "route_order"
  | .replaceOrder => "replace_order"
  | .cancelOrder => "cancel_order"
  | .suspendOrder => "suspend_order"
  | .releaseOrder => "release_order"
  | .receiveExecutionReport => "receive_execution_report"
  | .expireOrder => "expire_order"

def kind : OrderCommand → CommandKind
  | .submitOrder _ => .submitOrder
  | .routeOrder .. => .routeOrder
  | .replaceOrder .. => .replaceOrder
  | .cancelOrder .. => .cancelOrder
  | .suspendOrder .. => .suspendOrder
  | .releaseOrder _ => .releaseOrder
  | .receiveExecutionReport .. => .receiveExecutionReport
  | .expireOrder .. => .expireOrder

def allowedKindsForStatus : OrderStatus → List CommandKind
  | .submitted =>
    [.routeOrder, .replaceOrder, .cancelOrder, .suspendOrder, .receiveExecutionReport,
      .expireOrder]
  | .routed | .partiallyFilled =>
    [.replaceOrder, .cancelOrder, .suspendOrder, .receiveExecutionReport, .expireOrder]
  | .suspended => [.cancelOrder, .releaseOrder, .receiveExecutionReport, .expireOrder]
  | .filled | .rejected | .canceled | .expired => []

def ensureCommandAllowed (currentStatus : Option OrderStatus) (kind : CommandKind) :
    Except CommandRejection Unit :=
  match currentStatus with
  | none =>
    if kind = .submitOrder then .ok ()
    else .error ⟨.orderNotFound, "order stream does not exist"⟩
  | some status =>
    if kind = .submitOrder then
      .error ⟨.orderAlreadyExists, "submit is not allowed for an existing order stream"⟩
    else if status.isTerminal then
      .error ⟨.invalidStateTransition,
        s!"{kind.asStr} is not allowed for terminal status {status.debugStr}"⟩
    else if kind = .releaseOrder ∧ status ≠ .suspended then
      .error ⟨.commandNotAllowed, "release is only allowed when status is suspended"⟩
    else if kind = .suspendOrder ∧ status = .suspended then
      .error ⟨.commandNotAllowed, "order is already suspended"⟩
    else if kind = .replaceOrder ∧ status = .suspended then
      .error ⟨.commandNotAllowed, "replace is not allowed while order is suspended"⟩
    else if kind ∉ allowedKindsForStatus status then
      .error ⟨.commandNotAllowed,
        s!"{kind.asStr} is not allowed when status is {status.debugStr}"⟩
    else .ok ()

def validateSubmit (quantity : ℚ) (orderType : OmsOrders.OrderType) (limitPrice : Option ℚ) :
    Except CommandRejection Unit :=
  if ¬ 0 < quantity then
    .error ⟨.invalidQuantity, "order quantity must be greater than zero"⟩
  else if orderType = .limit ∧ ¬ limitPrice.any (fun p => 0 < p) then
    .error ⟨.invalidPrice, "limit orders require a positive limit_price"⟩
  else .ok ()

def requireExistingOrder (state : Option OrderAggregateState) :
    Except CommandRejection OrderAggregateState :=
  match state with
  | some s => .ok s
  | none => .error ⟨.orderNotFound, "order stream does not exist"⟩

/-- The table is the whole story for an existing order: the explicit
    exceptions before it only choose the message. -/
theorem allowed_iff_listed (status : OrderStatus) (kind : CommandKind) :
    ensureCommandAllowed (some status) kind = .ok () ↔ kind ∈ allowedKindsForStatus status := by
  cases status <;> cases kind <;>
    simp [ensureCommandAllowed, allowedKindsForStatus, OrderStatus.isTerminal]

theorem kinds_by_terminal (status : OrderStatus) :
    if status.isTerminal then allowedKindsForStatus status = []
    else .receiveExecutionReport ∈ allowedKindsForStatus status ∧
      .cancelOrder ∈ allowedKindsForStatus status := by
  cases status <;> simp [OrderStatus.isTerminal, allowedKindsForStatus]

theorem terminal_allows_nothing {status : OrderStatus} (terminal : status.isTerminal = true)
    (kind : CommandKind) : ensureCommandAllowed (some status) kind ≠ .ok () := by
  have empty := kinds_by_terminal status
  rw [if_pos terminal] at empty
  rw [ne_eq, allowed_iff_listed, empty]
  exact List.not_mem_nil

theorem open_kinds {status : OrderStatus} (isOpen : status.isTerminal = false) :
    .receiveExecutionReport ∈ allowedKindsForStatus status ∧
      .cancelOrder ∈ allowedKindsForStatus status := by
  have listed := kinds_by_terminal status
  rwa [if_neg (by simp [isOpen])] at listed

theorem open_takes_report {status : OrderStatus} (isOpen : status.isTerminal = false) :
    ensureCommandAllowed (some status) .receiveExecutionReport = .ok () :=
  (allowed_iff_listed status _).mpr (open_kinds isOpen).1

theorem open_takes_cancel {status : OrderStatus} (isOpen : status.isTerminal = false) :
    ensureCommandAllowed (some status) .cancelOrder = .ok () :=
  (allowed_iff_listed status _).mpr (open_kinds isOpen).2

theorem route_only_from_submitted (status : OrderStatus) :
    ensureCommandAllowed (some status) .routeOrder = .ok () ↔ status = .submitted := by
  rw [allowed_iff_listed]
  cases status <;> simp [allowedKindsForStatus]

end OmsLifecycle
