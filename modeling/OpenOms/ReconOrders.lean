import OpenOms.Gateway
import Mathlib.Algebra.Order.Field.Rat
import Mathlib.Tactic.Linarith
import Mathlib.Tactic.FieldSimp
import Mathlib.Tactic.Ring

/-!
Order reconciliation: the diff of the OMS working set against the broker's open
orders, the sweep of stuck orders, and the arithmetic that books what the OMS is
missing. The queries that load both sets are in `OpenOms.ReconQueries`.
-/
namespace OmsReconOrders
open OmsOrders OmsGateway

def EPS : ℚ := 1 / 10 ^ 9

def missingQty (omsCum brokerCum : ℚ) : Option ℚ :=
  let missing := brokerCum - omsCum
  if missing > EPS then some missing else none

/-- The price of the quantity filled beyond what the OMS booked, from the two
    cumulative states. -/
def incrementPrice (omsCum : ℚ) (omsAvg : Option ℚ) (brokerCum brokerAvg : ℚ) : ℚ :=
  let missing := brokerCum - omsCum
  match omsAvg with
  | some omsAvg =>
    if omsCum > EPS ∧ missing > EPS then
      let price := (brokerAvg * brokerCum - omsAvg * omsCum) / missing
      if price > 0 then price else brokerAvg
    else brokerAvg
  | none => brokerAvg

structure OmsWorkingOrder where
  orderId : String
  symbol : String
  extId : String
  cumQty : ℚ
  avgPx : Option ℚ
  deriving DecidableEq, Repr

inductive ReconAction where
  | resolveTerminal (orderId symbol extId : String) (omsCum : ℚ)
  | partialDrift (orderId : String) (omsCum brokerExecuted : ℚ)
  | orphanAtBroker (clientOrderId symbol : String)
  deriving DecidableEq, Repr

def openUnder (brokerOpen : List BrokerOpenOrder) (clientOrderId : String) :
    Option BrokerOpenOrder :=
  brokerOpen.reverse.find? (fun o => o.clientOrderId = clientOrderId)

def planWorking (brokerOpen : List BrokerOpenOrder) (o : OmsWorkingOrder) : Option ReconAction :=
  match openUnder brokerOpen o.orderId with
  | none => some (.resolveTerminal o.orderId o.symbol o.extId o.cumQty)
  | some b =>
    if b.executedQty - o.cumQty > EPS then
      some (.partialDrift o.orderId o.cumQty b.executedQty)
    else none

def planOrderRecon (oms : List OmsWorkingOrder) (brokerOpen : List BrokerOpenOrder) :
    List ReconAction :=
  oms.filterMap (planWorking brokerOpen) ++
    (brokerOpen.filter (fun b => b.clientOrderId ∉ oms.map (·.orderId))).map
      (fun b => .orphanAtBroker b.clientOrderId b.symbol)

structure StuckOrder where
  orderId : String
  symbol : String
  deriving DecidableEq, Repr

inductive StuckAction where
  | route (orderId venueOrderId : String)
  | askStatus (orderId symbol : String)
  deriving DecidableEq, Repr

def planStuckOrder (brokerOpen : List BrokerOpenOrder) (s : StuckOrder) : StuckAction :=
  match brokerOpen.find? (fun b => b.clientOrderId = s.orderId ∧ b.venueOrderId ≠ "") with
  | some b => .route s.orderId b.venueOrderId
  | none => .askStatus s.orderId s.symbol

def planStuck (stuck : List StuckOrder) (brokerOpen : List BrokerOpenOrder) : List StuckAction :=
  stuck.map (planStuckOrder brokerOpen)

def stuckOutcome (answer : Except BrokerError BrokerOrderState) : Option ExecKind :=
  match answer with
  | .ok state => if state.outcome = .working then none else some (.terminal state)
  | .error (.noSuchOrder _) => some (.rejected "never reached the broker")
  | .error _ => none

theorem eps_positive : 0 < EPS := by
  norm_num [EPS]

theorem missing_qty_some {omsCum brokerCum missing : ℚ} :
    missingQty omsCum brokerCum = some missing ↔
      brokerCum - omsCum > EPS ∧ missing = brokerCum - omsCum := by
  simp only [missingQty]
  split
  · rename_i more
    simp [more, eq_comm]
  · rename_i booked
    simp [booked]

theorem missing_qty_none {omsCum brokerCum : ℚ} :
    missingQty omsCum brokerCum = none ↔ brokerCum - omsCum ≤ EPS := by
  simp only [missingQty]
  split
  · rename_i more
    simp only [reduceCtorEq, false_iff, not_le]
    exact more
  · rename_i booked
    simpa using booked

theorem plan_stuck_routes {brokerOpen : List BrokerOpenOrder} {order : StuckOrder}
    {orderId venueOrderId : String}
    (routes : planStuckOrder brokerOpen order = .route orderId venueOrderId) :
    venueOrderId ≠ "" := by
  unfold planStuckOrder at routes
  split at routes
  · rename_i listed found
    have named := List.find?_some found
    cases routes
    simp only [decide_eq_true_eq] at named
    exact named.2
  · cases routes

/-- Priced this way, the missing quantity carries the booked average to the
    broker's own: the two notionals differ by exactly the increment's. -/
theorem increment_price_exact {omsCum omsAvg brokerCum brokerAvg : ℚ} (begun : omsCum > EPS)
    (more : brokerCum - omsCum > EPS) (dearer : omsAvg * omsCum < brokerAvg * brokerCum) :
    0 < incrementPrice omsCum (some omsAvg) brokerCum brokerAvg ∧
      omsCum * omsAvg +
          (brokerCum - omsCum) * incrementPrice omsCum (some omsAvg) brokerCum brokerAvg =
        brokerCum * brokerAvg := by
  have some_missing : 0 < brokerCum - omsCum := lt_trans eps_positive more
  have price : 0 < (brokerAvg * brokerCum - omsAvg * omsCum) / (brokerCum - omsCum) :=
    div_pos (by linarith) some_missing
  have computed : incrementPrice omsCum (some omsAvg) brokerCum brokerAvg =
      (brokerAvg * brokerCum - omsAvg * omsCum) / (brokerCum - omsCum) := by
    simp [incrementPrice, begun, more, price]
  rw [computed]
  refine ⟨price, ?_⟩
  field_simp
  ring

theorem increment_price_positive {brokerAvg : ℚ} (priced : 0 < brokerAvg) (omsCum : ℚ)
    (omsAvg : Option ℚ) (brokerCum : ℚ) :
    0 < incrementPrice omsCum omsAvg brokerCum brokerAvg := by
  unfold incrementPrice
  split
  · dsimp only
    split
    · split
      · assumption
      · exact priced
    · exact priced
  · exact priced

/-- With nothing booked the broker's average prices the whole quantity. -/
theorem increment_price_first (brokerCum brokerAvg : ℚ) (omsAvg : Option ℚ) :
    incrementPrice 0 omsAvg brokerCum brokerAvg = brokerAvg := by
  cases omsAvg with
  | none => rfl
  | some omsAvg => simp [incrementPrice, not_lt.mpr eps_positive.le]

end OmsReconOrders
