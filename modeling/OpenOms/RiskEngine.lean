import OpenOms.Domain.Risk
import OpenOms.OrderStore

/-!
The pre-trade risk engine: the checks a submit passes against the scope's
configuration and exposure, and the two queries the exposure comes from.
-/
namespace OmsRiskEngine
open OmsOrders OmsPositions OmsOrderStore OmsRisk

structure RiskConfig where
  tradingState : TradingState
  limits : RiskLimits
  deriving DecidableEq, Repr

/-- All pre-trade checks for a submit command. A scope without a configuration
    passes unchecked; a market order carries no price and skips the notionals. -/
def checkSubmit (config : Option RiskConfig) (exposure : Exposure) (cmd : SubmitOrder)
    (contractSize : ℚ) : Except RiskRejection Unit :=
  match config with
  | none => .ok ()
  | some config => do
    checkTradingState config.tradingState cmd.side exposure.positionQty
    checkLimit cmd.side cmd.quantity (cmd.limitPrice.map (· * contractSize)) config.limits exposure

/-- `SELECT COALESCE((SELECT net_qty .. FROM position ..), 0)`. -/
def positionQty (position : Option PositionMath) : ℚ :=
  match position with
  | some p => p.netQty
  | none => 0

def isWorking : OrderStatus → Bool
  | .submitted | .routed | .partiallyFilled => true
  | _ => false

def signedLeaves (row : OrderRow) : ℚ :=
  if isWorking row.status then row.side.signed row.leavesQty else 0

def workingQty (rows : List OrderRow) : ℚ := (rows.map signedLeaves).sum

theorem check_submit_position {config : RiskConfig} {exposure : Exposure} {cmd : SubmitOrder}
    {contractSize max : ℚ} (limit : config.limits.maxPositionQuantity = some max)
    (passes : checkSubmit (some config) exposure cmd contractSize = .ok ()) :
    |exposure.positionQty + exposure.workingQty + cmd.side.signed cmd.quantity| ≤ max := by
  simp only [checkSubmit, bind, Except.bind] at passes
  split at passes
  · cases passes
  · exact check_limit_position limit passes

/-- A limit of ten on the position, and nothing else. -/
def upToTen : RiskConfig := ⟨.active, ⟨none, none, some 10, none⟩⟩

end OmsRiskEngine
