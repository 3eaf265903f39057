import OpenOms.Domain.Orders
import Mathlib.Algebra.Order.Field.Rat

/-!
The pure pre-trade checks: the trading-state gate and the four limits.
-/
namespace OmsRisk
open OmsOrders

inductive TradingState where
  | active
  | reducing
  | halted
  deriving DecidableEq, Repr

structure RiskLimits where
  maxOrderQuantity : Option ℚ
  maxOrderNotional : Option ℚ
  maxPositionQuantity : Option ℚ
  maxPositionNotional : Option ℚ
  deriving DecidableEq, Repr

structure Exposure where
  positionQty : ℚ
  workingQty : ℚ
  deriving DecidableEq, Repr

structure RiskRejection where
  code : String
  message : String
  deriving DecidableEq, Repr

def checkTradingState (state : TradingState) (side : OrderSide) (positionQty : ℚ) :
    Except RiskRejection Unit :=
  match state with
  | .active => .ok ()
  | .halted => .error ⟨"trading_halted", "trading halted"⟩
  | .reducing =>
    let reduces : Bool :=
      match side with
      | .buy => positionQty < 0
      | .sell => positionQty > 0
    if reduces then .ok ()
    else .error ⟨"trading_reducing",
      s!"trading state reducing; order {side.asStr} does not reduce the current position"⟩

def exceeds (limit amount : Option ℚ) : Bool :=
  match limit, amount with
  | some max, some value => value > max
  | _, _ => false

def checkLimit (side : OrderSide) (quantity : ℚ) (estPrice : Option ℚ) (limits : RiskLimits)
    (exposure : Exposure) : Except RiskRejection Unit :=
  let projectedQty := exposure.positionQty + exposure.workingQty + side.signed quantity
  let notional := estPrice.map (quantity * ·)
  let projectedNotional := estPrice.map (|projectedQty| * ·)
  if exceeds limits.maxOrderQuantity (some quantity) then
    .error ⟨"max_order_qty",
      s!"order qty {quantity} exceeds max {limits.maxOrderQuantity.getD 0}"⟩
  else if exceeds limits.maxOrderNotional notional then
    .error ⟨"max_order_notional",
      s!"order notional exceeds {limits.maxOrderNotional.getD 0} < {notional.getD 0}"⟩
  else if exceeds limits.maxPositionQuantity (some |projectedQty|) then
    .error ⟨"max_position_quantity",
      s!"order qty exceeds max position quantity {limits.maxPositionQuantity.getD 0}"⟩
  else if exceeds limits.maxPositionNotional projectedNotional then
    let max := limits.maxPositionNotional.getD 0
    .error ⟨"max_position_notional",
      s!"projected positional notional {projectedNotional.getD 0} exceeds max {max}"⟩
  else .ok ()

theorem check_limit_position {side : OrderSide} {quantity : ℚ} {estPrice : Option ℚ}
    {limits : RiskLimits} {exposure : Exposure} {max : ℚ}
    (limit : limits.maxPositionQuantity = some max)
    (passes : checkLimit side quantity estPrice limits exposure = .ok ()) :
    |exposure.positionQty + exposure.workingQty + side.signed quantity| ≤ max := by
  by_contra exceeded
  have third : exceeds limits.maxPositionQuantity
      (some |exposure.positionQty + exposure.workingQty + side.signed quantity|) = true := by
    simpa [exceeds, limit] using exceeded
  simp only [checkLimit, third, if_true] at passes
  split at passes
  · cases passes
  · split at passes <;> cases passes

theorem trading_state_reduces {side : OrderSide} {positionQty : ℚ}
    (passes : checkTradingState .reducing side positionQty = .ok ()) :
    side.signed positionQty < 0 := by
  cases side with
  | buy => simpa [checkTradingState, OrderSide.signed] using passes
  | sell => simpa [checkTradingState, OrderSide.signed] using passes

end OmsRisk
