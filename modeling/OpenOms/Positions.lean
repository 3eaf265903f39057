import OpenOms.Domain.Orders
import Mathlib.Algebra.Order.Field.Rat
import Mathlib.Tactic.Linarith

/-!
The position projection: net holding, cost basis and realized P&L of one
(portfolio, instrument), by average-cost accounting.
-/
namespace OmsPositions
open OmsOrders

structure PositionMath where
  netQty : ℚ
  avgCost : ℚ
  realizedPnl : ℚ
  deriving DecidableEq, Repr

def PositionMath.flat : PositionMath := ⟨0, 0, 0⟩

def PositionMath.applyFill (self : PositionMath) (side : OrderSide) (qty price : ℚ) :
    PositionMath :=
  let signed := side.signed qty
  let n := self.netQty
  let c := self.avgCost
  if n = 0 then
    { self with netQty := signed, avgCost := price }
  else if decide (n > 0) = decide (signed > 0) then
    let newAbs := |n| + qty
    { self with netQty := n + signed, avgCost := (|n| * c + qty * price) / newAbs }
  else
    let close := min qty |n|
    let signN : ℚ := if n > 0 then 1 else -1
    let realizedPnl := self.realizedPnl + close * (price - c) * signN
    if qty ≤ |n| then
      let netQty := n + signed
      { netQty, avgCost := if netQty = 0 then 0 else c, realizedPnl }
    else
      let remainder := qty - |n|
      { netQty := if signed > 0 then remainder else -remainder, avgCost := price, realizedPnl }

/-- Reduce the open position toward zero at cost: the source side of an
    allocation transfer, which realizes no P&L. -/
def PositionMath.reduceAtCost (self : PositionMath) (qty : ℚ) : PositionMath :=
  let signN : ℚ := if self.netQty ≥ 0 then 1 else -1
  let netQty := self.netQty - signN * qty
  { netQty, avgCost := if netQty = 0 then 0 else self.avgCost, realizedPnl := self.realizedPnl }

/-- Whatever branch a fill takes, the holding moves by its signed quantity. -/
theorem apply_fill_net (p : PositionMath) (side : OrderSide) (qty price : ℚ) :
    (p.applyFill side qty price).netQty = p.netQty + side.signed qty := by
  unfold PositionMath.applyFill
  by_cases flat : p.netQty = 0
  · simp [flat]
  by_cases same : decide (p.netQty > 0) = decide (side.signed qty > 0)
  · simp [flat, same]
  by_cases covered : qty ≤ |p.netQty|
  · simp [flat, same, covered]
  simp only [flat, same, covered, if_false]
  rcases lt_or_gt_of_ne flat with short | long
  · have size := abs_of_neg short
    have bought : side.signed qty > 0 := by
      by_contra sold
      exact same (by simp [not_lt.mpr short.le, sold])
    rw [if_pos bought, size]
    cases side <;> simp only [OrderSide.signed] at * <;> linarith
  · have size := abs_of_pos long
    have sold : ¬ side.signed qty > 0 := by
      intro bought
      exact same (by simp [long, bought])
    rw [if_neg sold, size]
    cases side <;> simp only [OrderSide.signed] at * <;> linarith

theorem reduce_at_cost_net (p : PositionMath) (qty : ℚ) :
    (p.reduceAtCost qty).netQty = p.netQty - (if p.netQty ≥ 0 then 1 else -1) * qty := rfl

def TowardZero (before after : ℚ) : Prop :=
  (0 ≤ before → 0 ≤ after ∧ after ≤ before) ∧ (before ≤ 0 → before ≤ after ∧ after ≤ 0)

instance (before after : ℚ) : Decidable (TowardZero before after) := by
  unfold TowardZero
  infer_instance

end OmsPositions
