import OpenOms.RiskEngine
import Mathlib.Algebra.Order.Floor.Ring
import Mathlib.Data.Rat.Floor

/-!
The strategy rules inside the one order path: who may trade, the strategy's
state, its limits with the scope's own over them, and the price band around the
mark.
-/
namespace OmsGuard
open OmsOrders OmsRisk OmsRiskEngine

structure Strategy where
  code : String
  principalId : String
  state : TradingState
  limits : RiskLimits
  priceBandPct : Option ℚ
  deriving DecidableEq, Repr

structure Mark where
  bid : ℚ
  ask : ℚ
  deriving DecidableEq, Repr

def Mark.mid (self : Mark) : ℚ := (self.bid + self.ask) / 2

/-- Quote currencies the strategy-wide notional defaults are read in. -/
def usdLike : List String := ["USD", "USDT", "USDC"]

def mayTrade (strategy : Strategy) (principalId : String) : Except RiskRejection Unit :=
  if principalId = strategy.principalId then .ok ()
  else .error ⟨"strategy_portfolio", s!"portfolio is traded by strategy {strategy.code}"⟩

def checkState (strategy : Strategy) (side : OrderSide) (positionQty : ℚ) :
    Except RiskRejection Unit :=
  checkTradingState strategy.state side positionQty

def effectiveLimits (strategy : Strategy) (overrideRow : Option RiskLimits)
    (quoteCurrency : String) : Except RiskRejection RiskLimits :=
  let d := strategy.limits
  let o := overrideRow.getD ⟨none, none, none, none⟩
  let fallsBack (own default : Option ℚ) : Bool := own.isNone && default.isSome
  let defaultNotional := fallsBack o.maxOrderNotional d.maxOrderNotional ||
    fallsBack o.maxPositionNotional d.maxPositionNotional
  if defaultNotional && !usdLike.contains quoteCurrency then
    .error ⟨"no_notional_limit", s!"no notional limit for quote currency {quoteCurrency}"⟩
  else
    .ok
      { maxOrderQuantity := o.maxOrderQuantity.or d.maxOrderQuantity
        maxOrderNotional := o.maxOrderNotional.or d.maxOrderNotional
        maxPositionQuantity := o.maxPositionQuantity.or d.maxPositionQuantity
        maxPositionNotional := o.maxPositionNotional.or d.maxPositionNotional }

def twoDecimals (x : ℚ) : String :=
  let below := ⌊x * 100⌋
  let left := x * 100 - below
  let hundredths := if left > 1 / 2 ∨ (left = 1 / 2 ∧ below % 2 = 1) then below + 1 else below
  let digits := toString (hundredths.natAbs % 100)
  s!"{hundredths.natAbs / 100}." ++ (if digits.length = 1 then "0" ++ digits else digits)

def checkPriceBand (limitPrice : Option ℚ) (mid bandPct : ℚ) : Except RiskRejection Unit :=
  match limitPrice with
  | none => .ok ()
  | some px =>
    let off := |px - mid| / mid * 100
    -- Over a mid of zero the quotient is infinite, or at a price of zero no number.
    let outside : Bool :=
      if mid = 0 then px ≠ 0 else off > bandPct * (1 + 1 / 1000000000)
    if outside then
      let shown := if mid = 0 then "inf" else twoDecimals off
      .error ⟨"price_band", s!"limit {px} is {shown}% from mark {mid} (band {bandPct}%)"⟩
    else .ok ()

def check (strategy : Strategy) (row : Option RiskConfig) (exposure : Exposure)
    (cmd : SubmitOrder) (quoteCurrency : String) (mark : Option Mark) (contractSize : ℚ) :
    Except RiskRejection Unit := do
  checkState strategy cmd.side exposure.positionQty
  match row with
  | some row => checkTradingState row.tradingState cmd.side exposure.positionQty
  | none => .ok ()
  let limits ← effectiveLimits strategy (row.map (·.limits)) quoteCurrency
  match mark with
  | some m =>
    match strategy.priceBandPct with
    | some band => checkPriceBand cmd.limitPrice m.mid band
    | none => .ok ()
  | none => .ok ()
  let estPrice :=
    match mark with
    | some m => some (cmd.limitPrice.getD m.mid * contractSize)
    | none => cmd.limitPrice.map (· * contractSize)
  checkLimit cmd.side cmd.quantity estPrice limits exposure

theorem check_state_passes {strategy : Strategy} {row : Option RiskConfig} {exposure : Exposure}
    {cmd : SubmitOrder} {quoteCurrency : String} {mark : Option Mark} {contractSize : ℚ}
    (passes : check strategy row exposure cmd quoteCurrency mark contractSize = .ok ()) :
    checkTradingState strategy.state cmd.side exposure.positionQty = .ok () ∧
      ∀ config, row = some config →
        checkTradingState config.tradingState cmd.side exposure.positionQty = .ok () := by
  simp only [check, checkState, bind, Except.bind] at passes
  split at passes
  · cases passes
  rename_i own
  refine ⟨own, ?_⟩
  rintro config rfl
  simp only at passes
  split at passes
  · cases passes
  · rename_i scope
    exact scope

end OmsGuard
