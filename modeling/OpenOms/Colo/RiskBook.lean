import OpenOms.Colo.DeadMan

/-!
The risk book a co-located strategy keeps: the limits it was sent, its positions
and the checks every order of its own passes before it goes out; and what the
market maker does with a message of the OMS. Times are milliseconds.
-/
namespace OmsColo
open OmsGuard

structure OrderIntent where
  symbol : String
  quoteCurrency : String
  buy : Bool
  qty : ℚ
  price : ℚ
  deriving DecidableEq, Repr

structure Reject where
  code : String
  message : String
  deriving DecidableEq, Repr

/-- The positions are a map's entries, one for a symbol. -/
structure RiskBook where
  limits : Limits
  version : Nat
  positions : List Position
  halted : Bool
  window : List Nat
  deriving DecidableEq, Repr

def noLimits : Limits := ⟨none, none, none, none, none, none⟩

def RiskBook.new (limits : Limits) (version : Nat) : RiskBook := ⟨limits, version, [], false, []⟩

def RiskBook.setLimits (self : RiskBook) (limits : Limits) (version : Nat) : RiskBook :=
  { self with limits, version }

def assign (positions : List Position) (p : Position) : List Position :=
  positions.filter (·.symbol ≠ p.symbol) ++ [p]

def positionOf (positions : List Position) (symbol : String) : ℚ :=
  ((positions.find? (·.symbol = symbol)).map (·.qty)).getD 0

def signed (buy : Bool) (qty : ℚ) : ℚ := if buy then qty else -qty

def addFill (positions : List Position) (symbol : String) (buy : Bool) (qty : ℚ) :
    List Position :=
  assign positions ⟨symbol, positionOf positions symbol + signed buy qty⟩

/-- Replace the positions with the OMS's booked ones; of a symbol's entries the last rules. -/
def RiskBook.setPositions (self : RiskBook) (positions : List Position) : RiskBook :=
  { self with positions := positions.foldl assign [] }

def RiskBook.onFill (self : RiskBook) (symbol : String) (buy : Bool) (qty : ℚ) : RiskBook :=
  { self with positions := addFill self.positions symbol buy qty }

def RiskBook.halt (self : RiskBook) : RiskBook := { self with halted := true }

def RiskBook.resume (self : RiskBook) : RiskBook := { self with halted := false }

def rejectIf (refused : Bool) (code message : String) : Except Reject Unit :=
  if refused then .error ⟨code, message⟩ else .ok ()

def within {α : Type} (limit : Option α) (check : α → Except Reject Unit) : Except Reject Unit :=
  match limit with
  | some max => check max
  | none => .ok ()

def RiskBook.checkOrder (self : RiskBook) (o : OrderIntent) (reference : ℚ) :
    Except Reject Unit := do
  rejectIf self.halted "halted" "trading is halted"
  let l := self.limits
  within l.maxOrderQty fun max =>
    rejectIf (o.qty > max) "max_order_qty" s!"order qty {o.qty} > {max}"
  let hasNotional := l.maxOrderNotional.isSome || l.maxPositionNotional.isSome
  rejectIf (hasNotional && !usdLike.contains o.quoteCurrency) "no_notional_limit"
    s!"no notional limit for quote currency {o.quoteCurrency}"
  within l.maxOrderNotional fun max =>
    let notional := o.qty * o.price
    rejectIf (notional > max) "max_order_notional" s!"order notional {notional} > {max}"
  let projected := positionOf self.positions o.symbol + signed o.buy o.qty
  within l.maxPositionQty fun max =>
    rejectIf (|projected| > max) "max_position_qty" s!"projected position {projected} > {max}"
  within l.maxPositionNotional fun max =>
    let notional := |projected| * o.price
    rejectIf (notional > max) "max_position_notional"
      s!"projected position notional {notional} > {max}"
  within l.priceBandPct fun band =>
    let off := |o.price - reference| / reference * 100
    -- Over a reference of zero the quotient is infinite, or at a price of zero no number.
    let outside : Bool :=
      if reference = 0 then o.price ≠ 0 else off > band * (1 + 1 / 1000000000)
    let shown := if reference = 0 then "inf" else twoDecimals off
    rejectIf outside "price_band" s!"price {o.price} is {shown}% from {reference} (band {band}%)"

/-- The orders of the last second; what is older is dropped even if the order is refused. -/
def recent (window : List Nat) (now : Nat) : List Nat := window.dropWhile fun t => now - t ≥ 1000

def RiskBook.check (self : RiskBook) (o : OrderIntent) (reference : ℚ) (now : Nat) :
    Except Reject Unit × RiskBook :=
  match self.checkOrder o reference with
  | .error reject => (.error reject, self)
  | .ok () =>
    match self.limits.maxOrdersPerSec with
    | none => (.ok (), self)
    | some cap =>
      let window := recent self.window now
      if window.length ≥ cap then
        (.error ⟨"order_rate", s!"more than {cap} orders in the last second"⟩, { self with window })
      else (.ok (), { self with window := window ++ [now] })

inductive FromStrategy where
  | ackLimits (limitsVersion : Nat)
  | ackKill
  | heartbeat
  deriving DecidableEq, Repr

/-- The market maker: its switch, its risk book, the messages it has sent up the
    link and the orders it has working. -/
structure MarketMaker where
  ignoreKill : Bool
  dead : DeadMan
  risk : RiskBook
  sent : List FromStrategy
  working : List String
  deriving DecidableEq, Repr

def MarketMaker.cancelAll (self : MarketMaker) : MarketMaker := { self with working := [] }

def MarketMaker.send (self : MarketMaker) (msg : FromStrategy) : MarketMaker :=
  { self with sent := self.sent ++ [msg] }

def MarketMaker.onControl (self : MarketMaker) (msg : ToStrategy) (now : Nat) : MarketMaker :=
  let heard := { self with dead := (self.dead.heard now).apply msg }
  match msg with
  | .state _ limits limitsVersion positions _ =>
    let risk := (heard.risk.setLimits limits limitsVersion).setPositions positions
    { heard with risk }.send (.ackLimits limitsVersion)
  | .limits limits limitsVersion =>
    { heard with risk := heard.risk.setLimits limits limitsVersion }.send (.ackLimits limitsVersion)
  | .positions positions => { heard with risk := heard.risk.setPositions positions }
  | .kill =>
    let acknowledged := heard.send .ackKill
    if self.ignoreKill then acknowledged else acknowledged.cancelAll
  | .resume => heard
  | .heartbeat => heard

theorem find_other_symbols (positions : List Position) (left symbol : String) :
    (positions.filter (·.symbol ≠ left)).find? (·.symbol = symbol) =
      if left = symbol then none else positions.find? (·.symbol = symbol) := by
  rw [List.find?_filter]
  split
  · rename_i same
    simp [List.find?_eq_none, same]
  · rename_i other
    congr 1
    funext p
    by_cases is : p.symbol = symbol
    · simp [is, Ne.symm other]
    · simp [is]

theorem position_of_assign (positions : List Position) (p : Position) (symbol : String) :
    positionOf (assign positions p) symbol =
      if p.symbol = symbol then p.qty else positionOf positions symbol := by
  simp only [positionOf, assign, List.find?_append, find_other_symbols]
  split <;> rename_i same <;> simp [same]

theorem position_of_fill (positions : List Position) (symbol : String) (buy : Bool) (qty : ℚ)
    (other : String) : positionOf (addFill positions symbol buy qty) other =
      positionOf positions other + if symbol = other then signed buy qty else 0 := by
  rw [addFill, position_of_assign]
  by_cases same : symbol = other
  · simp [same]
  · simp [same]

def ToStrategy.setsLimits : ToStrategy → Option (Limits × Nat)
  | .state _ sent version _ _ => some (sent, version)
  | .limits sent version => some (sent, version)
  | _ => none

def RiskBook.enforced (self : RiskBook) : Limits × Nat := (self.limits, self.version)

theorem on_control_enforced (self : MarketMaker) (msg : ToStrategy) (now : Nat) :
    (self.onControl msg now).risk.enforced = msg.setsLimits.getD self.risk.enforced := by
  cases msg with
  | kill =>
    simp only [MarketMaker.onControl]
    split <;> rfl
  | _ => rfl

theorem check_keeps (self : RiskBook) (o : OrderIntent) (reference : ℚ) (now : Nat) :
    (self.check o reference now).2.enforced = self.enforced ∧
      (self.check o reference now).2.positions = self.positions ∧
      (self.check o reference now).2.halted = self.halted := by
  unfold RiskBook.check
  split
  · exact ⟨rfl, rfl, rfl⟩
  · split
    · exact ⟨rfl, rfl, rfl⟩
    · dsimp only
      split <;> exact ⟨rfl, rfl, rfl⟩

end OmsColo
