import OpenOms.Strategies.Guard

/-!
The control link a co-located strategy keeps open to the OMS: the messages down
it, the dead man's switch at the strategy's end, and the state a connection is
sent first. Times are milliseconds.
-/
namespace OmsColo
open OmsRisk OmsGuard

inductive Mode where
  | viaOms
  | colocated
  deriving DecidableEq, Repr

structure Limits where
  maxOrderQty : Option ℚ
  maxOrderNotional : Option ℚ
  maxPositionQty : Option ℚ
  maxPositionNotional : Option ℚ
  priceBandPct : Option ℚ
  maxOrdersPerSec : Option Nat
  deriving DecidableEq, Repr

structure Position where
  symbol : String
  qty : ℚ
  deriving DecidableEq, Repr

structure Registered extends Strategy where
  mode : Mode
  restEnabled : Bool
  deadManSecs : Nat
  maxOrdersPerSec : Option Nat
  limitsVersion : Int
  deriving DecidableEq, Repr

def Registered.riskLimits (self : Registered) : Limits :=
  { maxOrderQty := self.limits.maxOrderQuantity
    maxOrderNotional := self.limits.maxOrderNotional
    maxPositionQty := self.limits.maxPositionQuantity
    maxPositionNotional := self.limits.maxPositionNotional
    priceBandPct := self.priceBandPct
    maxOrdersPerSec := self.maxOrdersPerSec }

inductive ToStrategy where
  | state (active : Bool) (limits : Limits) (limitsVersion : Nat) (positions : List Position)
      (deadManSecs : Nat)
  | limits (limits : Limits) (limitsVersion : Nat)
  | positions (positions : List Position)
  | kill
  | resume
  | heartbeat
  deriving DecidableEq, Repr

structure DeadMan where
  timeout : Nat
  lastHeard : Nat
  active : Bool
  killed : Bool
  deriving DecidableEq, Repr

/-- Starts stopped: nothing trades before the OMS's first state. -/
def DeadMan.new (timeout now : Nat) : DeadMan := ⟨timeout, now, false, false⟩

def DeadMan.heard (self : DeadMan) (now : Nat) : DeadMan := { self with lastHeard := now }

def DeadMan.apply (self : DeadMan) (msg : ToStrategy) : DeadMan :=
  match msg with
  | .state active _ _ _ deadManSecs =>
    { self with active := active, killed := !active, timeout := deadManSecs * 1000 }
  | .kill => { self with killed := true }
  | .resume => { self with killed := false, active := true }
  | _ => self

def DeadMan.mayTrade (self : DeadMan) (now : Nat) : Bool :=
  self.active && !self.killed && now - self.lastHeard ≤ self.timeout

def initialState (registered : Option Registered) (positions : List Position) : ToStrategy :=
  match registered with
  | none => .state false ⟨none, none, none, none, none, none⟩ 0 [] 5
  | some s =>
    .state (s.state ≠ .halted) s.riskLimits (max s.limitsVersion 0).toNat positions s.deadManSecs

def setState (row : Registered) (tradingState : TradingState) (restEnabled : Bool) :
    Registered :=
  { row with state := tradingState, restEnabled := restEnabled }

def announceKill (mode : Option Mode) : Option ToStrategy :=
  if mode = some .colocated then some .kill else none

/-- What a message says about trading, if it says anything. -/
def ToStrategy.tells : ToStrategy → Option Bool
  | .state active .. => some active
  | .kill => some false
  | .resume => some true
  | _ => none

def DeadMan.cleared (self : DeadMan) : Bool := self.active && !self.killed

@[simp] theorem heard_cleared (self : DeadMan) (now : Nat) :
    (self.heard now).cleared = self.cleared := rfl

@[simp] theorem apply_cleared (self : DeadMan) (msg : ToStrategy) :
    (self.apply msg).cleared = msg.tells.getD self.cleared := by
  cases msg <;> simp [DeadMan.apply, DeadMan.cleared, ToStrategy.tells]

theorem may_trade_cleared {self : DeadMan} {now : Nat} (trades : self.mayTrade now = true) :
    self.cleared = true := by
  simp only [DeadMan.mayTrade, Bool.and_eq_true] at trades
  simpa [DeadMan.cleared] using trades.1

end OmsColo
