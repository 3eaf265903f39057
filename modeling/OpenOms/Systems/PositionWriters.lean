import OpenOms.Library.ReadCommitted
import OpenOms.RiskEngine
import Mathlib.Tactic.Ring

/-!
The `position` table under concurrent writers: fills of any orders and
allocation transfers, each a transaction of load-change-upsert steps. The table
is `ReadCommitted`'s; this module says what the changes are and what they add up to.
-/
namespace OmsPositionWriters
open OmsOrders OmsPositions OmsOrderStore OmsRiskEngine ReadCommitted Runs

structure PositionKey where
  portfolioId : String
  instrumentId : String
  deriving DecidableEq, Repr

/-- A change of one position. The side of a `transferOut` is the transfer's: the
    reduction itself goes toward zero whatever it is. -/
inductive Change where
  | fill (side : OrderSide) (qty price : ℚ)
  | transferOut (side : OrderSide) (qty : ℚ)
  deriving DecidableEq, Repr

def Change.apply (change : Change) (p : PositionMath) : PositionMath :=
  match change with
  | .fill side qty price => p.applyFill side qty price
  | .transferOut _ qty => p.reduceAtCost qty

def fillChanges (portfolioId instrumentId : String) (side : OrderSide) (qty price : ℚ) :
    List (PositionKey × Change) :=
  [(⟨portfolioId, instrumentId⟩, .fill side qty price)]

def transferChanges (fromPortfolio toPortfolio instrumentId : String) (side : OrderSide)
    (qty price : ℚ) : List (PositionKey × Change) :=
  [(⟨fromPortfolio, instrumentId⟩, .transferOut side qty),
    (⟨toPortfolio, instrumentId⟩, .fill side qty price)]

def allocationChanges (fromPortfolio instrumentId : String) (side : OrderSide) (price : ℚ)
    (splits : List (String × ℚ)) : List (PositionKey × Change) :=
  splits.flatMap fun split =>
    transferChanges fromPortfolio split.1 instrumentId side split.2 price

theorem persist_fill_settles (db : OrderDb) (side : OrderSide) (execution : Execution) :
    (persistFill db side execution).position =
      settle .flat Change.apply db.position [.fill side execution.qty execution.price] := rfl

def Change.adds (change : Change) (netQty : ℚ) : ℚ :=
  match change with
  | .fill side qty _ => side.signed qty
  | .transferOut _ qty => -((if netQty ≥ 0 then 1 else -1) * qty)

def addsUp (netQty : ℚ) : List Change → ℚ
  | [] => 0
  | change :: changes => change.adds netQty + addsUp (netQty + change.adds netQty) changes

def Change.signedQty : Change → ℚ
  | .fill side qty _ => side.signed qty
  | .transferOut side qty => -side.signed qty

def OnItsSide (netQty : ℚ) : List Change → Prop
  | [] => True
  | change :: changes =>
    (∀ side qty, change = .transferOut side qty → (side = .buy ↔ 0 ≤ netQty)) ∧
      OnItsSide (netQty + change.adds netQty) changes

theorem change_net (change : Change) (p : PositionMath) :
    (change.apply p).netQty = p.netQty + change.adds p.netQty := by
  cases change with
  | fill side qty price => exact apply_fill_net p side qty price
  | transferOut side qty =>
    simp only [Change.apply, Change.adds, reduce_at_cost_net]
    ring

theorem settle_net (row : Option PositionMath) (changes : List Change) :
    positionQty (settle .flat Change.apply row changes) =
      positionQty row + addsUp (positionQty row) changes := by
  induction changes generalizing row with
  | nil => simp [settle, addsUp]
  | cons change changes ih =>
    have first : positionQty (some (change.apply (row.getD .flat))) =
        positionQty row + change.adds (positionQty row) := by
      cases row with
      | none => exact change_net change .flat
      | some p => exact change_net change p
    have rest := ih (some (change.apply (row.getD .flat)))
    simp only [settle, List.foldl_cons] at rest ⊢
    rw [rest, first, addsUp]
    ring

/-- On its own side, reducing toward zero is the transfer's own sign. -/
theorem adds_up_signed {netQty : ℚ} {changes : List Change} (sided : OnItsSide netQty changes) :
    addsUp netQty changes = (changes.map Change.signedQty).sum := by
  induction changes generalizing netQty with
  | nil => rfl
  | cons change changes ih =>
    rw [addsUp, ih sided.2, List.map_cons, List.sum_cons]
    congr 1
    cases change with
    | fill side qty price => rfl
    | transferOut side qty =>
      have held := sided.1 side qty rfl
      cases side with
      | buy => simp [Change.adds, Change.signedQty, OrderSide.signed, held.mp rfl]
      | sell =>
        have short : ¬ 0 ≤ netQty := fun long => by cases held.mpr long
        simp [Change.adds, Change.signedQty, OrderSide.signed, short]

/-- The net quantity of a key is what it was, plus what was committed since. -/
def NetIsSum (table : PositionKey → Option PositionMath)
    (s : State PositionKey PositionMath Change) (key : PositionKey) : Prop :=
  let start := positionQty (table key)
  let changes := changesAt key s.history
  positionQty (s.table key) = start + addsUp start changes ∧
    (OnItsSide start changes →
      positionQty (s.table key) = start + (changes.map Change.signedQty).sum)

/-- In every interleaving in which no upsert meets a row its load missed, every
    position is the sum of its committed changes. -/
theorem net_is_sum_of_changes (table : PositionKey → Option PositionMath)
    (as : List (Action PositionKey Change))
    (steps : Along (step .flat Change.apply) (fun s a => ¬ MeetsMissedRow s a) (.start table) as) :
    Throughout (step .flat Change.apply) (fun s => ∀ key, NetIsSum table s key)
      (.start table) as := by
  refine throughout_mono (fun s serially key => ?_) (committed_is_serial _ _ table steps)
  have net : positionQty (s.table key) = positionQty (table key) +
      addsUp (positionQty (table key)) (changesAt key s.history) := by
    rw [congrFun serially key]
    exact settle_net (table key) (changesAt key s.history)
  exact ⟨net, fun sided => by rw [net, adds_up_signed sided]⟩

/-- A transaction run from its load to its commit, `i` being its place. -/
def through (i : Nat) : List (Action PositionKey Change) := [.load i, .upsert i]

def noPositions : PositionKey → Option PositionMath := fun _ => none

def held : PositionKey := ⟨"p1", "i1"⟩

/-- Ten bought on a new key, four of them allocated to another portfolio while a
    second fill waits for the row. -/
def fillThenAllocate : List (Action PositionKey Change) :=
  .begin (fillChanges "p1" "i1" .buy 10 100) :: through 0 ++ [.commit 0] ++
    [.begin (allocationChanges "p1" "i1" .buy 100 [("p2", 4)]),
      .begin (fillChanges "p1" "i1" .buy 5 101)] ++
    through 0 ++ through 0 ++ [.commit 0] ++ through 0 ++ [.commit 0]

theorem fill_then_allocate_sums :
    Throughout (step .flat Change.apply) (fun s => ∀ key, NetIsSum noPositions s key)
      (.start noPositions) fillThenAllocate :=
  net_is_sum_of_changes noPositions fillThenAllocate (by decide +kernel)

/-- Two first fills of one key: both load no row, and the second overwrites the first. -/
theorem first_fills_lose_update :
    ¬ ∀ as, Throughout (step .flat Change.apply) (fun s => ∀ key, NetIsSum noPositions s key)
      (.start noPositions) as := by
  intro always
  have last := throughout_end (always [.begin (fillChanges "p1" "i1" .buy 10 100),
    .begin (fillChanges "p1" "i1" .buy 5 100), .load 0, .load 1, .upsert 0, .commit 0, .upsert 0,
    .commit 0])
  have sums := fun s ends => (last s ends held).1
  revert sums
  decide +kernel

end OmsPositionWriters
