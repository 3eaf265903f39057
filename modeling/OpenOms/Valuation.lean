import OpenOms.Marks
import OpenOms.Profit

/-!
The position endpoint: what it reports of a stored position, with the open part
valued at the live mark, and what it reports once that part is closed there.
-/
namespace OmsValuation
open OmsOrders OmsPositions OmsProfit OmsMarks

structure Valuation where
  marketValue : ℚ
  unrealizedPnl : ℚ
  deriving DecidableEq, Repr

/-- Mark-to-market of an open position; `contractSize` scales into money. -/
def value (netQty avgCost contractSize mid : ℚ) : Valuation :=
  { marketValue := netQty * mid * contractSize
    unrealizedPnl := (mid - avgCost) * netQty * contractSize }

structure PositionRow where
  portfolioId : String
  instrumentId : Int
  math : PositionMath
  updatedAt : Int
  deriving DecidableEq, Repr

structure Instrument where
  id : Int
  contractSize : ℚ
  deriving DecidableEq, Repr

structure Position where
  portfolioId : String
  instrumentId : Int
  netQty : ℚ
  avgCost : ℚ
  realizedPnl : ℚ
  updatedAt : Int
  mark : Option ℚ
  marketValue : Option ℚ
  unrealizedPnl : Option ℚ
  markTs : Option Int
  deriving DecidableEq, Repr

def report (contractSize : ℚ) (mark : Option Mark) (r : PositionRow) : Position :=
  let mid := mark.map Mark.mid
  let valuation := mid.map fun mid => value r.math.netQty r.math.avgCost contractSize mid
  { portfolioId := r.portfolioId
    instrumentId := r.instrumentId
    netQty := r.math.netQty
    avgCost := r.math.avgCost
    realizedPnl := r.math.realizedPnl
    updatedAt := r.updatedAt
    mark := mid
    marketValue := valuation.map Valuation.marketValue
    unrealizedPnl := valuation.map Valuation.unrealizedPnl
    markTs := mark.map Mark.ts }

def contractSizeOf (instruments : List Instrument) (instrumentId : Int) : ℚ :=
  ((instruments.find? (·.id = instrumentId)).map Instrument.contractSize).getD 1

def getPortfolioPositions (canView : Bool) (rows : List PositionRow)
    (instruments : List Instrument) (marks : MarkStore) (portfolioId : String) :
    Option (List Position) :=
  if canView then
    let own := rows.filter (·.portfolioId = portfolioId)
    let ordered := own.mergeSort fun a b => toString a.instrumentId ≤ toString b.instrumentId
    some (ordered.map fun r =>
      report (contractSizeOf instruments r.instrumentId) (marks.get r.instrumentId) r)
  else none

/-- The endpoint's rows are the portfolio's stored ones, each valued by itself. -/
theorem mem_positions {rows : List PositionRow} {instruments : List Instrument}
    {marks : MarkStore} {portfolioId : String} {answer : List Position}
    (answered : getPortfolioPositions true rows instruments marks portfolioId = some answer)
    (p : Position) : p ∈ answer ↔ ∃ r ∈ rows, r.portfolioId = portfolioId ∧
      p = report (contractSizeOf instruments r.instrumentId) (marks.get r.instrumentId) r := by
  simp only [getPortfolioPositions, if_true, Option.some.injEq] at answered
  subst answered
  simp only [List.mem_map, List.mem_mergeSort, List.mem_filter, decide_eq_true_eq]
  constructor
  · intro listed
    obtain ⟨r, ⟨stored, own⟩, same⟩ := listed
    exact ⟨r, stored, own, same.symm⟩
  · intro stored
    obtain ⟨r, stored, own, same⟩ := stored
    exact ⟨r, ⟨stored, own⟩, same.symm⟩

def closing (p : PositionMath) (price : ℚ) : Option Fill :=
  if open_ : p.netQty = 0 then none
  else some ⟨if p.netQty > 0 then .sell else .buy, |p.netQty|, price, abs_pos.mpr open_⟩

/-- Across the close the unrealized P&L turns into realized P&L and nothing is
    gained or lost. -/
structure Realizes (before after : Position) : Prop where
  grows : ∀ u ∈ before.unrealizedPnl, after.realizedPnl = before.realizedPnl + u
  nothingOpen : after.unrealizedPnl = some 0
  continuous : ∀ u ∈ before.unrealizedPnl, ∀ v ∈ after.unrealizedPnl,
    after.realizedPnl + v = before.realizedPnl + u

theorem closing_signed {p : PositionMath} {price : ℚ} {fill : Fill}
    (closes : closing p price = some fill) :
    p.netQty ≠ 0 ∧ p.netQty = -fill.signedQty ∧ fill.price = price := by
  unfold closing at closes
  split at closes
  · cases closes
  · rename_i open_
    cases closes
    refine ⟨open_, ?_, rfl⟩
    rcases lt_or_gt_of_ne open_ with short | long
    · simp [Fill.signedQty, OrderSide.signed, abs_of_neg short, short.not_gt]
    · simp [Fill.signedQty, OrderSide.signed, abs_of_pos long, long]

/-- A fill of the whole position leaves nothing open, and what it gained in units
    of the underlying realized. -/
theorem apply_closing {p : PositionMath} {price : ℚ} {fill : Fill}
    (closes : closing p price = some fill) :
    p.applyFill fill.side fill.qty fill.price =
      ⟨0, 0, p.realizedPnl + p.netQty * (price - p.avgCost)⟩ := by
  obtain ⟨open_, net, priced⟩ := closing_signed closes
  have takes := apply_fill_takes p fill
  have left := apply_fill_net p fill.side fill.qty fill.price
  have gone : p.netQty + fill.side.signed fill.qty = 0 := by
    rw [net, Fill.signedQty]
    ring
  rw [gone] at left
  generalize p.applyFill fill.side fill.qty fill.price = q at takes left ⊢
  cases takes with
  | opens flat => exact absurd flat open_
  | adds size held some_ =>
    have emptied := (signed_zero_iff _ _).mp left
    have sized := fill.positive
    linarith
  | reduces rest held positive =>
    have emptied : rest = 0 := (signed_zero_iff _ _).mp (neg_eq_zero.mp left)
    have realized : fill.signedQty = -p.netQty := by
      rw [net]
      ring
    simp only [emptied, if_true, realized, priced, PositionMath.mk.injEq, true_and]
    constructor
    · exact (by cases fill.side <;> simp [OrderSide.signed])
    · ring
  | flips size rest held some_ split over_ =>
    have emptied := (signed_zero_iff _ _).mp left
    linarith

/-- Realized P&L is kept in units of the underlying and unrealized P&L in money, so
    a close at the mark carries one over into the other only where the two agree. -/
theorem realizes_at_mark_iff (fills : List Fill) (contractSize : ℚ) (mark : Mark)
    (portfolioId : String) (instrumentId updatedAt closedAt : Int) :
    (∀ fill ∈ closing (book fills) mark.mid,
        Realizes
          (report contractSize (some mark) ⟨portfolioId, instrumentId, book fills, updatedAt⟩)
          (report contractSize (some mark)
            ⟨portfolioId, instrumentId, book (fills ++ [fill]), closedAt⟩)) ↔
      (book fills).netQty = 0 ∨ contractSize = 1 ∨ (book fills).avgCost = mark.mid := by
  cases closes : closing (book fills) mark.mid with
  | none =>
    have flat : (book fills).netQty = 0 := by
      by_contra open_
      simp [closing, open_] at closes
    simp [flat]
  | some fill =>
    have open_ := (closing_signed closes).1
    have closed := apply_closing closes
    simp only [Option.mem_some_iff, forall_eq', open_, false_or, book_snoc, closed]
    have units : (book fills).netQty * (mark.mid - (book fills).avgCost) =
          (mark.mid - (book fills).avgCost) * (book fills).netQty * contractSize ↔
        contractSize = 1 ∨ (book fills).avgCost = mark.mid := by
      have parted : (mark.mid - (book fills).avgCost) * (book fills).netQty * contractSize -
          (book fills).netQty * (mark.mid - (book fills).avgCost) =
            (contractSize - 1) * ((mark.mid - (book fills).avgCost) * (book fills).netQty) := by
        ring
      rw [eq_comm, ← sub_eq_zero, parted, mul_eq_zero, mul_eq_zero, sub_eq_zero, sub_eq_zero]
      simp only [open_, or_false, eq_comm (a := mark.mid)]
    constructor
    · intro realizes
      have grows := realizes.grows _ rfl
      simp only [report, Option.map_some, value, add_right_inj] at grows
      exact units.mp grows
    · intro agree
      have same := units.mpr agree
      refine ⟨?_, ?_, ?_⟩
      · intro u unrealized
        simp only [report, Option.map_some, value, Option.mem_some_iff] at unrealized ⊢
        rw [same, unrealized]
      · simp [report, value]
      · intro u unrealized v left
        simp only [report, Option.map_some, value, Option.mem_some_iff] at unrealized left ⊢
        rw [same, unrealized, ← left]
        ring

def twoCalls : List Fill := [⟨.buy, 2, 3, by decide⟩]

/-- The endpoint reports 400 unrealized, and 4 realized once they are sold. -/
theorem close_of_calls_realizes_in_units :
    ¬ ∀ fill ∈ closing (book twoCalls) 5,
      Realizes (report 100 (some ⟨5, 5, 0⟩) ⟨"FUND", 7, book twoCalls, 1⟩)
        (report 100 (some ⟨5, 5, 0⟩) ⟨"FUND", 7, book (twoCalls ++ [fill]), 2⟩) := by
  intro realizes
  have grows := (realizes ⟨.sell, 2, 5, by decide⟩ (by decide +kernel)).grows 400 (by decide +kernel)
  exact absurd grows (by decide +kernel)

end OmsValuation
