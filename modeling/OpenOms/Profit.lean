import OpenOms.Positions
import Mathlib.Algebra.BigOperators.Group.List.Basic
import Mathlib.Tactic.FieldSimp
import Mathlib.Tactic.Linarith
import Mathlib.Tactic.Positivity
import Mathlib.Tactic.Ring

/-!
What the position projection is for: the profit of the fills, realized and, at a
mark, unrealized.
-/
namespace OmsProfit
open OmsOrders OmsPositions

structure Fill where
  side : OrderSide
  qty : ℚ
  price : ℚ
  positive : 0 < qty
  deriving DecidableEq, Repr

def Fill.signedQty (fill : Fill) : ℚ := fill.side.signed fill.qty

def Fill.gain (fill : Fill) (mark : ℚ) : ℚ := fill.signedQty * (mark - fill.price)

def book (fills : List Fill) : PositionMath :=
  fills.foldl (fun p fill => p.applyFill fill.side fill.qty fill.price) .flat

def worth (p : PositionMath) (mark : ℚ) : ℚ := p.realizedPnl + p.netQty * (mark - p.avgCost)

@[simp] theorem book_nil : book [] = .flat := rfl

@[simp] theorem book_snoc (fills : List Fill) (fill : Fill) :
    book (fills ++ [fill]) = (book fills).applyFill fill.side fill.qty fill.price := by
  simp [book]

/-- The branches of `apply_fill`, by what the fill finds on its own side or
    against it. -/
inductive Takes (p : PositionMath) (fill : Fill) : PositionMath → Prop where
  | opens (flat : p.netQty = 0) : Takes p fill ⟨fill.signedQty, fill.price, p.realizedPnl⟩
  | adds (size : ℚ) (held : p.netQty = fill.side.signed size) (some_ : 0 < size) :
      Takes p fill ⟨fill.side.signed (size + fill.qty),
        (size * p.avgCost + fill.qty * fill.price) / (size + fill.qty), p.realizedPnl⟩
  | reduces (left : ℚ) (held : p.netQty = -fill.side.signed (fill.qty + left)) (rest : 0 ≤ left) :
      Takes p fill ⟨-fill.side.signed left, if left = 0 then 0 else p.avgCost,
        p.realizedPnl - fill.signedQty * (fill.price - p.avgCost)⟩
  | flips (size rest : ℚ) (held : p.netQty = -fill.side.signed size) (some_ : 0 < size)
      (split : fill.qty = size + rest) (over_ : 0 < rest) :
      Takes p fill ⟨fill.side.signed rest, fill.price,
        p.realizedPnl - fill.side.signed size * (fill.price - p.avgCost)⟩

theorem signed_zero_iff (side : OrderSide) (qty : ℚ) : side.signed qty = 0 ↔ qty = 0 := by
  cases side <;> simp [OrderSide.signed]

theorem signed_pos_iff {side : OrderSide} {qty : ℚ} (positive : 0 < qty) :
    0 < side.signed qty ↔ side = .buy := by
  cases side <;> simp [OrderSide.signed, positive, positive.le]

theorem held_cases {net : ℚ} (held : net ≠ 0) (side : OrderSide) :
    (net = side.signed |net| ∧ (0 < net ↔ side = .buy)) ∨
      (net = -side.signed |net| ∧ (0 < net ↔ side = .sell)) := by
  rcases lt_or_gt_of_ne held with short | long
  · cases side <;> simp [OrderSide.signed, abs_of_neg short, short.le]
  · cases side <;> simp [OrderSide.signed, abs_of_pos long, long]

theorem signed_add (side : OrderSide) (a b : ℚ) :
    side.signed (a + b) = side.signed a + side.signed b := by
  cases side
  · rfl
  · exact neg_add a b

theorem apply_fill_takes (p : PositionMath) (fill : Fill) :
    Takes p fill (p.applyFill fill.side fill.qty fill.price) := by
  have bought : 0 < fill.side.signed fill.qty ↔ fill.side = .buy := signed_pos_iff fill.positive
  by_cases flat : p.netQty = 0
  · have taken : Takes p fill _ := .opens flat
    simpa [PositionMath.applyFill, flat, Fill.signedQty] using taken
  rcases held_cases flat fill.side with ⟨held, sign⟩ | ⟨held, sign⟩
  · have same : decide (p.netQty > 0) = decide (fill.side.signed fill.qty > 0) :=
      decide_eq_decide.mpr (sign.trans bought.symm)
    have taken := Takes.adds |p.netQty| held (abs_pos.mpr flat)
    rw [signed_add, ← held] at taken
    simpa only [PositionMath.applyFill, if_neg flat, if_pos same] using taken
  have against : ¬ decide (p.netQty > 0) = decide (fill.side.signed fill.qty > 0) := by
    rw [decide_eq_decide, gt_iff_lt, sign, gt_iff_lt, bought]
    cases fill.side <;> simp
  have signN : ∀ qty, qty * (if p.netQty > 0 then (1 : ℚ) else -1) = -fill.side.signed qty := by
    intro qty
    simp only [gt_iff_lt, sign]
    cases fill.side <;> simp [OrderSide.signed]
  by_cases covered : fill.qty ≤ |p.netQty|
  · have all : fill.qty + (|p.netQty| - fill.qty) = |p.netQty| := by ring
    have taken : Takes p fill _ := .reduces (|p.netQty| - fill.qty)
      (by rw [all]; exact held) (sub_nonneg.mpr covered)
    have net : -fill.side.signed (|p.netQty| - fill.qty) =
        p.netQty + fill.side.signed fill.qty := by
      rw [sub_eq_add_neg, signed_add, neg_add, ← held]
      cases fill.side <;> simp [OrderSide.signed]
    have emptied : |p.netQty| - fill.qty = 0 ↔ p.netQty + fill.side.signed fill.qty = 0 := by
      rw [← net, neg_eq_zero, signed_zero_iff]
    have realized : fill.qty * (fill.price - p.avgCost) * (if p.netQty > 0 then 1 else -1) =
        -(fill.signedQty * (fill.price - p.avgCost)) := by
      rw [mul_right_comm, signN, neg_mul]
      rfl
    simp only [net, emptied] at taken
    simpa only [PositionMath.applyFill, if_neg flat, if_neg against, if_pos covered,
      min_eq_left covered, realized, ← sub_eq_add_neg] using taken
  · have less := not_le.mp covered
    have taken : Takes p fill _ := .flips |p.netQty| (fill.qty - |p.netQty|) held
      (abs_pos.mpr flat) (by ring) (sub_pos.mpr less)
    have net : (if fill.side.signed fill.qty > 0 then fill.qty - |p.netQty|
        else -(fill.qty - |p.netQty|)) = fill.side.signed (fill.qty - |p.netQty|) := by
      simp only [gt_iff_lt, bought]
      cases fill.side <;> simp [OrderSide.signed]
    have realized : |p.netQty| * (fill.price - p.avgCost) * (if p.netQty > 0 then 1 else -1) =
        -(fill.side.signed |p.netQty| * (fill.price - p.avgCost)) := by
      rw [mul_right_comm, signN, neg_mul]
    simpa only [PositionMath.applyFill, if_neg flat, if_neg against, if_neg covered,
      min_eq_right less.le, net, realized, ← sub_eq_add_neg] using taken

theorem takes_worth {p q : PositionMath} {fill : Fill} (takes : Takes p fill q) (mark : ℚ) :
    worth q mark = worth p mark + fill.gain mark := by
  cases takes with
  | opens flat => simp [worth, Fill.gain, flat]
  | adds size held some_ =>
    have total : size + fill.qty ≠ 0 := (add_pos some_ fill.positive).ne'
    simp only [worth, Fill.gain, Fill.signedQty, held]
    cases fill.side <;> simp only [OrderSide.signed] <;> field_simp <;> ring
  | reduces left held rest =>
    by_cases emptied : left = 0
    · simp only [worth, Fill.gain, Fill.signedQty, held, emptied, if_true]
      cases fill.side <;> simp only [OrderSide.signed] <;> ring
    · simp only [worth, Fill.gain, Fill.signedQty, held, emptied, if_false]
      cases fill.side <;> simp only [OrderSide.signed] <;> ring
  | flips size rest held some_ split over_ =>
    simp only [worth, Fill.gain, Fill.signedQty, held, split]
    cases fill.side <;> simp only [OrderSide.signed] <;> ring

structure Costed (prices : List ℚ) (p : PositionMath) : Prop where
  flat : p.netQty = 0 → p.avgCost = 0
  low : p.netQty ≠ 0 → ∃ price ∈ prices, price ≤ p.avgCost
  high : p.netQty ≠ 0 → ∃ price ∈ prices, p.avgCost ≤ price

theorem mean_between {a b u v : ℚ} (first : 0 < a) (second : 0 < b) :
    (u ≤ (a * u + b * v) / (a + b) ∨ v ≤ (a * u + b * v) / (a + b)) ∧
      ((a * u + b * v) / (a + b) ≤ u ∨ (a * u + b * v) / (a + b) ≤ v) := by
  have total : 0 < a + b := add_pos first second
  simp only [le_div_iff₀ total, div_le_iff₀ total]
  rcases le_total u v with less | more
  · exact ⟨.inl (by nlinarith), .inr (by nlinarith)⟩
  · exact ⟨.inr (by nlinarith), .inl (by nlinarith)⟩

theorem takes_costed {p q : PositionMath} {fill : Fill} {prices : List ℚ}
    (costed : Costed prices p) (takes : Takes p fill q) : Costed (prices ++ [fill.price]) q := by
  have own : fill.price ∈ prices ++ [fill.price] := by simp
  cases takes with
  | opens flat =>
    refine ⟨?_, fun _ => ⟨_, own, le_rfl⟩, fun _ => ⟨_, own, le_rfl⟩⟩
    intro none_
    exact absurd ((signed_zero_iff _ _).mp none_) fill.positive.ne'
  | adds size held some_ =>
    have holds : p.netQty ≠ 0 := by
      rw [held, Ne, signed_zero_iff]
      exact some_.ne'
    obtain ⟨low, high⟩ := mean_between (u := p.avgCost) (v := fill.price) some_ fill.positive
    refine ⟨?_, fun _ => ?_, fun _ => ?_⟩
    · intro none_
      exact absurd ((signed_zero_iff _ _).mp none_) (add_pos some_ fill.positive).ne'
    · rcases low with cost | price
      · obtain ⟨least, member, le⟩ := costed.low holds
        exact ⟨least, List.mem_append_left _ member, le.trans cost⟩
      · exact ⟨_, own, price⟩
    · rcases high with cost | price
      · obtain ⟨most, member, le⟩ := costed.high holds
        exact ⟨most, List.mem_append_left _ member, cost.trans le⟩
      · exact ⟨_, own, price⟩
  | reduces left held rest =>
    have holds : p.netQty ≠ 0 := by
      rw [held, Ne, neg_eq_zero, signed_zero_iff]
      exact (add_pos_of_pos_of_nonneg fill.positive rest).ne'
    by_cases emptied : left = 0
    · have net : -fill.side.signed left = 0 := by
        rw [neg_eq_zero, signed_zero_iff]
        exact emptied
      exact ⟨fun _ => if_pos emptied, fun open_ => absurd net open_, fun open_ => absurd net open_⟩
    · simp only [if_neg emptied]
      refine ⟨fun none_ => ?_, fun _ => ?_, fun _ => ?_⟩
      · exact absurd ((signed_zero_iff _ _).mp (neg_eq_zero.mp none_)) emptied
      · obtain ⟨least, member, le⟩ := costed.low holds
        exact ⟨least, List.mem_append_left _ member, le⟩
      · obtain ⟨most, member, le⟩ := costed.high holds
        exact ⟨most, List.mem_append_left _ member, le⟩
  | flips size rest held some_ split over_ =>
    refine ⟨?_, fun _ => ⟨_, own, le_rfl⟩, fun _ => ⟨_, own, le_rfl⟩⟩
    intro none_
    exact absurd ((signed_zero_iff _ _).mp none_) over_.ne'

theorem book_costed (fills : List Fill) : Costed (fills.map Fill.price) (book fills) := by
  induction fills using List.reverseRecOn with
  | nil => exact ⟨fun _ => rfl, fun open_ => absurd rfl open_, fun open_ => absurd rfl open_⟩
  | append_singleton fills fill ih =>
    rw [book_snoc, List.map_append]
    exact takes_costed ih (apply_fill_takes _ fill)

theorem book_worth (fills : List Fill) (mark : ℚ) :
    worth (book fills) mark = (fills.map (·.gain mark)).sum := by
  induction fills using List.reverseRecOn with
  | nil => simp [worth, PositionMath.flat]
  | append_singleton fills fill ih =>
    rw [book_snoc, takes_worth (apply_fill_takes _ fill), ih]
    simp

theorem book_net (fills : List Fill) :
    (book fills).netQty = (fills.map Fill.signedQty).sum := by
  induction fills using List.reverseRecOn with
  | nil => rfl
  | append_singleton fills fill ih =>
    rw [book_snoc, apply_fill_net, ih]
    simp [Fill.signedQty]

/-- The holding is the fills' sum, its cost between two of their prices, and the
    profit is what each of them has gained at the mark, in whatever order. -/
theorem position_profit (fills : List Fill) (mark : ℚ) :
    (book fills).netQty = (fills.map Fill.signedQty).sum ∧
      ((book fills).netQty = 0 → (book fills).avgCost = 0) ∧
      ((book fills).netQty ≠ 0 →
        (∃ fill ∈ fills, fill.price ≤ (book fills).avgCost) ∧
          ∃ fill ∈ fills, (book fills).avgCost ≤ fill.price) ∧
      worth (book fills) mark = (fills.map (·.gain mark)).sum ∧
      ∀ other : List Fill, other.Perm fills →
        worth (book other) mark = worth (book fills) mark := by
  have costed := book_costed fills
  refine ⟨book_net fills, costed.flat, fun open_ => ⟨?_, ?_⟩, book_worth fills mark, ?_⟩
  · obtain ⟨_, member, le⟩ := costed.low open_
    obtain ⟨fill, there, rfl⟩ := List.mem_map.mp member
    exact ⟨fill, there, le⟩
  · obtain ⟨_, member, le⟩ := costed.high open_
    obtain ⟨fill, there, rfl⟩ := List.mem_map.mp member
    exact ⟨fill, there, le⟩
  · intro other same
    rw [book_worth, book_worth]
    exact (same.map _).sum_eq

end OmsProfit
