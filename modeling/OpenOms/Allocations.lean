import OpenOms.OrderEntry
import OpenOms.Systems.PositionWriters
import Mathlib.Data.List.Dedup

/-!
Allocating a block order's fills: the checks `create_allocations` makes of the
order, the splits and the quantity already allocated, and the transfers of its
transaction. A request is checked against the order's filled quantity, never
against the position the quantity is taken out of.
-/
namespace OmsAllocations
open OmsOrders OmsPositions OmsOrderStore OmsOrderEntry OmsRiskEngine OmsPositionWriters
open ReadCommitted

structure AllocationSplit where
  portfolioId : String
  qty : ℚ
  deriving DecidableEq, Repr

structure Allocation where
  orderId : String
  fromPortfolioId : String
  toPortfolioId : String
  instrumentId : String
  qty : ℚ
  price : ℚ
  deriving DecidableEq, Repr

structure Block where
  orderId : String
  fromPortfolio : String
  instrumentId : String
  side : OrderSide
  cumQty : ℚ
  price : ℚ
  deriving DecidableEq, Repr

abbrev Positions := PositionKey → Option PositionMath

def load (positions : Positions) (key : PositionKey) : PositionMath := (positions key).getD .flat

def upsert (positions : Positions) (key : PositionKey) (p : PositionMath) : Positions :=
  Function.update positions key (some p)

def persistTransfer (positions : Positions) (fromPortfolio toPortfolio instrumentId : String)
    (side : OrderSide) (qty price : ℚ) : Positions :=
  let source := (load positions ⟨fromPortfolio, instrumentId⟩).reduceAtCost qty
  let positions := upsert positions ⟨fromPortfolio, instrumentId⟩ source
  let target := (load positions ⟨toPortfolio, instrumentId⟩).applyFill side qty price
  upsert positions ⟨toPortfolio, instrumentId⟩ target

def loadBlock (orderId : String) (row : Option OrderRow) : Except ApiError Block :=
  match row with
  | none => .error ⟨404, "order not found"⟩
  | some row =>
    if row.cumQty ≤ 0 then .error ⟨422, "order has no filled quantity to allocate"⟩
    else
      match row.avgPx with
      | none => .error ⟨422, "order has no fill price"⟩
      | some price =>
        .ok ⟨orderId, row.portfolioId, row.instrumentId, row.side, row.cumQty, price⟩

def tolerance : ℚ := 1 / 1000000000

def totalQty (splits : List AllocationSplit) : ℚ := (splits.map (·.qty)).sum

/-- `SELECT COALESCE(SUM(qty), 0) FROM allocation WHERE order_id = $1`. -/
def allocatedQty (orderId : String) (allocations : List Allocation) : ℚ :=
  ((allocations.filter fun allocation => allocation.orderId = orderId).map (·.qty)).sum

def checkSplits (canAllocate : Bool) (block : Block) (splits : List AllocationSplit)
    (already : ℚ) (portfolios : List String) : Except ApiError Unit :=
  if !canAllocate then .error ⟨403, "unauthorized"⟩
  else if splits.isEmpty then .error ⟨422, "no splits provided"⟩
  else if splits.any fun split => split.qty ≤ 0 then .error ⟨422, "split qty must be > 0"⟩
  else if already + totalQty splits > block.cumQty + tolerance then
    .error ⟨422, "over-allocation: would exceed the filled quantity"⟩
  else
    let targetIds := (splits.map (·.portfolioId)).dedup
    let existing := (portfolios.filter fun id => id ∈ targetIds).length
    if existing ≠ targetIds.length then .error ⟨422, "a target portfolio does not exist"⟩
    else .ok ()

def Block.allocation (block : Block) (split : AllocationSplit) : Allocation :=
  ⟨block.orderId, block.fromPortfolio, split.portfolioId, block.instrumentId, split.qty,
    block.price⟩

def Block.transfer (block : Block) (positions : Positions) (split : AllocationSplit) : Positions :=
  persistTransfer positions block.fromPortfolio split.portfolioId block.instrumentId block.side
    split.qty block.price

def allocate (block : Block) (splits : List AllocationSplit)
    (stored : List Allocation × Positions) : List Allocation × Positions :=
  splits.foldl
    (fun stored split => (stored.1 ++ [block.allocation split], block.transfer stored.2 split))
    stored

structure Admits (block : Block) (splits : List AllocationSplit) (already : ℚ) : Prop where
  positive : ∀ split ∈ splits, 0 < split.qty
  capped : already + totalQty splits ≤ block.cumQty + tolerance

theorem check_splits_admits {canAllocate : Bool} {block : Block} {splits : List AllocationSplit}
    {already : ℚ} {portfolios : List String}
    (passes : checkSplits canAllocate block splits already portfolios = .ok ()) :
    Admits block splits already := by
  unfold checkSplits at passes
  split at passes
  · cases passes
  split at passes
  · cases passes
  split at passes
  · cases passes
  rename_i positive
  split at passes
  · cases passes
  rename_i capped
  refine ⟨?_, not_lt.mp capped⟩
  intro split member
  by_contra empty
  exact positive (List.any_eq_true.mpr ⟨split, member, by simpa using empty⟩)

theorem load_block_ok {orderId : String} {row : Option OrderRow} {block : Block}
    (loads : loadBlock orderId row = .ok block) :
    block.orderId = orderId ∧ ∃ stored, row = some stored ∧ block.cumQty = stored.cumQty := by
  unfold loadBlock at loads
  split at loads
  · cases loads
  · rename_i stored
    split at loads
    · cases loads
    · split at loads
      · cases loads
      · cases loads
        exact ⟨rfl, stored, rfl, rfl⟩

theorem allocated_qty_append (orderId : String) (early late : List Allocation) :
    allocatedQty orderId (early ++ late) =
      allocatedQty orderId early + allocatedQty orderId late := by
  simp [allocatedQty]

theorem allocate_eq (block : Block) (splits : List AllocationSplit)
    (stored : List Allocation × Positions) :
    allocate block splits stored =
      (stored.1 ++ splits.map block.allocation, splits.foldl block.transfer stored.2) := by
  induction splits generalizing stored with
  | nil => simp [allocate]
  | cons split splits ih =>
    have rest := ih (stored.1 ++ [block.allocation split], block.transfer stored.2 split)
    simpa [allocate] using rest

theorem allocated_qty_of_block (block : Block) (splits : List AllocationSplit)
    (orderId : String) :
    allocatedQty orderId (splits.map block.allocation) =
      if block.orderId = orderId then totalQty splits else 0 := by
  induction splits with
  | nil => simp [allocatedQty, totalQty]
  | cons split splits ih =>
    rw [List.map_cons, ← List.singleton_append, allocated_qty_append, ih]
    by_cases own : block.orderId = orderId
    · simp [allocatedQty, totalQty, Block.allocation, own]
    · simp [allocatedQty, Block.allocation, own]

theorem transfer_serial (block : Block) (positions : Positions) (split : AllocationSplit) :
    block.transfer positions split =
      serial .flat Change.apply positions (transferChanges block.fromPortfolio split.portfolioId
        block.instrumentId block.side split.qty block.price) := by
  funext key
  rw [transferChanges, ← List.singleton_append, serial_append, serial_at, serial_at]
  by_cases target : key = ⟨split.portfolioId, block.instrumentId⟩
  · subst target
    simp [Block.transfer, persistTransfer, upsert, load, Change.apply, Function.update_apply]
  · rw [serial_at]
    by_cases source : key = ⟨block.fromPortfolio, block.instrumentId⟩
    · subst source
      simp [Block.transfer, persistTransfer, upsert, target, Change.apply, load]
    · simp [Block.transfer, persistTransfer, upsert, target, source]

theorem transfers_serial (block : Block) (positions : Positions) (splits : List AllocationSplit) :
    splits.foldl block.transfer positions =
      serial .flat Change.apply positions (allocationChanges block.fromPortfolio
        block.instrumentId block.side block.price
        (splits.map fun split => (split.portfolioId, split.qty))) := by
  induction splits generalizing positions with
  | nil => funext key; rfl
  | cons split splits ih =>
    rw [List.foldl_cons, ih, transfer_serial, ← serial_append]
    rfl

def netAt (positions : Positions) (key : PositionKey) : ℚ := positionQty (positions key)

def Block.source (block : Block) : PositionKey := ⟨block.fromPortfolio, block.instrumentId⟩

def Block.target (block : Block) (split : AllocationSplit) : PositionKey :=
  ⟨split.portfolioId, block.instrumentId⟩

/-- What a transfer between two portfolios should be: it conserves their
    quantity and takes no more than the source holds. -/
structure Lawful (block : Block) (positions : Positions) (split : AllocationSplit) : Prop where
  conserves : netAt (block.transfer positions split) block.source +
      netAt (block.transfer positions split) (block.target split) =
    netAt positions block.source + netAt positions (block.target split)
  towardZero : TowardZero (netAt positions block.source)
    (netAt (block.transfer positions split) block.source)

instance (block : Block) (positions : Positions) (split : AllocationSplit) :
    Decidable (Lawful block positions split) :=
  decidable_of_iff (_ ∧ _) ⟨fun both => ⟨both.1, both.2⟩, fun lawful => ⟨lawful.1, lawful.2⟩⟩

/-- The source holds the split's quantity, on the order's own side. -/
def Covered (block : Block) (positions : Positions) (split : AllocationSplit) : Prop :=
  split.qty ≤ block.side.signed (netAt positions block.source)

instance (block : Block) (positions : Positions) (split : AllocationSplit) :
    Decidable (Covered block positions split) := by
  unfold Covered
  infer_instance

theorem transfer_nets {block : Block} {split : AllocationSplit}
    (apart : split.portfolioId ≠ block.fromPortfolio) (positions : Positions) :
    netAt (block.transfer positions split) block.source =
        netAt positions block.source -
          (if netAt positions block.source ≥ 0 then 1 else -1) * split.qty ∧
      netAt (block.transfer positions split) (block.target split) =
        netAt positions (block.target split) + block.side.signed split.qty := by
  have away : block.source ≠ block.target split := by
    intro same
    exact apart (congrArg PositionKey.portfolioId same).symm
  have loaded : ∀ key, (load positions key).netQty = netAt positions key := by
    intro key
    simp only [load, netAt]
    cases positions key <;> rfl
  have elsewhere : load (upsert positions block.source
      ((load positions block.source).reduceAtCost split.qty)) (block.target split) =
      load positions (block.target split) := by
    simp [load, upsert, Function.update_of_ne away.symm]
  have written : ∀ (positions : Positions) key p,
      netAt (upsert positions key p) key = p.netQty := by
    intro positions key p
    simp [netAt, upsert, positionQty]
  have kept : netAt (block.transfer positions split) block.source =
      netAt (upsert positions block.source
        ((load positions block.source).reduceAtCost split.qty)) block.source :=
    congrArg positionQty (Function.update_of_ne away _ _)
  constructor
  · rw [kept, written, reduce_at_cost_net, loaded]
  · rw [← loaded, ← apply_fill_net _ _ _ block.price, ← elsewhere]
    exact written _ (block.target split) _

/-- A transfer is lawful exactly when its source covers it: reducing goes by the
    source's sign, filling by the order's side. -/
theorem transfer_lawful_iff {block : Block} {split : AllocationSplit}
    (positive : 0 < split.qty) (apart : split.portfolioId ≠ block.fromPortfolio)
    (positions : Positions) : Lawful block positions split ↔ Covered block positions split := by
  obtain ⟨source, target⟩ := transfer_nets apart positions
  constructor
  · rintro ⟨conserves, grows, shrinks⟩
    rw [source, target] at conserves
    rw [source] at grows shrinks
    unfold Covered
    by_cases long : netAt positions block.source ≥ 0
    · have left := grows long
      cases side : block.side <;> simp only [side, long, if_true, OrderSide.signed] at * <;>
        linarith
    · have left := shrinks (not_le.mp long).le
      cases side : block.side <;> simp only [side, long, if_false, OrderSide.signed] at * <;>
        linarith
  · intro covered
    unfold Covered at covered
    rw [show Lawful block positions split ↔ _ from
        ⟨fun l => And.intro l.1 l.2, fun l => ⟨l.1, l.2⟩⟩,
      source, target]
    cases side : block.side with
    | buy =>
      simp only [side, OrderSide.signed] at covered ⊢
      have long : netAt positions block.source ≥ 0 := by linarith
      rw [if_pos long]
      refine ⟨by ring, fun _ => ⟨by linarith, by linarith⟩, fun short => ⟨by linarith, by linarith⟩⟩
    | sell =>
      simp only [side, OrderSide.signed] at covered ⊢
      have short : ¬ netAt positions block.source ≥ 0 := by
        intro long
        linarith
      rw [if_neg short]
      refine ⟨by ring, fun long => absurd long short, fun _ => ⟨by linarith, by linarith⟩⟩

end OmsAllocations
