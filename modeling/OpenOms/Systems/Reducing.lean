import OpenOms.Library.Lists
import OpenOms.Library.Runs
import OpenOms.Strategies.Guard
import OpenOms.Scope

/-!
One scope while its trading is reducing. The gate looks at an order's side
against the filled position, once, before the order is inserted; the orders it
lets in fill afterwards, each for all of its quantity.
-/
namespace OmsReducing
open OmsOrders OmsAggregate OmsPositions OmsOrderStore OmsExecution OmsOrderEntry OmsOrderWrites
open OmsOrderEngine OmsRisk OmsRiskEngine OmsGuard OmsScope Lists Runs

inductive Gate where
  | scope (config : RiskConfig)
  | strategy (owner : Strategy) (row : Option RiskConfig) (quoteCurrency : String)
      (mark : Option Mark)
  deriving DecidableEq, Repr

def Gate.check (gate : Gate) (exposure : Exposure) (cmd : SubmitOrder) (contractSize : ℚ) :
    Except RiskRejection Unit :=
  match gate with
  | .scope config => checkSubmit (some config) exposure cmd contractSize
  | .strategy owner row quoteCurrency mark =>
    OmsGuard.check owner row exposure cmd quoteCurrency mark contractSize

def Gate.IsReducing : Gate → Prop
  | .scope config => config.tradingState = .reducing
  | .strategy owner row .. =>
    owner.state = .reducing ∨ ∃ config ∈ row, config.tradingState = .reducing

instance (gate : Gate) : Decidable gate.IsReducing := by
  unfold Gate.IsReducing
  split <;> infer_instance

/-- `checked` holds the submits that have passed the gate and are not inserted yet. -/
structure Reducing where
  scope : Scope
  checked : List SubmitOrder
  deriving DecidableEq, Repr

def Reducing.start (position : Option PositionMath) : Reducing := ⟨⟨[], position⟩, []⟩

inductive Action where
  | check (gate : Gate) (cmd : SubmitOrder) (contractSize : ℚ)
  | insert (i : Nat) (metadata : EventMetadata) (brokerConnectionCode : String) (createdAt : Nat)
  | report (i : Nat) (fates : List AttemptFate) (report : ExecutionReport)
      (metadata : EventMetadata)
  | route (i : Nat) (venue externalOrderId : String) (metadata : EventMetadata)
  | cancel (i : Nat) (reason : Option String) (metadata : EventMetadata)
  deriving DecidableEq, Repr

def transact (s : Reducing) (i : Nat) (tx : OrderDb → OrderDb) : Option Reducing :=
  (s.scope.transact i tx).map fun scope => { s with scope }

def step (s : Reducing) : Action → Option Reducing
  | .check gate cmd contractSize =>
    if gate.IsReducing then
      match gate.check s.scope.exposure cmd contractSize with
      | .error _ => some s
      | .ok () => some { s with checked := s.checked ++ [cmd] }
    else none
  | .insert i metadata brokerConnectionCode createdAt =>
    match s.checked[i]? with
    | none => none
    | some cmd =>
      let checked := s.checked.eraseIdx i
      match submitOrder cmd metadata brokerConnectionCode createdAt with
      | none => some { s with checked := checked }
      | some order =>
        some ⟨{ s.scope with orders := s.scope.orders ++ [order] }, checked⟩
  | .report i fates report metadata => transact s i (bookReport fates report metadata)
  | .route i venue externalOrderId metadata =>
    transact s i (commitNow (.route venue externalOrderId metadata))
  | .cancel i reason metadata => transact s i (commitNow (.cancel reason metadata))

def Reducing.net (s : Reducing) : ℚ := positionQty s.scope.position

def Reduces (s : Reducing) (a : Action) : Prop := ∀ t ∈ step s a, TowardZero s.net t.net

instance (s : Reducing) (a : Action) : Decidable (Reduces s a) := by
  unfold Reduces
  infer_instance

/-- The order goes in for more than the open orders of its side leave of the position. -/
def Overshoots (s : Reducing) (a : Action) : Prop :=
  match a with
  | .insert i .. => ∃ cmd ∈ s.checked[i]?,
      |s.net| < openQty cmd.side s.scope.orders + cmd.quantity
  | _ => False

instance (s : Reducing) (a : Action) : Decidable (Overshoots s a) := by
  unfold Overshoots
  split <;> infer_instance

structure Inv (s : Reducing) : Prop where
  sound : ∀ order ∈ s.scope.orders, Sound order
  fits : ∀ side, openQty side s.scope.orders ≤ max 0 (-side.signed s.net)
  against : ∀ cmd ∈ s.checked, cmd.side.signed s.net ≤ 0

theorem start_inv (position : Option PositionMath) : Inv (.start position) := by
  refine ⟨by simp [Reducing.start], ?_, by simp [Reducing.start]⟩
  intro side
  simp [Reducing.start, openQty]

theorem gate_passes {gate : Gate} (reducing : gate.IsReducing) {exposure : Exposure}
    {cmd : SubmitOrder} {contractSize : ℚ}
    (passes : gate.check exposure cmd contractSize = .ok ()) :
    cmd.side.signed exposure.positionQty < 0 := by
  cases gate with
  | scope config =>
    have state : config.tradingState = .reducing := reducing
    simp only [Gate.check, checkSubmit, bind, Except.bind] at passes
    split at passes
    · cases passes
    · rename_i allowed
      rw [state] at allowed
      exact trading_state_reduces allowed
  | strategy owner row quoteCurrency mark =>
    obtain ⟨own, scope⟩ := check_state_passes passes
    rcases reducing with state | ⟨config, stored, state⟩
    · exact trading_state_reduces (state ▸ own)
    · exact trading_state_reduces (state ▸ scope config stored)

theorem toward_zero_refl (net : ℚ) : TowardZero net net :=
  ⟨fun long => ⟨long, le_refl _⟩, fun short => ⟨le_refl _, short⟩⟩

theorem toward_zero_signed {before after : ℚ} (toward : TowardZero before after)
    {side : OrderSide} (against : side.signed before ≤ 0) : side.signed after ≤ 0 := by
  obtain ⟨long, short⟩ := toward
  cases side with
  | buy => exact (short against).2
  | sell =>
    simp only [OrderSide.signed] at *
    have held : 0 ≤ before := by linarith
    linarith [(long held).1]

theorem fill_toward_zero {net qty : ℚ} {side : OrderSide} (nonneg : 0 ≤ qty)
    (fits : qty ≤ max 0 (-side.signed net)) : TowardZero net (net + side.signed qty) := by
  rcases le_max_iff.mp fits with none_filled | some_left
  · have none : qty = 0 := le_antisymm none_filled nonneg
    have same : net + side.signed qty = net := by
      cases side <;> simp [OrderSide.signed, none]
    rw [same]
    exact toward_zero_refl net
  · cases side with
    | buy =>
      simp only [OrderSide.signed] at *
      exact ⟨fun long => ⟨by linarith, by linarith⟩, fun short => ⟨by linarith, by linarith⟩⟩
    | sell =>
      simp only [OrderSide.signed] at *
      exact ⟨fun long => ⟨by linarith, by linarith⟩, fun short => ⟨by linarith, by linarith⟩⟩

theorem signed_fill (side : OrderSide) (net qty : ℚ) :
    side.signed (net + side.signed qty) = side.signed net + qty := by
  cases side with
  | buy => simp only [OrderSide.signed]
  | sell =>
    simp only [OrderSide.signed]
    ring

theorem signed_fill_other {own side : OrderSide} (apart : own ≠ side) (net qty : ℚ) :
    side.signed (net + own.signed qty) = side.signed net - qty := by
  cases own with
  | buy =>
    cases side with
    | buy => exact absurd rfl apart
    | sell =>
      simp only [OrderSide.signed]
      ring
  | sell =>
    cases side with
    | buy =>
      simp only [OrderSide.signed]
      ring
    | sell => exact absurd rfl apart

theorem transact_keeps {s t : Reducing} (inv : Inv s) {i : Nat} {tx : OrderDb → OrderDb}
    (moves : ∀ order, Sound order → Moves order s.scope.position (tx (order.db s.scope.position)))
    (next : transact s i tx = some t) : Inv t ∧ TowardZero s.net t.net := by
  obtain ⟨scope, moved, rfl⟩ := Option.map_eq_some_iff.mp next
  obtain ⟨filled, qty, nonneg, sound, _, opens, position⟩ := transact_moves inv.sound moves moved
  have fits : qty ≤ max 0 (-filled.signed s.net) := by
    have left := open_qty_nonneg sound filled
    have own := opens filled
    have room := inv.fits filled
    rw [if_pos rfl] at own
    linarith
  have toward : TowardZero s.net (positionQty scope.position) := by
    rw [position]
    exact fill_toward_zero nonneg fits
  refine ⟨⟨sound, ?_, fun cmd member => toward_zero_signed toward (inv.against cmd member)⟩, toward⟩
  intro side
  have taken := opens side
  have room := inv.fits side
  have net : Reducing.net { s with scope } = s.net + filled.signed qty := position
  rw [net]
  by_cases own : filled = side
  · subst own
    rw [if_pos rfl] at taken
    rw [signed_fill]
    rcases max_cases 0 (-filled.signed s.net) with ⟨none_left, _⟩ | ⟨left, _⟩
    · rw [none_left] at room fits
      exact le_max_of_le_left (by linarith)
    · rw [left] at room
      exact le_max_of_le_right (by linarith)
  · rw [if_neg own, sub_zero] at taken
    rw [signed_fill_other own]
    exact le_trans taken (le_trans room (max_le_max (le_refl 0) (by linarith)))

theorem insert_keeps {s : Reducing} (inv : Inv s) {i : Nat} {cmd : SubmitOrder}
    (there : s.checked[i]? = some cmd)
    (covered : openQty cmd.side s.scope.orders + cmd.quantity ≤ |s.net|)
    {metadata : EventMetadata} {code : String} {createdAt : Nat} {order : StoredOrder}
    (inserted : submitOrder cmd metadata code createdAt = some order) :
    Inv ⟨{ s.scope with orders := s.scope.orders ++ [order] }, s.checked.eraseIdx i⟩ := by
  obtain ⟨sound, _, opens⟩ := submit_order_opens inserted
  refine ⟨?_, ?_, fun other member => inv.against other (List.mem_of_mem_eraseIdx member)⟩
  · intro found member
    rcases List.mem_append.mp member with old | new
    · exact inv.sound found old
    · exact List.mem_singleton.mp new ▸ sound
  · intro side
    have one : openQty side [order] = openLeaves side order := by
      simp [openQty]
    have room := inv.fits side
    simp only [open_qty_append, one, opens]
    by_cases own : cmd.side = side
    · subst own
      have against := inv.against cmd (List.mem_of_getElem? there)
      have size : |s.net| = -cmd.side.signed s.net := by
        cases side : cmd.side <;> simp only [side, OrderSide.signed] at against ⊢
        · exact abs_of_nonpos against
        · rw [neg_neg]
          exact abs_of_nonneg (by linarith)
      rw [if_pos rfl]
      exact le_max_of_le_right (size ▸ covered)
    · rw [if_neg own, add_zero]
      exact room

theorem step_keeps {s t : Reducing} {a : Action} (inv : Inv s) (ok : ¬ Overshoots s a)
    (next : step s a = some t) : Inv t ∧ TowardZero s.net t.net := by
  cases a with
  | check gate cmd contractSize =>
    simp only [step] at next
    split at next
    · rename_i reducing
      split at next
      · cases next
        exact ⟨inv, toward_zero_refl _⟩
      · rename_i passes
        cases next
        refine ⟨⟨inv.sound, inv.fits, ?_⟩, toward_zero_refl _⟩
        intro other member
        rcases List.mem_append.mp member with old | new
        · exact inv.against other old
        · cases List.mem_singleton.mp new
          exact (gate_passes reducing passes).le
    · cases next
  | insert i metadata code createdAt =>
    simp only [step] at next
    split at next
    · cases next
    rename_i cmd there
    split at next
    · cases next
      refine ⟨⟨inv.sound, inv.fits, ?_⟩, toward_zero_refl _⟩
      exact fun other member => inv.against other (List.mem_of_mem_eraseIdx member)
    · rename_i order inserted
      cases next
      refine ⟨insert_keeps inv there ?_ inserted, toward_zero_refl _⟩
      by_contra more
      exact ok ⟨cmd, there, not_le.mp more⟩
  | report i fates report metadata =>
    exact transact_keeps inv (fun order sound => book_moves sound _ fates report metadata) next
  | route i venue externalOrderId metadata =>
    refine transact_keeps inv ?_ next
    exact fun order sound => quiet_moves (commit_quiet sound _ trivial)
  | cancel i reason metadata =>
    refine transact_keeps inv ?_ next
    exact fun order sound => quiet_moves (commit_quiet sound _ trivial)

/-- As long as no order overshoots the position, every step of a reducing run
    leaves it where it is or takes it toward zero. -/
theorem reducing_reduces (position : Option PositionMath) (as : List Action)
    (steps : Along step (fun s a => ¬ Overshoots s a) (.start position) as) :
    Along step Reduces (.start position) as :=
  along_of_along (fun _ _ _ inv ok next => (step_keeps inv ok next).1)
    (fun _ _ inv ok _ next => (step_keeps inv ok next).2) (start_inv position) steps

def noLimits : RiskLimits := ⟨none, none, none, none⟩

def reducingScope : Gate := .scope ⟨.reducing, noLimits⟩

def reducingStrategy : Gate := .strategy ⟨"s", "u1", .reducing, noLimits, none⟩ none "USD" none

def sell (orderId : String) (quantity : ℚ) : SubmitOrder :=
  { buyTen with orderId := orderId, side := .sell, quantity := quantity }

def fill (i : Nat) (qty : ℚ) : Action := .report i [] (.fill "x" qty 100 "V") stamp

def longFive : Option PositionMath := some ⟨5, 100, 0⟩

/-- Two of five sold, the other three asked for while one is still open. -/
def sellTwoThenThree : List Action :=
  [.check reducingScope (sell "o2" 2) 1, .insert 0 stamp "paper" 0, fill 0 1,
    .check reducingStrategy (sell "o3" 3) 1, .insert 0 stamp "paper" 0, fill 1 3, fill 0 1]

theorem sell_two_then_three_reduces :
    Along step Reduces (.start longFive) sellTwoThenThree :=
  reducing_reduces longFive sellTwoThenThree (by decide +kernel)

def sellTen (gate : Gate) : List Action :=
  [.check gate (sell "o2" 10) 1, .insert 0 stamp "paper" 0, fill 0 10]

/-- A sell of ten against five passes either gate, and its fill turns the position. -/
theorem reducing_sell_turns_position :
    ¬ Along step Reduces (.start longFive) (sellTen reducingScope) ∧
      ¬ Along step Reduces (.start longFive) (sellTen reducingStrategy) := by
  decide +kernel

end OmsReducing
