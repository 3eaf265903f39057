import OpenOms.Library.Lists
import OpenOms.Library.Runs
import OpenOms.Scope

/-!
One scope traded sequentially under a position limit. The check nets working
sells against working buys, while the orders fill one by one: the position can
leave the limit by what an accepted order was netted against, and by no more.
-/
namespace OmsPositionLimit
open OmsOrders OmsAggregate OmsPositions OmsOrderStore OmsExecution OmsOrderEntry OmsOrderWrites
open OmsOrderEngine OmsRisk OmsRiskEngine OmsScope Lists Runs

/-- `nettedSells` is the largest open sell quantity any accepted buy was checked
    against, `nettedBuys` the same for accepted sells. -/
structure Trading where
  config : RiskConfig
  contractSize : ℚ
  scope : Scope
  nettedSells : ℚ
  nettedBuys : ℚ
  deriving DecidableEq, Repr

def Trading.start (config : RiskConfig) (contractSize : ℚ) (position : Option PositionMath) :
    Trading :=
  ⟨config, contractSize, ⟨[], position⟩, 0, 0⟩

/-- `report` is any execution report of a stored order, `entry` a route or a
    cancel by order entry. -/
inductive Action where
  | submit (cmd : SubmitOrder) (metadata : EventMetadata) (brokerConnectionCode : String)
      (createdAt : Nat)
  | report (i : Nat) (fates : List AttemptFate) (report : ExecutionReport)
      (metadata : EventMetadata)
  | route (i : Nat) (venue externalOrderId : String) (metadata : EventMetadata)
  | cancel (i : Nat) (reason : Option String) (metadata : EventMetadata)
  deriving DecidableEq, Repr

def transact (s : Trading) (i : Nat) (tx : OrderDb → OrderDb) : Option Trading :=
  (s.scope.transact i tx).map fun scope => { s with scope }

def accept (s : Trading) (cmd : SubmitOrder) (order : StoredOrder) : Trading :=
  let netted (side : OrderSide) (so_far : ℚ) : ℚ :=
    if cmd.side = side then so_far else max so_far (openQty side s.scope.orders)
  { s with
    scope := { s.scope with orders := s.scope.orders ++ [order] }
    nettedSells := netted .sell s.nettedSells
    nettedBuys := netted .buy s.nettedBuys }

def step (s : Trading) : Action → Option Trading
  | .submit cmd metadata brokerConnectionCode createdAt =>
    match checkSubmit (some s.config) s.scope.exposure cmd s.contractSize with
    | .error _ => some s
    | .ok () =>
      match submitOrder cmd metadata brokerConnectionCode createdAt with
      | none => some s
      | some order => some (accept s cmd order)
  | .report i fates report metadata => transact s i (bookReport fates report metadata)
  | .route i venue externalOrderId metadata =>
    transact s i (commitNow (.route venue externalOrderId metadata))
  | .cancel i reason metadata => transact s i (commitNow (.cancel reason metadata))

def WithinLimit (max : ℚ) (s : Trading) : Prop := |positionQty s.scope.position| ≤ max

instance (max : ℚ) (s : Trading) : Decidable (WithinLimit max s) := by
  unfold WithinLimit
  infer_instance

def opposite : OrderSide → OrderSide
  | .buy => .sell
  | .sell => .buy

def NetsWorking (s : Trading) (a : Action) : Prop :=
  match a with
  | .submit cmd .. => openQty (opposite cmd.side) s.scope.orders ≠ 0
  | _ => False

instance (s : Trading) (a : Action) : Decidable (NetsWorking s a) := by
  unfold NetsWorking
  split <;> infer_instance

/-- Filling every open order of one side alone stays within the limit and what
    that side was netted against. -/
structure Inv (limit : ℚ) (s : Trading) : Prop where
  limited : s.config.limits.maxPositionQuantity = some limit
  sound : ∀ order ∈ s.scope.orders, Sound order
  upper : positionQty s.scope.position + openQty .buy s.scope.orders ≤ limit + s.nettedSells
  lower : -(limit + s.nettedBuys) ≤ positionQty s.scope.position - openQty .sell s.scope.orders

theorem start_inv {config : RiskConfig} {limit : ℚ}
    (limited : config.limits.maxPositionQuantity = some limit) (contractSize : ℚ)
    {position : Option PositionMath} (within : |positionQty position| ≤ limit) :
    Inv limit (.start config contractSize position) := by
  obtain ⟨low, high⟩ := abs_le.mp within
  refine ⟨limited, by simp [Trading.start], ?_, ?_⟩
  · simpa [Trading.start, openQty] using high
  · simpa [Trading.start, openQty] using low

theorem transact_keeps {limit : ℚ} {s t : Trading} (inv : Inv limit s) {i : Nat}
    {tx : OrderDb → OrderDb}
    (moves : ∀ order, Sound order → Moves order s.scope.position (tx (order.db s.scope.position)))
    (next : transact s i tx = some t) :
    Inv limit t ∧ t.nettedSells = s.nettedSells ∧ t.nettedBuys = s.nettedBuys := by
  obtain ⟨scope, moved, rfl⟩ := Option.map_eq_some_iff.mp next
  obtain ⟨side, qty, nonneg, sound, _, leaves, position⟩ := transact_moves inv.sound moves moved
  have buys := leaves .buy
  have sells := leaves .sell
  have upper := inv.upper
  have lower := inv.lower
  refine ⟨⟨inv.limited, sound, ?_, ?_⟩, rfl, rfl⟩
  · simp only [position]
    cases side <;> simp [OrderSide.signed] at * <;> linarith
  · simp only [position]
    cases side <;> simp [OrderSide.signed] at * <;> linarith

theorem accept_keeps {limit : ℚ} {s : Trading} (inv : Inv limit s) {cmd : SubmitOrder}
    (passes : checkSubmit (some s.config) s.scope.exposure cmd s.contractSize = .ok ())
    {metadata : EventMetadata} {code : String} {createdAt : Nat} {order : StoredOrder}
    (inserted : submitOrder cmd metadata code createdAt = some order) :
    Inv limit (accept s cmd order) := by
  obtain ⟨sound, positive, opens⟩ := submit_order_opens inserted
  have projected := check_submit_position inv.limited passes
  simp only [Scope.exposure, working_qty_nets] at projected
  obtain ⟨low, high⟩ := abs_le.mp projected
  have upper := inv.upper
  have lower := inv.lower
  have one : ∀ side, openQty side [order] = openLeaves side order := by
    intro side
    simp [openQty]
  refine ⟨inv.limited, ?_, ?_, ?_⟩
  · intro found member
    rcases List.mem_append.mp member with old | new
    · exact inv.sound found old
    · exact List.mem_singleton.mp new ▸ sound
  · have netted := le_max_right s.nettedSells (openQty .sell s.scope.orders)
    simp only [accept, open_qty_append, one, opens]
    cases side : cmd.side <;> simp only [side, OrderSide.signed] at low high ⊢ <;> simp <;> linarith
  · have netted := le_max_right s.nettedBuys (openQty .buy s.scope.orders)
    simp only [accept, open_qty_append, one, opens]
    cases side : cmd.side <;> simp only [side, OrderSide.signed] at low high ⊢ <;> simp <;> linarith

theorem step_keeps {limit : ℚ} {s t : Trading} {a : Action} (inv : Inv limit s)
    (next : step s a = some t) : Inv limit t := by
  cases a with
  | submit cmd metadata code createdAt =>
    simp only [step] at next
    split at next
    · cases next
      exact inv
    · rename_i passes
      split at next
      · cases next
        exact inv
      · rename_i order inserted
        cases next
        exact accept_keeps inv passes inserted
  | report i fates report metadata =>
    exact (transact_keeps inv (fun order sound => book_moves sound _ fates report metadata) next).1
  | route i venue externalOrderId metadata =>
    refine (transact_keeps inv ?_ next).1
    exact fun order sound => quiet_moves (commit_quiet sound _ trivial)
  | cancel i reason metadata =>
    refine (transact_keeps inv ?_ next).1
    exact fun order sound => quiet_moves (commit_quiet sound _ trivial)

theorem idle_accepts {s t : Trading} {a : Action} (idle : s.nettedSells = 0 ∧ s.nettedBuys = 0)
    (ok : ¬ NetsWorking s a) (next : step s a = some t) : t.nettedSells = 0 ∧ t.nettedBuys = 0 := by
  have transacted : ∀ {i tx}, transact s i tx = some t → t.nettedSells = 0 ∧ t.nettedBuys = 0 := by
    intro i tx done
    obtain ⟨scope, _, rfl⟩ := Option.map_eq_some_iff.mp done
    exact idle
  cases a with
  | submit cmd metadata code createdAt =>
    simp only [step] at next
    split at next
    · cases next
      exact idle
    · split at next
      · cases next
        exact idle
      · cases next
        simp only [NetsWorking, not_not] at ok
        cases side : cmd.side <;> simp_all [accept, opposite]
  | report i fates report metadata => exact transacted next
  | route i venue externalOrderId metadata => exact transacted next
  | cancel i reason metadata => exact transacted next

/-- The position leaves the limit by no more than an accepted order was netted
    against; and not at all where no order is submitted against open orders of
    the other side. -/
theorem position_within_limit_and_netted {config : RiskConfig} {limit : ℚ}
    (limited : config.limits.maxPositionQuantity = some limit) (contractSize : ℚ)
    {position : Option PositionMath} (within : |positionQty position| ≤ limit) (as : List Action) :
    Throughout step (fun s => -(limit + s.nettedBuys) ≤ positionQty s.scope.position ∧
        positionQty s.scope.position ≤ limit + s.nettedSells)
      (.start config contractSize position) as ∧
    (Along step (fun s a => ¬ NetsWorking s a) (.start config contractSize position) as →
      Throughout step (WithinLimit limit) (.start config contractSize position) as) := by
  have start := start_inv limited contractSize within
  have bounded : ∀ s, Inv limit s → -(limit + s.nettedBuys) ≤ positionQty s.scope.position ∧
      positionQty s.scope.position ≤ limit + s.nettedSells := by
    intro s inv
    have buys := open_qty_nonneg inv.sound .buy
    have sells := open_qty_nonneg inv.sound .sell
    have upper := inv.upper
    have lower := inv.lower
    constructor <;> linarith
  constructor
  · exact throughout_mono bounded
      (throughout_keeps (fun _ _ _ inv next => step_keeps inv next) start as)
  · intro idle
    have kept := throughout_along
      (fun s a t (inv : Inv limit s ∧ s.nettedSells = 0 ∧ s.nettedBuys = 0) ok next =>
        ⟨step_keeps inv.1 next, idle_accepts inv.2 ok next⟩) ⟨start, rfl, rfl⟩ idle
    refine throughout_mono (fun s inv => ?_) kept
    obtain ⟨low, high⟩ := bounded s inv.1
    rw [inv.2.2, add_zero] at low
    rw [inv.2.1, add_zero] at high
    exact abs_le.mpr ⟨low, high⟩

def sellTen : SubmitOrder := { buyTen with orderId := "o2", side := .sell }

def fillTen (i : Nat) : Action := .report i [] (.fill "x" 10 100 "V") stamp

def oneSideRun : List Action :=
  [.submit buyTen stamp "paper" 0, fillTen 0, .submit sellTen stamp "paper" 0, .cancel 1 none stamp]

theorem one_side_run_within :
    Throughout step (fun s => -(10 + s.nettedBuys) ≤ positionQty s.scope.position ∧
        positionQty s.scope.position ≤ 10 + s.nettedSells) (.start upToTen 1 none) oneSideRun ∧
      Throughout step (WithinLimit 10) (.start upToTen 1 none) oneSideRun := by
  have both := position_within_limit_and_netted
    (show upToTen.limits.maxPositionQuantity = some 10 from rfl) 1
    (show |positionQty none| ≤ 10 by decide +kernel) oneSideRun
  exact ⟨both.1, both.2 (by decide +kernel)⟩

/-- A buy netted against a working sell: both buys fill, the sell does not. -/
theorem netted_buys_leave_limit :
    ¬ ∀ as, Throughout step (WithinLimit 10) (.start upToTen 1 none) as := by
  intro always
  have last := throughout_end (always [.submit buyTen stamp "paper" 0,
    .submit sellTen stamp "paper" 0, .submit { buyTen with orderId := "o3" } stamp "paper" 0,
    fillTen 0, fillTen 2])
  revert last
  decide +kernel

end OmsPositionLimit
