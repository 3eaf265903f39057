import OpenOms.Library.Lists
import OpenOms.Library.Runs
import OpenOms.Scope

/-!
Submits of one scope against concurrent fills. The `risk_limits` row lock lets
one submit run at a time, but its exposure is two statements, and fills commit
whenever they like. Each statement sees the latest committed state.
-/
namespace OmsSubmitAndFill
open OmsOrders OmsAggregate OmsPositions OmsOrderStore OmsExecution OmsOrderEntry OmsOrderWrites
open OmsOrderEngine OmsRisk OmsRiskEngine OmsScope Lists Runs

inductive Phase where
  | locked
  | positionRead (positionQty : ℚ)
  | exposureRead (exposure : Exposure)
  deriving DecidableEq, Repr

/-- The submit holding the `risk_limits` row. `missed` is what fills have moved
    to the position between its two reads. -/
structure Submitting where
  cmd : SubmitOrder
  phase : Phase
  missed : ℚ
  deriving DecidableEq, Repr

structure Filling where
  order : Nat
  executionId : String
  qty : ℚ
  price : ℚ
  venue : String
  metadata : EventMetadata
  loaded : Option PositionMath
  deriving DecidableEq, Repr

structure Racing where
  config : RiskConfig
  contractSize : ℚ
  scope : Scope
  submitting : Option Submitting
  fillings : List Filling
  deriving DecidableEq, Repr

def Racing.start (config : RiskConfig) (contractSize : ℚ) (position : Option PositionMath) :
    Racing :=
  ⟨config, contractSize, ⟨[], position⟩, none, []⟩

inductive Action where
  | lock (cmd : SubmitOrder)
  | readPosition
  | readWorking
  | insert (metadata : EventMetadata) (brokerConnectionCode : String) (createdAt : Nat)
  | abort
  | loadFill (order : Nat) (executionId : String) (qty price : ℚ) (venue : String)
      (metadata : EventMetadata)
  | commitFill (i : Nat)
  | close (order : Nat) (reason : Option String) (venue : Option String)
      (metadata : EventMetadata)
  | route (order : Nat) (venue externalOrderId : String) (metadata : EventMetadata)
  | cancel (order : Nat) (reason : Option String) (metadata : EventMetadata)
  deriving DecidableEq, Repr

/-- Another transaction holds the position row's lock. -/
def heldByOther (fillings : List Filling) : Bool := fillings.any (fun tx => tx.loaded.isSome)

def transact (s : Racing) (order : Nat) (tx : OrderDb → OrderDb) : Option Racing :=
  (s.scope.transact order tx).map fun scope => { s with scope }

/-- The commit of a fill: the order's write computed on the position it loaded,
    which the upsert then stores. A report the order no longer takes writes nothing. -/
def commitFilling (s : Racing) (tx : Filling) (left : List Filling) (order : StoredOrder) :
    Racing :=
  let report := ExecutionReport.fill tx.executionId tx.qty tx.price tx.venue
  match applyOnce order.row report tx.metadata (order.db tx.loaded) with
  | .ok (.applied _, next) =>
    { s with
      scope := ⟨s.scope.orders.set tx.order (order.of next), next.position⟩
      submitting := s.submitting.map fun submit =>
        match submit.phase with
        | .positionRead _ => { submit with missed := submit.missed + tx.qty }
        | _ => submit
      fillings := left }
  | _ => { s with fillings := left }

def step (s : Racing) : Action → Option Racing
  | .lock cmd =>
    if s.submitting.isNone ∧ cmd.side = .buy then
      some { s with submitting := some ⟨cmd, .locked, 0⟩ }
    else none
  | .readPosition =>
    match s.submitting with
    | some ⟨cmd, .locked, _⟩ =>
      some { s with submitting := some ⟨cmd, .positionRead (positionQty s.scope.position), 0⟩ }
    | _ => none
  | .readWorking =>
    match s.submitting with
    | some ⟨cmd, .positionRead qty, missed⟩ =>
      let exposure : Exposure := ⟨qty, workingQty (s.scope.orders.map (·.row))⟩
      some { s with submitting := some ⟨cmd, .exposureRead exposure, missed⟩ }
    | _ => none
  | .insert metadata brokerConnectionCode createdAt =>
    match s.submitting with
    | some ⟨cmd, .exposureRead exposure, _⟩ =>
      match checkSubmit (some s.config) exposure cmd s.contractSize with
      | .error _ => some { s with submitting := none }
      | .ok () =>
        match submitOrder cmd metadata brokerConnectionCode createdAt with
        | none => some { s with submitting := none }
        | some order =>
          some { s with
            scope := { s.scope with orders := s.scope.orders ++ [order] }
            submitting := none }
    | _ => none
  | .abort => some { s with submitting := none }
  | .loadFill order executionId qty price venue metadata =>
    -- `FOR UPDATE` waits for a lock on a row that exists, and takes none on one that does not.
    if (s.scope.position.isSome ∧ heldByOther s.fillings) ∨
        s.fillings.any (fun tx => tx.order = order) then none
    else
      some { s with fillings := s.fillings ++
        [⟨order, executionId, qty, price, venue, metadata, s.scope.position⟩] }
  | .commitFill i =>
    match s.fillings[i]? with
    | none => none
    | some tx =>
      let left := s.fillings.eraseIdx i
      -- The upsert waits for another transaction's lock on the row.
      if heldByOther left then none
      else
        match s.scope.orders[tx.order]? with
        | none => some { s with fillings := left }
        | some order => some (commitFilling s tx left order)
  | .close order reason venue metadata =>
    transact s order (bookReport [] (.canceled reason venue) metadata)
  | .route order venue externalOrderId metadata =>
    transact s order (commitNow (.route venue externalOrderId metadata))
  | .cancel order reason metadata => transact s order (commitNow (.cancel reason metadata))

def exposed (s : Racing) : ℚ :=
  positionQty s.scope.position + openQty .buy s.scope.orders + openQty .sell s.scope.orders

def WithinLimit (limit : ℚ) (s : Racing) : Prop := exposed s ≤ limit

instance (limit : ℚ) (s : Racing) : Decidable (WithinLimit limit s) := by
  unfold WithinLimit
  infer_instance

/-- A submit passes its check on an exposure that a fill's commit fell into. -/
def InsertsOnTornExposure (s : Racing) (a : Action) : Prop :=
  match a, s.submitting with
  | .insert .., some ⟨cmd, .exposureRead exposure, missed⟩ =>
    missed ≠ 0 ∧ checkSubmit (some s.config) exposure cmd s.contractSize = .ok ()
  | _, _ => False

instance (s : Racing) (a : Action) : Decidable (InsertsOnTornExposure s a) := by
  unfold InsertsOnTornExposure
  split <;> infer_instance

def Covers (s : Racing) : Prop :=
  match s.submitting with
  | none => True
  | some ⟨cmd, phase, missed⟩ =>
    cmd.side = .buy ∧ 0 ≤ missed ∧
      match phase with
      | .locked => True
      | .positionRead qty => positionQty s.scope.position ≤ qty + missed
      | .exposureRead exposure =>
        positionQty s.scope.position + openQty .buy s.scope.orders ≤
          exposure.positionQty + exposure.workingQty + missed

structure Inv (limit : ℚ) (s : Racing) : Prop where
  limited : s.config.limits.maxPositionQuantity = some limit
  sound : ∀ order ∈ s.scope.orders, Sound order
  buys : ∀ order ∈ s.scope.orders, order.row.side = .buy
  long : 0 ≤ positionQty s.scope.position
  holder : ∀ tx ∈ s.fillings, tx.loaded.isSome → tx.loaded = s.scope.position
  covers : Covers s
  within : positionQty s.scope.position + openQty .buy s.scope.orders ≤ limit

theorem no_sells {orders : List StoredOrder} (buys : ∀ order ∈ orders, order.row.side = .buy) :
    openQty .sell orders = 0 := by
  unfold openQty
  refine List.sum_eq_zero ?_
  intro leaves member
  obtain ⟨order, there, rfl⟩ := List.mem_map.mp member
  simp [openLeaves, buys order there]

theorem start_inv {config : RiskConfig} {limit : ℚ}
    (limited : config.limits.maxPositionQuantity = some limit) (positive : 0 < limit)
    (contractSize : ℚ) {position : Option PositionMath} (flat : positionQty position = 0) :
    Inv limit (.start config contractSize position) where
  limited := limited
  sound := by simp [Racing.start]
  buys := by simp [Racing.start]
  long := by simp [Racing.start, flat]
  holder := by simp [Racing.start]
  covers := trivial
  within := by simp [Racing.start, flat, openQty, positive.le]

/-- A buy's transaction on the position as it stands never raises the total, nor
    lowers the position. -/
theorem buy_moves {s : Racing} {i : Nat} {order : StoredOrder} {next : OrderDb} {qty : ℚ}
    (there : s.scope.orders[i]? = some order) (buy : order.row.side = .buy)
    {position : Option PositionMath} (moves : MovesBy order position qty next) :
    openQty .buy (s.scope.orders.set i (order.of next)) ≤ openQty .buy s.scope.orders - qty ∧
      positionQty next.position = positionQty position + qty := by
  have leaves := moves.leaves .buy
  have position := moves.position
  rw [open_qty_set there]
  simp only [buy, OrderSide.signed, if_true] at leaves position
  exact ⟨by linarith, position⟩

theorem transact_keeps {limit : ℚ} {s t : Racing} (inv : Inv limit s) {i : Nat}
    {tx : OrderDb → OrderDb}
    (quiet : ∀ order, Sound order → Quiet order s.scope.position (tx (order.db s.scope.position)))
    (next : transact s i tx = some t) : Inv limit t := by
  obtain ⟨scope, moved, rfl⟩ := Option.map_eq_some_iff.mp next
  obtain ⟨⟨side, effect⟩, still⟩ := transact_quiet inv.sound quiet moved
  have leaves : openQty .buy scope.orders ≤ openQty .buy s.scope.orders := by
    simpa using effect.leaves .buy
  have buys : ∀ order ∈ scope.orders, order.row.side = .buy := by
    intro order member
    obtain ⟨old, there, same⟩ := effect.sides order member
    exact same.trans (inv.buys old there)
  refine ⟨inv.limited, effect.sound, buys, ?_, ?_, ?_, ?_⟩
  · simp only [still]
    exact inv.long
  · simp only [still]
    exact inv.holder
  · have covers := inv.covers
    unfold Covers at covers ⊢
    split at covers
    · rename_i idle
      simp [idle]
    · rename_i cmd phase missed running
      simp only [running, still]
      refine ⟨covers.1, covers.2.1, ?_⟩
      cases phase with
      | locked => trivial
      | positionRead qty => exact covers.2.2
      | exposureRead exposure => exact le_trans (by linarith) covers.2.2
  · have within := inv.within
    simp only [still]
    linarith

/-- No other transaction holds the row: whoever is left loaded no row at all. -/
theorem unheld_loaded_none {fillings : List Filling} (free : ¬ heldByOther fillings = true) :
    ∀ tx ∈ fillings, tx.loaded.isSome = true → False := by
  intro tx member held
  exact free (List.any_eq_true.mpr ⟨tx, member, held⟩)

/-- The commit of a fill moves its quantity from the open orders to the position,
    or less where the row it found missing had been written meanwhile. -/
theorem commit_filling_keeps {limit : ℚ} {s : Racing} (inv : Inv limit s) {i : Nat} {tx : Filling}
    (there : s.fillings[i]? = some tx) (free : ¬ heldByOther (s.fillings.eraseIdx i) = true)
    {order : StoredOrder} (stored : s.scope.orders[tx.order]? = some order) :
    Inv limit (commitFilling s tx (s.fillings.eraseIdx i) order) := by
  have fewer : ∀ found ∈ s.fillings.eraseIdx i, found ∈ s.fillings :=
    fun found member => List.mem_of_mem_eraseIdx member
  have idle : Inv limit { s with fillings := s.fillings.eraseIdx i } :=
    { inv with holder := fun found member => inv.holder found (fewer found member) }
  simp only [commitFilling]
  split
  · rename_i events next run
    have member := List.mem_of_getElem? stored
    have sound := inv.sound order member
    have buy := inv.buys order member
    have read : SnapshotOf (order.db tx.loaded) order.row :=
      ⟨order.row, rfl, le_refl _, fun _ => rfl⟩
    rcases apply_once_cases (sound_numbered sound tx.loaded) read (sound_lively sound tx.loaded) run
      with ⟨_, wrong, _⟩ | ⟨_, _, ⟨_, wrong⟩, _⟩ |
        ⟨row, event, same, _, _, isOpen, fits, yields, _, result⟩
    · cases wrong
    · cases wrong
    · have write : Write (order.db tx.loaded)
          (.report (.fill tx.executionId tx.qty tx.price tx.venue)) next :=
        result ▸ .reported row _ event same isOpen fits yields
      have moves := fill_moves sound write
      obtain ⟨leaves, position⟩ := buy_moves stored buy moves
      -- A row that was there is locked, so what was loaded is what is stored.
      have loaded : positionQty tx.loaded ≤ positionQty s.scope.position := by
        cases held : tx.loaded with
        | none => exact inv.long
        | some p =>
          have same := inv.holder tx (List.mem_of_getElem? there) (by simp [held])
          rw [← held, same]
      have nonneg := moves.nonneg
      have long : 0 ≤ positionQty tx.loaded := by
        cases held : tx.loaded with
        | none => exact le_refl _
        | some p =>
          have same := inv.holder tx (List.mem_of_getElem? there) (by simp [held])
          rw [← held, same]
          exact inv.long
      have within := inv.within
      have covers := inv.covers
      refine ⟨inv.limited, forall_mem_set inv.sound moves.sound,
        forall_mem_set inv.buys (moves.side.trans buy), ?_, ?_, ?_, ?_⟩
      · simp only [position]
        linarith
      · intro found left held
        exact (unheld_loaded_none free found left held).elim
      · unfold Covers at covers ⊢
        split at covers
        · rename_i none_running
          simp [none_running]
        · rename_i cmd phase missed running
          simp only [running, Option.map_some]
          cases phase with
          | locked => exact ⟨covers.1, covers.2.1, trivial⟩
          | positionRead qty =>
            have reads := covers.2.2
            have so_far := covers.2.1
            simp only at reads ⊢
            refine ⟨covers.1, by linarith, ?_⟩
            linarith
          | exposureRead exposure =>
            have reads := covers.2.2
            simp only at reads ⊢
            refine ⟨covers.1, covers.2.1, ?_⟩
            linarith
      · simp only
        linarith
  · exact idle

theorem insert_keeps {limit : ℚ} {s : Racing} (inv : Inv limit s) {cmd : SubmitOrder}
    {exposure : Exposure} {missed : ℚ}
    (running : s.submitting = some ⟨cmd, .exposureRead exposure, missed⟩)
    (passes : checkSubmit (some s.config) exposure cmd s.contractSize = .ok ())
    (whole : missed = 0) {metadata : EventMetadata} {code : String} {createdAt : Nat}
    {order : StoredOrder} (inserted : submitOrder cmd metadata code createdAt = some order) :
    Inv limit { s with
      scope := { s.scope with orders := s.scope.orders ++ [order] }, submitting := none } := by
  obtain ⟨sound, positive, opens⟩ := submit_order_opens inserted
  have covers := inv.covers
  rw [Covers, running] at covers
  obtain ⟨buy, _, covered⟩ := covers
  simp only [whole, add_zero] at covered
  have projected := (abs_le.mp (check_submit_position inv.limited passes)).2
  rw [buy, OrderSide.signed] at projected
  have side : order.row.side = .buy := by
    have leaves := opens .buy
    by_contra other
    rw [buy, if_pos rfl, openLeaves, if_neg (fun both => other both.1)] at leaves
    linarith
  have one : openQty .buy [order] = cmd.quantity := by
    simpa [openQty, buy] using opens .buy
  refine ⟨inv.limited, ?_, ?_, inv.long, inv.holder, trivial, ?_⟩
  · intro found member
    rcases List.mem_append.mp member with old | new
    · exact inv.sound found old
    · exact List.mem_singleton.mp new ▸ sound
  · intro found member
    rcases List.mem_append.mp member with old | new
    · exact inv.buys found old
    · exact List.mem_singleton.mp new ▸ side
  · simp only [open_qty_append, one]
    linarith

/-- The submit's own steps and an ended submit leave the scope alone. -/
theorem submitting_keeps {limit : ℚ} {s : Racing} (inv : Inv limit s) {next : Option Submitting}
    (covers : Covers { s with submitting := next }) : Inv limit { s with submitting := next } :=
  { inv with covers }

theorem step_keeps {limit : ℚ} {s t : Racing} {a : Action} (inv : Inv limit s)
    (ok : ¬ InsertsOnTornExposure s a) (next : step s a = some t) : Inv limit t := by
  cases a with
  | lock cmd =>
    simp only [step] at next
    split at next
    · rename_i free
      cases next
      exact submitting_keeps inv ⟨free.2, le_refl _, trivial⟩
    · cases next
  | readPosition =>
    simp only [step] at next
    split at next
    · rename_i cmd missed running
      have covers := inv.covers
      rw [Covers, running] at covers
      cases next
      exact submitting_keeps inv ⟨covers.1, le_refl _, by simp⟩
    · cases next
  | readWorking =>
    simp only [step] at next
    split at next
    · rename_i cmd qty missed running
      have covers := inv.covers
      rw [Covers, running] at covers
      cases next
      refine submitting_keeps inv ⟨covers.1, covers.2.1, ?_⟩
      have reads := covers.2.2
      simp only [working_qty_nets, no_sells inv.buys] at reads ⊢
      linarith
    · cases next
  | insert metadata code createdAt =>
    simp only [step] at next
    split at next
    · rename_i cmd exposure missed running
      split at next
      · cases next
        exact submitting_keeps inv trivial
      · rename_i passes
        split at next
        · cases next
          exact submitting_keeps inv trivial
        · rename_i order inserted
          cases next
          refine insert_keeps inv running passes ?_ inserted
          by_contra torn
          exact ok (by simpa only [InsertsOnTornExposure, running] using ⟨torn, passes⟩)
    · cases next
  | abort =>
    cases next
    exact submitting_keeps inv trivial
  | loadFill order executionId qty price venue metadata =>
    simp only [step] at next
    split at next
    · cases next
    · cases next
      refine { inv with holder := fun found member held => ?_ }
      rcases List.mem_append.mp member with old | new
      · exact inv.holder found old held
      · rw [List.mem_singleton.mp new]
  | commitFill i =>
    simp only [step] at next
    split at next
    · cases next
    · rename_i tx there
      split at next
      · cases next
      · rename_i free
        split at next
        · cases next
          exact { inv with
            holder := fun found member => inv.holder found (List.mem_of_mem_eraseIdx member) }
        · rename_i order stored
          cases next
          exact commit_filling_keeps inv there free stored
  | close order reason venue metadata =>
    refine transact_keeps inv ?_ next
    exact fun order sound => book_quiet sound _ [] (by intros; simp) metadata
  | route order venue externalOrderId metadata =>
    refine transact_keeps inv ?_ next
    exact fun order sound => commit_quiet sound _ trivial
  | cancel order reason metadata =>
    refine transact_keeps inv ?_ next
    exact fun order sound => commit_quiet sound _ trivial

/-- Buys from a flat position stay within the limit in every interleaving in
    which no order is inserted on an exposure a fill's commit fell into. -/
theorem exposed_within_limit {config : RiskConfig} {limit : ℚ}
    (limited : config.limits.maxPositionQuantity = some limit) (positive : 0 < limit)
    (contractSize : ℚ) {position : Option PositionMath} (flat : positionQty position = 0)
    (as : List Action)
    (steps : Along step (fun s a => ¬ InsertsOnTornExposure s a)
      (.start config contractSize position) as) :
    Throughout step (WithinLimit limit) (.start config contractSize position) as := by
  refine throughout_mono (fun s inv => ?_)
    (throughout_along (fun _ _ _ inv ok next => step_keeps inv ok next)
      (start_inv limited positive contractSize flat) steps)
  rw [WithinLimit, exposed, no_sells inv.buys, add_zero]
  exact inv.within

def submitBuy (qty : ℚ) : List Action :=
  [.lock { buyTen with quantity := qty }, .readPosition, .readWorking, .insert stamp "paper" 0]

def loadFive : Action := .loadFill 0 "x" 5 100 "V" stamp

def fillsBetweenSubmits : List Action :=
  submitBuy 5 ++ [loadFive, .commitFill 0] ++ submitBuy 5

theorem fills_between_submits_within :
    Throughout step (WithinLimit 10) (.start upToTen 1 none) fillsBetweenSubmits :=
  exposed_within_limit rfl (by decide +kernel) 1 rfl fillsBetweenSubmits (by decide +kernel)

/-- The fill of five commits after the second submit has read the position and
    before it reads the working orders: it sees neither, and buys ten more. -/
theorem torn_exposure_leaves_limit :
    ¬ ∀ as, Throughout step (WithinLimit 10) (.start upToTen 1 none) as := by
  intro always
  have last := throughout_end (always (submitBuy 5 ++
    [.lock buyTen, .readPosition, loadFive, .commitFill 0, .readWorking, .insert stamp "paper" 0]))
  revert last
  decide +kernel

end OmsSubmitAndFill
