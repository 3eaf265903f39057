import OpenOms.Library.Lists
import OpenOms.OrderEngine
import OpenOms.RiskEngine
import Mathlib.Algebra.Order.BigOperators.Group.List

/-!
One (portfolio, instrument) scope: its orders, each with its own log, and the
position they share. A report on one order is the order's own write against the
shared position; the lemmas say what it does to the open quantity of each side.
-/
namespace OmsScope
open OmsOrders OmsAggregate OmsPositions OmsOrderStore OmsExecution OmsOrderEntry OmsOrderWrites
open OmsOrderEngine OmsRisk OmsRiskEngine Lists

structure StoredOrder where
  row : OrderRow
  log : List OrderEventRecord
  deriving DecidableEq, Repr

def StoredOrder.db (order : StoredOrder) (position : Option PositionMath) : OrderDb :=
  ⟨some order.row, order.log, position⟩

/-- The order a database holds; `was` stands in where it holds none. -/
def StoredOrder.of (was : StoredOrder) (db : OrderDb) : StoredOrder :=
  ⟨db.row.getD was.row, db.log⟩

structure Scope where
  orders : List StoredOrder
  position : Option PositionMath
  deriving DecidableEq, Repr

def StoredOrder.transact (order : StoredOrder) (tx : OrderDb → OrderDb)
    (position : Option PositionMath) : StoredOrder × Option PositionMath :=
  let next := tx (order.db position)
  (order.of next, next.position)

def Scope.transact (s : Scope) (i : Nat) (tx : OrderDb → OrderDb) : Option Scope :=
  match s.orders[i]? with
  | none => none
  | some order =>
    let next := order.transact tx s.position
    some ⟨s.orders.set i next.1, next.2⟩

def Scope.exposure (s : Scope) : Exposure :=
  ⟨positionQty s.position, workingQty (s.orders.map (·.row))⟩

def openLeaves (side : OrderSide) (order : StoredOrder) : ℚ :=
  if order.row.side = side ∧ isWorking order.row.status then order.row.leavesQty else 0

def openQty (side : OrderSide) (orders : List StoredOrder) : ℚ :=
  (orders.map (openLeaves side)).sum

structure Sound (order : StoredOrder) : Prop where
  num : Numbered (order.db none)
  lively : Lively order.row.toOrderAggregateState

theorem sound_numbered {order : StoredOrder} (sound : Sound order)
    (position : Option PositionMath) : Numbered (order.db position) :=
  ⟨sound.num.gapless, sound.num.rowVersion, nofun⟩

theorem sound_lively {order : StoredOrder} (sound : Sound order)
    (position : Option PositionMath) : ∀ row, (order.db position).row = some row →
      Lively row.toOrderAggregateState := by
  intro row stored
  cases stored
  exact sound.lively

theorem working_qty_nets (orders : List StoredOrder) :
    workingQty (orders.map (·.row)) = openQty .buy orders - openQty .sell orders := by
  induction orders with
  | nil => simp [workingQty, openQty]
  | cons order orders ih =>
    simp only [workingQty, openQty, List.map_cons, List.sum_cons] at *
    rw [ih]
    cases side : order.row.side <;> cases working : isWorking order.row.status <;>
      simp [signedLeaves, openLeaves, side, working, OrderSide.signed] <;> ring

theorem working_of_open {s : OrderAggregateState} (lively : Lively s)
    (isOpen : s.status.isTerminal = false) : isWorking s.status = true := by
  have running := lively.notSuspended
  cases status : s.status <;> simp_all [OrderStatus.isTerminal, isWorking]

theorem open_leaves_nonneg {order : StoredOrder} (sound : Sound order) (side : OrderSide) :
    0 ≤ openLeaves side order := by
  unfold openLeaves
  split
  · rename_i working
    have isOpen : order.row.status.isTerminal = false := by
      have status := working.2
      cases here : order.row.status <;> simp_all [isWorking, OrderStatus.isTerminal]
    have room := sound.lively.room isOpen
    rw [sound.lively.leaves isOpen]
    linarith
  · exact le_refl _

theorem open_qty_nonneg {orders : List StoredOrder} (sound : ∀ order ∈ orders, Sound order)
    (side : OrderSide) : 0 ≤ openQty side orders := by
  unfold openQty
  refine List.sum_nonneg ?_
  intro leaves member
  obtain ⟨order, there, rfl⟩ := List.mem_map.mp member
  exact open_leaves_nonneg (sound order there) side

theorem open_qty_set {orders : List StoredOrder} {i : Nat} {order : StoredOrder}
    (there : orders[i]? = some order) (next : StoredOrder) (side : OrderSide) :
    openQty side (orders.set i next) =
      openQty side orders - openLeaves side order + openLeaves side next := by
  induction orders generalizing i with
  | nil => cases there
  | cons head orders ih =>
    cases i with
    | zero =>
      cases there
      simp [openQty, add_comm]
    | succ i =>
      have rest := ih there
      simp only [openQty, List.set_cons_succ, List.map_cons, List.sum_cons] at *
      rw [rest]
      ring

theorem open_qty_append (orders more : List StoredOrder) (side : OrderSide) :
    openQty side (orders ++ more) = openQty side orders + openQty side more := by
  simp [openQty]

theorem reported_position (db : OrderDb) {row : OrderRow} {report : ExecutionReport}
    {event : OrderDomainEvent}
    (yields : Yields row.toOrderAggregateState (.receiveExecutionReport row.orderId report) event) :
    (persistFills db row.side [event]).position =
      match report with
      | .fill _ qty price _ => some ((db.position.getD .flat).applyFill row.side qty price)
      | _ => db.position := by
  cases report <;> simp [persistFills, yields.execution, OrderCommand.execution, persistFill]

/-- A transaction on one order takes at least `qty` from its open quantity and
    moves the position it saw by exactly `qty`, on the order's side. -/
structure MovesBy (order : StoredOrder) (position : Option PositionMath) (qty : ℚ)
    (next : OrderDb) : Prop where
  nonneg : 0 ≤ qty
  sound : Sound (order.of next)
  side : (order.of next).row.side = order.row.side
  leaves : ∀ side, openLeaves side (order.of next) ≤
    openLeaves side order - if order.row.side = side then qty else 0
  position : positionQty next.position = positionQty position + order.row.side.signed qty

def Moves (order : StoredOrder) (position : Option PositionMath) (next : OrderDb) : Prop :=
  ∃ qty, MovesBy order position qty next

def Quiet (order : StoredOrder) (position : Option PositionMath) (next : OrderDb) : Prop :=
  MovesBy order position 0 next ∧ next.position = position

theorem sound_of_write {order : StoredOrder} {position : Option PositionMath} {kind : WriteKind}
    {next : OrderDb} (sound : Sound order) (write : Write (order.db position) kind next) :
    Sound (order.of next) := by
  have num := write_numbered (sound_numbered sound position) write
  have lively := write_lively write (sound_lively sound position)
  cases stored : next.row with
  | none =>
    cases write with
    | submitted cmd event code createdAt absent => cases absent
    | reported => cases stored
    | routed => cases stored
    | canceled => cases stored
    | recorded externalOrderId => cases stored
  | some row =>
    have same : order.of next = ⟨row, next.log⟩ := by simp [StoredOrder.of, stored]
    rw [same]
    refine ⟨⟨num.gapless, ?_, nofun⟩, lively row stored⟩
    intro found there
    cases there
    exact num.rowVersion row stored

theorem fill_open_leaves {order : StoredOrder} (sound : Sound order)
    (isOpen : order.row.status.isTerminal = false) {id : String} {qty price : ℚ} {venue : String}
    (fits : ReportFits order.row.toOrderAggregateState (.fill id qty price venue))
    (log : List OrderEventRecord) (side : OrderSide) :
    openLeaves side ⟨reportedRow order.row (.fill id qty price venue), log⟩ =
      openLeaves side order - if order.row.side = side then qty else 0 := by
  have working := working_of_open sound.lively isOpen
  have leaves := sound.lively.leaves isOpen
  have room := fits.2.2
  by_cases own : order.row.side = side
  · simp only [openLeaves, reportedRow, reportState, fillState, own, working, true_and, if_true]
    split
    · rename_i more
      simp only [isWorking, if_true]
      linarith
    · rename_i done
      simp only [isWorking, Bool.false_eq_true, if_false]
      linarith
  · simp [openLeaves, reportedRow, reportState, fillState, own]

theorem close_open_leaves {order : StoredOrder} (sound : Sound order) {row : OrderRow}
    (closed : isWorking row.status = false) (log : List OrderEventRecord) (side : OrderSide) :
    openLeaves side ⟨row, log⟩ ≤ openLeaves side order := by
  have before := open_leaves_nonneg sound side
  simp only [openLeaves, closed, Bool.false_eq_true, and_false, if_false] at *
  exact before

theorem quiet_of {order : StoredOrder} {position : Option PositionMath} {next : OrderDb}
    (sound : Sound (order.of next)) (side : (order.of next).row.side = order.row.side)
    (leaves : ∀ side, openLeaves side (order.of next) ≤ openLeaves side order)
    (same : next.position = position) : Quiet order position next := by
  refine ⟨⟨le_refl _, sound, side, ?_, ?_⟩, same⟩
  · intro side
    simpa using leaves side
  · rw [same]
    cases order.row.side <;> simp [OrderSide.signed]

theorem quiet_moves {order : StoredOrder} {position : Option PositionMath} {next : OrderDb}
    (quiet : Quiet order position next) : Moves order position next :=
  ⟨0, quiet.1⟩

theorem fill_moves {order : StoredOrder} {position : Option PositionMath} (sound : Sound order)
    {id : String} {qty price : ℚ} {venue : String} {next : OrderDb}
    (write : Write (order.db position) (.report (.fill id qty price venue)) next) :
    MovesBy order position qty next := by
  have kept := sound_of_write sound write
  cases write with
  | reported row report event stored isOpen fits yields =>
    cases stored
    have moved := reported_position (order.db position) yields
    refine ⟨fits.1.le, kept, rfl, fun side => (fill_open_leaves sound isOpen fits _ side).le, ?_⟩
    simp only [moved, positionQty, apply_fill_net]
    cases position <;> simp [StoredOrder.db, PositionMath.flat]

theorem close_quiet {order : StoredOrder} {position : Option PositionMath} (sound : Sound order)
    {report : ExecutionReport} (close : ∀ id qty price venue, report ≠ .fill id qty price venue)
    {next : OrderDb} (write : Write (order.db position) (.report report) next) :
    Quiet order position next := by
  have kept := sound_of_write sound write
  cases write with
  | reported row report event stored isOpen fits yields =>
    cases stored
    have moved := reported_position (order.db position) yields
    cases report with
    | fill id qty price venue => exact absurd rfl (close id qty price venue)
    | reject reason venue => exact quiet_of kept rfl (close_open_leaves sound rfl _) moved
    | canceled reason venue => exact quiet_of kept rfl (close_open_leaves sound rfl _) moved

theorem report_moves {order : StoredOrder} {position : Option PositionMath} (sound : Sound order)
    {report : ExecutionReport} {next : OrderDb}
    (write : Write (order.db position) (.report report) next) : Moves order position next := by
  cases report with
  | fill id qty price venue => exact ⟨qty, fill_moves sound write⟩
  | reject reason venue => exact quiet_moves (close_quiet sound (by intros; simp) write)
  | canceled reason venue => exact quiet_moves (close_quiet sound (by intros; simp) write)

theorem entry_quiet {order : StoredOrder} {position : Option PositionMath} (sound : Sound order)
    {kind : WriteKind} (entry : kind.fromEntry) {next : OrderDb}
    (write : Write (order.db position) kind next) : Quiet order position next := by
  have kept := sound_of_write sound write
  cases write with
  | submitted => cases entry
  | reported => cases entry
  | canceled row reason event stored isOpen yields =>
    cases stored
    exact quiet_of kept rfl (close_open_leaves sound rfl _) rfl
  | routed row venue externalOrderId event stored submitted yields =>
    cases stored
    refine quiet_of kept rfl (fun side => le_of_eq ?_) rfl
    simp [openLeaves, StoredOrder.of, routedRow, closeState, isWorking, submitted]
  | recorded externalOrderId => exact quiet_of kept rfl (fun side => le_refl _) rfl

theorem still_quiet {order : StoredOrder} (sound : Sound order) (position : Option PositionMath) :
    Quiet order position (order.db position) :=
  quiet_of sound rfl (fun _ => le_refl _) rfl

theorem book_moves {order : StoredOrder} (sound : Sound order) (position : Option PositionMath)
    (fates : List AttemptFate) (report : ExecutionReport) (metadata : EventMetadata) :
    Moves order position (bookReport fates report metadata (order.db position)) := by
  rcases book_report_cases (sound_numbered sound position) (sound_lively sound position) fates
    report metadata with ⟨same, _⟩ | ⟨row, event, _, _, _, _, same, write⟩
  · rw [same]
    exact quiet_moves (still_quiet sound position)
  · rw [same]
    exact report_moves sound write

theorem book_quiet {order : StoredOrder} (sound : Sound order) (position : Option PositionMath)
    (fates : List AttemptFate) {report : ExecutionReport}
    (close : ∀ id qty price venue, report ≠ .fill id qty price venue) (metadata : EventMetadata) :
    Quiet order position (bookReport fates report metadata (order.db position)) := by
  rcases book_report_cases (sound_numbered sound position) (sound_lively sound position) fates
    report metadata with ⟨same, _⟩ | ⟨row, event, _, _, _, _, same, write⟩
  · rw [same]
    exact still_quiet sound position
  · rw [same]
    exact close_quiet sound close write

theorem commit_quiet {order : StoredOrder} (sound : Sound order) (position : Option PositionMath)
    {writer : Writer} (entry : FromEntry writer) :
    Quiet order position (commitNow writer (order.db position)) := by
  rcases commit_now_writes (sound_numbered sound position) (sound_lively sound position) entry with
    same | ⟨kind, from_entry, write⟩
  · rw [same]
    exact still_quiet sound position
  · exact entry_quiet sound from_entry write

structure Transacted (s t : Scope) (side : OrderSide) (qty : ℚ) : Prop where
  nonneg : 0 ≤ qty
  sound : ∀ order ∈ t.orders, Sound order
  sides : ∀ order ∈ t.orders, ∃ old ∈ s.orders, order.row.side = old.row.side
  leaves : ∀ other, openQty other t.orders ≤
    openQty other s.orders - if side = other then qty else 0
  position : positionQty t.position = positionQty s.position + side.signed qty

theorem transact_cases {s t : Scope} {i : Nat} {tx : OrderDb → OrderDb}
    (next : s.transact i tx = some t) : ∃ order, s.orders[i]? = some order ∧
      t = ⟨s.orders.set i (order.of (tx (order.db s.position))), (tx (order.db s.position)).position⟩ := by
  unfold Scope.transact at next
  split at next
  · cases next
  · rename_i order there
    cases next
    exact ⟨order, there, rfl⟩

theorem transact_moves_by {s : Scope} {i : Nat} {order : StoredOrder} {db : OrderDb} {qty : ℚ}
    (sound : ∀ order ∈ s.orders, Sound order) (there : s.orders[i]? = some order)
    (moves : MovesBy order s.position qty db) :
    Transacted s ⟨s.orders.set i (order.of db), db.position⟩ order.row.side qty where
  nonneg := moves.nonneg
  sound := forall_mem_set sound moves.sound
  sides := by
    refine forall_mem_set (fun old member => ⟨old, member, rfl⟩) ?_
    exact ⟨order, List.mem_of_getElem? there, moves.side⟩
  leaves := by
    intro other
    have taken := moves.leaves other
    rw [open_qty_set there]
    linarith
  position := moves.position

theorem transact_moves {s t : Scope} {i : Nat} {tx : OrderDb → OrderDb}
    (sound : ∀ order ∈ s.orders, Sound order)
    (moves : ∀ order, Sound order → Moves order s.position (tx (order.db s.position)))
    (next : s.transact i tx = some t) : ∃ side qty, Transacted s t side qty := by
  obtain ⟨order, there, rfl⟩ := transact_cases next
  obtain ⟨qty, moved⟩ := moves order (sound order (List.mem_of_getElem? there))
  exact ⟨_, qty, transact_moves_by sound there moved⟩

theorem transact_quiet {s t : Scope} {i : Nat} {tx : OrderDb → OrderDb}
    (sound : ∀ order ∈ s.orders, Sound order)
    (quiet : ∀ order, Sound order → Quiet order s.position (tx (order.db s.position)))
    (next : s.transact i tx = some t) :
    (∃ side, Transacted s t side 0) ∧ t.position = s.position := by
  obtain ⟨order, there, rfl⟩ := transact_cases next
  obtain ⟨moved, still⟩ := quiet order (sound order (List.mem_of_getElem? there))
  exact ⟨⟨_, transact_moves_by sound there moved⟩, still⟩

def submitOrder (cmd : SubmitOrder) (metadata : EventMetadata) (brokerConnectionCode : String)
    (createdAt : Nat) : Option StoredOrder :=
  match submitTx cmd metadata brokerConnectionCode createdAt .empty with
  | .ok db => db.row.map (fun row => ⟨row, db.log⟩)
  | .error _ => none

theorem submit_order_opens {cmd : SubmitOrder} {metadata : EventMetadata} {code : String}
    {createdAt : Nat} {order : StoredOrder}
    (inserted : submitOrder cmd metadata code createdAt = some order) :
    Sound order ∧ 0 < cmd.quantity ∧
      ∀ side, openLeaves side order = if cmd.side = side then cmd.quantity else 0 := by
  unfold submitOrder at inserted
  split at inserted
  · rename_i db stored
    have write := submit_tx_writes (reached_numbered (.start none)) stored
    obtain ⟨_, positive, event, _, _, _, _, same⟩ :=
      submit_tx_inserts (reached_numbered (.start none)) stored
    have num := write_numbered (reached_numbered (.start none)) write
    have lively := write_lively write (reached_lively (.start none))
    subst same
    cases inserted
    refine ⟨⟨⟨num.gapless, num.rowVersion, nofun⟩, lively _ rfl⟩, positive, fun side => ?_⟩
    simp [openLeaves, submitState, isWorking]
  · cases inserted

end OmsScope
