import OpenOms.Domain.Aggregate
import OpenOms.Positions

/-!
One order's share of the database: its `order_state` row, its `order_event` log
and the `position` row its fills move. The functions are the statements the
write paths run; a transaction is a composition of them whose result is kept on
success and dropped on error.
-/
namespace OmsOrderStore
open OmsOrders OmsAggregate OmsPositions

/-- An `order_state` row: the aggregate's columns and those only order entry writes. -/
structure OrderRow extends OrderAggregateState where
  externalOrderId : Option String
  brokerConnectionCode : String
  createdAt : Nat
  deriving DecidableEq, Repr

structure OrderEventRecord where
  version : Nat
  event : OrderDomainEvent
  deriving DecidableEq, Repr

structure OrderDb where
  row : Option OrderRow
  log : List OrderEventRecord
  position : Option PositionMath
  deriving DecidableEq, Repr

def OrderDb.empty : OrderDb := ⟨none, [], none⟩

structure ConcurrencyError where
  expected : Nat
  actual : Nat
  deriving DecidableEq, Repr

/-- `SELECT COALESCE(MAX(version), 0) FROM order_event`. -/
def currentVersion (log : List OrderEventRecord) : Nat :=
  log.foldr (fun record highest => max record.version highest) 0

def numbered (version : Nat) : List OrderDomainEvent → List OrderEventRecord
  | [] => []
  | event :: events => ⟨version + 1, event⟩ :: numbered (version + 1) events

/-- The version check and the inserts run under the stream's advisory lock, so
    no other append of this order falls between them. -/
def appendEventsInTx (db : OrderDb) (expectedVersion : Nat) (events : List OrderDomainEvent) :
    Except ConcurrencyError OrderDb :=
  if events.isEmpty then .ok db
  else
    let actualVersion := currentVersion db.log
    if actualVersion ≠ expectedVersion then .error ⟨expectedVersion, actualVersion⟩
    else .ok { db with log := db.log ++ numbered expectedVersion events }

/-- `UPDATE order_state SET .. WHERE order_id = $1 AND version = ..`, with the
    number of rows it hit. -/
def updateWhereVersion (db : OrderDb) (expectedVersion : Nat) (set : OrderRow → OrderRow) :
    OrderDb × Nat :=
  match db.row with
  | some row =>
    if row.version = expectedVersion then ({ db with row := some (set row) }, 1) else (db, 0)
  | none => (db, 0)

/-- `UPDATE order_state SET external_order_id = $2 .. AND external_order_id IS NULL`. -/
def recordExternalId (db : OrderDb) (externalOrderId : String) : OrderDb :=
  let set (row : OrderRow) : OrderRow :=
    { row with externalOrderId := row.externalOrderId.or (some externalOrderId) }
  { db with row := db.row.map set }

def persistFill (db : OrderDb) (side : OrderSide) (execution : Execution) : OrderDb :=
  let loaded := db.position.getD .flat
  { db with position := some (loaded.applyFill side execution.qty execution.price) }

def persistFills (db : OrderDb) (side : OrderSide) : List OrderDomainEvent → OrderDb
  | [] => db
  | event :: events =>
    match event.payload.execution with
    | some execution => persistFills (persistFill db side execution) side events
    | none => persistFills db side events

def events (db : OrderDb) : List OrderDomainEvent := db.log.map (·.event)

def booked (db : OrderDb) : List Execution :=
  (events db).filterMap (fun event => event.payload.execution)

theorem numbered_append (version : Nat) (early late : List OrderDomainEvent) :
    numbered version (early ++ late) =
      numbered version early ++ numbered (version + early.length) late := by
  induction early generalizing version with
  | nil => simp [numbered]
  | cons event early ih =>
    simp only [List.cons_append, numbered, ih, List.length_cons]
    rw [show version + 1 + early.length = version + (early.length + 1) by omega]

theorem numbered_versions (version : Nat) (es : List OrderDomainEvent) :
    (numbered version es).map (·.version) = List.range' (version + 1) es.length := by
  induction es generalizing version with
  | nil => rfl
  | cons event es ih => simp [numbered, ih, List.range'_succ]

theorem numbered_current (es : List OrderDomainEvent) :
    currentVersion (numbered 0 es) = es.length := by
  suffices general : ∀ version, currentVersion (numbered version es) =
      if es = [] then 0 else version + es.length by
    rw [general 0]
    split
    · rename_i empty
      simp [empty]
    · simp
  induction es with
  | nil => intro version; rfl
  | cons event es ih =>
    intro version
    have tail := ih (version + 1)
    simp only [currentVersion, numbered, List.foldr_cons] at *
    rw [tail]
    split <;> simp_all
    omega

structure Numbered (db : OrderDb) : Prop where
  gapless : db.log = numbered 0 (events db)
  rowVersion : ∀ row, db.row = some row → row.version = db.log.length
  noRow : db.row = none → db.log = []

theorem numbered_log_current {db : OrderDb} (num : Numbered db) :
    currentVersion db.log = db.log.length := by
  rw [num.gapless, numbered_current, ← num.gapless]
  simp [events]

/-- A single event is appended exactly when the writer's version is the log's,
    whatever the transaction has done to the row and the position before. -/
theorem append_one {db : OrderDb} (num : Numbered db) (db' : OrderDb) (same : db'.log = db.log)
    (expected : Nat) (event : OrderDomainEvent) :
    appendEventsInTx db' expected [event] =
      if db.log.length = expected then .ok { db' with log := db.log ++ [⟨expected + 1, event⟩] }
      else .error ⟨expected, db.log.length⟩ := by
  simp only [appendEventsInTx, same, numbered_log_current num, List.isEmpty_cons,
    Bool.false_eq_true, if_false, ne_eq, numbered]
  split <;> simp_all

@[simp]
theorem update_where_version_log (db : OrderDb) (expected : Nat) (set : OrderRow → OrderRow) :
    (updateWhereVersion db expected set).1.log = db.log := by
  unfold updateWhereVersion
  split
  · split <;> rfl
  · rfl

@[simp]
theorem persist_fills_log (db : OrderDb) (side : OrderSide) (events : List OrderDomainEvent) :
    (persistFills db side events).log = db.log := by
  induction events generalizing db with
  | nil => rfl
  | cons event events ih =>
    simp only [persistFills]
    split
    · rw [ih]
      rfl
    · exact ih db

@[simp]
theorem persist_fills_row (db : OrderDb) (side : OrderSide) (events : List OrderDomainEvent) :
    (persistFills db side events).row = db.row := by
  induction events generalizing db with
  | nil => rfl
  | cons event events ih =>
    simp only [persistFills]
    split
    · rw [ih]
      rfl
    · exact ih db

theorem gapless_snoc {db db' : OrderDb} (num : Numbered db) {event : OrderDomainEvent}
    (grown : db'.log = db.log ++ [⟨db.log.length + 1, event⟩]) :
    db'.log = numbered 0 (events db') ∧ events db' = events db ++ [event] := by
  have same : events db' = events db ++ [event] := by simp [events, grown]
  have length : (events db).length = db.log.length := by simp [events]
  refine ⟨?_, same⟩
  rw [same, numbered_append, ← num.gapless, grown, Nat.zero_add, length]
  rfl

end OmsOrderStore
