import OpenOms.OrderStore

/-!
The Kafka outbox: the queue of committed order events and the queue of position
writes, what a batch of each reads, and the records an entry becomes.
-/
namespace OmsKafkaOutbox
open OmsOrders OmsOrderStore OmsPositions

structure StoredEvent where
  globalPosition : Nat
  record : OrderEventRecord
  deriving DecidableEq, Repr

/-- What a record needs of the order's `order_state` row. -/
structure OrderContext where
  portfolioId : String
  instrumentId : String
  side : OrderSide
  deriving DecidableEq, Repr

structure OutboxRow where
  globalPosition : Nat
  orderId : String
  eventType : OrderEventType
  payload : OrderDomainEvent
  context : Option OrderContext
  deriving DecidableEq, Repr

structure QueuedChange where
  id : Nat
  portfolioId : String
  instrumentId : String
  deriving DecidableEq, Repr

/-- One queued position write, with the row as it is now (`none` once deleted). -/
structure PositionChange where
  id : Nat
  portfolioId : String
  instrumentId : String
  snapshot : Option PositionMath
  deriving DecidableEq, Repr

structure OutboxTopics where
  orders : String
  fills : String
  positions : String
  deriving DecidableEq, Repr

/-- A portfolio's id has no colon, so a position's key tells its two parts apart. -/
inductive RecordKey where
  | order (orderId : String)
  | position (portfolioId instrumentId : String)
  deriving DecidableEq, Repr

inductive RecordPayload where
  | event (payload : OrderDomainEvent)
  | fill (event : OrderDomainEvent) (context : Option OrderContext)
  | position (portfolioId instrumentId : String) (snapshot : PositionMath)
  deriving DecidableEq, Repr

structure OutboxRecord where
  topic : String
  key : RecordKey
  payload : RecordPayload
  deriving DecidableEq, Repr

def toRow (orderState : String → Option OrderContext) (event : StoredEvent) : OutboxRow :=
  { globalPosition := event.globalPosition
    orderId := event.record.event.orderId
    eventType := event.record.event.eventType
    payload := event.record.event
    context := orderState event.record.event.orderId }

def queuedEvents (outbox : List Nat) (events : List StoredEvent) : List StoredEvent :=
  (events.filter (·.globalPosition ∈ outbox)).mergeSort
    fun a b => a.globalPosition ≤ b.globalPosition

def fetchBatch (outbox : List Nat) (events : List StoredEvent)
    (orderState : String → Option OrderContext) (limit : Nat) : List OutboxRow :=
  ((queuedEvents outbox events).take limit).map (toRow orderState)

def fetchPositionBatch (queue : List QueuedChange)
    (position : String × String → Option PositionMath) (limit : Nat) : List PositionChange :=
  ((queue.mergeSort fun a b => a.id ≤ b.id).take limit).map fun change =>
    ⟨change.id, change.portfolioId, change.instrumentId,
      position (change.portfolioId, change.instrumentId)⟩

def OrderEventType.isFill : OrderEventType → Bool
  | .orderPartiallyFilled | .orderFilled => true
  | _ => false

/-- The Kafka records one event becomes: always one on the orders topic, plus one
    on fills for a fill, under the same key. -/
def recordsFor (row : OutboxRow) (topics : OutboxTopics) : List OutboxRecord :=
  let first := ⟨topics.orders, .order row.orderId, .event row.payload⟩
  if OrderEventType.isFill row.eventType then
    [first, ⟨topics.fills, .order row.orderId, .fill row.payload row.context⟩]
  else [first]

/-- A position's current state; `none` for a row that no longer exists. -/
def positionRecord (change : PositionChange) (topics : OutboxTopics) : Option OutboxRecord :=
  change.snapshot.map fun snapshot =>
    ⟨topics.positions, .position change.portfolioId change.instrumentId,
      .position change.portfolioId change.instrumentId snapshot⟩

theorem mem_queued {outbox : List Nat} {events : List StoredEvent} {x : StoredEvent} :
    x ∈ queuedEvents outbox events ↔ x ∈ events ∧ x.globalPosition ∈ outbox := by
  simp [queuedEvents]

theorem queued_sorted (outbox : List Nat) (events : List StoredEvent) :
    (queuedEvents outbox events).Pairwise fun a b => a.globalPosition ≤ b.globalPosition := by
  refine (List.pairwise_mergeSort ?_ ?_ _).imp ?_
  · intro a b c
    simpa using Nat.le_trans
  · intro a b
    simpa using Nat.le_total _ _
  · intro a b
    simp

theorem records_key (row : OutboxRow) (topics : OutboxTopics) :
    ∀ record ∈ recordsFor row topics, record.key = .order row.orderId := by
  intro record member
  unfold recordsFor at member
  split at member <;> simp at member
  · rcases member with rfl | rfl <;> rfl
  · exact member ▸ rfl

theorem records_nonempty (row : OutboxRow) (topics : OutboxTopics) :
    recordsFor row topics ≠ [] := by
  unfold recordsFor
  split <;> simp

theorem position_record_key {change : PositionChange} {topics : OutboxTopics}
    {record : OutboxRecord} (made : positionRecord change topics = some record) :
    record.key = .position change.portfolioId change.instrumentId := by
  obtain ⟨_, _, rfl⟩ := Option.map_eq_some_iff.mp made
  rfl

end OmsKafkaOutbox
