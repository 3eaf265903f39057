import OpenOms.OrderEvents

/-!
What comes back of the events once they are rows: an order's page shows each of them,
in order, and the rebuild reads every fill.
-/
namespace OmsStoredEvents
open OmsOrders OmsOrderStore OmsOrderEntry OmsOrderWrites OmsAggregate OmsPositionWriters OmsRebuild
open OmsOrderEvents Json Lists

variable (stamp : Codec Nat) (show_ : ℚ → String)

structure Stores (record : OrderEventRecord) (r : StoredEvent) : Prop where
  version : r.version = record.version
  envelope : r.toNewOrderEvent =
    { domainEventToNewEvent stamp record.event with payload := r.payload }
  payload : Alike (domainEventToNewEvent stamp record.event).payload r.payload

/-- The order's rows among all in the table, wherever they are. -/
def Holds (table : List StoredEvent) (orderId : String) (log : List OrderEventRecord) : Prop :=
  ∃ rows, rows.Perm (table.filter (·.orderId = orderId)) ∧ List.Forall₂ (Stores stamp) log rows

/-- The entry tells its event: the envelope, the body and a line about it. -/
structure Shows (event : OrderDomainEvent) (v : OrderEventView) : Prop where
  eventId : v.eventId = event.eventId
  eventType : v.eventType = event.eventType.asStr
  actor : v.actor = event.actor
  occurredAt : v.occurredAt = event.timestamp
  statusAfter : v.statusAfter = some event.statusAfter.asStr
  summary : v.summary = summarize show_ event
  payload : (Codec.tagged OmsEventJson.payload).read v.payload = some event.payload
  correlationId : v.correlationId = none
  causationId : v.causationId = none
  schemaVersion : v.schemaVersion = 0

/-- The events replay to the row as to status and version, and to the row itself while the
    order is open. -/
def Replays (db : OrderDb) : Prop :=
  ∀ row, db.row = some row → ∃ s, FoldsTo db s ∧ s.status = row.status ∧ s.version = row.version ∧
    (row.status.isTerminal = false → s = row.toOrderAggregateState)

/-- The page has the order's events one for one, each as recorded when its row was, and
    they replay to the order's row. -/
structure Trail (table : List StoredEvent) (orderId : String) (db : OrderDb)
    (views : List OrderEventView) : Prop where
  versions : views.map OrderEventView.version = List.range' 1 db.log.length
  entries : List.Forall₂ (Shows show_) (events db) views
  recorded : (views.map fun v => (v.version, v.recordedAt)).Perm
    ((table.filter (·.orderId = orderId)).map fun r => (r.version, r.createdAt))
  replays : Replays db

def Answers (table : List StoredEvent) (orderId : String) (db : OrderDb) :
    Except ApiError (List OrderEventView) → Prop
  | .ok views => db.row.isSome = true ∧ Trail show_ table orderId db views
  | .error e => e = ⟨404, "order not found"⟩ ∧ db.row = none ∧ db.log = []

variable {stamp show_} {db db' : OrderDb}

theorem stored_reads {record : OrderEventRecord} {r : StoredEvent} (stores : Stores stamp record r) :
    (OmsEventJson.event stamp).read r.payload = some record.event :=
  (OmsEventJson.event stamp).read_alike stores.payload

theorem stored_body {record : OrderEventRecord} {r : StoredEvent} (stores : Stores stamp record r) :
    (Codec.tagged OmsEventJson.payload).read
      (((members r.payload).bind (·.lookup "payload")).getD .null) = some record.event.payload := by
  obtain ⟨ms, is, each⟩ := alike_members stores.payload
  have own := each "payload"
  rw [is]
  simp only [members, Option.bind_some]
  cases shown : ms.lookup "payload" with
  | none =>
    rw [shown] at own
    cases own
  | some j =>
    rw [shown] at own
    cases own with
    | some alike => exact Codec.read_alike _ alike

theorem stored_shows {record : OrderEventRecord} {r : StoredEvent} (stores : Stores stamp record r) :
    Shows show_ record.event (view stamp show_ r) := by
  have same := stores.envelope
  refine ⟨?_, ?_, ?_, ?_, ?_, ?_, ?_, ?_, ?_, ?_⟩
  · exact congrArg NewOrderEvent.eventId same
  · exact congrArg NewOrderEvent.eventType same
  · exact congrArg NewOrderEvent.actor same
  · simp only [view, stored_reads stores, Option.map_some, Option.getD_some]
  · simp only [view, stored_reads stores, Option.map_some]
  · simp only [view, stored_reads stores]
  · simp only [view, stored_reads stores]
    exact stored_body stores
  · exact congrArg NewOrderEvent.correlationId same
  · exact congrArg NewOrderEvent.causationId same
  · exact congrArg NewOrderEvent.schemaVersion same

theorem stored_versions {log : List OrderEventRecord} {rows : List StoredEvent}
    (stored : List.Forall₂ (Stores stamp) log rows) :
    rows.map (·.version) = log.map OrderEventRecord.version := by
  induction stored with
  | nil => rfl
  | cons stores _ ih => rw [List.map_cons, List.map_cons, stores.version, ih]

theorem loaded_in_order {table : List StoredEvent} {orderId : String} (num : Numbered db)
    (holds : Holds stamp table orderId db.log) :
    List.Forall₂ (Stores stamp) db.log (loadStream table orderId) := by
  obtain ⟨rows, perm, stored⟩ := holds
  have versions : rows.map (·.version) = List.range' 1 db.log.length := by
    rw [stored_versions stored, num.gapless, numbered_versions, ← num.gapless]
    simp [events]
  have apart : (rows.map (·.version)).Nodup := by
    rw [versions]
    exact List.nodup_range'
  have rising : rows.Pairwise fun a b => decide (a.version ≤ b.version) = true := by
    have strict : (rows.map (·.version)).Pairwise (· < ·) := by
      rw [versions]
      exact List.pairwise_lt_range'
    rw [List.pairwise_map] at strict
    exact strict.imp fun below => decide_eq_true (Nat.le_of_lt below)
  have sorted : (loadStream table orderId).Pairwise fun a b => decide (a.version ≤ b.version) = true :=
    List.pairwise_mergeSort
      (fun a b c left right => by simp only [decide_eq_true_eq] at *; omega)
      (fun a b => by simp only [Bool.or_eq_true, decide_eq_true_eq]; omega) _
  have same : rows = loadStream table orderId := by
    refine List.Perm.eq_of_pairwise ?_ rising sorted (perm.trans (List.mergeSort_perm _ _).symm)
    intro a b here there left right
    have inside : b ∈ rows := perm.mem_iff.mpr ((List.mergeSort_perm _ _).mem_iff.mp there)
    refine List.inj_on_of_nodup_map apart here inside ?_
    simp only [decide_eq_true_eq] at left right
    omega
  rw [← same]
  exact stored

theorem write_replays {kind : WriteKind} (write : Write db kind db') (replays : Replays db) :
    Replays db' := by
  intro row' stored'
  cases write with
  | submitted cmd event code createdAt absent positive version noFill noRoute applies =>
    cases stored'
    exact ⟨_, @rehydrate_snoc [] event _ _ rfl (applies .empty), rfl, rfl, fun _ => rfl⟩
  | reported row report event stored isOpen fits yields =>
    cases stored'
    obtain ⟨s, folds, -, -, whole⟩ := replays row stored
    rw [whole isOpen] at folds
    exact ⟨_, folds_snoc folds yields rfl, rfl, rfl, fun _ => rfl⟩
  | routed row venue externalOrderId event stored submitted yields =>
    cases stored'
    obtain ⟨s, folds, -, -, whole⟩ := replays row stored
    rw [whole (by rw [submitted]; rfl)] at folds
    exact ⟨_, folds_snoc folds yields rfl, rfl, rfl, fun _ => rfl⟩
  | canceled row reason event stored isOpen yields =>
    cases stored'
    obtain ⟨s, folds, -, -, whole⟩ := replays row stored
    rw [whole isOpen] at folds
    exact ⟨_, folds_snoc folds yields rfl, rfl, rfl, fun isOpen' => by cases isOpen'⟩
  | recorded externalOrderId =>
    simp only [recordExternalId, Option.map_eq_some_iff] at stored'
    obtain ⟨old, there, rfl⟩ := stored'
    exact replays old there

theorem reached_replays (reached : Reached db) : Replays db := by
  induction reached with
  | start position =>
    intro row missing
    cases missing
  | write _ write replays => exact write_replays write replays

theorem loaded_trail {table : List StoredEvent} {orderId : String} (reached : Reached db)
    (holds : Holds stamp table orderId db.log) :
    Trail show_ table orderId db (loadTimeline stamp show_ table orderId) := by
  have num := reached_numbered reached
  have loaded := loaded_in_order num holds
  refine ⟨?_, ?_, ?_, reached_replays reached⟩
  · have versions := stored_versions loaded
    rw [loadTimeline, List.map_map]
    refine Eq.trans (b := (loadStream table orderId).map (·.version)) rfl ?_
    rw [versions, num.gapless, numbered_versions, ← num.gapless]
    simp [events]
  · rw [loadTimeline, events, List.forall₂_map_left_iff, List.forall₂_map_right_iff]
    exact loaded.imp fun _ _ stores => stored_shows stores
  · rw [loadTimeline, List.map_map]
    exact (List.mergeSort_perm _ _).map _

/-- Whatever writers an order has had, its page is its whole trail, which replays to the
    order. -/
theorem trail_exact (stamp : Codec Nat) (show_ : ℚ → String) (db : OrderDb) (reached : Reached db)
    (table : List StoredEvent) (orderId : String) (holds : Holds stamp table orderId db.log) :
    Answers show_ table orderId db (getOrderEventsAdmin stamp show_ table orderId db.row) := by
  unfold getOrderEventsAdmin
  cases stored : db.row with
  | none => exact ⟨rfl, stored, (reached_numbered reached).noRow stored⟩
  | some row => exact ⟨by rw [stored]; rfl, loaded_trail reached holds⟩

def epochText : Codec Nat where
  write
    | 0 => .str "1970-01-01T00:00:00Z"
    | n + 1 => Codec.count.write n
  read
    | .str s => if s = "1970-01-01T00:00:00Z" then some 0 else none
    | j => (Codec.count.read j).map (· + 1)
  read_alike {n _} alike := by
    cases n with
    | zero =>
      cases alike
      rfl
    | succ n =>
      cases alike
      show (Codec.count.read (Codec.count.write n)).map (· + 1) = some (n + 1)
      rw [Codec.read_write, Option.map_some]

/-- The row of an event, its payload's members the other way round. -/
def storeRow (record : OrderEventRecord) : StoredEvent :=
  let new := domainEventToNewEvent epochText record.event
  { new with
    payload := .obj ((members new.payload).getD []).reverse
    globalPosition := record.version, orderId := "o1", version := record.version, createdAt := 1 }

theorem store_row_stores (record : OrderEventRecord) : Stores epochText record (storeRow record) where
  version := rfl
  envelope := rfl
  payload := by
    refine perm_alike (List.reverse_perm _).symm ?_
    show ["event_id", "event_type", "order_id", "timestamp", "actor", "payload", "version",
      "status_after"].Nodup
    decide

theorem bought_ten_trail : Answers (fun q => toString q) (boughtTen.log.map storeRow) "o1" boughtTen
    (getOrderEventsAdmin epochText (fun q => toString q) (boughtTen.log.map storeRow) "o1"
      boughtTen.row) :=
  trail_exact epochText _ boughtTen bought_ten_reached _ "o1"
    ⟨boughtTen.log.map storeRow, by
      rw [List.filter_eq_self.mpr (by intro r there; obtain ⟨_, _, rfl⟩ := List.mem_map.mp there; rfl)],
      by
        rw [List.forall₂_map_right_iff, List.forall₂_same]
        exact fun record _ => store_row_stores record⟩

/-- The log's row and its order's columns as they are stored. -/
structure Joins (stamp : Codec Nat) (row : LogRow) (r : StoredJoin) : Prop where
  position : r.row.globalPosition = row.globalPosition
  event : ∃ version, Stores stamp ⟨version, row.joined.event⟩ r.row
  key : r.key = row.joined.key
  side : r.side = row.joined.side.asStr

theorem fill_text (type : OrderEventType) : isFillText type.asStr = isFillType type := by
  cases type <;> decide

theorem side_text (side : OrderSide) : (if side.asStr = "buy" then .buy else .sell) = side := by
  cases side <;> decide

theorem joined_replays {row : LogRow} {r : StoredJoin} (joins : Joins stamp row r) (acc : Positions) :
    replay acc row = replayStored stamp acc r := by
  obtain ⟨version, stores⟩ := joins.event
  unfold replay replayStored
  rw [stored_reads stores, joins.key, joins.side]
  dsimp only
  cases row.joined.event.payload with
  | orderPartiallyFilled fill => simp only [side_text]
  | orderFilled fill => simp only [side_text]
  | _ => rfl

def storeJoin (row : LogRow) : StoredJoin where
  row := { storeRow ⟨1, row.joined.event⟩ with globalPosition := row.globalPosition }
  portfolioId := row.joined.portfolioId
  instrumentId := row.joined.instrumentId
  side := row.joined.side.asStr

theorem store_join_joins (row : LogRow) : Joins epochText row (storeJoin row) where
  position := rfl
  event := ⟨1, rfl, rfl, (store_row_stores ⟨1, row.joined.event⟩).payload⟩
  key := rfl
  side := rfl

def twoFills : List LogRow := [⟨7, fillEvent 2⟩, ⟨4, fillEvent 3⟩]

end OmsStoredEvents
