import OpenOms.OrderStore

/-!
Order entry's own writes: submit's first transaction, the route step (TX2) and
the local branch of cancel. As in execution, a `snapshot` is the row a writer's
SELECT found and `db` what its writes meet.
-/
namespace OmsOrderEntry
open OmsOrders OmsLifecycle OmsAggregate OmsOrderStore

structure ApiError where
  status : Nat
  message : String
  deriving DecidableEq, Repr

def mapRejectionToApiError (rejection : CommandRejection) : ApiError :=
  match rejection.code with
  | .orderAlreadyExists => ⟨409, rejection.message⟩
  | _ => ⟨400, rejection.message⟩

def insertOrderState (db : OrderDb) (s : OrderAggregateState) (brokerConnectionCode : String)
    (createdAt : Nat) : OrderDb :=
  { db with row := some ⟨s, none, brokerConnectionCode, createdAt⟩ }

def foldEvents (aggregate : OrderAggregate) (events : List OrderDomainEvent)
    (missing : String) : Except ApiError OrderAggregateState :=
  match aggregate.applyAll events with
  | .error rejection => .error ⟨500, s!"failed to apply domain event: {rejection.message}"⟩
  | .ok applied =>
    match applied.state with
    | none => .error ⟨500, missing⟩
    | some state => .ok state

def appendOr500 (db : OrderDb) (expectedVersion : Nat) (events : List OrderDomainEvent) :
    Except ApiError OrderDb :=
  match appendEventsInTx db expectedVersion events with
  | .error conflict =>
    .error ⟨500, s!"failed to append order audit event: {conflict.expected} {conflict.actual}"⟩
  | .ok committed => .ok committed

def submitTx (cmd : SubmitOrder) (metadata : EventMetadata) (brokerConnectionCode : String)
    (createdAt : Nat) (db : OrderDb) : Except ApiError OrderDb := do
  if db.row.isSome then .error ⟨409, "order already exists"⟩
  else
    match OrderAggregate.empty.decide (.submitOrder cmd) metadata with
    | .error rejection => .error (mapRejectionToApiError rejection)
    | .ok events =>
      let state ← foldEvents .empty events "missing aggregate state after submit"
      appendOr500 (insertOrderState db state brokerConnectionCode createdAt) 0 events

def buyTen : SubmitOrder :=
  { orderId := "o1", clientOrderId := "c1", portfolioId := "p1", accountId := "a1"
    instrumentId := "1", side := .buy, orderType := .market, timeInForce := .day
    limitPrice := none, quantity := 10 }

def stamp : EventMetadata := ⟨"e1", 0, "oms"⟩

inductive RouteResult where
  | routed
  | terminal (status : OrderStatus)
  | notSubmitted
  deriving DecidableEq, Repr

inductive RouteError where
  | concurrency (conflict : ConcurrencyError)
  | api (error : ApiError)
  deriving DecidableEq, Repr

def maxRouteAttempts : Nat := 5

/-- The column list of TX2's UPDATE. -/
def routeColumns (newState : OrderAggregateState) (externalOrderId : String) (row : OrderRow) :
    OrderRow :=
  { row with
    status := newState.status
    version := newState.version
    externalOrderId := some externalOrderId }

def persistRoutedOnce (snapshot : OrderRow) (venue externalOrderId : String)
    (metadata : EventMetadata) (db : OrderDb) : Except RouteError (RouteResult × OrderDb) :=
  if snapshot.status.isTerminal then .ok (.terminal snapshot.status, db)
  else if snapshot.status ≠ .submitted then
    -- A fill landed first: only the venue's id still has to be on record.
    .ok (.notSubmitted, recordExternalId db externalOrderId)
  else
    let aggregate := OrderAggregate.fromState snapshot.toOrderAggregateState
    match aggregate.decide (.routeOrder snapshot.orderId venue externalOrderId) metadata with
    | .error rejection => .error (.api (mapRejectionToApiError rejection))
    | .ok events =>
      match foldEvents aggregate events "missing aggregate state after routing" with
      | .error failure => .error (.api failure)
      | .ok routedState =>
        let updated :=
          (updateWhereVersion db snapshot.version (routeColumns routedState externalOrderId)).1
        match appendEventsInTx updated snapshot.version events with
        | .error conflict => .error (.concurrency conflict)
        | .ok committed => .ok (.routed, committed)

/-- What `cancel` reads of the row: refused, live at a venue under an id, or local. -/
inductive CancelPath where
  | atBroker (externalOrderId : String)
  | locally (snapshot : OrderRow)
  deriving DecidableEq, Repr

def cancelPath (row : Option OrderRow) : Except ApiError CancelPath :=
  match row with
  | none => .error ⟨404, "order does not exist"⟩
  | some row =>
    if row.status.isTerminal then
      .error ⟨422, s!"order is already terminal ({row.status.asStr}); cannot cancel"⟩
    else
      match row.externalOrderId with
      | some externalOrderId => .ok (.atBroker externalOrderId)
      | none => .ok (.locally row)

/-- The column list of the local cancel's UPDATE: `leaves_qty` is not in it. -/
def cancelColumns (newState : OrderAggregateState) (row : OrderRow) : OrderRow :=
  { row with
    status := newState.status
    resumeToStatus := newState.resumeToStatus
    version := newState.version }

def cancelLocally (snapshot : OrderRow) (reason : Option String) (metadata : EventMetadata)
    (db : OrderDb) : Except ApiError OrderDb := do
  let aggregate := OrderAggregate.fromState snapshot.toOrderAggregateState
  match aggregate.decide (.cancelOrder snapshot.orderId reason) metadata with
  | .error rejection => .error (mapRejectionToApiError rejection)
  | .ok events =>
    let state ← foldEvents aggregate events "missing aggregate state after cancel"
    let (updated, rowsAffected) := updateWhereVersion db snapshot.version (cancelColumns state)
    if rowsAffected = 0 then .error ⟨409, "order state version mismatch"⟩
    else appendOr500 updated snapshot.version events

def routedDb (db : OrderDb) (snapshot : OrderRow) (externalOrderId : String)
    (event : OrderDomainEvent) : OrderDb :=
  let routed := closeState snapshot.toOrderAggregateState .routed
  let updated := (updateWhereVersion db snapshot.version (routeColumns routed externalOrderId)).1
  { updated with log := db.log ++ [⟨snapshot.version + 1, event⟩] }

theorem route_once_submitted {snapshot : OrderRow} (submitted : snapshot.status = .submitted)
    (venue externalOrderId : String) (metadata : EventMetadata) {db : OrderDb}
    (num : Numbered db) :
    ∃ event, Yields snapshot.toOrderAggregateState
        (.routeOrder snapshot.orderId venue externalOrderId) event ∧
      persistRoutedOnce snapshot venue externalOrderId metadata db =
        if db.log.length = snapshot.version then
          .ok (.routed, routedDb db snapshot externalOrderId event)
        else .error (.concurrency ⟨snapshot.version, db.log.length⟩) := by
  have allowed : kind (.routeOrder snapshot.orderId venue externalOrderId) ∈
      allowedKindsForStatus snapshot.status :=
    (allowed_iff_listed _ _).mp ((route_only_from_submitted _).mpr submitted)
  obtain ⟨event, decided, yields⟩ := decide_accepts ⟨allowed, trivial⟩ metadata
  refine ⟨event, yields, ?_⟩
  have folded : foldEvents (OrderAggregate.fromState snapshot.toOrderAggregateState) [event]
      "missing aggregate state after routing" =
      .ok (closeState snapshot.toOrderAggregateState .routed) := by
    rw [foldEvents, OrderAggregate.applyAll, yields.applies]
    rfl
  have appended := append_one num (updateWhereVersion db snapshot.version
    (routeColumns (closeState snapshot.toOrderAggregateState .routed) externalOrderId)).1
    (by simp) snapshot.version event
  simp only [persistRoutedOnce, submitted, ne_eq, not_true_eq_false, if_false, decided, folded,
    appended]
  by_cases current : db.log.length = snapshot.version
  · simp [current, routedDb, OrderStatus.isTerminal]
  · simp [current, OrderStatus.isTerminal]

/-- The database after the local cancel commits: `leaves_qty` stays as it was. -/
def canceledDb (db : OrderDb) (snapshot : OrderRow) (event : OrderDomainEvent) : OrderDb :=
  let canceled := cancelState snapshot.toOrderAggregateState
  let updated := (updateWhereVersion db snapshot.version (cancelColumns canceled)).1
  { updated with log := db.log ++ [⟨snapshot.version + 1, event⟩] }

theorem cancel_locally_open {snapshot : OrderRow} (isOpen : snapshot.status.isTerminal = false)
    (reason : Option String) (metadata : EventMetadata) {db : OrderDb} (num : Numbered db)
    {row : OrderRow} (stored : db.row = some row) :
    ∃ event, Yields snapshot.toOrderAggregateState (.cancelOrder snapshot.orderId reason) event ∧
      cancelLocally snapshot reason metadata db =
        if db.log.length = snapshot.version then .ok (canceledDb db snapshot event)
        else .error ⟨409, "order state version mismatch"⟩ := by
  have allowed : kind (.cancelOrder snapshot.orderId reason) ∈
      allowedKindsForStatus snapshot.status :=
    (allowed_iff_listed _ _).mp (open_takes_cancel isOpen)
  obtain ⟨event, decided, yields⟩ := decide_accepts ⟨allowed, trivial⟩ metadata
  refine ⟨event, yields, ?_⟩
  have folded : foldEvents (OrderAggregate.fromState snapshot.toOrderAggregateState) [event]
      "missing aggregate state after cancel" =
      .ok (cancelState snapshot.toOrderAggregateState) := by
    rw [foldEvents, OrderAggregate.applyAll, yields.applies]
    rfl
  have appended := append_one num (updateWhereVersion db snapshot.version
    (cancelColumns (cancelState snapshot.toOrderAggregateState))).1 (by simp) snapshot.version event
  have version := num.rowVersion row stored
  simp only [cancelLocally, decided, folded, bind, Except.bind, appendOr500, appended]
  by_cases current : db.log.length = snapshot.version
  · simp [current, canceledDb, updateWhereVersion, stored, version]
  · simp [current, updateWhereVersion, stored, version]

theorem submit_tx_inserts {cmd : SubmitOrder} {metadata : EventMetadata} {code : String}
    {createdAt : Nat} {db db' : OrderDb} (num : Numbered db)
    (inserted : submitTx cmd metadata code createdAt db = .ok db') :
    db.row = none ∧ 0 < cmd.quantity ∧ ∃ event, event.version = 1 ∧
      event.payload.execution = none ∧ event.payload.routedId = none ∧
      (∀ self : OrderAggregate, self.apply event = .ok (.fromState (submitState cmd))) ∧
      db' = { db with
        row := some ⟨submitState cmd, none, code, createdAt⟩, log := [⟨1, event⟩] } := by
  cases stored : db.row with
  | some row => simp [submitTx, stored] at inserted
  | none =>
    have empty := num.noRow stored
    simp only [submitTx, stored, Option.isSome_none, Bool.false_eq_true, if_false] at inserted
    cases decided : OrderAggregate.empty.decide (.submitOrder cmd) metadata with
    | error rejection => simp [decided] at inserted
    | ok events =>
      obtain ⟨positive, event, rfl, version, noFill, noRoute, applies⟩ := submit_decided decided
      have folded : foldEvents .empty [event] "missing aggregate state after submit" =
          .ok (submitState cmd) := by
        rw [foldEvents, OrderAggregate.applyAll, applies]
        rfl
      have appended := append_one num (insertOrderState db (submitState cmd) code createdAt)
        rfl 0 event
      simp only [decided, folded, bind, Except.bind, appendOr500, appended, empty,
        List.length_nil, if_true, Except.ok.injEq] at inserted
      refine ⟨rfl, positive, event, version, noFill, noRoute, applies, ?_⟩
      rw [← inserted]
      rfl

theorem submit_tx_decided {cmd : SubmitOrder} {metadata : EventMetadata} {code : String}
    {createdAt : Nat} {db db' : OrderDb} (num : Numbered db)
    (inserted : submitTx cmd metadata code createdAt db = .ok db') :
    ∃ event, OrderAggregate.empty.decide (.submitOrder cmd) metadata = .ok [event] ∧
      db'.log = [⟨1, event⟩] := by
  have absent := (submit_tx_inserts num inserted).1
  have empty := num.noRow absent
  simp only [submitTx, absent, Option.isSome_none, Bool.false_eq_true, if_false] at inserted
  cases decided : OrderAggregate.empty.decide (.submitOrder cmd) metadata with
  | error rejection => simp [decided] at inserted
  | ok events =>
    obtain ⟨_, event, rfl, _⟩ := submit_decided decided
    refine ⟨event, rfl, ?_⟩
    simp only [decided, bind, Except.bind] at inserted
    split at inserted
    · cases inserted
    · rename_i state _
      have appended := append_one num (insertOrderState db state code createdAt) rfl 0 event
      simp only [appendOr500, appended, empty, List.length_nil, if_true, Except.ok.injEq]
        at inserted
      rw [← inserted]
      rfl

end OmsOrderEntry
