import OpenOms.Library.Keyed
import OpenOms.Library.Lists
import OpenOms.Library.Runs
import OpenOms.OrderEngine
import OpenOms.Strategies.Admission
import OpenOms.Strategies.Reports

/-!
The new orders of one strategy, each handled on a task of its own. A request
that fails is answered at once unless an order is stored under its ClOrdID, whose
reject is told from the queue; the look-up does not ask whose order it found.
-/
namespace OmsNewOrders
open OmsOrders OmsAggregate OmsOrderStore OmsExecution OmsOrderEntry OmsOrderEngine OmsGateway
open OmsRisk OmsAdmission OmsReports Keyed Lists Runs

/-- `owner` is the request the order was stored for, if it was one of these. -/
structure StoredOrder where
  owner : Option Nat
  order : FixOrder
  deriving DecidableEq, Repr

/-- The portfolio's FIX orders: `UNIQUE (portfolio_id, fix_cl_ord_id)`. -/
abbrev Orders := Table String StoredOrder (·.order.clOrdId)

inductive Stage where
  | received
  | submitting
  | recording (rejection : RiskRejection)
  | placed
  | failed (error : ApiError)
  | answered (report : Option ClientReport)
  deriving DecidableEq, Repr

structure Request where
  newOrder : NewOrder
  stage : Stage
  deriving DecidableEq, Repr

/-- The queue's rows, by ClOrdID and the version of the event. -/
structure NewOrders where
  requests : List Request
  orders : Orders
  queue : List (String × Nat)

def NewOrders.start (orders : Orders) : NewOrders := ⟨[], orders, []⟩

structure Storing where
  orderId : String
  portfolioId : String
  accountId : String
  instrumentId : String
  symbol : String
  metadata : EventMetadata
  rejectMetadata : EventMetadata
  brokerConnectionCode : String
  createdAt : Nat
  deriving DecidableEq, Repr

def Storing.command (tx : Storing) (request : NewOrder) : SubmitOrder :=
  { orderId := tx.orderId, clientOrderId := request.clOrdId, portfolioId := tx.portfolioId
    accountId := tx.accountId, instrumentId := tx.instrumentId, side := request.side
    orderType := request.ordType, timeInForce := request.tif, limitPrice := request.price
    quantity := request.qty }

/-- A later transaction on a stored order; one that fails changes nothing. -/
inductive OrderTx where
  | exec (fates : List (List AttemptFate)) (ev : ExecEvent) (metadata : EventMetadata)
  | route (venue externalOrderId : String) (metadata : EventMetadata)
  | cancel (reason : Option String) (metadata : EventMetadata)
  deriving DecidableEq, Repr

def OrderTx.run (tx : OrderTx) (db : OrderDb) : OrderDb :=
  match tx with
  | .exec fates ev metadata => applyExec fates ev metadata db
  | .route venue externalOrderId metadata =>
    match db.row.map fun row => persistRoutedOnce row venue externalOrderId metadata db with
    | some (.ok (_, committed)) => committed
    | _ => db
  | .cancel reason metadata =>
    match db.row.map fun row => cancelLocally row reason metadata db with
    | some (.ok committed) => committed
    | _ => db

def enqueued (clOrdId : String) (before after : OrderDb) : List (String × Nat) :=
  ((after.log.filter (· ∉ before.log)).filter
    (·.event.eventType.asStr ∈ queuedTypes)).map fun record => (clOrdId, record.version)

inductive Action where
  | receive (newOrder : NewOrder)
  | lookUp (i : Nat) (error : Option String) (execId : String)
  | abort (i : Nat) (error : ApiError)
  | refuse (i : Nat) (rejection : RiskRejection)
  -- a commit, `acknowledged` unless its answer is lost
  | store (i : Nat) (tx : Storing) (acknowledged : Bool)
  | record (i : Nat) (tx : Storing) (acknowledged : Bool)
  | transact (clOrdId : String) (tx : OrderTx)
  | settle (i : Nat) (outcome : Except ApiError Unit)
  -- the look-up after a failure; `readable` unless its query fails
  | lookAfter (i : Nat) (readable : Bool) (execId : String)

def setStage (s : NewOrders) (i : Nat) (request : Request) (stage : Stage) : NewOrders :=
  { s with requests := s.requests.set i { request with stage } }

def insertOrder (s : NewOrders) (i : Nat) (request : Request) (symbol : String)
    (stored : Except ApiError OrderDb) (after : Stage) : NewOrders :=
  match stored with
  | .error error => setStage s i request (.failed error)
  | .ok db =>
    let order : StoredOrder := ⟨some i, ⟨request.newOrder.clOrdId, symbol, db⟩⟩
    match s.orders.find request.newOrder.clOrdId with
    | some _ => setStage s i request (.failed ⟨500, "failed to insert order state"⟩)
    | none =>
      { setStage s i request after with
        orders := s.orders.insert order
        queue := s.queue ++ enqueued request.newOrder.clOrdId .empty db }

def riskApiError (rejection : RiskRejection) : ApiError :=
  ⟨422, s!"risk check failed [{rejection.code}]: {rejection.message}"⟩

def needsSyncReject (orderStored : Bool) : Bool := !orderStored

def changeOrder (tx : OrderTx) (o : StoredOrder) : StoredOrder :=
  { o with order := { o.order with db := tx.run o.order.db } }

def step (s : NewOrders) : Action → Option NewOrders
  | .receive newOrder => some { s with requests := s.requests ++ [⟨newOrder, .received⟩] }
  | .lookUp i error execId =>
    match s.requests[i]? with
    | some ⟨newOrder, .received⟩ =>
      let reject (text : String) := Stage.answered (some (rejected newOrder execId text))
      let next : Stage :=
        match error, s.orders.find newOrder.clOrdId with
        | some e, _ => reject s!"could not check ClOrdID: {e}"
        | none, some _ => reject s!"duplicate ClOrdID {newOrder.clOrdId}"
        | none, none => .submitting
      some (setStage s i ⟨newOrder, .received⟩ next)
    | _ => none
  | .abort i error =>
    match s.requests[i]? with
    | some ⟨newOrder, .submitting⟩ => some (setStage s i ⟨newOrder, .submitting⟩ (.failed error))
    | some ⟨newOrder, .recording rejection⟩ =>
      some (setStage s i ⟨newOrder, .recording rejection⟩ (.failed error))
    | _ => none
  | .refuse i rejection =>
    match s.requests[i]? with
    | some ⟨newOrder, .submitting⟩ =>
      some (setStage s i ⟨newOrder, .submitting⟩ (.recording rejection))
    | _ => none
  | .store i tx acknowledged =>
    match s.requests[i]? with
    | some ⟨newOrder, .submitting⟩ =>
      let stored := submitTx (tx.command newOrder) tx.metadata tx.brokerConnectionCode
        tx.createdAt .empty
      let next : Stage :=
        if acknowledged then .placed else .failed ⟨500, "failed to commit transaction"⟩
      some (insertOrder s i ⟨newOrder, .submitting⟩ tx.symbol stored next)
    | _ => none
  | .record i tx acknowledged =>
    match s.requests[i]? with
    | some ⟨newOrder, .recording rejection⟩ =>
      let stored := recordRejection (tx.command newOrder) rejection tx.metadata
        tx.rejectMetadata tx.brokerConnectionCode tx.createdAt .empty
      let next : Stage :=
        .failed (if acknowledged then riskApiError rejection
          else ⟨500, "failed to commit rejection"⟩)
      some (insertOrder s i ⟨newOrder, .recording rejection⟩ tx.symbol stored next)
    | _ => none
  | .transact clOrdId tx =>
    (s.orders.find clOrdId).map fun o =>
      { s with
        orders := s.orders.update clOrdId (changeOrder tx) fun _ => rfl
        queue := s.queue ++ enqueued clOrdId o.order.db (tx.run o.order.db) }
  | .settle i outcome =>
    match s.requests[i]? with
    | some ⟨newOrder, .placed⟩ =>
      let next : Stage :=
        match outcome with
        | .ok () => .answered none
        | .error error => .failed error
      some (setStage s i ⟨newOrder, .placed⟩ next)
    | _ => none
  | .lookAfter i readable execId =>
    match s.requests[i]? with
    | some ⟨newOrder, .failed error⟩ =>
      let stored := readable && (s.orders.find newOrder.clOrdId).isSome
      let answer :=
        if needsSyncReject stored then some (rejected newOrder execId error.message) else none
      some (setStage s i ⟨newOrder, .failed error⟩ (.answered answer))
    | _ => none

def Queued (queue : List (String × Nat)) (o : StoredOrder) : Prop :=
  ∀ record ∈ o.order.db.log, isReported record.event.eventType.asStr = true →
    (o.order.clOrdId, record.version) ∈ queue

def Owns (i : Nat) (newOrder : NewOrder) (o : StoredOrder) : Prop :=
  o.owner = some i ∧ o.order.clOrdId = newOrder.clOrdId

instance (i : Nat) (newOrder : NewOrder) (o : StoredOrder) : Decidable (Owns i newOrder o) := by
  unfold Owns
  infer_instance

def Rejects (newOrder : NewOrder) (report : Option ClientReport) : Prop :=
  ∃ execId text, report = some (rejected newOrder execId text)

/-- A request that has been handled has an order of its own, its events queued,
    or got a reject; and no ClOrdID has two orders. -/
def Answered (s : NewOrders) : Prop :=
  (∀ i newOrder report, s.requests[i]? = some ⟨newOrder, .answered report⟩ →
    (∃ o ∈ s.orders.rows, Owns i newOrder o ∧ Queued s.queue o) ∨ Rejects newOrder report) ∧
  (s.orders.rows.map (·.order.clOrdId)).Nodup

def FindsOther (s : NewOrders) : Action → Prop
  | .lookAfter i readable _ =>
    match s.requests[i]? with
    | some ⟨newOrder, .failed _⟩ =>
      readable = true ∧ ∃ o ∈ s.orders.find newOrder.clOrdId, ¬ Owns i newOrder o
    | _ => False
  | _ => False

instance (s : NewOrders) (a : Action) : Decidable (FindsOther s a) := by
  unfold FindsOther
  split
  · split <;> infer_instance
  · infer_instance

def HasOwn (s : NewOrders) (i : Nat) (newOrder : NewOrder) : Prop :=
  ∃ o ∈ s.orders.rows, Owns i newOrder o

/-- The queue covers the requests' orders, a placed request has its own, and so
    does an answered one that got no reject. -/
structure Inv (s : NewOrders) : Prop where
  queued : ∀ o ∈ s.orders.rows, o.owner ≠ none → Queued s.queue o
  placed : ∀ i newOrder, s.requests[i]? = some ⟨newOrder, .placed⟩ → HasOwn s i newOrder
  answered : ∀ i newOrder report, s.requests[i]? = some ⟨newOrder, .answered report⟩ →
    HasOwn s i newOrder ∨ Rejects newOrder report

theorem inv_answered {s : NewOrders} (inv : Inv s) : Answered s := by
  refine ⟨fun i newOrder report here => ?_, s.orders.distinct⟩
  refine (inv.answered i newOrder report here).imp_left ?_
  rintro ⟨o, member, owns⟩
  have queued := inv.queued o member
  rw [owns.1] at queued
  exact ⟨o, member, owns, queued nofun⟩

theorem enqueued_covers (clOrdId : String) (before after : OrderDb) {record : OrderEventRecord}
    (there : record ∈ after.log) (reported : isReported record.event.eventType.asStr = true) :
    record ∈ before.log ∨ (clOrdId, record.version) ∈ enqueued clOrdId before after := by
  by_cases old : record ∈ before.log
  · exact .inl old
  · refine .inr (List.mem_map.mpr ⟨record, ?_, rfl⟩)
    simp [there, old, queued_iff_reported, reported]

theorem queued_append {queue : List (String × Nat)} {o : StoredOrder} (queued : Queued queue o)
    (more : List (String × Nat)) : Queued (queue ++ more) o := by
  intro record there reported
  exact List.mem_append_left more (queued record there reported)

theorem move_keeps {s t : NewOrders} (inv : Inv s) {i : Nat} {request : Request} {stage : Stage}
    (requests : t.requests = s.requests.set i { request with stage })
    (queued : ∀ o ∈ t.orders.rows, o.owner ≠ none → Queued t.queue o)
    (kept : ∀ j newOrder, HasOwn s j newOrder → HasOwn t j newOrder)
    (placed : stage = .placed → HasOwn t i request.newOrder)
    (answered : ∀ report, stage = .answered report →
      HasOwn t i request.newOrder ∨ Rejects request.newOrder report) : Inv t := by
  refine ⟨queued, fun j newOrder here => ?_, fun j newOrder report here => ?_⟩
  all_goals rw [requests] at here
  · rcases at_set here with ⟨rfl, new⟩ | ⟨_, old⟩
    · cases new
      exact placed rfl
    · exact kept j newOrder (inv.placed j newOrder old)
  · rcases at_set here with ⟨rfl, new⟩ | ⟨_, old⟩
    · cases new
      exact answered report rfl
    · exact (inv.answered j newOrder report old).imp_left (kept j newOrder)

theorem stage_keeps {s : NewOrders} (inv : Inv s) (i : Nat) (request : Request) (stage : Stage)
    (placed : stage = .placed → HasOwn s i request.newOrder)
    (answered : ∀ report, stage = .answered report →
      HasOwn s i request.newOrder ∨ Rejects request.newOrder report) :
    Inv (setStage s i request stage) :=
  move_keeps inv rfl inv.queued (fun _ _ own => own) placed answered

theorem open_stage_keeps {s : NewOrders} (inv : Inv s) (i : Nat) (request : Request) {stage : Stage}
    (unplaced : stage ≠ .placed) (unanswered : ∀ report, stage ≠ .answered report) :
    Inv (setStage s i request stage) :=
  stage_keeps inv i request stage (fun is => absurd is unplaced)
    fun report is => absurd is (unanswered report)

theorem failed_keeps {s : NewOrders} (inv : Inv s) (i : Nat) (request : Request)
    (error : ApiError) : Inv (setStage s i request (.failed error)) :=
  open_stage_keeps inv i request Stage.noConfusion fun _ => Stage.noConfusion

theorem insert_keeps {s : NewOrders} (inv : Inv s) (i : Nat) (request : Request) (symbol : String)
    (stored : Except ApiError OrderDb) {after : Stage}
    (open_ : ∀ report, after ≠ .answered report) :
    Inv (insertOrder s i request symbol stored after) := by
  cases stored with
  | error error => exact failed_keeps inv i request error
  | ok db =>
    simp only [insertOrder]
    split
    · exact failed_keeps inv i request _
    · rename_i free
      have new : (⟨some i, ⟨request.newOrder.clOrdId, symbol, db⟩⟩ : StoredOrder) ∈
          (s.orders.insert ⟨some i, ⟨request.newOrder.clOrdId, symbol, db⟩⟩).rows := by
        refine mem_insert.mpr (.inr ⟨rfl, fun taken => ?_⟩)
        obtain ⟨o, member, same⟩ := List.mem_map.mp taken
        exact find_none.mp free o member same
      refine move_keeps inv (i := i) rfl ?_ ?_ (fun _ => ⟨_, new, rfl, rfl⟩)
        fun report is => absurd is (open_ report)
      · intro o member owned
        rcases mem_insert.mp member with old | ⟨rfl, _⟩
        · exact queued_append (inv.queued o old owned) _
        · intro record there reported
          refine List.mem_append_right s.queue ?_
          exact (enqueued_covers _ .empty db there reported).resolve_left (by simp [OrderDb.empty])
      · rintro j newOrder ⟨o, member, owns⟩
        exact ⟨o, mem_insert.mpr (.inl member), owns⟩

theorem transact_keeps {s : NewOrders} (inv : Inv s) {clOrdId : String} {o : StoredOrder}
    (found : s.orders.find clOrdId = some o) (tx : OrderTx) :
    Inv { s with
      orders := s.orders.update clOrdId (changeOrder tx) fun _ => rfl
      queue := s.queue ++ enqueued clOrdId o.order.db (tx.run o.order.db) } := by
  have kept : ∀ j newOrder, HasOwn s j newOrder → HasOwn { s with
      orders := s.orders.update clOrdId (changeOrder tx) fun _ => rfl
      queue := s.queue ++ enqueued clOrdId o.order.db (tx.run o.order.db) } j newOrder := by
    rintro j newOrder ⟨other, member, owner, same⟩
    refine ⟨_, List.mem_map.mpr ⟨other, member, rfl⟩, ?_⟩
    split <;> exact ⟨owner, same⟩
  refine ⟨?_, fun j newOrder here => kept j newOrder (inv.placed j newOrder here),
    fun j newOrder report here => (inv.answered j newOrder report here).imp_left (kept j newOrder)⟩
  intro changed member owned
  obtain ⟨other, there, rfl⟩ := List.mem_map.mp member
  split at owned <;> rename_i own
  · rw [if_pos own]
    have same : other = o := row_unique s.orders there (find_some.mp found).1
      (own.trans (find_some.mp found).2.symm)
    subst same
    intro record inside reported
    rcases enqueued_covers clOrdId other.order.db _ inside reported with old | new
    · exact List.mem_append_left _ (inv.queued other there owned record old reported)
    · rw [← own] at new
      exact List.mem_append_right _ (by rw [← own]; exact new)
  · rw [if_neg own]
    exact queued_append (inv.queued other there owned) _

theorem look_after_keeps {s : NewOrders} (inv : Inv s) {i : Nat} {newOrder : NewOrder}
    {error : ApiError} (here : s.requests[i]? = some ⟨newOrder, .failed error⟩) {readable : Bool}
    {execId : String} (ok : ¬ FindsOther s (.lookAfter i readable execId)) {t : NewOrders}
    (next : step s (.lookAfter i readable execId) = some t) : Inv t := by
  simp only [step, here] at next
  cases next
  refine stage_keeps inv i _ _ Stage.noConfusion fun report is => ?_
  cases is
  simp only [FindsOther, here, not_and, not_exists, not_not] at ok
  cases found : s.orders.find newOrder.clOrdId with
  | none => exact .inr ⟨execId, error.message, by simp [needsSyncReject]⟩
  | some o =>
    cases readable with
    | false => exact .inr ⟨execId, error.message, by simp [needsSyncReject]⟩
    | true => exact .inl ⟨o, (find_some.mp found).1, ok rfl o (by rw [found]; rfl)⟩

theorem step_keeps {s t : NewOrders} {a : Action} (inv : Inv s) (ok : ¬ FindsOther s a)
    (next : step s a = some t) : Inv t := by
  cases a with
  | receive newOrder =>
    cases next
    refine ⟨inv.queued, fun i other here => ?_, fun i other report here => ?_⟩
    · rcases at_append here with ⟨_, old⟩ | ⟨_, new⟩
      · exact inv.placed i other old
      · cases new
    · rcases at_append here with ⟨_, old⟩ | ⟨_, new⟩
      · exact inv.answered i other report old
      · cases new
  | lookUp i error execId =>
    simp only [step] at next
    split at next
    · rename_i newOrder here
      cases next
      refine stage_keeps inv i _ _ ?_ fun report is => .inr ?_
      · intro is
        split at is <;> cases is
      · split at is <;> cases is
        all_goals exact ⟨execId, _, rfl⟩
    · cases next
  | abort i error =>
    simp only [step] at next
    split at next
    · cases next
      exact failed_keeps inv i _ error
    · cases next
      exact failed_keeps inv i _ error
    · cases next
  | refuse i rejection =>
    simp only [step] at next
    split at next
    · cases next
      exact open_stage_keeps inv i _ Stage.noConfusion fun _ => Stage.noConfusion
    · cases next
  | store i tx acknowledged =>
    simp only [step] at next
    split at next
    · cases next
      refine insert_keeps inv i _ _ _ fun report => ?_
      cases acknowledged <;> exact Stage.noConfusion
    · cases next
  | record i tx acknowledged =>
    simp only [step] at next
    split at next
    · cases next
      exact insert_keeps inv i _ _ _ fun _ => Stage.noConfusion
    · cases next
  | transact clOrdId tx =>
    simp only [step, Option.map_eq_some_iff] at next
    obtain ⟨o, found, rfl⟩ := next
    exact transact_keeps inv found tx
  | settle i outcome =>
    simp only [step] at next
    split at next
    · rename_i newOrder here
      cases next
      refine stage_keeps inv i _ _ ?_ fun report is => .inl (inv.placed i newOrder here)
      intro is
      cases outcome <;> cases is
    · cases next
  | lookAfter i readable execId =>
    have taken := next
    simp only [step] at taken
    split at taken
    · rename_i newOrder error here
      exact look_after_keeps inv here ok next
    · cases taken

theorem found_other_unanswered {s : NewOrders} {a : Action} (found : FindsOther s a) :
    ∃ t, step s a = some t ∧ ¬ Answered t := by
  cases a with
  | lookAfter i readable execId =>
    simp only [FindsOther] at found
    split at found
    · rename_i newOrder error here
      obtain ⟨rfl, o, under, other⟩ := found
      have there := find_some.mp under
      refine ⟨setStage s i ⟨newOrder, .failed error⟩ (.answered none), ?_, ?_⟩
      · simp [step, here, Option.mem_def.mp under, needsSyncReject]
      · rintro ⟨answers, _⟩
        obtain ⟨inside, _⟩ := List.getElem?_eq_some_iff.mp here
        rcases answers i newOrder none (by simp [setStage, inside]) with
          ⟨own, member, owns, _⟩ | ⟨_, _, rejects⟩
        · have same : own = o := row_unique s.orders member there.1
            (owns.2.trans there.2.symm)
          exact other (same ▸ owns)
        · cases rejects
    · exact found.elim
  | _ => exact found.elim

/-- Exactly when every new order is answered: no failed request's look-up finds
    an order that is not its own. -/
theorem new_orders_answered_iff (orders : Orders) (old : ∀ o ∈ orders.rows, o.owner = none)
    (as : List Action) :
    Throughout step Answered (.start orders) as ↔
      Along step (fun s a => ¬ FindsOther s a) (.start orders) as := by
  have start : Inv (.start orders) := by
    refine ⟨fun o member owned => absurd (old o member) owned, fun i newOrder here => ?_,
      fun i newOrder report here => ?_⟩ <;> simp [NewOrders.start] at here
  exact throughout_iff_along (fun _ _ _ inv ok next => step_keeps inv ok next)
    (fun _ => inv_answered) (fun _ _ _ bad => found_other_unanswered (not_not.mp bad)) start

theorem not_answered {s : NewOrders} {as : List Action} (i : Nat) (newOrder : NewOrder)
    (silent : ∃ t ∈ run step s as, t.requests[i]? = some ⟨newOrder, .answered none⟩ ∧
      ∀ o ∈ t.orders.rows, ¬ Owns i newOrder o) : ¬ Throughout step Answered s as := by
  obtain ⟨t, ends, here, none_⟩ := silent
  refine not_throughout ⟨t, ends, fun answers => ?_⟩
  rcases answers.1 i newOrder none here with ⟨o, member, owns, _⟩ | ⟨_, _, is⟩
  · exact none_ o member owns
  · cases is

def buyOne : NewOrder := ⟨"c1", "BTCUSDT", "BINANCE", .buy, 1, .limit, some 100, .gtc⟩

def storing (orderId : String) : Storing :=
  ⟨orderId, "p1", "a1", "1", "BTCUSDT", stamp, stamp, "binance", 0⟩

/-- One order placed and filled; a repeat of its ClOrdID; another refused by a check. -/
def placedAndRefused : List Action :=
  [.receive buyOne, .lookUp 0 none "x1", .store 0 (storing "o1") true,
    .transact "c1" (.route "BINANCE" "77" stamp), .settle 0 (.ok ()),
    .receive buyOne, .lookUp 1 none "x2", .receive { buyOne with clOrdId := "c2" },
    .lookUp 2 none "x3", .refuse 2 ⟨"price_band", "too far"⟩, .record 2 (storing "o2") true,
    .lookAfter 2 true "x4"]

theorem placed_and_refused_answered :
    (∃ t ∈ run step (.start .empty) placedAndRefused,
      t.queue = [("c1", 2), ("c2", 2)] ∧ t.orders.rows.length = 2) ∧
      Throughout step Answered (.start .empty) placedAndRefused :=
  ⟨by decide +kernel, (new_orders_answered_iff .empty (by simp [Table.empty])
    placedAndRefused).mpr (by decide +kernel)⟩

/-- Both requests of one ClOrdID pass the duplicate check; the second's insert
    fails, and its look-up finds the first's order. -/
def twoOfOneId : List Action :=
  [.receive buyOne, .receive buyOne, .lookUp 0 none "x1", .lookUp 1 none "x2",
    .store 0 (storing "o1") true, .store 1 (storing "o2") true, .lookAfter 1 true "x3"]

theorem second_of_one_id_unanswered :
    ¬ Throughout step Answered (.start .empty) twoOfOneId :=
  not_answered 1 buyOne (by decide +kernel)

end OmsNewOrders
