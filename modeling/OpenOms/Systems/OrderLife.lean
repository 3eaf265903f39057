import OpenOms.Library.Runs
import OpenOms.OrderEngine
import OpenOms.ReconQueries

/-!
The life of one order between the parties that touch it: the submit that stores
and routes it, the venue, cancels, the order engine and reconcile passes. Every
read, every transaction and every message is an action of its own, so a run is
one interleaving of them.
-/
namespace OmsOrderLife
open OmsOrders OmsAggregate OmsOrderStore OmsExecution OmsOrderEntry OmsOrderWrites OmsGateway
open OmsReconOrders OmsReconQueries OmsOrderEngine Runs

/-- `closed` is done with, filled or not; `refused` was turned down, by the venue
    or before it for want of an adapter. -/
inductive VenueStatus where
  | unsent
  | pending
  | working
  | closed
  | refused
  deriving DecidableEq, Repr

structure VenueFill where
  execution : Execution
  deliveries : Nat
  deriving DecidableEq, Repr

structure Venue where
  status : VenueStatus
  quantity : ℚ
  fills : List VenueFill
  cancelSent : Bool
  deriving DecidableEq, Repr

def Venue.executed (venue : Venue) : ℚ := (venue.fills.map (·.execution.qty)).sum

/-- `persist_routed` between its steps: `read` is the row its SELECT returned. -/
structure Routing where
  externalOrderId : String
  attempt : Nat
  read : Option OrderRow
  deriving DecidableEq, Repr

inductive Stage where
  | idle
  | stored (quantity : ℚ)
  | calling
  | persisting (routing : Routing)
  | followUp (externalOrderId : String)
  | returned
  deriving DecidableEq, Repr

inductive Job where
  | booking (reports : List ExecutionReport) (attempt : Nat) (read : Option OrderRow)
  | routing (routing : Routing)
  deriving DecidableEq, Repr

/-- How far one reconcile pass is with the order: on a list, absent from the
    broker's snapshot and about to be asked about, or found. -/
inductive ReconView where
  | stuck (order : StuckOrder)
  | askStuck
  | working (order : OmsWorkingOrder)
  | askWorking
  | sends (event : ExecEvent)
  deriving DecidableEq, Repr

structure Life where
  db : OrderDb
  now : Nat
  stage : Stage
  venue : Venue
  cancels : List CancelPath
  queue : List ExecEvent
  job : Option Job
  recon : List ReconView
  deriving DecidableEq, Repr

def Life.start (position : Option OmsPositions.PositionMath) : Life :=
  ⟨⟨none, [], position⟩, 0, .idle, ⟨.unsent, 0, [], false⟩, [], [], none, []⟩

def Gone (venue : Venue) : Prop := venue.status = .closed ∨ venue.status = .refused

def paper : Sender := ⟨"o1", "PAPER", "paper", stamp⟩

/-- The submit's steps. `answerLost` is a transport error, `stop` a storage error
    or the end of the process. -/
inductive SubmitAction where
  | store (cmd : SubmitOrder) (metadata : EventMetadata) (brokerConnectionCode : String)
  | noAdapter (reason : String)
  | send
  | answerOk (externalOrderId : String)
  | answerRejected (reason : String)
  | answerLost
  | readRoute
  | writeRoute (metadata : EventMetadata)
  | sendCancel
  | stop
  deriving DecidableEq, Repr

inductive VenueAction where
  | accept
  | refuse
  | execute (execution : Execution)
  | close
  | deliverFill (i : Nat)
  | deliverCumulative (avgPx : ℚ)
  | deliverCanceled (reason : Option String)
  | deliverRejected (reason : String)
  deriving DecidableEq, Repr

/-- A user's cancel or a Kill's: its SELECT, and then what it came to. -/
inductive CancelAction where
  | read
  | send (i : Nat)
  | write (i : Nat) (reason : Option String) (metadata : EventMetadata)
  | drop (i : Nat)
  deriving DecidableEq, Repr

inductive EngineAction where
  | take
  | read
  | write (metadata : EventMetadata)
  | fail
  deriving DecidableEq, Repr

/-- The steps of reconcile passes: the two queries, then the `i`-th view's
    broker calls and its event. -/
inductive ReconStep where
  | loadStuck (tables : Tables) (brokerCode environment : String)
  | loadWorking (tables : Tables) (brokerCode environment : String)
  | snapshot (i : Nat) (brokerOpen : List BrokerOpenOrder)
  | ask (i : Nat) (answer : Except BrokerError BrokerOrderState)
  | send (i : Nat)
  | drop (i : Nat)

inductive Action where
  | submit (a : SubmitAction)
  | venue (a : VenueAction)
  | cancel (a : CancelAction)
  | engine (a : EngineAction)
  | recon (a : ReconStep)
  | tick (n : Nat)

def routeOnce (venue externalOrderId : String) (attempt : Nat) (snapshot : OrderRow)
    (metadata : EventMetadata) (db : OrderDb) : (Option RouteResult ⊕ Routing) × OrderDb :=
  match persistRoutedOnce snapshot venue externalOrderId metadata db with
  | .ok (result, committed) => (.inl (some result), committed)
  | .error (.api _) => (.inl none, db)
  | .error (.concurrency _) =>
    if attempt + 1 = maxRouteAttempts then (.inl none, db)
    else (.inr ⟨externalOrderId, attempt + 1, none⟩, db)

def stageAfterRoute (externalOrderId : String) : Option RouteResult ⊕ Routing → Stage
  | .inr routing => .persisting routing
  | .inl (some (.terminal .canceled)) => .followUp externalOrderId
  | .inl _ => .returned

def submitStep (sender : Sender) (s : Life) : SubmitAction → Option Life
  | .store cmd metadata brokerConnectionCode =>
    if s.stage = .idle ∧ cmd.orderId = sender.orderId then
      match submitTx cmd metadata brokerConnectionCode s.now s.db with
      | .ok committed => some { s with db := committed, stage := .stored cmd.quantity }
      | .error _ => some { s with stage := .returned }
    else none
  | .noAdapter reason =>
    match s.stage with
    | .stored _ =>
      some { s with
        stage := .returned
        venue := { s.venue with status := .refused }
        queue := s.queue ++ [sender.event .session (.rejected reason)] }
    | _ => none
  | .send =>
    match s.stage with
    | .stored quantity =>
      some { s with stage := .calling, venue := { s.venue with status := .pending, quantity } }
    | _ => none
  | .answerOk externalOrderId =>
    if s.stage = .calling ∧ (s.venue.status = .working ∨ s.venue.status = .closed) then
      some { s with stage := .persisting ⟨externalOrderId, 0, none⟩ }
    else none
  | .answerRejected reason =>
    if s.stage = .calling ∧ s.venue.status = .refused then
      some { s with
        stage := .returned
        queue := s.queue ++ [sender.event .session (.rejected reason)] }
    else none
  | .answerLost => if s.stage = .calling then some { s with stage := .returned } else none
  | .readRoute =>
    match s.stage, s.db.row with
    | .persisting ⟨externalOrderId, attempt, none⟩, some row =>
      some { s with stage := .persisting ⟨externalOrderId, attempt, some row⟩ }
    | _, _ => none
  | .writeRoute metadata =>
    match s.stage with
    | .persisting ⟨externalOrderId, attempt, some snapshot⟩ =>
      let (next, committed) :=
        routeOnce sender.venue externalOrderId attempt snapshot metadata s.db
      some { s with db := committed, stage := stageAfterRoute externalOrderId next }
    | _ => none
  | .sendCancel =>
    match s.stage with
    | .followUp _ =>
      some { s with stage := .returned, venue := { s.venue with cancelSent := true } }
    | _ => none
  | .stop => if s.stage = .idle then none else some { s with stage := .returned }

def venueStep (sender : Sender) (s : Life) : VenueAction → Option Life
  | .accept =>
    if s.venue.status = .pending then some { s with venue := { s.venue with status := .working } }
    else none
  | .refuse =>
    if s.venue.status = .pending then some { s with venue := { s.venue with status := .refused } }
    else none
  | .execute execution =>
    if s.venue.status = .working ∧ 0 < execution.qty ∧ 0 < execution.price ∧
        s.venue.executed + execution.qty ≤ s.venue.quantity then
      some { s with venue := { s.venue with fills := s.venue.fills ++ [⟨execution, 0⟩] } }
    else none
  | .close =>
    if s.venue.status = .working then some { s with venue := { s.venue with status := .closed } }
    else none
  | .deliverFill i =>
    match s.venue.fills[i]? with
    | some ⟨execution, deliveries⟩ =>
      some { s with
        venue := { s.venue with fills := s.venue.fills.set i ⟨execution, deliveries + 1⟩ }
        queue := s.queue ++ [sender.event .session
          (.fill execution.executionId execution.qty execution.price)] }
    | none => none
  | .deliverCumulative avgPx =>
    some { s with
      queue := s.queue ++ [sender.event .session (.cumulative s.venue.executed avgPx)] }
  | .deliverCanceled reason =>
    if s.venue.status = .closed then
      some { s with queue := s.queue ++ [sender.event .session (.canceled reason)] }
    else none
  | .deliverRejected reason =>
    if s.venue.status = .refused then
      some { s with queue := s.queue ++ [sender.event .session (.rejected reason)] }
    else none

def cancelStep (s : Life) : CancelAction → Option Life
  | .read =>
    match cancelPath s.db.row with
    | .ok path => some { s with cancels := s.cancels ++ [path] }
    | .error _ => some s
  | .send i =>
    match s.cancels[i]? with
    | some (.atBroker _) =>
      some { s with
        venue := { s.venue with cancelSent := true }
        cancels := s.cancels.eraseIdx i }
    | _ => none
  | .write i reason metadata =>
    match s.cancels[i]? with
    | some (.locally snapshot) =>
      match cancelLocally snapshot reason metadata s.db with
      | .ok committed => some { s with db := committed, cancels := s.cancels.eraseIdx i }
      | .error _ => some { s with cancels := s.cancels.eraseIdx i }
    | _ => none
  | .drop i => some { s with cancels := s.cancels.eraseIdx i }

def jobFor : List ExecutionReport → Option Job
  | [] => none
  | reports => some (.booking reports 0 none)

def bookOnce (reports : List ExecutionReport) (report : ExecutionReport) (attempt : Nat)
    (snapshot : OrderRow) (metadata : EventMetadata) (db : OrderDb) : Option Job × OrderDb :=
  match applyOnce snapshot report metadata db with
  | .ok (_, committed) => (jobFor reports, committed)
  | .error (.other _) => (jobFor reports, db)
  | .error (.concurrencyRetry _) =>
    if attempt + 1 = maxAttempts then (jobFor reports, db)
    else (some (.booking (report :: reports) (attempt + 1) none), db)

def jobAfterRoute : Option RouteResult ⊕ Routing → Option Job
  | .inr routing => some (.routing routing)
  | .inl _ => none

def engineStep (sender : Sender) (s : Life) : EngineAction → Option Life
  | .take =>
    match s.job, s.queue with
    | none, event :: queue =>
      match event.kind with
      | .ack venueOrderId => some { s with queue, job := some (.routing ⟨venueOrderId, 0, none⟩) }
      | kind =>
        match bookedState kind s.db with
        | none => some { s with queue }
        | some (bookedCum, bookedAvg) =>
          some { s with queue, job := jobFor (reportsFor event bookedCum bookedAvg) }
    | _, _ => none
  | .read =>
    match s.job, s.db.row with
    | some (.booking reports attempt none), some row =>
      some { s with job := some (.booking reports attempt (some row)) }
    -- Not an order of the OMS: the report is skipped.
    | some (.booking reports _ none), none => some { s with job := jobFor reports.tail }
    | some (.routing ⟨externalOrderId, attempt, none⟩), some row =>
      some { s with job := some (.routing ⟨externalOrderId, attempt, some row⟩) }
    | _, _ => none
  | .write metadata =>
    match s.job with
    | some (.booking (report :: reports) attempt (some snapshot)) =>
      let (job, committed) := bookOnce reports report attempt snapshot metadata s.db
      some { s with db := committed, job }
    | some (.routing ⟨externalOrderId, attempt, some snapshot⟩) =>
      let (next, committed) :=
        routeOnce sender.venue externalOrderId attempt snapshot metadata s.db
      some { s with db := committed, job := jobAfterRoute next }
    | _ => none
  -- Storage failed: the report in hand is skipped, or the event whose booked
  -- state could not be read.
  | .fail =>
    match s.job with
    | some (.booking reports _ _) => some { s with job := jobFor reports.tail }
    | some (.routing _) => some { s with job := none }
    | none => some { s with queue := s.queue.tail }

def answers (status : VenueStatus) : Except BrokerError BrokerOrderState → Bool
  | .ok state =>
    match state.outcome with
    | .working => status = .working
    | .filled | .canceled => status = .closed
    | .rejected => status = .refused
  | .error (.noSuchOrder _) => status = .unsent || status = .pending || status = .refused
  | .error _ => true

def viewAfter (sender : Sender) (kind : Option ExecKind) : Option ReconView :=
  kind.map fun kind => .sends (sender.event .snapshot kind)

def setView (s : Life) (i : Nat) : Option ReconView → Life
  | some view => { s with recon := s.recon.set i view }
  | none => { s with recon := s.recon.eraseIdx i }

def listsTruly (status : VenueStatus) (brokerOpen : List BrokerOpenOrder) (orderId : String) :
    Bool :=
  status = .working || (openUnder brokerOpen orderId).isNone

def reconStep (sender : Sender) (s : Life) : ReconStep → Option Life
  | .loadStuck tables brokerCode environment =>
    let rows := stuckRows tables brokerCode environment s.now s.db
    some { s with recon := s.recon ++ rows.map .stuck }
  | .loadWorking tables brokerCode environment =>
    let rows := workingRows tables brokerCode environment s.db
    some { s with recon := s.recon ++ rows.map .working }
  | .snapshot i brokerOpen =>
    if listsTruly s.venue.status brokerOpen sender.orderId then
      match s.recon[i]? with
      | some (.stuck order) =>
        match planStuckOrder brokerOpen order with
        | .route _ venueOrderId =>
          some (setView s i (viewAfter sender (some (.ack venueOrderId))))
        | .askStatus .. => some (setView s i (some .askStuck))
      | some (.working order) =>
        match planWorking brokerOpen order with
        | some (.resolveTerminal ..) => some (setView s i (some .askWorking))
        -- Still open there: a drift is only reported.
        | _ => some (setView s i none)
      | _ => none
    else none
  | .ask i answer =>
    if answers s.venue.status answer then
      match s.recon[i]? with
      | some .askStuck => some (setView s i (viewAfter sender (stuckOutcome answer)))
      | some .askWorking =>
        match answer with
        | .ok state => some (setView s i (viewAfter sender (some (.terminal state))))
        | .error _ => some (setView s i none)
      | _ => none
    else none
  | .send i =>
    match s.recon[i]? with
    | some (.sends event) =>
      some { s with queue := s.queue ++ [event], recon := s.recon.eraseIdx i }
    | _ => none
  | .drop i => some { s with recon := s.recon.eraseIdx i }

def step (sender : Sender) (s : Life) : Action → Option Life
  | .submit a => submitStep sender s a
  | .venue a => venueStep sender s a
  | .cancel a => cancelStep s a
  | .engine a => engineStep sender s a
  | .recon a => reconStep sender s a
  | .tick n => some { s with now := s.now + n }

end OmsOrderLife
