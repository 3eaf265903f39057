import OpenOms.Connectors.FixDialect
import OpenOms.Library.Correlated
import OpenOms.Library.Runs
import Mathlib.Data.List.Lemmas

/-!
Order status over a venue's FIX session: mass-status requests answered by a batch of
reports and single requests answered by one, any number of either at once, against
the session's callback and the deadlines.
-/
namespace OmsStatusReplies
open OmsGateway OmsFixDialect Correlated Runs

structure StatusMessage extends Message where
  massStatusReqId : Option String
  symbol : Option String
  cumQty : Option ℚ
  avgPx : Option ℚ
  ordStatus : Option String
  lastRptRequested : Option String
  totNumReports : Option Int
  deriving DecidableEq, Repr

structure StatusReport where
  massStatusReqId : Option String
  clientOrderId : String
  venueOrderId : String
  symbol : String
  cumQty : ℚ
  avgPx : ℚ
  ordStatus : String
  lastRptRequested : Bool
  emptyBatch : Bool
  deriving DecidableEq, Repr

def StatusReport.isTerminal (self : StatusReport) : Bool :=
  self.ordStatus ∈ ["2", "4", "8", "C"]

def StatusReport.toOpenOrder (self : StatusReport) : Option BrokerOpenOrder :=
  if self.isTerminal || self.clientOrderId = "" then none
  else
    some
      { clientOrderId := self.clientOrderId
        venueOrderId := self.venueOrderId
        symbol := self.symbol
        executedQty := self.cumQty }

def StatusReport.toOrderState (self : StatusReport) : BrokerOrderState :=
  let outcome : BrokerOrderOutcome :=
    match self.ordStatus with
    | "2" => .filled
    | "4" => .canceled
    | "8" | "C" => .rejected
    | _ => .working
  { outcome, executedQty := self.cumQty, avgPx := self.avgPx }

def parseOrderStatusReport (msg : StatusMessage) : Option StatusReport :=
  if isOrderStatusReport msg.toMessage then
    some
      { massStatusReqId := msg.massStatusReqId.filter (· ≠ "")
        clientOrderId := msg.clOrdId.getD ""
        venueOrderId := msg.orderId.getD ""
        symbol := msg.symbol.getD ""
        cumQty := msg.cumQty.getD 0
        avgPx := msg.avgPx.getD 0
        ordStatus := msg.ordStatus.getD ""
        lastRptRequested := msg.lastRptRequested = some "Y"
        emptyBatch := msg.totNumReports = some 0 }
  else none

def massStatus : Protocol String StatusReport (List BrokerOpenOrder) where
  key := StatusReport.massStatusReqId
  start := []
  feed := fun acc sr => acc ++ sr.toOpenOrder.toList
  final := fun sr => sr.lastRptRequested || sr.emptyBatch

def singleStatus : Protocol String StatusReport BrokerOrderState where
  key := fun sr => if sr.clientOrderId = "" then none else some sr.clientOrderId
  start := ⟨.working, 0, 0⟩
  feed := fun _ sr => sr.toOrderState
  final := fun _ => true

structure Session where
  snapshots : Desk String StatusReport (List BrokerOpenOrder) BrokerError
  statuses : Desk String StatusReport BrokerOrderState BrokerError

def Session.start : Session := ⟨.start, .start⟩

/-- The two ways a waiting call fails short of an answer, and its removal. -/
inductive Await where
  | sent (i : Nat) (result : Except BrokerError Unit)
  | take (i : Nat)
  | cut (i : Nat)
  | poll (i : Nat)
  | timeOut (i : Nat)
  | cleanUp (i : Nat)

def Await.action (timeoutMsg : String) : Await → Action String StatusReport BrokerError
  | .sent i result => .sent i result
  | .take i => .take i
  | .cut i => .cut i (.network timeoutMsg)
  | .poll i => .poll i
  | .timeOut i => .timeOut i (.network timeoutMsg)
  | .cleanUp i => .cleanUp i

inductive Action where
  | openOrders (reqId : String)
  | orderStatus (clientOrderId : String)
  | inbound (msg : StatusMessage)
  | snapshot (a : Await)
  | status (a : Await)

def onMsgFromApp (s : Session) (msg : StatusMessage) : Session :=
  match parseOrderStatusReport msg with
  | some sr =>
    if sr.massStatusReqId.isSome then { s with snapshots := receive massStatus s.snapshots sr }
    else { s with statuses := receive singleStatus s.statuses sr }
  | none => s

def step (s : Session) : Action → Option Session
  | .openOrders reqId => some { s with snapshots := register massStatus s.snapshots reqId }
  | .orderStatus clientOrderId =>
    some { s with statuses := register singleStatus s.statuses clientOrderId }
  | .inbound msg => some (onMsgFromApp s msg)
  | .snapshot a =>
    (Correlated.step massStatus s.snapshots
      (a.action "timed out waiting for FIX mass-status snapshot")).map
        fun snapshots => { s with snapshots }
  | .status a =>
    (Correlated.step singleStatus s.statuses
      (a.action "timed out waiting for FIX order status")).map fun statuses => { s with statuses }

def batch (s : Session) (c : Call String (List BrokerOpenOrder) BrokerError) :
    List StatusReport :=
  (s.snapshots.received.drop c.since).filter fun sr => sr.massStatusReqId = some c.key

def reports (s : Session) (c : Call String BrokerOrderState BrokerError) : List StatusReport :=
  (s.statuses.received.drop c.since).filter fun sr => sr.clientOrderId ≠ "" ∧ sr.clientOrderId = c.key

def Snapshot (reports : List StatusReport) (v : List BrokerOpenOrder) : Prop :=
  ∃ before last rest, reports = before ++ last :: rest ∧
    (∀ sr ∈ before, sr.lastRptRequested = false ∧ sr.emptyBatch = false) ∧
      (last.lastRptRequested = true ∨ last.emptyBatch = true) ∧
        v = (before ++ [last]).filterMap StatusReport.toOpenOrder

/-- What calls return: the snapshot of their own batch, the state in the first report of
    their order; and no waiter is left behind by a call that has returned. -/
structure Truthful (s : Session) : Prop where
  snapshot : ∀ c ∈ s.snapshots.calls, ∀ v, c.stage = .returned (.ok v) → Snapshot (batch s c) v
  status : ∀ c ∈ s.statuses.calls, ∀ v, c.stage = .returned (.ok v) →
    ∃ sr, (reports s c).head? = some sr ∧ v = sr.toOrderState
  snapshotWaiter : ∀ reqId w, s.snapshots.waiters reqId = some w →
    ∃ c, s.snapshots.calls[w.call]? = some c ∧ c.key = reqId ∧ c.stage.isReturned = false
  statusWaiter : ∀ clientOrderId w, s.statuses.waiters clientOrderId = some w →
    ∃ c, s.statuses.calls[w.call]? = some c ∧ c.key = clientOrderId ∧ c.stage.isReturned = false

/-- A call still waiting has been sent its snapshot or state exactly when it is all in. -/
structure Timely (s : Session) : Prop where
  snapshot : ∀ c ∈ s.snapshots.calls, c.stage.pending = true →
    ∀ v, c.answer = some v ↔ Snapshot (batch s c) v
  status : ∀ c ∈ s.statuses.calls, c.stage.pending = true →
    ∀ v, c.answer = some v ↔ ∃ sr, (reports s c).head? = some sr ∧ v = sr.toOrderState

/-- Request ids are drawn afresh, and no order is asked about twice at once. -/
def Fresh (s : Session) : Action → Prop
  | .openOrders reqId => ∀ c ∈ s.snapshots.calls, c.key = reqId → c.stage.isReturned = true
  | .orderStatus clientOrderId =>
    ∀ c ∈ s.statuses.calls, c.key = clientOrderId → c.stage.isReturned = true
  | _ => True

instance (s : Session) (a : Action) : Decidable (Fresh s a) := by
  unfold Fresh
  split <;> infer_instance

theorem collected (srs : List StatusReport) (acc : List BrokerOpenOrder) :
    srs.foldl massStatus.feed acc = acc ++ srs.filterMap StatusReport.toOpenOrder := by
  induction srs generalizing acc with
  | nil => simp
  | cons sr srs ih =>
    rw [List.foldl_cons, ih, List.filterMap_cons]
    cases row : sr.toOpenOrder <;> simp [massStatus, row]

theorem complete_snapshot {srs : List StatusReport} {v : List BrokerOpenOrder} :
    Complete massStatus srs v ↔ Snapshot srs v := by
  simp only [Complete, Snapshot, collected]
  simp only [massStatus, Bool.or_eq_false_iff, Bool.or_eq_true, List.nil_append]

theorem complete_single {srs : List StatusReport} {v : BrokerOrderState} :
    Complete singleStatus srs v ↔ ∃ sr, srs.head? = some sr ∧ v = sr.toOrderState := by
  constructor
  · rintro ⟨before, last, rest, rfl, quiet, _, rfl⟩
    cases before with
    | nil => exact ⟨last, rfl, rfl⟩
    | cons sr before =>
      have never := quiet sr (by simp)
      cases never
  · rintro ⟨sr, first, rfl⟩
    obtain ⟨rest, rfl⟩ := List.head?_eq_some_iff.mp first
    exact ⟨[], sr, rest, rfl, by simp, rfl, rfl⟩

theorem own_batch (s : Session) (c : Call String (List BrokerOpenOrder) BrokerError) :
    own massStatus s.snapshots.received c = batch s c := rfl

theorem own_reports (s : Session) (c : Call String BrokerOrderState BrokerError) :
    own singleStatus s.statuses.received c = reports s c := by
  unfold own reports
  refine List.filter_congr fun sr _ => ?_
  by_cases unnamed : sr.clientOrderId = "" <;> simp [singleStatus, unnamed]

theorem step_cases {s t : Session} {a : Action} (taken : step s a = some t) :
    (∃ b, Correlated.step massStatus s.snapshots b = some t.snapshots ∧
        t.statuses = s.statuses ∧ (Fresh s a → Apart s.snapshots b)) ∨
      (∃ b, Correlated.step singleStatus s.statuses b = some t.statuses ∧
        t.snapshots = s.snapshots ∧ (Fresh s a → Apart s.statuses b)) ∨ t = s := by
  have waits : ∀ {R : Type} (desk : Desk String StatusReport R BrokerError) (a : Await)
      (msg : String), Apart desk (a.action msg) := by
    intro R desk a msg
    cases a <;> trivial
  cases a with
  | openOrders reqId =>
    cases taken
    exact Or.inl ⟨.register reqId, rfl, rfl, id⟩
  | orderStatus clientOrderId =>
    cases taken
    exact Or.inr (Or.inl ⟨.register clientOrderId, rfl, rfl, id⟩)
  | inbound msg =>
    cases taken
    unfold onMsgFromApp
    split
    · rename_i sr _
      split
      · exact Or.inl ⟨.receive sr, rfl, rfl, fun _ => trivial⟩
      · exact Or.inr (Or.inl ⟨.receive sr, rfl, rfl, fun _ => trivial⟩)
    · exact Or.inr (Or.inr rfl)
  | snapshot a =>
    obtain ⟨snapshots, went, rfl⟩ := Option.map_eq_some_iff.mp taken
    exact Or.inl ⟨_, went, rfl, fun _ => waits _ a _⟩
  | status a =>
    obtain ⟨statuses, went, rfl⟩ := Option.map_eq_some_iff.mp taken
    exact Or.inr (Or.inl ⟨_, went, rfl, fun _ => waits _ a _⟩)

structure BothInv (s : Session) : Prop where
  snapshots : Inv massStatus s.snapshots
  statuses : Inv singleStatus s.statuses

theorem step_both {s t : Session} {a : Action} (inv : BothInv s) (taken : step s a = some t) :
    BothInv t := by
  obtain ⟨snapshots, statuses⟩ := inv
  rcases step_cases taken with ⟨b, went, same, _⟩ | ⟨b, went, same, _⟩ | rfl
  · exact ⟨step_inv snapshots went, by rw [same]; exact statuses⟩
  · exact ⟨by rw [same]; exact snapshots, step_inv statuses went⟩
  · exact ⟨snapshots, statuses⟩

theorem both_truthful {s : Session} (inv : BothInv s) : Truthful s := by
  obtain ⟨snapshot, snapshotWaiter⟩ := inv_answers inv.snapshots
  obtain ⟨status, statusWaiter⟩ := inv_answers inv.statuses
  refine ⟨?_, ?_, snapshotWaiter, statusWaiter⟩
  · intro c member v returned
    rw [← complete_snapshot, ← own_batch]
    exact snapshot c member v returned
  · intro c member v returned
    rw [← complete_single, ← own_reports]
    exact status c member v returned

/-- Whatever requests run at once, however their replies are mixed, cut short or late,
    a call that returns an answer returns its own. -/
theorem replies_truthful (acts : List Action) : Throughout step Truthful .start acts :=
  throughout_mono (fun _ => both_truthful)
    (throughout_keeps (fun _ _ _ inv taken => step_both inv taken) ⟨start_inv, start_inv⟩ acts)

structure BothServed (s : Session) : Prop where
  snapshots : Served massStatus s.snapshots
  statuses : Served singleStatus s.statuses

theorem step_both_served {s t : Session} {a : Action} (served : BothServed s) (fresh : Fresh s a)
    (taken : step s a = some t) : BothServed t := by
  obtain ⟨snapshots, statuses⟩ := served
  rcases step_cases taken with ⟨b, went, same, apart⟩ | ⟨b, went, same, apart⟩ | rfl
  · exact ⟨step_served snapshots (apart fresh) went, by rw [same]; exact statuses⟩
  · exact ⟨by rw [same]; exact snapshots, step_served statuses (apart fresh) went⟩
  · exact ⟨snapshots, statuses⟩

theorem both_timely {s : Session} (served : BothServed s) : Timely s where
  snapshot := by
    intro c member pending v
    rw [← complete_snapshot, ← own_batch]
    exact served_prompt served.snapshots c member pending v
  status := by
    intro c member pending v
    rw [← complete_single, ← own_reports]
    exact served_prompt served.statuses c member pending v

/-- With request ids drawn afresh and no order asked about twice at once, no reply is
    lost to a call that still waits for it. -/
theorem replies_timely (acts : List Action) (fresh : Along step Fresh .start acts) :
    Throughout step Timely .start acts :=
  throughout_mono (fun _ => both_timely)
    (throughout_along (fun _ _ _ served ok taken => step_both_served served ok taken)
      ⟨start_served, start_served⟩ fresh)

def report (massStatusReqId clOrdId : String) (last : Bool) : StatusMessage where
  msgType := some "8"
  clOrdId := some clOrdId
  origClOrdId := none
  orderId := some "v1"
  execId := none
  execType := some "I"
  lastQty := none
  lastPx := none
  text := none
  ordRejReason := none
  massStatusReqId := some massStatusReqId
  symbol := some "BTCUSDT"
  cumQty := some 1
  avgPx := some 100
  ordStatus := some "1"
  lastRptRequested := if last then some "Y" else none
  totNumReports := none

def mixed : List Action :=
  [.openOrders "a", .snapshot (.sent 0 (.ok ())), .openOrders "b", .inbound (report "b" "o1" false),
    .inbound (report "a" "o2" true), .snapshot (.take 0), .inbound (report "b" "o3" true)]

theorem mixed_timely : Throughout step Timely .start mixed :=
  replies_timely mixed (by decide +kernel)

end OmsStatusReplies
