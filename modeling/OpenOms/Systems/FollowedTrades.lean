import OpenOms.Library.Runs
import OpenOms.Colo.Ledger
import Mathlib.Logic.Equiv.Basic

/-!
Followed trades and the position they move: the venue trades and closes orders,
the strategy's worker books what the stream and the history bring, the engine
takes one event after another, reconcile passes ask the venue how an order ended,
and a crash loses everything that is not in the database.
-/
namespace OmsFollowedTrades
open OmsOrders OmsAggregate OmsPositions OmsOrderStore OmsGateway OmsReconOrders OmsReconQueries
open OmsOrderEngine OmsRiskEngine OmsScope OmsBooking OmsFollow OmsLedger Keyed Runs

inductive FollowEvent where
  | fill (fill : ExternalFill)
  | connected
  deriving DecidableEq, Repr

/-- What the strategy's worker is on; it takes its events in order. -/
inductive Job where
  | idle
  | live (call : BookCall)
  | gap (gap : GapFill) (call : Option BookCall)
  deriving DecidableEq, Repr

inductive Ask where
  | listed (order : OmsWorkingOrder)
  | answered (ev : ExecEvent)
  deriving DecidableEq, Repr

/-- `finished` are the gap fills this process has run to their end. -/
structure Following where
  venue : Venue
  oms : Oms
  inbox : List FollowEvent
  job : Job
  finished : List GapFill
  asks : List Ask

def Following.start (positions : String → Option PositionMath) : Following :=
  ⟨⟨[], []⟩, ⟨.empty, positions, []⟩, [], .idle, [], []⟩

inductive Action where
  | trade (t : VenueTrade)
  | close (closing : Closing)
  | deliver (i : Nat)
  | connect
  | take (opened seen : List String) (nowMs : Int)
  | call (a : CallAction)
  | readPage
  | pageFailed
  | nextFill
  | endPage
  | finish
  | engine (metadata : EventMetadata)
  | list (orderId : String) (brokerOpen : List BrokerOpenOrder)
  | ask (i : Nat)
  | sendAnswer (i : Nat)
  | drop (i : Nat)
  | crash
  deriving DecidableEq, Repr

def liveAfter : Progress → Job
  | .goes call => .live call
  | .returned | .failed => .idle

def gapAfter (gap : GapFill) : Progress → Job
  | .goes call => .gap gap (some call)
  | .returned => .gap gap none
  | .failed => .gap { gap with failed := true } none

variable (newV5 : String → String) (strategy : Followed)

def takeEvent (s : Following) (opened seen : List String) (nowMs : Int) : Option Following :=
  match s.job, s.inbox with
  | .idle, .fill fill :: rest => some { s with inbox := rest, job := .live ⟨fill, .reading⟩ }
  | .idle, .connected :: rest =>
    some { s with
      inbox := rest
      job := .gap (.begin strategy s.oms s.venue opened seen nowMs) none }
  | _, _ => none

def callTakes (s : Following) (a : CallAction) : Option Following :=
  match s.job with
  | .live call =>
    (callStep newV5 strategy s.oms call a).map fun (progress, oms) =>
      { s with oms := oms, job := liveAfter progress }
  | .gap gap (some call) =>
    (callStep newV5 strategy s.oms call a).map fun (progress, oms) =>
      { s with oms := oms, job := gapAfter gap progress }
  | _ => none

def betweenCalls (s : Following) (change : GapFill → Option Job) : Option Following :=
  match s.job with
  | .gap gap none => (change gap).map fun job => { s with job := job }
  | _ => none

def finishGap (s : Following) : Option Following :=
  match s.job with
  | .gap gap none =>
    if gap.symbols = [] ∧ gap.page = none then
      some { s with job := .idle, finished := s.finished ++ [gap] }
    else none
  | _ => none

def listOrder (s : Following) (orderId : String) (brokerOpen : List BrokerOpenOrder) :
    Option Following :=
  match (s.oms.orders.find orderId).bind (workingOrder strategy) with
  | none => none
  | some order =>
    match planWorking brokerOpen order with
    | some (.resolveTerminal ..) => some { s with asks := s.asks ++ [.listed order] }
    | _ => none

def askVenue (s : Following) (i : Nat) : Option Following :=
  match s.asks[i]? with
  | some (.listed order) =>
    let answer : ExecEvent :=
      { orderId := order.orderId
        venue := "BINANCE"
        actor := "binance"
        source := .snapshot
        kind := .terminal (s.venue.orderStatus order.symbol order.extId) }
    some { s with asks := s.asks.set i (.answered answer) }
  | _ => none

def sendAnswer (s : Following) (i : Nat) : Option Following :=
  match s.asks[i]? with
  | some (.answered ev) =>
    some { s with
      oms := { s.oms with queue := s.oms.queue ++ [ev] }
      asks := s.asks.eraseIdx i }
  | _ => none

def step (s : Following) : Action → Option Following
  | .trade t => (s.venue.trade t).map fun venue => { s with venue := venue }
  | .close closing => (s.venue.close closing).map fun venue => { s with venue := venue }
  | .deliver i =>
    s.venue.trades[i]?.map fun t => { s with inbox := s.inbox ++ [.fill t.toExternalFill] }
  | .connect => some { s with inbox := s.inbox ++ [.connected] }
  | .take opened seen nowMs => takeEvent strategy s opened seen nowMs
  | .call a => callTakes newV5 strategy s a
  | .readPage => betweenCalls s fun gap => (gap.readPage s.venue).map fun gap => .gap gap none
  | .pageFailed => betweenCalls s fun gap => gap.pageFailed.map fun gap => .gap gap none
  | .nextFill =>
    betweenCalls s fun gap => gap.nextFill.map fun (fill, gap) =>
      .gap gap (some ⟨fill, .reading⟩)
  | .endPage => betweenCalls s fun gap => gap.endPage.map fun gap => .gap gap none
  | .finish => finishGap s
  | .engine metadata => (engineStep s.oms metadata).map fun oms => { s with oms := oms }
  | .list orderId brokerOpen => listOrder strategy s orderId brokerOpen
  | .ask i => askVenue s i
  | .sendAnswer i => sendAnswer s i
  | .drop i => some { s with asks := s.asks.eraseIdx i }
  | .crash =>
    some { s with
      oms := { s.oms with queue := [] }
      inbox := []
      job := .idle
      finished := []
      asks := [] }

/-- The queue is empty, and every trade was there for a gap fill that has since
    run to its end and lost nothing. -/
def Settled (s : Following) : Prop :=
  s.oms.queue = [] ∧
    ∀ t ∈ s.venue.trades, ∃ gap ∈ s.finished, gap.failed = false ∧ t ∈ gap.due

def BookedOnce (orders : List StoredOrder) (t : VenueTrade) : Prop :=
  ∃ order, orders.filter (·.row.orderId = idOf newV5 strategy t) = [order] ∧
    order.row.side = t.side ∧
    order.row.instrumentId = strategy.catalog.instrumentId t.symbol ∧
    FilledBy t.toExternalFill order

def signedTrades (instrument : String) (trades : List VenueTrade) : ℚ :=
  (trades.map fun t =>
    if strategy.catalog.instrumentId t.symbol = instrument then t.side.signed t.qty else 0).sum

structure MovedOnce (positions : String → Option PositionMath) (s : Following) : Prop where
  once : ∀ t ∈ s.venue.trades, BookedOnce newV5 strategy s.oms.orders.rows t
  moved : ∀ instrument, positionQty (s.oms.positions instrument) =
    positionQty (positions instrument) + signedTrades strategy instrument s.venue.trades

/-- The engine is about to book a venue answer that closes an order whose fill it
    has not booked, and that does not bring exactly this fill. -/
def ClosesOpenTrade (s : Following) : Action → Prop
  | .engine _ =>
    match s.oms.queue with
    | ev :: _ => ∃ order ∈ s.oms.orders.find ev.orderId, ClosesUnfilled order ev
    | [] => False
  | _ => False

/-- The gap fill has brought every trade it set out to bring, is on it, or comes
    to it, unless something has failed. -/
structure GapKept (venue : Venue) (oms : Oms) (gap : GapFill) (call : Option BookCall) :
    Prop where
  books : ∀ c ∈ call, CallKept newV5 strategy venue.trades oms c
  page : ∀ left next, gap.page = some (left, next) →
    ∀ fill ∈ left, ∃ t ∈ venue.trades, Brings fill t
  due : ∀ t ∈ gap.due, t ∈ venue.trades ∧ gap.startMs ≤ t.time
  brings : gap.failed = false → ∀ t ∈ gap.due,
    Brought newV5 strategy oms t ∨ ToCome gap t ∨ ∃ c ∈ call, Brings c.fill t

def JobKept (venue : Venue) (oms : Oms) : Job → Prop
  | .idle => True
  | .live call => CallKept newV5 strategy venue.trades oms call
  | .gap gap call => GapKept newV5 strategy venue oms gap call

def AskKept (venue : Venue) (oms : Oms) : Ask → Prop
  | .listed order => ∃ t ∈ venue.trades, HasOrder newV5 strategy oms t ∧
      order.orderId = idOf newV5 strategy t ∧ order.symbol = t.symbol ∧
      order.extId = t.venueOrderId
  | .answered ev => ∃ t ∈ venue.trades, HasOrder newV5 strategy oms t ∧
      EventOf newV5 strategy t ev

structure Inv (positions : String → Option PositionMath) (s : Following) : Prop where
  ledger : Ledger newV5 strategy positions s.venue.trades s.oms
  inbox : ∀ fill, .fill fill ∈ s.inbox → ∃ t ∈ s.venue.trades, Brings fill t
  job : JobKept newV5 strategy s.venue s.oms s.job
  finished : ∀ gap ∈ s.finished, gap.failed = false →
    ∀ t ∈ gap.due, Brought newV5 strategy s.oms t
  asks : ∀ ask ∈ s.asks, AskKept newV5 strategy s.venue s.oms ask

variable {newV5 strategy} {positions : String → Option PositionMath}

theorem start_inv : Inv newV5 strategy positions (.start positions) := by
  have no_rows : (Table.empty : Table String StoredOrder (·.row.orderId)).rows = [] := rfl
  refine ⟨⟨?_, List.nodup_nil, ?_, ?_, ?_⟩, ?_, trivial, ?_, ?_⟩ <;>
    simp [Following.start, no_rows]

theorem call_onward {trades trades' : List VenueTrade} {oms oms' : Oms}
    (grows : trades ⊆ trades') (onward : Onward newV5 strategy oms oms') {call : BookCall}
    (kept : CallKept newV5 strategy trades oms call) :
    CallKept newV5 strategy trades' oms' call := by
  obtain ⟨t, there, brings, ordered⟩ := kept
  exact ⟨t, grows there, brings, fun sending => onward.has t (ordered sending)⟩

theorem gap_onward {venue venue' : Venue} {oms oms' : Oms} (grows : venue.trades ⊆ venue'.trades)
    (onward : Onward newV5 strategy oms oms') {gap : GapFill} {call : Option BookCall}
    (kept : GapKept newV5 strategy venue oms gap call) :
    GapKept newV5 strategy venue' oms' gap call := by
  refine ⟨?_, ?_, ?_, ?_⟩
  · intro c is
    exact call_onward grows onward (kept.books c is)
  · intro left next page fill onPage
    obtain ⟨t, there, brings⟩ := kept.page left next page fill onPage
    exact ⟨t, grows there, brings⟩
  · intro t due
    exact ⟨grows (kept.due t due).1, (kept.due t due).2⟩
  · intro clean t due
    exact (kept.brings clean t due).imp_left (onward.brought t)

theorem job_onward {venue venue' : Venue} {oms oms' : Oms} (grows : venue.trades ⊆ venue'.trades)
    (onward : Onward newV5 strategy oms oms') {job : Job}
    (kept : JobKept newV5 strategy venue oms job) : JobKept newV5 strategy venue' oms' job := by
  cases job with
  | idle => trivial
  | live call => exact call_onward grows onward kept
  | gap gap call => exact gap_onward grows onward kept

theorem ask_onward {venue venue' : Venue} {oms oms' : Oms} (grows : venue.trades ⊆ venue'.trades)
    (onward : Onward newV5 strategy oms oms') {ask : Ask}
    (kept : AskKept newV5 strategy venue oms ask) : AskKept newV5 strategy venue' oms' ask := by
  cases ask with
  | listed order =>
    obtain ⟨t, there, has, rest⟩ := kept
    exact ⟨t, grows there, onward.has t has, rest⟩
  | answered ev =>
    obtain ⟨t, there, has, rest⟩ := kept
    exact ⟨t, grows there, onward.has t has, rest⟩

/-- What the worker and the passes know outlives any step of the books. -/
theorem inv_onward {s : Following} (inv : Inv newV5 strategy positions s) {venue : Venue}
    {oms : Oms} (ledger : Ledger newV5 strategy positions venue.trades oms)
    (grows : s.venue.trades ⊆ venue.trades) (onward : Onward newV5 strategy s.oms oms) :
    Inv newV5 strategy positions { s with venue := venue, oms := oms } where
  ledger := ledger
  inbox := by
    intro fill queued
    obtain ⟨t, there, brings⟩ := inv.inbox fill queued
    exact ⟨t, grows there, brings⟩
  job := job_onward grows onward inv.job
  finished := fun gap member clean t due => onward.brought t (inv.finished gap member clean t due)
  asks := fun ask member => ask_onward grows onward (inv.asks ask member)

theorem take_keeps {s s' : Following} (inv : Inv newV5 strategy positions s)
    {opened seen : List String} {nowMs : Int}
    (took : takeEvent strategy s opened seen nowMs = some s') :
    Inv newV5 strategy positions s' ∧ s'.oms = s.oms := by
  unfold takeEvent at took
  split at took
  · rename_i fill rest idle inbox
    cases took
    refine ⟨⟨inv.ledger, ?_, ?_, inv.finished, inv.asks⟩, rfl⟩
    · intro fill' later
      exact inv.inbox fill' (by rw [inbox]; exact .tail _ later)
    · obtain ⟨t, there, brings⟩ := inv.inbox fill (by rw [inbox]; exact .head _)
      exact ⟨t, there, brings, nofun⟩
  · rename_i rest idle inbox
    cases took
    refine ⟨⟨inv.ledger, ?_, ?_, inv.finished, inv.asks⟩, rfl⟩
    · intro fill' later
      exact inv.inbox fill' (by rw [inbox]; exact .tail _ later)
    · refine ⟨nofun, nofun, ?_, fun _ t due => .inr (.inl (begin_to_come due))⟩
      intro t due
      obtain ⟨there, asked⟩ := List.mem_filter.mp due
      exact ⟨there, (of_decide_eq_true asked).2⟩
  · cases took

theorem live_after_kept {venue : Venue} {oms : Oms} {fill : ExternalFill} {progress : Progress}
    (leaves : Leaves newV5 strategy venue.trades oms fill progress) :
    JobKept newV5 strategy venue oms (liveAfter progress) := by
  cases progress with
  | goes call => exact leaves.2
  | returned => trivial
  | failed => trivial

theorem gap_after_kept {venue : Venue} {oms : Oms} {gap : GapFill} {call : BookCall}
    (kept : GapKept newV5 strategy venue oms gap (some call)) {progress : Progress}
    (leaves : Leaves newV5 strategy venue.trades oms call.fill progress) :
    JobKept newV5 strategy venue oms (gapAfter gap progress) := by
  cases progress with
  | goes call' =>
    obtain ⟨same, kept'⟩ := leaves
    refine ⟨?_, kept.page, kept.due, ?_⟩
    · intro c is
      cases is
      exact kept'
    · intro clean t due
      rcases kept.brings clean t due with brought | toCome | ⟨c, is, brings⟩
      · exact .inl brought
      · exact .inr (.inl toCome)
      · cases is
        exact .inr (.inr ⟨call', rfl, same ▸ brings⟩)
  | returned =>
    refine ⟨nofun, kept.page, kept.due, ?_⟩
    intro clean t due
    rcases kept.brings clean t due with brought | toCome | ⟨c, is, brings⟩
    · exact .inl brought
    · exact .inr (.inl toCome)
    · cases is
      exact .inl (leaves t brings)
  | failed => exact ⟨nofun, kept.page, kept.due, nofun⟩

theorem call_keeps {s s' : Following} (inv : Inv newV5 strategy positions s) {a : CallAction}
    (took : callTakes newV5 strategy s a = some s') :
    Inv newV5 strategy positions s' ∧ (Lost s'.oms ↔ Lost s.oms) := by
  unfold callTakes at took
  split at took
  · rename_i call live
    obtain ⟨⟨progress, oms⟩, stepped, rfl⟩ := Option.map_eq_some_iff.mp took
    have kept := inv.job
    rw [live] at kept
    obtain ⟨ledger, onward, lost, leaves⟩ := ledger_call inv.ledger kept stepped
    have moved := inv_onward inv ledger (List.Subset.refl _) onward
    exact ⟨⟨moved.ledger, moved.inbox, live_after_kept leaves, moved.finished, moved.asks⟩, lost⟩
  · rename_i gap call running
    obtain ⟨⟨progress, oms⟩, stepped, rfl⟩ := Option.map_eq_some_iff.mp took
    have kept := inv.job
    rw [running] at kept
    obtain ⟨ledger, onward, lost, leaves⟩ := ledger_call inv.ledger (kept.books call rfl) stepped
    have moved := inv_onward inv ledger (List.Subset.refl _) onward
    have job := gap_after_kept (gap_onward (List.Subset.refl _) onward kept) leaves
    exact ⟨⟨moved.ledger, moved.inbox, job, moved.finished, moved.asks⟩, lost⟩
  · cases took

theorem between_keeps {s s' : Following} (inv : Inv newV5 strategy positions s)
    {change : GapFill → Option Job} (took : betweenCalls s change = some s')
    (keeps : ∀ gap job, GapKept newV5 strategy s.venue s.oms gap none → change gap = some job →
      JobKept newV5 strategy s.venue s.oms job) :
    Inv newV5 strategy positions s' ∧ s'.oms = s.oms := by
  unfold betweenCalls at took
  split at took
  · rename_i gap running
    obtain ⟨job, changed, rfl⟩ := Option.map_eq_some_iff.mp took
    have kept := inv.job
    rw [running] at kept
    exact ⟨⟨inv.ledger, inv.inbox, keeps gap job kept changed, inv.finished, inv.asks⟩, rfl⟩
  · cases took

theorem read_page_keeps {s : Following} (inv : Inv newV5 strategy positions s) {gap gap' : GapFill}
    (kept : GapKept newV5 strategy s.venue s.oms gap none)
    (read : gap.readPage s.venue = some gap') :
    GapKept newV5 strategy s.venue s.oms gap' none := by
  have toCome := fun t there recent =>
    @read_page_to_come gap gap' s.venue read (trade_ids_distinct inv.ledger) t there recent
  unfold GapFill.readPage at read
  split at read
  · rename_i symbol rest symbols unread
    cases read
    refine ⟨nofun, ?_, kept.due, ?_⟩
    · intro left next page fill onPage
      cases page
      obtain ⟨t, listed, rfl⟩ := List.mem_map.mp onPage
      have asked := Paging.mem_of_mem_page _ listed
      exact ⟨t, List.mem_of_mem_filter asked, .inr rfl⟩
    · intro clean t due
      obtain ⟨there, recent⟩ := kept.due t due
      rcases kept.brings clean t due with brought | coming | ⟨c, is, _⟩
      · exact .inl brought
      · exact .inr (.inl (toCome t there recent coming))
      · cases is
  · cases read

theorem page_failed_keeps {venue : Venue} {oms : Oms} {gap gap' : GapFill}
    (kept : GapKept newV5 strategy venue oms gap none) (failed : gap.pageFailed = some gap') :
    GapKept newV5 strategy venue oms gap' none := by
  unfold GapFill.pageFailed at failed
  split at failed
  · cases failed
    exact ⟨nofun, kept.page, kept.due, nofun⟩
  · cases failed

theorem next_fill_keeps {venue : Venue} {oms : Oms} {gap gap' : GapFill} {fill : ExternalFill}
    (kept : GapKept newV5 strategy venue oms gap none)
    (taken : gap.nextFill = some (fill, gap')) :
    GapKept newV5 strategy venue oms gap' (some ⟨fill, .reading⟩) := by
  have toCome := fun t => @next_fill_to_come gap gap' fill taken t
  unfold GapFill.nextFill at taken
  split at taken
  · rename_i head left next page
    cases taken
    refine ⟨?_, ?_, kept.due, ?_⟩
    · intro c is
      cases is
      obtain ⟨t, there, brings⟩ := kept.page _ _ page fill (.head _)
      exact ⟨t, there, brings, nofun⟩
    · intro left' next' page' fill' onPage
      cases page'
      exact kept.page _ _ page fill' (.tail _ onPage)
    · intro clean t due
      rcases kept.brings clean t due with brought | coming | ⟨c, is, _⟩
      · exact .inl brought
      · rcases toCome t coming with now | later
        · exact .inr (.inr ⟨_, rfl, .inr now.symm⟩)
        · exact .inr (.inl later)
      · cases is
  · cases taken

theorem end_page_keeps {venue : Venue} {oms : Oms} {gap gap' : GapFill}
    (kept : GapKept newV5 strategy venue oms gap none) (ended : gap.endPage = some gap') :
    GapKept newV5 strategy venue oms gap' none := by
  have toCome := fun t => @end_page_to_come gap gap' ended t
  have same : gap'.due = gap.due ∧ gap'.startMs = gap.startMs ∧ gap'.failed = gap.failed ∧
      gap'.page = none := by
    unfold GapFill.endPage at ended
    split at ended <;> cases ended <;> exact ⟨rfl, rfl, rfl, rfl⟩
  obtain ⟨due, startMs, failed, page⟩ := same
  refine ⟨nofun, ?_, ?_, ?_⟩
  · intro left next onPage
    rw [page] at onPage
    cases onPage
  · rw [due, startMs]
    exact kept.due
  · rw [due, failed]
    intro clean t member
    rcases kept.brings clean t member with brought | coming | ⟨c, is, _⟩
    · exact .inl brought
    · exact .inr (.inl (toCome t coming))
    · cases is

theorem finish_keeps {s s' : Following} (inv : Inv newV5 strategy positions s)
    (took : finishGap s = some s') : Inv newV5 strategy positions s' ∧ s'.oms = s.oms := by
  unfold finishGap at took
  split at took
  · rename_i gap running
    split at took
    · rename_i done
      cases took
      have kept := inv.job
      rw [running] at kept
      refine ⟨⟨inv.ledger, inv.inbox, trivial, ?_, inv.asks⟩, rfl⟩
      intro gap' member clean t due
      rcases List.mem_append.mp member with old | new
      · exact inv.finished gap' old clean t due
      · cases List.mem_singleton.mp new
        rcases kept.brings clean t due with brought | coming | ⟨c, is, _⟩
        · exact brought
        · exact absurd coming (finished_to_come done.1 done.2 t)
        · cases is
    · cases took
  · cases took

theorem list_keeps {s s' : Following} (inv : Inv newV5 strategy positions s) {orderId : String}
    {brokerOpen : List BrokerOpenOrder} (took : listOrder strategy s orderId brokerOpen = some s') :
    Inv newV5 strategy positions s' ∧ s'.oms = s.oms := by
  unfold listOrder at took
  split at took
  · cases took
  rename_i listed found
  split at took
  · cases took
    refine ⟨⟨inv.ledger, inv.inbox, inv.job, inv.finished, ?_⟩, rfl⟩
    intro ask member
    rcases List.mem_append.mp member with old | new
    · exact inv.asks ask old
    · cases List.mem_singleton.mp new
      obtain ⟨order, stored, works⟩ := Option.bind_eq_some_iff.mp found
      obtain ⟨t, there, orderOf⟩ := inv.ledger.orders order (find_some.mp stored).1
      refine ⟨t, there, ?_, working_order_of orderOf works⟩
      rw [HasOrder, ← orderOf.is.id, (find_some.mp stored).2, stored]
      rfl
  · cases took

theorem ask_keeps {s s' : Following} (inv : Inv newV5 strategy positions s) {i : Nat}
    (took : askVenue s i = some s') : Inv newV5 strategy positions s' ∧ s'.oms = s.oms := by
  unfold askVenue at took
  split at took
  · rename_i listed there
    cases took
    refine ⟨⟨inv.ledger, inv.inbox, inv.job, inv.finished, ?_⟩, rfl⟩
    obtain ⟨t, happened, has, id, symbol, extId⟩ := inv.asks _ (List.mem_of_getElem? there)
    refine Lists.forall_mem_set inv.asks ⟨t, happened, has, .inr ⟨id, _, rfl, ?_⟩⟩
    rw [symbol, extId]
    exact order_status_covers inv.ledger.valid happened
  · cases took

theorem send_answer_keeps {s s' : Following} (inv : Inv newV5 strategy positions s) {i : Nat}
    (took : sendAnswer s i = some s') :
    Inv newV5 strategy positions s' ∧ (Lost s'.oms ↔ Lost s.oms) := by
  unfold sendAnswer at took
  split at took
  · rename_i ev there
    cases took
    obtain ⟨t, happened, has, event⟩ := inv.asks _ (List.mem_of_getElem? there)
    obtain ⟨ledger, onward⟩ := ledger_push inv.ledger happened has event
    have moved := inv_onward inv ledger (List.Subset.refl _) onward
    refine ⟨⟨moved.ledger, moved.inbox, moved.job, moved.finished, ?_⟩, .rfl⟩
    exact fun ask member => moved.asks ask (List.mem_of_mem_eraseIdx member)
  · cases took

theorem crash_ledger {trades : List VenueTrade} {oms : Oms}
    (ledger : Ledger newV5 strategy positions trades oms) :
    Ledger newV5 strategy positions trades { oms with queue := [] } :=
  ⟨ledger.valid, ledger.ids, ledger.orders, List.forall_mem_nil _, ledger.moved⟩

/-- One step, whoever takes it: the invariant stays, and an order is lost exactly
    where a venue answer closes one that waits. -/
theorem step_keeps (distinct : Function.Injective newV5) {s s' : Following} {a : Action}
    (inv : Inv newV5 strategy positions s) (took : step newV5 strategy s a = some s') :
    Inv newV5 strategy positions s' ∧ (Lost s'.oms ↔ Lost s.oms ∨ ClosesOpenTrade s a) := by
  -- Every action but the engine's leaves what is lost as it is.
  have elsewhere : ∀ {s'' : Following}, ¬ ClosesOpenTrade s a →
      (Inv newV5 strategy positions s'' ∧ (Lost s''.oms ↔ Lost s.oms)) →
      Inv newV5 strategy positions s'' ∧ (Lost s''.oms ↔ Lost s.oms ∨ ClosesOpenTrade s a) :=
    fun other kept => ⟨kept.1, kept.2.trans (or_iff_left other).symm⟩
  have untouched : ∀ {s'' : Following}, Inv newV5 strategy positions s'' ∧ s''.oms = s.oms →
      Inv newV5 strategy positions s'' ∧ (Lost s''.oms ↔ Lost s.oms) :=
    fun kept => ⟨kept.1, by rw [kept.2]⟩
  cases a with
  | trade t =>
    obtain ⟨venue, traded, rfl⟩ := Option.map_eq_some_iff.mp took
    obtain ⟨ledger, grown⟩ := ledger_trade distinct inv.ledger traded
    refine elsewhere id ⟨?_, .rfl⟩
    refine inv_onward inv ledger ?_ (onward_refl _)
    rw [grown]
    exact List.subset_append_left _ _
  | close closing =>
    obtain ⟨venue, closed, rfl⟩ := Option.map_eq_some_iff.mp took
    have same : venue.trades = s.venue.trades := by
      unfold Venue.close at closed
      split at closed <;> cases closed
      rfl
    refine elsewhere id ⟨?_, .rfl⟩
    refine inv_onward inv ?_ (same ▸ List.Subset.refl _) (onward_refl _)
    rw [same]
    exact inv.ledger
  | deliver i =>
    obtain ⟨t, happened, rfl⟩ := Option.map_eq_some_iff.mp took
    refine elsewhere id ⟨⟨inv.ledger, ?_, inv.job, inv.finished, inv.asks⟩, .rfl⟩
    intro fill queued
    rcases List.mem_append.mp queued with old | new
    · exact inv.inbox fill old
    · cases List.mem_singleton.mp new
      exact ⟨t, List.mem_of_getElem? happened, .inl rfl⟩
  | connect =>
    cases took
    refine elsewhere id ⟨⟨inv.ledger, ?_, inv.job, inv.finished, inv.asks⟩, .rfl⟩
    intro fill queued
    rcases List.mem_append.mp queued with old | new
    · exact inv.inbox fill old
    · cases List.mem_singleton.mp new
  | take opened seen nowMs => exact elsewhere id (untouched (take_keeps inv took))
  | call a => exact elsewhere id (call_keeps inv took)
  | readPage =>
    refine elsewhere id (untouched (between_keeps inv took ?_))
    intro gap job kept changed
    obtain ⟨gap', read, rfl⟩ := Option.map_eq_some_iff.mp changed
    exact read_page_keeps inv kept read
  | pageFailed =>
    refine elsewhere id (untouched (between_keeps inv took ?_))
    intro gap job kept changed
    obtain ⟨gap', failed, rfl⟩ := Option.map_eq_some_iff.mp changed
    exact page_failed_keeps kept failed
  | nextFill =>
    refine elsewhere id (untouched (between_keeps inv took ?_))
    intro gap job kept changed
    obtain ⟨⟨fill, gap'⟩, taken, rfl⟩ := Option.map_eq_some_iff.mp changed
    exact next_fill_keeps kept taken
  | endPage =>
    refine elsewhere id (untouched (between_keeps inv took ?_))
    intro gap job kept changed
    obtain ⟨gap', ended, rfl⟩ := Option.map_eq_some_iff.mp changed
    exact end_page_keeps kept ended
  | finish => exact elsewhere id (untouched (finish_keeps inv took))
  | engine metadata =>
    obtain ⟨oms, booked, rfl⟩ := Option.map_eq_some_iff.mp took
    obtain ⟨ledger, onward, lost⟩ := ledger_engine inv.ledger booked
    refine ⟨inv_onward inv ledger (List.Subset.refl _) onward, lost.trans (or_congr_right ?_)⟩
    unfold ClosesOpenTrade
    cases queue : s.oms.queue with
    | nil => simp
    | cons ev rest => simp
  | list orderId brokerOpen => exact elsewhere id (untouched (list_keeps inv took))
  | ask i => exact elsewhere id (untouched (ask_keeps inv took))
  | sendAnswer i => exact elsewhere id (send_answer_keeps inv took)
  | drop i =>
    cases took
    refine elsewhere id ⟨⟨inv.ledger, inv.inbox, inv.job, inv.finished, ?_⟩, .rfl⟩
    exact fun ask member => inv.asks ask (List.mem_of_mem_eraseIdx member)
  | crash =>
    cases took
    refine elsewhere id ⟨⟨crash_ledger inv.ledger, ?_, trivial, ?_, ?_⟩, .rfl⟩
    · intro fill queued
      cases queued
    · intro gap finished
      cases finished
    · intro ask asked
      cases asked

theorem settled_order {s : Following} (inv : Inv newV5 strategy positions s) (settled : Settled s)
    {t : VenueTrade} (there : t ∈ s.venue.trades) :
    ∃ order, s.oms.orders.find (idOf newV5 strategy t) = some order ∧
      OrderOf newV5 strategy t order ∧ (FilledBy t.toExternalFill order ∨ Shut order) := by
  obtain ⟨empty, filled⟩ := settled
  obtain ⟨gap, finished, clean, due⟩ := filled t there
  obtain ⟨order, found, done | coming⟩ := inv.finished gap finished clean t due
  · have orderOf := ledger_order inv.ledger there found
    exact ⟨order, found, orderOf, orderOf.stage.resolve_left done⟩
  · rw [empty] at coming
    cases coming

theorem settled_moved_once {s : Following} (inv : Inv newV5 strategy positions s)
    (settled : Settled s) : MovedOnce newV5 strategy positions s ↔ ¬ Lost s.oms := by
  constructor
  · rintro once ⟨order, member, shut⟩
    obtain ⟨t, there, orderOf⟩ := inv.ledger.orders order member
    obtain ⟨only, single, _, _, filled⟩ := once.once t there
    have own : order ∈ s.oms.orders.rows.filter (·.row.orderId = idOf newV5 strategy t) :=
      List.mem_filter.mpr ⟨member, by simpa using orderOf.is.id⟩
    rw [single] at own
    cases List.mem_singleton.mp own
    exact shut.2.1 filled.1
  · intro kept
    have booked : ∀ t ∈ s.venue.trades, ∃ order,
        s.oms.orders.find (idOf newV5 strategy t) = some order ∧
          OrderOf newV5 strategy t order ∧ FilledBy t.toExternalFill order := by
      intro t there
      obtain ⟨order, found, orderOf, filled | shut⟩ := settled_order inv settled there
      · exact ⟨order, found, orderOf, filled⟩
      · exact absurd ⟨order, (find_some.mp found).1, shut⟩ kept
    refine ⟨?_, ?_⟩
    · intro t there
      obtain ⟨order, found, orderOf, filled⟩ := booked t there
      exact ⟨order, filter_key found, orderOf.is.side, orderOf.is.instrument, filled⟩
    · intro instrument
      rw [inv.ledger.moved instrument, signedTrades]
      congr 2
      refine List.map_congr_left fun t there => ?_
      obtain ⟨order, found, _, filled⟩ := booked t there
      simp [bookedOf, found, filled.2.1]

/-- In every state of every run where a gap fill has since brought every trade and
    the queue is empty, each trade has one order, filled by exactly this trade, and
    the positions have moved by the signed trades, if and only if the engine never
    let a venue answer close an order that still waited for its fill. -/
theorem followed_trades_once_iff (distinct : Function.Injective newV5) (as : List Action)
    (s : Following) (reached : run (step newV5 strategy) (.start positions) as = some s)
    (settled : Settled s) :
    MovedOnce newV5 strategy positions s ↔
      Along (step newV5 strategy) (fun s a => ¬ ClosesOpenTrade s a) (.start positions) as := by
  have keeps : ∀ s a t, Inv newV5 strategy positions s → step newV5 strategy s a = some t →
      Inv newV5 strategy positions t := fun _ _ _ inv took => (step_keeps distinct inv took).1
  have inv := throughout_end (throughout_keeps keeps start_inv as) s reached
  have marked := @marked_iff_along _ _ (step newV5 strategy) (fun s a => ¬ ClosesOpenTrade s a)
    (Inv newV5 strategy positions) (fun s => Lost s.oms) keeps
    (fun s a t inv took => (step_keeps distinct inv took).2.trans
      (or_congr_right not_not.symm)) _ _ _ start_inv reached
  have none_lost : ¬ Lost (Following.start positions).oms := by
    rintro ⟨order, member, _⟩
    cases member
  rw [settled_moved_once inv settled, marked, or_iff_right none_lost, not_not]

instance (s : Following) : Decidable (Settled s) := by
  unfold Settled
  infer_instance

instance (s : Following) (a : Action) : Decidable (ClosesOpenTrade s a) := by
  unfold ClosesOpenTrade
  split
  · split
    · rename_i ev _ _
      cases found : s.oms.orders.find ev.orderId with
      | none => exact isFalse (by simp)
      | some order => exact decidable_of_iff (ClosesUnfilled order ev) (by simp)
    · exact isFalse id
  · exact isFalse id

/-- The strategy of the concrete runs. Its pairs are their own instruments. -/
def mm1 : Followed :=
  { code := "mm1"
    portfolioId := "p1"
    account := "a1"
    connection := "paper"
    followSince := none
    catalog := ⟨fun symbol => symbol, fun instrument => instrument, fun _ => rfl⟩ }

/-- The hash of the two names of the concrete runs; the other ids do not matter. -/
def idsOfTwo : Equiv.Perm String :=
  (Equiv.swap "mm1:BTCUSDT:1" "767a36e0-ca2a-57b4-9049-46702dc264f2").trans
    (Equiv.swap "mm1:BTCUSDT:2" "b8ba9344-e09d-54a8-8dda-3b2f470fc9e6")

abbrev demo := step idsOfTwo mm1

def boughtThree : VenueTrade := ⟨⟨1, "9", "mm1-q-1", "BTCUSDT", true, 3, 100⟩, 5⟩

def boughtFour : VenueTrade := ⟨⟨2, "9", "mm1-q-1", "BTCUSDT", true, 4, 101⟩, 6⟩

def stamp : EventMetadata := ⟨"e1", 0, "colo:mm1"⟩

def create : Action := .call (.create stamp stamp 0 true)

def gapBegins : List Action :=
  [.connect, .take ["BTCUSDT"] [] 10, .readPage, .nextFill, .call .read]

/-- The process ends between an order's creation and its fill; a reconcile pass
    then asks the venue about the order, and the engine books the answer. -/
def crashAndAsk : List Action :=
  [create, .crash, .list (idsOfTwo "mm1:BTCUSDT:1") [], .ask 0, .sendAnswer 0, .engine stamp]

/-- Two trades of one venue order, canceled with seven executed. -/
def sharedOrderRun : List Action :=
  [.trade boughtThree, .trade boughtFour, .close ⟨"BTCUSDT", "9", .canceled⟩] ++ gapBegins ++
    crashAndAsk ++ gapBegins ++ [.call .send, .nextFill, .call .read, create, .call .send,
      .endPage, .finish, .engine stamp, .engine stamp]

/-- The answer closes the first trade's order unfilled, and no gap fill books the
    trade again: the position is at four of seven. -/
theorem shared_order_trade_lost : ∃ s, run demo (.start fun _ => none) sharedOrderRun = some s ∧
    Settled s ∧ ¬ MovedOnce idsOfTwo mm1 (fun _ => none) s := by
  have ends : (run demo (.start fun _ => none) sharedOrderRun).map (fun s =>
      (decide (Settled s), positionQty (s.oms.positions "BTCUSDT"),
        signedTrades mm1 "BTCUSDT" s.venue.trades)) = some (true, 4, 7) := by decide +kernel
  obtain ⟨s, reached, parts⟩ := Option.map_eq_some_iff.mp ends
  simp only [Prod.mk.injEq, decide_eq_true_eq] at parts
  obtain ⟨settled, position, trades⟩ := parts
  refine ⟨s, reached, settled, fun once => ?_⟩
  have moved := once.moved "BTCUSDT"
  rw [position, trades] at moved
  exact absurd moved (by decide +kernel)

/-- One trade alone in its order: the answer is its fill, and a fill sent again
    and the trade delivered again change nothing. -/
def ownOrderRun : List Action :=
  [.trade boughtThree, .close ⟨"BTCUSDT", "9", .canceled⟩] ++ gapBegins ++ crashAndAsk ++
    gapBegins ++ [.endPage, .finish, .deliver 0, .take [] [] 11, .call .read]

theorem own_order_trade_kept : ∃ s, run demo (.start fun _ => none) ownOrderRun = some s ∧
    MovedOnce idsOfTwo mm1 (fun _ => none) s := by
  have ends : (run demo (.start fun _ => none) ownOrderRun).map (fun s => decide (Settled s)) =
      some true := by decide +kernel
  obtain ⟨s, reached, settled⟩ := Option.map_eq_some_iff.mp ends
  exact ⟨s, reached, (followed_trades_once_iff idsOfTwo.injective ownOrderRun s reached
    (of_decide_eq_true settled)).mpr (by decide +kernel)⟩

end OmsFollowedTrades
