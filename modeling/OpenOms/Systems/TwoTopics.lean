import OpenOms.Connectors.Bybit
import OpenOms.OrderEngine
import Mathlib.Algebra.Order.BigOperators.Group.List

/-!
Bybit tells an order's executions on one topic and its close on another, and the
two come in any order. The close carries the totals: what it overtook it books
itself, and the executions that come after it find a closed order.
-/
namespace OmsTwoTopics
open OmsOrders OmsAggregate OmsOrderStore OmsExecution OmsOrderEntry OmsOrderWrites
open OmsGateway OmsReconOrders OmsOrderEngine OmsBybit

structure Trade where
  id : String
  qty : ℚ
  price : ℚ
  sized : EPS < qty
  priced : 0 < price
  deriving Repr

def executed (trades : List Trade) : ℚ := (trades.map (·.qty)).sum

def notional (trades : List Trade) : ℚ := (trades.map fun t => t.qty * t.price).sum

def average (trades : List Trade) : ℚ := notional trades / executed trades

/-- What Bybit did with one order, and the status it closed it with, if it did. -/
structure Course where
  original : ℚ
  trades : List Trade
  room : executed trades ≤ original
  close : Option String
  closes : ∀ status ∈ close, status ∈ terminalStatuses

def pushed (msgs : List Message) : List (Option String × Entry) :=
  msgs.flatMap fun msg => msg.data.map fun d => (msg.topic, d)

def IsTrade (orderId : String) (push : Option String × Entry) : Prop :=
  topicIs push.1 "execution" = true ∧ push.2.orderLinkId = some orderId ∧
    push.2.execType = some "Trade"

instance (orderId : String) : DecidablePred (IsTrade orderId) := fun push => by
  unfold IsTrade
  infer_instance

def IsClose (orderId : String) (push : Option String × Entry) : Prop :=
  topicIs push.1 "order" = true ∧ push.2.orderLinkId = some orderId ∧
    push.2.orderStatus.getD "" ∈ terminalStatuses

instance (orderId : String) : DecidablePred (IsClose orderId) := fun push => by
  unfold IsClose
  infer_instance

/-- The messages tell of the order its executions, in their order, and its close
    with the final totals. What else they tell, and how the two topics mix, is open. -/
structure Tells (course : Course) (orderId : String) (msgs : List Message) : Prop where
  trades : ((pushed msgs).filter (IsTrade orderId)).map
      (fun push => (push.2.execId, push.2.execQty, push.2.execPrice)) =
    course.trades.map fun t => (some t.id, some t.qty, some t.price)
  close : ((pushed msgs).filter (IsClose orderId)).map
      (fun push => (push.2.orderStatus.getD "", push.2.cumExecQty.getD 0,
        push.2.avgPrice.getD 0)) =
    course.close.toList.map fun status =>
      (status, executed course.trades, average course.trades)

def eventsOf (orderId : String) (msgs : List Message) : List ExecEvent :=
  ((msgs.flatMap reports).filter fun told => told.1 = orderId).map fun told =>
    execEvent told.1 told.2

def bookEvents (metadata : EventMetadata) (db : OrderDb) (events : List ExecEvent) : OrderDb :=
  events.foldl (fun db ev => applyExec [] ev metadata db) db

def Trade.event (orderId : String) (t : Trade) : ExecEvent :=
  execEvent orderId (.report (.fill t.id t.qty t.price VENUE))

def Trade.execution (t : Trade) : Execution := ⟨t.id, t.qty, t.price⟩

def overtaken (orderId : String) (later : List Trade) : List Execution :=
  if later = [] then [] else [⟨s!"recon-{orderId}", executed later, average later⟩]

def eventOf (orderId : String) (push : Option String × Entry) : Option ExecEvent :=
  if push.2.orderLinkId = some orderId then
    (entryUpdate push.1 push.2).map (execEvent orderId)
  else none

theorem events_of_pushed (orderId : String) (msgs : List Message) :
    eventsOf orderId msgs = (pushed msgs).filterMap (eventOf orderId) := by
  have entries : ∀ topic (data : List Entry),
      ((reports ⟨topic, data⟩).filter fun told => told.1 = orderId).map
          (fun told => execEvent told.1 told.2) =
        (data.map fun d => (topic, d)).filterMap (eventOf orderId) := by
    intro topic data
    simp only [reports]
    induction data with
    | nil => rfl
    | cons d data ih =>
      rw [List.map_cons, List.filterMap_cons, List.filterMap_cons, ← ih]
      cases named : d.orderLinkId with
      | none => simp [eventOf, named]
      | some id =>
        cases told : entryUpdate topic d with
        | none => simp [eventOf, named, told]
        | some update =>
          by_cases own : id = orderId
          · simp [eventOf, named, told, own]
          · simp [eventOf, named, own]
  induction msgs with
  | nil => rfl
  | cons msg msgs ih =>
    simp only [eventsOf, pushed, List.flatMap_cons, List.filter_append, List.map_append,
      List.filterMap_append] at ih ⊢
    rw [ih, entries msg.topic msg.data]

theorem event_of_trade {orderId : String} {push : Option String × Entry}
    (trade : IsTrade orderId push) {t : Trade}
    (carries : (push.2.execId, push.2.execQty, push.2.execPrice) =
      (some t.id, some t.qty, some t.price)) :
    eventOf orderId push = some (t.event orderId) := by
  obtain ⟨topic, own, kind⟩ := trade
  simp only [Prod.mk.injEq] at carries
  simp [eventOf, own, entryUpdate, topic, executionUpdate, kind, carries, Trade.event]

theorem event_of_other {orderId : String} {push : Option String × Entry}
    (notTrade : ¬ IsTrade orderId push) (notClose : ¬ IsClose orderId push) :
    eventOf orderId push = none := by
  unfold eventOf
  split
  · rename_i own
    rw [Option.map_eq_none_iff]
    unfold entryUpdate
    split
    · rename_i executes
      have kind : push.2.execType ≠ some "Trade" := fun kind => notTrade ⟨executes, own, kind⟩
      simp [executionUpdate, kind]
    · split
      · rename_i orders
        have live : push.2.orderStatus.getD "" ∉ terminalStatuses :=
          fun closes => notClose ⟨orders, own, closes⟩
        cases told : push.2.orderStatus with
        | none => simp [orderUpdate, told]
        | some status =>
          simp only [told, Option.getD_some, terminalStatuses, List.mem_cons, List.not_mem_nil,
            or_false, not_or] at live
          simp [orderUpdate, told, terminalStatuses, live]
      · rfl
  · rfl

inductive Closing (orderId status : String) (qty avg : ℚ) : ExecEvent → Prop where
  | totals (some_ : 0 < qty) :
      Closing orderId status qty avg (execEvent orderId (.terminal ⟨orderOutcome status, qty, avg⟩))
  | canceled (none_ : ¬ 0 < qty) (reason : Option String) :
      Closing orderId status qty avg (execEvent orderId (.report (.canceled reason (some VENUE))))
  | rejected (none_ : ¬ 0 < qty) (reason : String) :
      Closing orderId status qty avg (execEvent orderId (.report (.reject reason (some VENUE))))

theorem event_of_close {orderId : String} {push : Option String × Entry}
    (close : IsClose orderId push) {status : String} {qty avg : ℚ}
    (carries : (push.2.orderStatus.getD "", push.2.cumExecQty.getD 0, push.2.avgPrice.getD 0) =
      (status, qty, avg)) :
    ∃ ev, eventOf orderId push = some ev ∧ Closing orderId status qty avg ev := by
  obtain ⟨orders, own, closes⟩ := close
  have notExecution : topicIs push.1 "execution" = false := by
    by_contra executes
    rw [Bool.not_eq_false] at executes
    cases (topics_apart executes).symm.trans orders
  cases told : push.2.orderStatus with
  | none =>
    rw [told] at closes
    simp [terminalStatuses] at closes
  | some named =>
    simp only [told, Option.getD_some, Prod.mk.injEq] at carries closes
    obtain ⟨rfl, rfl, rfl⟩ := carries
    simp only [eventOf, own, if_true, entryUpdate, notExecution, Bool.false_eq_true, if_false,
      orders, orderUpdate, told, Option.bind_eq_bind, Option.bind_some, closes, true_and, gt_iff_lt]
    by_cases some_ : 0 < push.2.cumExecQty.getD 0
    · refine ⟨_, by rw [if_pos some_]; rfl, ?_⟩
      have totals : Closing orderId named _ (push.2.avgPrice.getD 0) _ := .totals some_
      simpa [parseOrderState, told] using totals
    · rw [if_neg some_]
      simp only [terminalStatuses, List.mem_cons, List.not_mem_nil, or_false] at closes
      split
      · exact ⟨_, rfl, .canceled some_ _⟩
      · rename_i notCanceled
        have rejects : named = "Rejected" := by
          simp only [List.mem_cons, List.not_mem_nil, or_false, not_or] at notCanceled
          tauto
        rw [if_pos rejects]
        exact ⟨_, rfl, .rejected some_ _⟩

theorem events_of_trades {orderId : String} {pushes : List (Option String × Entry)}
    (noClose : ∀ push ∈ pushes, ¬ IsClose orderId push) : ∀ {trades : List Trade},
    (pushes.filter (IsTrade orderId)).map
        (fun push => (push.2.execId, push.2.execQty, push.2.execPrice)) =
      trades.map (fun t => (some t.id, some t.qty, some t.price)) →
    pushes.filterMap (eventOf orderId) = trades.map (Trade.event orderId) := by
  induction pushes with
  | nil =>
    intro trades told
    have none_ : trades = [] := by simpa using told.symm
    rw [none_]
    rfl
  | cons push pushes ih =>
    intro trades told
    obtain ⟨first, rest⟩ := List.forall_mem_cons.mp noClose
    by_cases trade : IsTrade orderId push
    · rw [List.filter_cons_of_pos (by simpa using trade), List.map_cons] at told
      cases trades with
      | nil => cases told
      | cons t trades =>
        obtain ⟨carries, told⟩ := List.cons.inj told
        rw [List.filterMap_cons_some (event_of_trade trade carries), ih rest told]
        rfl
    · rw [List.filter_cons_of_neg (by simpa using trade)] at told
      rw [List.filterMap_cons_none (event_of_other trade first)]
      exact ih rest told

theorem events_merge {course : Course} {orderId : String} {msgs : List Message}
    (tells : Tells course orderId msgs) :
    (course.close = none ∧ eventsOf orderId msgs = course.trades.map (Trade.event orderId)) ∨
      ∃ status ev before later, course.close = some status ∧ course.trades = before ++ later ∧
        Closing orderId status (executed course.trades) (average course.trades) ev ∧
        eventsOf orderId msgs =
          before.map (Trade.event orderId) ++ ev :: later.map (Trade.event orderId) := by
  rw [events_of_pushed]
  have closes := tells.close
  cases named : course.close with
  | none =>
    left
    simp only [named, Option.toList_none, List.map_nil, List.map_eq_nil_iff,
      List.filter_eq_nil_iff, decide_eq_true_eq] at closes
    exact ⟨rfl, events_of_trades closes tells.trades⟩
  | some status =>
    right
    simp only [named, Option.toList_some, List.map_cons, List.map_nil, List.map_eq_singleton_iff]
      at closes
    obtain ⟨push, only, carries⟩ := closes
    obtain ⟨early, late, split, none_early, isClose, none_late⟩ := List.filter_eq_cons_iff.mp only
    simp only [decide_eq_true_eq] at none_early isClose
    simp only [List.filter_eq_nil_iff, decide_eq_true_eq] at none_late
    have notTrade : ¬ IsTrade orderId push := fun trade => by
      cases (topics_apart trade.1).symm.trans isClose.1
    have trades := tells.trades
    rw [split, List.filter_append, List.filter_cons_of_neg (by simpa using notTrade),
      List.map_append, eq_comm, List.map_eq_append_iff] at trades
    obtain ⟨before, later, parts, first, second⟩ := trades
    obtain ⟨ev, told, closing⟩ := event_of_close isClose carries
    refine ⟨status, ev, before, later, rfl, parts, closing, ?_⟩
    rw [split, List.filterMap_append, List.filterMap_cons_some told,
      events_of_trades none_early first.symm, events_of_trades none_late second.symm]

theorem executed_append (early late : List Trade) :
    executed (early ++ late) = executed early + executed late := by
  simp [executed]

theorem notional_append (early late : List Trade) :
    notional (early ++ late) = notional early + notional late := by
  simp [notional]

theorem executed_nonneg (trades : List Trade) : 0 ≤ executed trades := by
  refine List.sum_nonneg fun qty member => ?_
  obtain ⟨t, _, rfl⟩ := List.mem_map.mp member
  exact (lt_trans eps_positive t.sized).le

theorem executed_more {trades : List Trade} (some_ : trades ≠ []) : EPS < executed trades := by
  obtain ⟨t, rest, rfl⟩ := List.exists_cons_of_ne_nil some_
  have rest_nonneg := executed_nonneg rest
  have sized := t.sized
  simp only [executed, List.map_cons, List.sum_cons] at rest_nonneg ⊢
  linarith

theorem notional_positive {trades : List Trade} (some_ : trades ≠ []) : 0 < notional trades := by
  obtain ⟨t, rest, rfl⟩ := List.exists_cons_of_ne_nil some_
  have first : 0 < t.qty * t.price := mul_pos (lt_trans eps_positive t.sized) t.priced
  have rest_nonneg : 0 ≤ notional rest := by
    refine List.sum_nonneg fun value member => ?_
    obtain ⟨u, _, rfl⟩ := List.mem_map.mp member
    exact (mul_pos (lt_trans eps_positive u.sized) u.priced).le
  simp only [notional, List.map_cons, List.sum_cons] at rest_nonneg ⊢
  linarith

theorem average_notional {trades : List Trade} (some_ : trades ≠ []) :
    average trades * executed trades = notional trades :=
  div_mul_cancel₀ _ (lt_trans eps_positive (executed_more some_)).ne'

structure Stands (original : ℚ) (done : List Trade) (row : OrderRow) : Prop where
  original : row.originalQty = original
  cum : row.cumQty = executed done
  avg : row.avgPx = if done = [] then none else some (average done)

theorem filled_stands {original : ℚ} {done all : List Trade} {row : OrderRow}
    (stands : Stands original done row) (some_ : all ≠ []) {id venue : String} {qty price : ℚ}
    (reaches : executed all = executed done + qty)
    (costs : notional all = notional done + qty * price) :
    Stands original all (reportedRow row (.fill id qty price venue)) := by
  refine ⟨stands.original, ?_, ?_⟩
  · rw [reaches, ← stands.cum]
    rfl
  · have before : row.cumQty * row.avgPx.getD 0 = notional done := by
      rw [stands.cum, stands.avg]
      split
      · rename_i nothing
        simp [nothing, executed, notional]
      · rename_i begun
        rw [Option.getD_some, mul_comm, average_notional begun]
    rw [if_neg some_, average, reaches, costs, ← before, ← stands.cum]
    rfl

theorem book_trade {original : ℚ} {done : List Trade} {db : OrderDb} {row : OrderRow}
    (reached : Reached db) (stored : db.row = some row) (isOpen : row.status.isTerminal = false)
    (stands : Stands original done row) {t : Trade} (room : executed (done ++ [t]) ≤ original)
    (metadata : EventMetadata) :
    ∃ row', Reached (applyExec [] (t.event row.orderId) metadata db) ∧
      (applyExec [] (t.event row.orderId) metadata db).row = some row' ∧
      row'.orderId = row.orderId ∧ Stands original (done ++ [t]) row' ∧
      (row'.status.isTerminal = true ↔ original ≤ executed (done ++ [t])) ∧
      booked (applyExec [] (t.event row.orderId) metadata db) = booked db ++ [t.execution] := by
  have whole : executed (done ++ [t]) = executed done + t.qty := by
    rw [executed_append]
    simp [executed]
  have cost : notional (done ++ [t]) = notional done + t.qty * t.price := by
    rw [notional_append]
    simp [notional]
  have fits : ReportFits row.toOrderAggregateState (.fill t.id t.qty t.price VENUE) := by
    refine ⟨lt_trans eps_positive t.sized, t.priced, ?_⟩
    rw [stands.cum, stands.original, ← whole]
    exact room
  have run : applyExec [] (t.event row.orderId) metadata db =
      bookReport [] (.fill t.id t.qty t.price VENUE) metadata db :=
    apply_exec_row stored [] _ metadata
  obtain ⟨next, row'⟩ := book_fitting reached stored isOpen fits metadata
  rw [run]
  refine ⟨_, next, row', rfl, filled_stands stands (by simp) whole cost, ?_,
    book_fitting_booked reached stored isOpen fits metadata⟩
  rw [fill_closes_iff, stands.original, stands.cum, whole]

theorem book_trades {original : ℚ} (metadata : EventMetadata) (more : List Trade)
    {done : List Trade} {db : OrderDb} {row : OrderRow} (reached : Reached db)
    (stored : db.row = some row) (stands : Stands original done row)
    (closes : row.status.isTerminal = true ↔ original ≤ executed done)
    (room : executed (done ++ more) ≤ original) :
    ∃ row', Reached (bookEvents metadata db (more.map (Trade.event row.orderId))) ∧
      (bookEvents metadata db (more.map (Trade.event row.orderId))).row = some row' ∧
      row'.orderId = row.orderId ∧ Stands original (done ++ more) row' ∧
      (row'.status.isTerminal = true ↔ original ≤ executed (done ++ more)) ∧
      booked (bookEvents metadata db (more.map (Trade.event row.orderId))) =
        booked db ++ more.map Trade.execution := by
  induction more generalizing done db row with
  | nil =>
    rw [List.append_nil]
    exact ⟨row, reached, stored, rfl, stands, closes, by simp [bookEvents]⟩
  | cons t more ih =>
    have split : done ++ t :: more = (done ++ [t]) ++ more := by simp
    rw [split] at room ⊢
    have rest_nonneg := executed_nonneg more
    have sized := lt_trans eps_positive t.sized
    have whole : executed (done ++ [t]) = executed done + t.qty := by
      rw [executed_append]
      simp [executed]
    rw [executed_append] at room
    have isOpen : row.status.isTerminal = false := by
      rw [← Bool.not_eq_true, closes]
      linarith
    obtain ⟨row', reached', stored', same, stands', closes', first⟩ :=
      book_trade reached stored isOpen stands (by linarith) metadata
    obtain ⟨row'', reached'', stored'', same', stands'', closes'', rest⟩ :=
      ih reached' stored' stands' closes' (by rwa [executed_append])
    rw [same] at reached'' stored'' same' rest
    refine ⟨row'', reached'', stored'', same', stands'', closes'', ?_⟩
    change booked (bookEvents metadata (applyExec [] (t.event row.orderId) metadata db)
      (more.map (Trade.event row.orderId))) = _
    rw [rest, first]
    simp

theorem events_closed {db : OrderDb} {row : OrderRow} (stored : db.row = some row)
    (closed : row.status.isTerminal = true) (metadata : EventMetadata) (events : List ExecEvent) :
    bookEvents metadata db events = db := by
  induction events with
  | nil => rfl
  | cons ev events ih =>
    simp only [bookEvents, List.foldl_cons, apply_exec_closed stored closed] at ih ⊢
    exact ih

theorem book_end {original : ℚ} {done : List Trade} {db : OrderDb} {row : OrderRow}
    (reached : Reached db) (stored : db.row = some row) (stands : Stands original done row)
    {report : ExecutionReport}
    (ends : (∃ reason venue, report = .canceled reason venue) ∨
      ∃ reason venue, report = .reject reason venue) (metadata : EventMetadata) :
    ∃ row', (bookReport [] report metadata db).row = some row' ∧ Stands original done row' ∧
      row'.status.isTerminal = true ∧ booked (bookReport [] report metadata db) = booked db := by
  cases closed : row.status.isTerminal with
  | true =>
    rw [book_report_closed stored closed]
    exact ⟨row, stored, stands, closed, rfl⟩
  | false =>
    have fits : ReportFits row.toOrderAggregateState report := by
      rcases ends with ⟨reason, venue, rfl⟩ | ⟨reason, venue, rfl⟩ <;> trivial
    obtain ⟨_, row'⟩ := book_fitting reached stored closed fits metadata
    have logs := book_fitting_booked reached stored closed fits metadata
    refine ⟨_, row', ?_, ?_, ?_⟩
    · rcases ends with ⟨reason, venue, rfl⟩ | ⟨reason, venue, rfl⟩ <;>
        exact ⟨stands.original, stands.cum, stands.avg⟩
    · rcases ends with ⟨reason, venue, rfl⟩ | ⟨reason, venue, rfl⟩ <;> rfl
    · rw [logs]
      rcases ends with ⟨reason, venue, rfl⟩ | ⟨reason, venue, rfl⟩ <;> simp [OrderCommand.execution]

theorem overtaken_price {before later : List Trade} (some_ : later ≠ []) :
    incrementPrice (executed before) (if before = [] then none else some (average before))
        (executed (before ++ later)) (average (before ++ later)) = average later := by
  have all_some : before ++ later ≠ [] := by simp [some_]
  have more : executed (before ++ later) - executed before = executed later := by
    rw [executed_append]
    ring
  by_cases begun : before = []
  · subst begun
    simp only [List.nil_append, if_true]
    exact increment_price_first (executed later) (average later) none
  · have less : average before * executed before <
        average (before ++ later) * executed (before ++ later) := by
      rw [average_notional begun, average_notional all_some, notional_append]
      linarith [notional_positive some_]
    have sized : EPS < executed later := executed_more some_
    have sized' : executed (before ++ later) - executed before > EPS := by
      rw [more]
      exact sized
    obtain ⟨_, total⟩ := increment_price_exact (executed_more begun) sized' less
    have nonzero : executed later ≠ 0 := (lt_trans eps_positive sized).ne'
    rw [if_neg begun, show average later = notional later / executed later from rfl,
      eq_div_iff nonzero]
    rw [more, mul_comm (executed before), average_notional begun,
      mul_comm (executed (before ++ later)), average_notional all_some, notional_append] at total
    linarith

theorem closing_report {status : String} (closes : status ∈ terminalStatuses) :
    ∃ close, closingReports (orderOutcome status) VENUE = [close] ∧
      ((∃ reason venue, close = .canceled reason venue) ∨
        ∃ reason venue, close = .reject reason venue) := by
  rcases terminal_outcome closes with outcome | outcome <;> rw [outcome]
  · exact ⟨_, rfl, .inl ⟨_, _, rfl⟩⟩
  · exact ⟨_, rfl, .inr ⟨_, _, rfl⟩⟩

theorem none_executed {before later : List Trade} (none_ : ¬ 0 < executed (before ++ later)) :
    before = [] ∧ later = [] := by
  refine List.append_eq_nil_iff.mp ?_
  by_contra some_
  exact none_ (lt_trans eps_positive (executed_more some_))

theorem book_overtaken (orderId : String) {original : ℚ} {before later : List Trade}
    (room : executed (before ++ later) ≤ original) (some_ : later ≠ []) {db : OrderDb}
    {row : OrderRow} (reached : Reached db) (stored : db.row = some row)
    (stands : Stands original before row)
    (shut : row.status.isTerminal = true ↔ original ≤ executed before) (metadata : EventMetadata)
    {fill : ExecutionReport}
    (is : fill = .fill s!"recon-{orderId}" (executed later) (average later) VENUE) :
    Reached (bookReport [] fill metadata db) ∧
      (bookReport [] fill metadata db).row = some (reportedRow row fill) ∧
      Stands original (before ++ later) (reportedRow row fill) ∧
      booked (bookReport [] fill metadata db) = booked db ++ overtaken orderId later := by
  subst is
  have sized := executed_more some_
  have eps := eps_positive
  have more := executed_append before later
  have isOpen : row.status.isTerminal = false := by
    rw [← Bool.not_eq_true, shut]
    linarith
  have fits : ReportFits row.toOrderAggregateState
      (.fill s!"recon-{orderId}" (executed later) (average later) VENUE) := by
    refine ⟨by linarith, div_pos (notional_positive some_) (by linarith), ?_⟩
    rw [stands.cum, stands.original]
    linarith
  obtain ⟨next, row'⟩ := book_fitting reached stored isOpen fits metadata
  refine ⟨next, row', ?_, ?_⟩
  · refine filled_stands stands (by simp [some_]) more ?_
    rw [notional_append, mul_comm, average_notional some_]
  · rw [book_fitting_booked reached stored isOpen fits metadata, overtaken, if_neg some_]
    rfl

theorem book_close {orderId status : String} (closes : status ∈ terminalStatuses)
    {original : ℚ} {before later : List Trade} (room : executed (before ++ later) ≤ original)
    {ev : ExecEvent}
    (closing : Closing orderId status (executed (before ++ later)) (average (before ++ later)) ev)
    {db : OrderDb} {row : OrderRow} (reached : Reached db) (stored : db.row = some row)
    (stands : Stands original before row)
    (shut : row.status.isTerminal = true ↔ original ≤ executed before) (metadata : EventMetadata) :
    ∃ row', (applyExec [] ev metadata db).row = some row' ∧
      Stands original (before ++ later) row' ∧ row'.status.isTerminal = true ∧
      booked (applyExec [] ev metadata db) = booked db ++ overtaken orderId later := by
  rw [apply_exec_row stored]
  cases closing with
  | totals some_ =>
    obtain ⟨close, ending, ends⟩ := closing_report closes
    have more : executed (before ++ later) - executed before = executed later := by
      rw [executed_append]
      ring
    by_cases all_ : later = []
    · subst all_
      have nothing : missingQty (executed before) (executed (before ++ [])) = none := by
        rw [missing_qty_none, more]
        exact eps_positive.le
      simp only [reportsFor, execEvent, stands.cum, nothing, Option.map_none, Option.toList_none,
        List.nil_append, ending, bookReports]
      simpa [overtaken] using book_end reached stored stands ends metadata
    · have missing : missingQty (executed before) (executed (before ++ later)) =
          some (executed later) :=
        missing_qty_some.mpr ⟨by rw [more]; exact executed_more all_, more.symm⟩
      obtain ⟨next, row', filled, logs⟩ :=
        book_overtaken orderId room all_ reached stored stands shut metadata rfl
      obtain ⟨row'', stored'', stands'', closed, same⟩ := book_end next row' filled ends metadata
      simp only [reportsFor, execEvent, stands.cum, stands.avg, missing, overtaken_price all_,
        Option.map_some, Option.toList_some, List.cons_append, List.nil_append, ending, bookReports]
      refine ⟨row'', stored'', stands'', closed, ?_⟩
      simp only [List.headD_nil, List.tail_nil] at same ⊢
      rw [same, logs]
  | canceled none_ reason =>
    obtain ⟨rfl, rfl⟩ := none_executed none_
    simpa [reportsFor, execEvent, ExecEvent.fromReport, bookReports, overtaken] using
      book_end reached stored stands (.inl ⟨reason, some VENUE, rfl⟩) metadata
  | rejected none_ reason =>
    obtain ⟨rfl, rfl⟩ := none_executed none_
    simpa [reportsFor, execEvent, ExecEvent.fromReport, bookReports, overtaken] using
      book_end reached stored stands (.inr ⟨reason, some VENUE, rfl⟩) metadata

/-- However the two topics mix, the order ends with what the venue executed, at
    its average, each execution booked once: those before the close as they came,
    those it overtook in one fill of its own. It is closed if the venue closed or
    filled it. -/
theorem two_topics_book_once (course : Course) (metadata : EventMetadata) {db : OrderDb}
    (reached : Reached db) {row : OrderRow} (stored : db.row = some row)
    (isOpen : row.status.isTerminal = false) (unfilled : row.cumQty = 0)
    (unpriced : row.avgPx = none) (original : row.originalQty = course.original)
    {msgs : List Message} (tells : Tells course row.orderId msgs) :
    let after := bookEvents metadata db (eventsOf row.orderId msgs)
    ∃ row', after.row = some row' ∧ row'.cumQty = executed course.trades ∧
      (course.trades ≠ [] → row'.avgPx = some (average course.trades)) ∧
      (∃ before later, course.trades = before ++ later ∧
        booked after = booked db ++ before.map Trade.execution ++ overtaken row.orderId later) ∧
      (course.close.isSome ∨ executed course.trades = course.original →
        row'.status.isTerminal = true) := by
  intro after
  have start : Stands course.original [] row :=
    ⟨original, by simpa [executed] using unfilled, unpriced⟩
  have shut : row.status.isTerminal = true ↔ course.original ≤ executed [] := by
    have room := (reached_lively reached row stored).room isOpen
    rw [isOpen, ← original]
    simp only [executed, List.map_nil, List.sum_nil, Bool.false_eq_true, false_iff, not_le]
    linarith
  rcases events_merge tells with
    ⟨none_, events⟩ | ⟨status, ev, before, later, some_, parts, closing, events⟩
  · obtain ⟨row', _, stored', _, stands, closes, once⟩ :=
      book_trades metadata course.trades reached stored start shut course.room
    simp only [after, events]
    refine ⟨row', stored', stands.cum, fun traded => ?_, ⟨course.trades, [], by simp, ?_⟩, ?_⟩
    · rw [stands.avg, List.nil_append, if_neg traded]
    · rw [once]
      simp [overtaken]
    · rintro (closed | full)
      · simp [none_] at closed
      · exact closes.mpr full.ge
  · have room := course.room
    rw [parts] at room closing
    have rest_nonneg := executed_nonneg later
    obtain ⟨row', reached', stored', _, stands, closes, first⟩ :=
      book_trades metadata before reached stored start shut
        (by rw [executed_append] at room; rw [List.nil_append]; linarith)
    obtain ⟨row'', stored'', stands'', closed, last⟩ :=
      book_close (course.closes status some_) room closing reached' stored' stands closes metadata
    have ends : after = applyExec [] ev metadata
        (bookEvents metadata db (before.map (Trade.event row.orderId))) := by
      simp only [after, events, bookEvents, List.foldl_append, List.foldl_cons]
      exact events_closed stored'' closed metadata _
    rw [ends, parts]
    refine ⟨row'', stored'', stands''.cum, fun traded => ?_, ⟨before, later, rfl, ?_⟩,
      fun _ => closed⟩
    · rw [stands''.avg, if_neg traded]
    · rw [last, first]

def eightThenCanceled : Course where
  original := 10
  trades := [⟨"x1", 6, 100, by decide +kernel, by decide +kernel⟩,
    ⟨"x2", 2, 104, by decide +kernel, by decide +kernel⟩]
  room := by decide +kernel
  close := some "Cancelled"
  closes := by decide +kernel

def tradeEntry (id : String) (qty price : ℚ) : Entry :=
  ⟨some "o1", some "Trade", some id, some qty, some price, none, none, none, none⟩

def overtakingMessages : List Message :=
  [⟨some "execution.linear", [tradeEntry "x1" 6 100]⟩,
    ⟨some "order", [⟨some "o1", none, none, none, none, some "Cancelled", some 8, some 101, none⟩]⟩,
    ⟨some "execution.linear", [tradeEntry "x2" 2 104]⟩]

theorem eight_booked_once :
    ∃ row', (bookEvents stamp boughtTen (eventsOf "o1" overtakingMessages)).row = some row' ∧
      row'.cumQty = 8 ∧ row'.avgPx = some 101 ∧ row'.status.isTerminal = true := by
  have tells : Tells eightThenCanceled boughtRow.orderId overtakingMessages :=
    ⟨by decide +kernel, by decide +kernel⟩
  obtain ⟨row', stored, cum, avg, _, closed⟩ := two_topics_book_once eightThenCanceled stamp
    bought_ten_reached bought_ten_row rfl rfl rfl rfl tells
  refine ⟨row', stored, ?_, ?_, closed (.inl rfl)⟩
  · rw [cum]
    decide +kernel
  · rw [avg (by decide +kernel)]
    decide +kernel

end OmsTwoTopics
