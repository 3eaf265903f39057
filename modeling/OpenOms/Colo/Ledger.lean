import OpenOms.Library.Lists
import OpenOms.Colo.Follow

/-!
The books of a followed account against the trades that have happened: each
order is one trade's and waits, is filled by exactly this trade, or was shut
without it; the positions have moved by what the orders say. What each
transaction and each event keep of that is shown here.
-/
namespace OmsLedger
open OmsOrders OmsAggregate OmsPositions OmsOrderStore OmsGateway OmsReconOrders OmsReconQueries
open OmsOrderEngine OmsRiskEngine OmsScope OmsBooking OmsFollow Keyed

variable (newV5 : String → String) (strategy : Followed)

def idOf (t : VenueTrade) : String := orderIdOf newV5 strategy t.toExternalFill

def Brings (fill : ExternalFill) (t : VenueTrade) : Prop :=
  fill = t.toExternalFill ∨ fill = t.fromHistory

structure OrderOf (t : VenueTrade) (order : StoredOrder) : Prop where
  is : OrderFor strategy (idOf newV5 strategy t) t.toExternalFill order
  stage : Waiting order ∨ FilledBy t.toExternalFill order ∨ Shut order

def EventOf (t : VenueTrade) (ev : ExecEvent) : Prop :=
  ev = fillEvent (idOf newV5 strategy t) t.toExternalFill ∨
    ev.orderId = idOf newV5 strategy t ∧ ∃ st, ev.kind = .terminal st ∧ t.qty ≤ st.executedQty ∧
      (st.executedQty = t.qty → st.avgPx = t.price)

def HasOrder (oms : Oms) (t : VenueTrade) : Prop :=
  (oms.orders.find (idOf newV5 strategy t)).isSome = true

def Brought (oms : Oms) (t : VenueTrade) : Prop :=
  ∃ order, oms.orders.find (idOf newV5 strategy t) = some order ∧
    (¬ Waiting order ∨ fillEvent (idOf newV5 strategy t) t.toExternalFill ∈ oms.queue)

def bookedOf (oms : Oms) (instrument : String) (t : VenueTrade) : ℚ :=
  if strategy.catalog.instrumentId t.symbol = instrument then
    t.side.signed (((oms.orders.find (idOf newV5 strategy t)).map (·.row.cumQty)).getD 0)
  else 0

structure Ledger (positions : String → Option PositionMath) (trades : List VenueTrade)
    (oms : Oms) : Prop where
  valid : ∀ t ∈ trades, 0 < t.qty ∧ 0 < t.price
  ids : (trades.map (idOf newV5 strategy)).Nodup
  orders : ∀ order ∈ oms.orders.rows, ∃ t ∈ trades, OrderOf newV5 strategy t order
  events : ∀ ev ∈ oms.queue, ∃ t ∈ trades, HasOrder newV5 strategy oms t ∧
    EventOf newV5 strategy t ev
  moved : ∀ instrument, positionQty (oms.positions instrument) =
    positionQty (positions instrument) +
      (trades.map (bookedOf newV5 strategy oms instrument)).sum

structure Onward (oms oms' : Oms) : Prop where
  has : ∀ t, HasOrder newV5 strategy oms t → HasOrder newV5 strategy oms' t
  brought : ∀ t, Brought newV5 strategy oms t → Brought newV5 strategy oms' t

def CallKept (trades : List VenueTrade) (oms : Oms) (call : BookCall) : Prop :=
  ∃ t ∈ trades, Brings call.fill t ∧ (call.stage = .sending → HasOrder newV5 strategy oms t)

def Leaves (trades : List VenueTrade) (oms : Oms) (fill : ExternalFill) : Progress → Prop
  | .goes call => call.fill = fill ∧ CallKept newV5 strategy trades oms call
  | .returned => ∀ t, Brings fill t → Brought newV5 strategy oms t
  | .failed => True

def Lost (oms : Oms) : Prop := ∃ order ∈ oms.orders.rows, Shut order

structure Stepped (positions : String → Option PositionMath) (trades : List VenueTrade)
    (oms oms' : Oms) (fill : ExternalFill) (progress : Progress) : Prop where
  ledger : Ledger newV5 strategy positions trades oms'
  onward : Onward newV5 strategy oms oms'
  lost : Lost oms' ↔ Lost oms
  leaves : Leaves newV5 strategy trades oms' fill progress

variable {newV5 strategy} {positions : String → Option PositionMath}

theorem brings_id {fill : ExternalFill} {t : VenueTrade} (brings : Brings fill t) :
    orderIdOf newV5 strategy fill = idOf newV5 strategy t := by
  rcases brings with rfl | rfl <;> rfl

theorem brings_event {fill : ExternalFill} {t : VenueTrade} (brings : Brings fill t) :
    fillEvent (orderIdOf newV5 strategy fill) fill =
      fillEvent (idOf newV5 strategy t) t.toExternalFill := by
  rcases brings with rfl | rfl <;> rfl

theorem brings_order {fill : ExternalFill} {t : VenueTrade} (brings : Brings fill t)
    {order : StoredOrder} (is : OrderFor strategy (orderIdOf newV5 strategy fill) fill order) :
    OrderFor strategy (idOf newV5 strategy t) t.toExternalFill order := by
  rcases brings with rfl | rfl
  · exact is
  · exact ⟨is.sound, is.id, is.side, is.instrument, is.quantity, is.venueId⟩

theorem onward_refl (oms : Oms) : Onward newV5 strategy oms oms :=
  ⟨fun _ => id, fun _ => id⟩

theorem ledger_order {trades : List VenueTrade} {oms : Oms}
    (ledger : Ledger newV5 strategy positions trades oms) {t : VenueTrade} (there : t ∈ trades)
    {order : StoredOrder} (found : oms.orders.find (idOf newV5 strategy t) = some order) :
    OrderOf newV5 strategy t order := by
  obtain ⟨member, id⟩ := find_some.mp found
  obtain ⟨t', there', orderOf⟩ := ledger.orders order member
  have same : idOf newV5 strategy t' = idOf newV5 strategy t := orderOf.is.id.symm.trans id
  rwa [← List.inj_on_of_nodup_map ledger.ids there' there same]

theorem ledger_insert {trades : List VenueTrade} {oms : Oms}
    (ledger : Ledger newV5 strategy positions trades oms) {t : VenueTrade} (there : t ∈ trades)
    (absent : oms.orders.find (idOf newV5 strategy t) = none) {order : StoredOrder}
    (is : OrderFor strategy (idOf newV5 strategy t) t.toExternalFill order)
    (waiting : Waiting order) :
    Ledger newV5 strategy positions trades { oms with orders := oms.orders.insert order } ∧
      Onward newV5 strategy oms { oms with orders := oms.orders.insert order } ∧
      HasOrder newV5 strategy { oms with orders := oms.orders.insert order } t ∧
      (Lost { oms with orders := oms.orders.insert order } ↔ Lost oms) := by
  have keeps : ∀ id found, oms.orders.find id = some found →
      (oms.orders.insert order).find id = some found := by
    intro id found stored
    rw [find_insert, if_neg (by simp [stored]), stored]
  have onward : Onward newV5 strategy oms { oms with orders := oms.orders.insert order } := by
    refine ⟨?_, ?_⟩
    · intro t' has
      obtain ⟨found, stored⟩ := Option.isSome_iff_exists.mp has
      rw [HasOrder, keeps _ _ stored]
      rfl
    · rintro t' ⟨found, stored, on⟩
      exact ⟨found, keeps _ _ stored, on⟩
  refine ⟨⟨ledger.valid, ledger.ids, ?_, ?_, ?_⟩, onward, ?_, ?_⟩
  · intro order' member
    rcases mem_insert.mp member with old | ⟨rfl, _⟩
    · exact ledger.orders order' old
    · exact ⟨t, there, is, .inl waiting⟩
  · intro ev queued
    obtain ⟨t', there', has, event⟩ := ledger.events ev queued
    exact ⟨t', there', onward.has t' has, event⟩
  · intro instrument
    rw [ledger.moved instrument]
    congr 2
    refine List.map_congr_left fun t' _ => ?_
    simp only [bookedOf, find_insert, is.id]
    by_cases new : idOf newV5 strategy t' = idOf newV5 strategy t ∧
        oms.orders.find (idOf newV5 strategy t') = none
    · simp [new.1, absent, waiting.2]
    · rw [if_neg new]
  · rw [HasOrder, find_insert, if_pos ⟨is.id.symm, absent⟩]
    rfl
  · constructor
    · rintro ⟨order', member, shut⟩
      rcases mem_insert.mp member with old | ⟨rfl, _⟩
      · exact ⟨order', old, shut⟩
      · exact absurd waiting (closed_not_waiting shut.1)
    · rintro ⟨order', member, shut⟩
      exact ⟨order', mem_insert.mpr (.inl member), shut⟩

theorem ledger_push {trades : List VenueTrade} {oms : Oms}
    (ledger : Ledger newV5 strategy positions trades oms) {t : VenueTrade} (there : t ∈ trades)
    (has : HasOrder newV5 strategy oms t) {ev : ExecEvent} (event : EventOf newV5 strategy t ev) :
    Ledger newV5 strategy positions trades { oms with queue := oms.queue ++ [ev] } ∧
      Onward newV5 strategy oms { oms with queue := oms.queue ++ [ev] } := by
  refine ⟨⟨ledger.valid, ledger.ids, ledger.orders, ?_, ledger.moved⟩, fun _ => id, ?_⟩
  · intro ev' queued
    rcases List.mem_append.mp queued with old | new
    · exact ledger.events ev' old
    · cases List.mem_singleton.mp new
      exact ⟨t, there, has, event⟩
  · rintro t' ⟨order, found, done | coming⟩
    · exact ⟨order, found, .inl done⟩
    · exact ⟨order, found, .inr (List.mem_append_left _ coming)⟩

theorem signed_zero (side : OrderSide) : side.signed 0 = 0 := by
  cases side <;> simp [OrderSide.signed]

/-- Whatever booking makes of the order, it stays the trade's, and the position
    moves by what the order's filled quantity does. -/
theorem books_order {t : VenueTrade} {order : StoredOrder} {position : Option PositionMath}
    {db : OrderDb} (orderOf : OrderOf newV5 strategy t order)
    (books : Books strategy (idOf newV5 strategy t) t.toExternalFill order position db) :
    OrderOf newV5 strategy t (order.of db) ∧
      positionQty db.position = positionQty position +
        (t.side.signed (order.of db).row.cumQty - t.side.signed order.row.cumQty) ∧
      (¬ Waiting order → ¬ Waiting (order.of db)) := by
  cases books with
  | idle =>
    refine ⟨orderOf, ?_, id⟩
    simp [StoredOrder.of, StoredOrder.db]
  | filled waiting is done moved =>
    refine ⟨⟨is, .inr (.inl done)⟩, ?_, fun closed => absurd waiting closed⟩
    rw [moved, done.2.1, waiting.2, signed_zero, sub_zero]
  | shut waiting is done kept =>
    refine ⟨⟨is, .inr (.inr done)⟩, ?_, fun closed => absurd waiting closed⟩
    rw [kept, done.2.2, waiting.2, sub_self, add_zero]

theorem ledger_put {trades : List VenueTrade} {oms : Oms}
    (ledger : Ledger newV5 strategy positions trades oms) {t : VenueTrade} (there : t ∈ trades)
    {order : StoredOrder} (found : oms.orders.find (idOf newV5 strategy t) = some order)
    {db : OrderDb} (books : Books strategy (idOf newV5 strategy t) t.toExternalFill order
      (oms.positions order.row.instrumentId) db)
    {ev : ExecEvent} {rest : List ExecEvent} (queue : oms.queue = ev :: rest)
    (own : ev.orderId = idOf newV5 strategy t)
    (takes : (∃ id qty price, ev.kind = .fill id qty price) → ¬ Waiting (order.of db)) :
    let oms' : Oms :=
      { orders := oms.orders.put (order.of db)
        positions := Function.update oms.positions order.row.instrumentId db.position
        queue := rest }
    Ledger newV5 strategy positions trades oms' ∧ Onward newV5 strategy oms oms' := by
  intro oms'
  have orderOf := ledger_order ledger there found
  obtain ⟨orderOf', position, stays⟩ := books_order orderOf books
  have id' : (order.of db).row.orderId = idOf newV5 strategy t := orderOf'.is.id
  have stored : ∀ id, oms'.orders.find id =
      if id = idOf newV5 strategy t then some (order.of db) else oms.orders.find id := by
    intro id
    change (oms.orders.put (order.of db)).find id = _
    rw [find_put (by rw [id', found]; rfl), id']
  have onward : Onward newV5 strategy oms oms' := by
    refine ⟨?_, ?_⟩
    · intro t' has
      rw [HasOrder, stored]
      split
      · rfl
      · exact has
    · rintro t' ⟨order', found', on⟩
      by_cases same : idOf newV5 strategy t' = idOf newV5 strategy t
      · rw [same, found] at found'
        cases found'
        refine ⟨order.of db, by rw [stored, if_pos same], ?_⟩
        rcases on with done | coming
        · exact .inl (stays done)
        · rw [queue] at coming
          rcases List.mem_cons.mp coming with head | later
          · exact .inl (takes ⟨_, _, _, by rw [← head]; rfl⟩)
          · exact .inr later
      · refine ⟨order', by rw [stored, if_neg same, found'], ?_⟩
        rcases on with done | coming
        · exact .inl done
        · rw [queue] at coming
          rcases List.mem_cons.mp coming with head | later
          · rw [← head] at own
            exact absurd own same
          · exact .inr later
  refine ⟨⟨ledger.valid, ledger.ids, ?_, ?_, ?_⟩, onward⟩
  · intro order' member
    rcases (mem_put (by rw [id', found]; rfl)).mp member with rfl | ⟨old, _⟩
    · exact ⟨t, there, orderOf'⟩
    · exact ledger.orders order' old
  · intro ev' queued
    obtain ⟨t', there', has, event⟩ := ledger.events ev' (by rw [queue]; exact .tail _ queued)
    exact ⟨t', there', onward.has t' has, event⟩
  · intro instrument
    have others : ∀ t' ∈ trades, t' ≠ t →
        bookedOf newV5 strategy oms' instrument t' = bookedOf newV5 strategy oms instrument t' := by
      intro t' there' differ
      have away : idOf newV5 strategy t' ≠ idOf newV5 strategy t :=
        fun same => differ (List.inj_on_of_nodup_map ledger.ids there' there same)
      rw [bookedOf, stored, if_neg away, bookedOf]
    rw [Lists.sum_map_one ledger.ids.of_map there others, ← add_assoc, ← ledger.moved instrument]
    simp only [bookedOf, stored, if_true, found, Option.map_some, Option.getD_some, oms']
    rw [← orderOf.is.instrument]
    by_cases here : order.row.instrumentId = instrument
    · subst here
      simp [position]
    · simp [here, Function.update_of_ne (Ne.symm here)]

theorem ledger_engine {trades : List VenueTrade} {oms oms' : Oms}
    (ledger : Ledger newV5 strategy positions trades oms) {metadata : EventMetadata}
    (booked : engineStep oms metadata = some oms') :
    Ledger newV5 strategy positions trades oms' ∧ Onward newV5 strategy oms oms' ∧
      (Lost oms' ↔ Lost oms ∨ ∃ ev rest, oms.queue = ev :: rest ∧
        ∃ order ∈ oms.orders.find ev.orderId, ClosesUnfilled order ev) := by
  unfold engineStep at booked
  split at booked
  · cases booked
  rename_i ev rest queue
  obtain ⟨t, there, has, event⟩ := ledger.events ev (by rw [queue]; exact .head _)
  have own : ev.orderId = idOf newV5 strategy t := by
    rcases event with rfl | ⟨same, _⟩
    · rfl
    · exact same
  obtain ⟨order, found⟩ := Option.isSome_iff_exists.mp has
  have orderOf := ledger_order ledger there found
  obtain ⟨sized, priced⟩ := ledger.valid t there
  have staged : Waiting order ∨ order.row.status.isTerminal = true := by
    rcases orderOf.stage with waiting | filled | shut
    · exact .inl waiting
    · exact .inr (filled_closed filled)
    · exact .inr shut.1
  rw [own, found] at booked
  simp only [Option.some.injEq] at booked
  let db := applyExec [] ev metadata (order.db (oms.positions order.row.instrumentId))
  have done : Books strategy (idOf newV5 strategy t) t.toExternalFill order
        (oms.positions order.row.instrumentId) db ∧
      ((∃ id qty price, ev.kind = .fill id qty price) → ¬ Waiting (order.of db)) ∧
      (Shut (order.of db) ↔ Shut order ∨ ClosesUnfilled order ev) := by
    rcases event with rfl | ⟨_, st, answer, covers, alone⟩
    · obtain ⟨books, taken, shuts⟩ := fill_event_books orderOf.is sized priced staged metadata
        (oms.positions order.row.instrumentId)
      refine ⟨books, fun _ => taken, shuts.trans ?_⟩
      simp [ClosesUnfilled, fillEvent]
    · obtain ⟨books, shuts⟩ := answer_books orderOf.is sized priced staged answer covers alone
        metadata (oms.positions order.row.instrumentId)
      refine ⟨books, ?_, shuts⟩
      rintro ⟨id, qty, price, fill⟩
      rw [answer] at fill
      cases fill
  obtain ⟨books, takes, shuts⟩ := done
  obtain ⟨ledger', onward⟩ := ledger_put ledger there found books queue own takes
  obtain ⟨orderOf', _⟩ := books_order orderOf books
  rw [← booked]
  refine ⟨ledger', onward, ?_⟩
  have member : ∀ order', order' ∈ (oms.orders.put (order.of db)).rows ↔
      order' = order.of db ∨ order' ∈ oms.orders.rows ∧ order' ≠ order := by
    intro order'
    have id' : (order.of db).row.orderId = order.row.orderId :=
      orderOf'.is.id.trans orderOf.is.id.symm
    rw [mem_put (by rw [id', orderOf.is.id, found]; rfl), id']
    refine or_congr_right (and_congr_right fun inside => ?_)
    refine ⟨fun differ same => differ (by rw [same]), fun differ same => differ ?_⟩
    exact row_unique _ inside (find_some.mp found).1 same
  constructor
  · rintro ⟨order', inside, shut⟩
    rcases (member order').mp inside with rfl | ⟨old, _⟩
    · rcases shuts.mp shut with before | closes
      · exact .inl ⟨order, (find_some.mp found).1, before⟩
      · exact .inr ⟨ev, rest, queue, order, by rw [own, found]; rfl, closes⟩
    · exact .inl ⟨order', old, shut⟩
  · rintro (⟨order', old, shut⟩ | ⟨ev', rest', queue', order', found', closes⟩)
    · by_cases same : order' = order
      · subst same
        exact ⟨_, (member _).mpr (.inl rfl), shuts.mpr (.inl shut)⟩
      · exact ⟨order', (member _).mpr (.inr ⟨old, same⟩), shut⟩
    · rw [queue] at queue'
      cases queue'
      rw [own, found] at found'
      cases found'
      exact ⟨_, (member _).mpr (.inl rfl), shuts.mpr (.inr closes)⟩

theorem trade_ids_distinct {trades : List VenueTrade} {oms : Oms}
    (ledger : Ledger newV5 strategy positions trades oms) (symbol : String) :
    ((trades.filter fun t => t.symbol = symbol).map (·.tradeId)).Nodup := by
  have ids := ledger.ids.sublist
    (List.Sublist.map (idOf newV5 strategy) (List.filter_sublist (p := fun t => t.symbol = symbol)))
  have numbered : (trades.filter fun t => t.symbol = symbol).map (idOf newV5 strategy) =
      ((trades.filter fun t => t.symbol = symbol).map (·.tradeId)).map
        (externalOrderId newV5 strategy.code symbol) := by
    rw [List.map_map]
    refine List.map_congr_left fun t member => ?_
    have here : t.symbol = symbol := by simpa using (List.mem_filter.mp member).2
    simp [idOf, orderIdOf, here]
  rw [numbered] at ids
  exact ids.of_map

theorem working_order_of {t : VenueTrade} {order : StoredOrder}
    (orderOf : OrderOf newV5 strategy t order) {listed : OmsWorkingOrder}
    (works : workingOrder strategy order = some listed) :
    listed.orderId = idOf newV5 strategy t ∧ listed.symbol = t.symbol ∧
      listed.extId = t.venueOrderId := by
  unfold workingOrder at works
  split at works
  · obtain ⟨ext, named, rfl⟩ := Option.map_eq_some_iff.mp works
    refine ⟨orderOf.is.id, ?_, ?_⟩
    · simp only [orderOf.is.instrument]
      exact strategy.catalog.mapped t.symbol
    · rw [workingId, orderOf.is.venueId] at named
      cases (Option.filter_eq_some_iff.mp named).1
      rfl
  · cases works

theorem id_tells (distinct : Function.Injective newV5) {t t' : VenueTrade}
    (same : idOf newV5 strategy t = idOf newV5 strategy t') :
    t.symbol = t'.symbol ∧ t.tradeId = t'.tradeId :=
  external_name_injective (distinct same)

theorem ledger_trade (distinct : Function.Injective newV5) {venue venue' : Venue} {oms : Oms}
    (ledger : Ledger newV5 strategy positions venue.trades oms) {t : VenueTrade}
    (traded : venue.trade t = some venue') :
    Ledger newV5 strategy positions venue'.trades oms ∧ venue'.trades = venue.trades ++ [t] := by
  unfold Venue.trade at traded
  split at traded
  · rename_i valid
    obtain ⟨sized, priced, _, fresh⟩ := valid
    cases traded
    have away : ∀ t' ∈ venue.trades, idOf newV5 strategy t' ≠ idOf newV5 strategy t := by
      intro t' there same
      exact fresh t' there (id_tells distinct same)
    have none_yet : oms.orders.find (idOf newV5 strategy t) = none := by
      refine find_none.mpr fun order member same => ?_
      obtain ⟨t', there, orderOf⟩ := ledger.orders order member
      exact away t' there (orderOf.is.id.symm.trans same)
    refine ⟨⟨?_, ?_, ?_, ?_, ?_⟩, rfl⟩
    · intro t' member
      rcases List.mem_append.mp member with old | new
      · exact ledger.valid t' old
      · cases List.mem_singleton.mp new
        exact ⟨sized, priced⟩
    · rw [List.map_append, List.nodup_append]
      refine ⟨ledger.ids, List.nodup_singleton _, ?_⟩
      intro id old id' new
      obtain ⟨t', there, rfl⟩ := List.mem_map.mp old
      cases List.mem_singleton.mp new
      exact away t' there
    · intro order member
      obtain ⟨t', there, orderOf⟩ := ledger.orders order member
      exact ⟨t', List.mem_append_left _ there, orderOf⟩
    · intro ev queued
      obtain ⟨t', there, rest⟩ := ledger.events ev queued
      exact ⟨t', List.mem_append_left _ there, rest⟩
    · intro instrument
      rw [ledger.moved instrument, List.map_append, List.sum_append]
      simp [bookedOf, none_yet, signed_zero]
  · cases traded

theorem existing_order_cases (cumQty : Option ℚ) :
    (existingOrder cumQty = .missing ∧ cumQty = none) ∨
      (existingOrder cumQty = .needsFill ∧ ∃ q, cumQty = some q) ∨
        existingOrder cumQty = .booked ∧ ∃ q, cumQty = some q ∧ 0 < q := by
  cases cumQty with
  | none => exact .inl ⟨rfl, rfl⟩
  | some q =>
    by_cases unfilled : q ≤ 0
    · exact .inr (.inl ⟨by simp [existingOrder, unfilled], q, rfl⟩)
    · exact .inr (.inr ⟨by simp [existingOrder, unfilled], q, rfl, not_le.mp unfilled⟩)

theorem call_idle {trades : List VenueTrade} {oms : Oms}
    (ledger : Ledger newV5 strategy positions trades oms) {fill : ExternalFill}
    {progress : Progress} (leaves : Leaves newV5 strategy trades oms fill progress) :
    Stepped newV5 strategy positions trades oms oms fill progress :=
  ⟨ledger, onward_refl _, .rfl, leaves⟩

/-- The SELECT tells a trade that is booked from one whose fill is to be sent and
    from one without an order. -/
theorem call_reads {trades : List VenueTrade} {oms oms' : Oms}
    (ledger : Ledger newV5 strategy positions trades oms) {call : BookCall} {t : VenueTrade}
    (there : t ∈ trades) (brings : Brings call.fill t) {progress : Progress}
    (took : callStep newV5 strategy oms call .read = some (progress, oms')) :
    Stepped newV5 strategy positions trades oms oms' call.fill progress := by
  have own : orderIdOf newV5 strategy call.fill = idOf newV5 strategy t := brings_id brings
  simp only [callStep, own] at took
  split at took
  · rcases existing_order_cases ((oms.orders.find (idOf newV5 strategy t)).map
      (·.row.cumQty)) with ⟨is, absent⟩ | ⟨is, q, stored⟩ | ⟨is, q, stored, positive⟩
    · rw [is] at took
      cases took
      refine call_idle ledger ⟨rfl, t, there, brings, ?_⟩
      intro sending
      cases sending
    · rw [is] at took
      cases took
      refine call_idle ledger ⟨rfl, t, there, brings, fun _ => ?_⟩
      obtain ⟨order, found, _⟩ := Option.map_eq_some_iff.mp stored
      rw [HasOrder, found]
      rfl
    · rw [is] at took
      cases took
      refine call_idle ledger fun t' brings' => ?_
      obtain ⟨order, found, rfl⟩ := Option.map_eq_some_iff.mp stored
      refine ⟨order, ?_, .inl fun waiting => positive.ne' waiting.2⟩
      rw [← brings_id brings', own, found]
  · cases took

theorem call_creates {trades : List VenueTrade} {oms oms' : Oms}
    (ledger : Ledger newV5 strategy positions trades oms) {call : BookCall} {t : VenueTrade}
    (there : t ∈ trades) (brings : Brings call.fill t) {submitted routed : EventMetadata}
    {createdAt : Nat} {answered : Bool} {progress : Progress}
    (took : callStep newV5 strategy oms call (.create submitted routed createdAt answered) =
      some (progress, oms')) :
    Stepped newV5 strategy positions trades oms oms' call.fill progress := by
  have own : orderIdOf newV5 strategy call.fill = idOf newV5 strategy t := brings_id brings
  simp only [callStep, own] at took
  split at took
  · split at took
    · cases took
      exact call_idle ledger trivial
    · rename_i absent
      obtain ⟨sized, priced⟩ := ledger.valid t there
      have valid : 0 < call.fill.qty ∧ 0 < call.fill.price := by
        rcases brings with same | same <;> rw [same] <;> exact ⟨sized, priced⟩
      obtain ⟨order, inserted, is, waiting⟩ := @insert_external_opens strategy
        (idOf newV5 strategy t) call.fill valid.1 valid.2 submitted routed createdAt
      rw [← own] at is
      obtain ⟨ledger', onward, has, lost⟩ :=
        ledger_insert ledger there absent (brings_order brings is) waiting
      simp only [inserted, StoredOrder.db] at took
      cases answered with
      | true =>
        cases took
        exact ⟨ledger', onward, lost, rfl, t, there, brings, fun _ => has⟩
      | false =>
        cases took
        exact ⟨ledger', onward, lost, trivial⟩
  · cases took

theorem call_sends {trades : List VenueTrade} {oms oms' : Oms}
    (ledger : Ledger newV5 strategy positions trades oms) {call : BookCall} {t : VenueTrade}
    (there : t ∈ trades) (brings : Brings call.fill t)
    (ordered : call.stage = .sending → HasOrder newV5 strategy oms t) {progress : Progress}
    (took : callStep newV5 strategy oms call .send = some (progress, oms')) :
    Stepped newV5 strategy positions trades oms oms' call.fill progress := by
  simp only [callStep] at took
  split at took
  · rename_i sending
    cases took
    have event : EventOf newV5 strategy t
        (fillEvent (orderIdOf newV5 strategy call.fill) call.fill) := .inl (brings_event brings)
    obtain ⟨ledger', onward⟩ := ledger_push ledger there (ordered sending) event
    refine ⟨ledger', onward, .rfl, fun t' brings' => ?_⟩
    obtain ⟨order, found⟩ := Option.isSome_iff_exists.mp (ordered sending)
    refine ⟨order, ?_, .inr ?_⟩
    · rw [← brings_id brings', brings_id brings]
      exact found
    · rw [brings_event brings']
      exact List.mem_append_right _ (List.mem_singleton_self _)
  · cases took

theorem ledger_call {trades : List VenueTrade} {oms oms' : Oms}
    (ledger : Ledger newV5 strategy positions trades oms) {call : BookCall}
    (kept : CallKept newV5 strategy trades oms call) {a : CallAction} {progress : Progress}
    (took : callStep newV5 strategy oms call a = some (progress, oms')) :
    Stepped newV5 strategy positions trades oms oms' call.fill progress := by
  obtain ⟨t, there, brings, ordered⟩ := kept
  cases a with
  | read => exact call_reads ledger there brings took
  | create submitted routed createdAt answered => exact call_creates ledger there brings took
  | send => exact call_sends ledger there brings ordered took
  | fail =>
    simp only [callStep] at took
    split at took <;> cases took
    exact call_idle ledger trivial

end OmsLedger
