import OpenOms.OrderEngine

/-!
Quantities off by no more than the tolerance. `missing_qty` takes such a
difference for nothing, `decide` does not: an order closes as filled only on the
exact quantity.
-/
namespace OmsRounding
open OmsOrders OmsAggregate OmsOrderStore OmsExecution OmsOrderEntry OmsOrderWrites
open OmsGateway OmsReconOrders OmsOrderEngine

def Filled (db : OrderDb) : Prop := ∃ row ∈ db.row, row.status = .filled

instance (db : OrderDb) : Decidable (Filled db) := by
  unfold Filled
  infer_instance

def Near (a b : ℚ) : Prop := |a - b| ≤ EPS

instance (a b : ℚ) : Decidable (Near a b) := by
  unfold Near
  infer_instance

structure LiveFill where
  executionId : String
  qty : ℚ
  price : ℚ
  deriving DecidableEq, Repr

def LiveFill.event (fill : LiveFill) (sender : Sender) : ExecEvent :=
  sender.event .session (.fill fill.executionId fill.qty fill.price)

def bookFill (sender : Sender) (db : OrderDb) (fill : LiveFill) : OrderDb :=
  applyExec [] (fill.event sender) sender.metadata db

def Covers (left : ℚ) (fill : LiveFill) : Prop := 0 < fill.qty ∧ 0 < fill.price ∧ fill.qty ≤ left

instance (left : ℚ) (fill : LiveFill) : Decidable (Covers left fill) := by
  unfold Covers
  infer_instance

def taken (left : ℚ) : List LiveFill → ℚ
  | [] => 0
  | fill :: fills =>
    if Covers left fill then fill.qty + taken (left - fill.qty) fills else taken left fills

@[simp] theorem taken_nothing_left (fills : List LiveFill) : taken 0 fills = 0 := by
  induction fills with
  | nil => rfl
  | cons fill fills ih =>
    have uncovered : ¬ Covers 0 fill := fun covers => absurd covers.2.2 (not_le.mpr covers.1)
    rw [taken, if_neg uncovered, ih]

theorem book_fill_report (sender : Sender) (fill : LiveFill) {db : OrderDb} {row : OrderRow}
    (stored : db.row = some row) : bookFill sender db fill =
      bookReport [] (.fill fill.executionId fill.qty fill.price sender.venue) sender.metadata db :=
  apply_exec_row stored [] _ sender.metadata

theorem fill_fits_iff (row : OrderRow) (fill : LiveFill) (venue : String) :
    ReportFits row.toOrderAggregateState (.fill fill.executionId fill.qty fill.price venue) ↔
      Covers (row.originalQty - row.cumQty) fill := by
  simp only [ReportFits, Covers, le_sub_iff_add_le']

theorem closed_keeps (sender : Sender) {db : OrderDb} {row : OrderRow} (stored : db.row = some row)
    (closed : row.status.isTerminal = true) (fills : List LiveFill) :
    fills.foldl (bookFill sender) db = db := by
  induction fills with
  | nil => rfl
  | cons fill fills ih =>
    have same : bookFill sender db fill = db := apply_exec_closed stored closed _ _ _
    rw [List.foldl_cons, same, ih]

theorem fills_fill_iff (sender : Sender) (fills : List LiveFill) {db : OrderDb}
    (reached : Reached db) {row : OrderRow} (stored : db.row = some row)
    (isOpen : row.status.isTerminal = false) :
    Filled (fills.foldl (bookFill sender) db) ↔
      taken (row.originalQty - row.cumQty) fills = row.originalQty - row.cumQty := by
  induction fills generalizing db row with
  | nil =>
    have left := (reached_lively reached row stored).room isOpen
    have unfilled : row.status ≠ .filled := by
      rintro filled
      rw [filled] at isOpen
      cases isOpen
    simp only [List.foldl_nil, Filled, stored, Option.mem_some_iff, exists_eq_left', unfilled,
      taken, false_iff]
    linarith
  | cons fill fills ih =>
    rw [List.foldl_cons, book_fill_report sender fill stored, taken]
    by_cases covers : Covers (row.originalQty - row.cumQty) fill
    · have fits := (fill_fits_iff row fill sender.venue).mpr covers
      obtain ⟨next, row'⟩ := book_fitting reached stored isOpen fits sender.metadata
      have left : row.originalQty - (row.cumQty + fill.qty) =
          row.originalQty - row.cumQty - fill.qty := by ring
      rw [if_pos covers]
      by_cases whole : row.originalQty ≤ row.cumQty + fill.qty
      · have closed := (fill_closes_iff row fill.executionId fill.qty fill.price sender.venue).mpr
          whole
        have filled : (reportedRow row
            (.fill fill.executionId fill.qty fill.price sender.venue)).status = .filled :=
          if_neg (by linarith)
        have nothing : row.originalQty - row.cumQty - fill.qty = 0 := by
          linarith [covers.2.2]
        rw [closed_keeps sender row' closed, nothing, taken_nothing_left]
        simp only [Filled, row', Option.mem_some_iff, exists_eq_left', filled, true_iff]
        linarith
      · have isOpen' : (reportedRow row
            (.fill fill.executionId fill.qty fill.price sender.venue)).status.isTerminal =
              false := by
          rw [← Bool.not_eq_true, fill_closes_iff]
          exact whole
        rw [ih next row' isOpen']
        change taken (row.originalQty - (row.cumQty + fill.qty)) fills =
          row.originalQty - (row.cumQty + fill.qty) ↔ _
        rw [left]
        constructor <;> intro same <;> linarith
    · rw [book_report_misfit stored isOpen (fun fits => covers ((fill_fits_iff ..).mp fits)),
        if_neg covers]
      exact ih reached stored isOpen

theorem terminal_fills_iff {db : OrderDb} (reached : Reached db) {row : OrderRow}
    (stored : db.row = some row) (isOpen : row.status.isTerminal = false) {ev : ExecEvent}
    {st : BrokerOrderState} (terminal : ev.kind = .terminal st) (filled : st.outcome = .filled)
    (priced : 0 < st.avgPx) (metadata : EventMetadata) :
    Filled (applyExec [] ev metadata db) ↔
      st.executedQty = row.originalQty ∧ EPS < row.originalQty - row.cumQty := by
  have unfilled : ¬ Filled db := by
    rintro ⟨_, there, filled⟩
    cases stored.symm.trans there
    rw [filled] at isOpen
    cases isOpen
  have closes : closingReports st.outcome ev.venue = [] := by
    rw [filled]
    rfl
  rw [apply_exec_row stored]
  simp only [reportsFor, terminal, closes, List.append_nil]
  cases missing : missingQty row.cumQty st.executedQty with
  | none =>
    have booked := missing_qty_none.mp missing
    refine iff_of_false unfilled ?_
    rintro ⟨same, more⟩
    rw [same] at booked
    linarith
  | some qty =>
    obtain ⟨more, rfl⟩ := missing_qty_some.mp missing
    have eps := eps_positive
    have price := increment_price_positive priced row.cumQty row.avgPx st.executedQty
    simp only [Option.map_some, Option.toList_some, bookReports]
    by_cases room : st.executedQty ≤ row.originalQty
    · have fits : ReportFits row.toOrderAggregateState (.fill s!"recon-{ev.orderId}"
          (st.executedQty - row.cumQty)
          (incrementPrice row.cumQty row.avgPx st.executedQty st.avgPx) ev.venue) := by
        refine ⟨by linarith, price, ?_⟩
        linarith
      obtain ⟨_, row'⟩ := book_fitting reached stored isOpen fits metadata
      simp only [Filled, List.headD_nil, row', Option.mem_some_iff, exists_eq_left', reportedRow,
        reportState, fillState]
      split
      · rename_i left
        refine iff_of_false (by simp) ?_
        rintro ⟨same, _⟩
        linarith
      · rename_i whole
        refine iff_of_true rfl ⟨by linarith, by linarith⟩
    · rw [List.headD_nil, book_report_misfit stored isOpen]
      · refine iff_of_false unfilled ?_
        rintro ⟨same, _⟩
        exact room same.le
      · rintro ⟨_, _, fits⟩
        linarith

/-- Exactly when an order the venue filled but for the tolerance is filled here:
    on a terminal state, if it executed the very quantity and more than the
    tolerance of it was not booked; on live fills, if those covered when they
    come make up the very quantity. -/
theorem near_fill_closes_iff (sender : Sender) {db : OrderDb} (reached : Reached db)
    {row : OrderRow} (stored : db.row = some row) (unfilled : row.cumQty < row.originalQty) :
    (∀ source st, st.outcome = .filled → 0 < st.avgPx → Near st.executedQty row.originalQty →
      (Filled (applyExec [] (sender.event source (.terminal st)) sender.metadata db) ↔
        row.status.isTerminal = false ∧ st.executedQty = row.originalQty ∧
          EPS < row.originalQty - row.cumQty)) ∧
    ∀ fills : List LiveFill, Near (row.cumQty + (fills.map (·.qty)).sum) row.originalQty →
      (Filled (fills.foldl (bookFill sender) db) ↔
        row.status.isTerminal = false ∧
          taken (row.originalQty - row.cumQty) fills = row.originalQty - row.cumQty) := by
  cases closed : row.status.isTerminal with
  | true =>
    have short : ¬ Filled db := by
      rintro ⟨_, there, filled⟩
      cases stored.symm.trans there
      exact absurd ((reached_finished reached row stored).2 filled) (not_le.mpr unfilled)
    refine ⟨fun source st _ _ _ => iff_of_false ?_ (by simp),
      fun fills _ => iff_of_false ?_ (by simp)⟩
    · rw [apply_exec_closed stored closed]
      exact short
    · rw [closed_keeps sender stored closed]
      exact short
  | false =>
    refine ⟨fun source st filled priced _ => ?_, fun fills _ => ?_⟩
    · rw [terminal_fills_iff reached stored closed rfl filled priced]
      simp
    · rw [fills_fill_iff sender fills reached stored closed]
      simp

def desk : Sender := ⟨"o1", "V", "v", stamp⟩

def overTen : BrokerOrderState := ⟨.filled, 10 + 1 / 10 ^ 10, 100⟩

def justShort : List LiveFill := [⟨"x1", 6, 100⟩, ⟨"x2", 4 - 1 / 10 ^ 10, 101⟩]

def sixAndFour : List LiveFill := [⟨"x1", 6, 100⟩, ⟨"x2", 4, 101⟩]

theorem exact_ten_fills :
    Filled (applyExec [] (desk.event .snapshot (.terminal ⟨.filled, 10, 100⟩)) desk.metadata
        boughtTen) ∧
      Filled (sixAndFour.foldl (bookFill desk) boughtTen) := by
  obtain ⟨terminal, live⟩ := near_fill_closes_iff desk bought_ten_reached bought_ten_row
    (show boughtRow.cumQty < boughtRow.originalQty by decide +kernel)
  refine ⟨(terminal .snapshot ⟨.filled, 10, 100⟩ rfl ?_ ?_).mpr ?_,
    (live sixAndFour ?_).mpr ?_⟩ <;> decide +kernel

/-- Neither closes the order: the overshoot loses its fill, the shortfall leaves
    the order open. -/
theorem near_ten_stays_open :
    Reached boughtTen ∧ boughtTen.row = some boughtRow ∧
      Near overTen.executedQty boughtRow.originalQty ∧
      ¬ Filled (applyExec [] (desk.event .snapshot (.terminal overTen)) desk.metadata boughtTen) ∧
      Near (boughtRow.cumQty + (justShort.map (·.qty)).sum) boughtRow.originalQty ∧
      ¬ Filled (justShort.foldl (bookFill desk) boughtTen) :=
  ⟨bought_ten_reached, bought_ten_row, by decide +kernel, by decide +kernel, by decide +kernel,
    by decide +kernel⟩

end OmsRounding
