import OpenOms.OrderEngine

/-!
A closing event that carries a missing fill: two reports, two calls, and any
failure of either. The close depends on its own call only, so the fill before it
can be lost while the order closes.
-/
namespace OmsClosingEvent
open OmsOrders OmsAggregate OmsOrderStore OmsExecution OmsOrderEntry OmsOrderWrites
open OmsGateway OmsReconOrders OmsOrderEngine

def Closed (db : OrderDb) : Prop := ∃ row ∈ db.row, row.status.isTerminal = true

instance (db : OrderDb) : Decidable (Closed db) := by
  unfold Closed
  infer_instance

def ClosesAfterFill (db after : OrderDb) (missing : Execution) : Prop :=
  Closed after → booked after = booked db ++ [missing]

instance (db after : OrderDb) (missing : Execution) :
    Decidable (ClosesAfterFill db after missing) := by
  unfold ClosesAfterFill
  infer_instance

theorem missing_report_is_fill {ev : ExecEvent} {st : BrokerOrderState} {cum : ℚ} {avg : Option ℚ}
    {fill close : ExecutionReport} (terminal : ev.kind = .terminal st)
    (expands : reportsFor ev cum avg = [fill, close]) :
    fill = .fill s!"recon-{ev.orderId}" (st.executedQty - cum)
        (incrementPrice cum avg st.executedQty st.avgPx) ev.venue ∧
      closingReports st.outcome ev.venue = [close] := by
  simp only [reportsFor, terminal] at expands
  cases missing : missingQty cum st.executedQty with
  | none =>
    rw [missing] at expands
    cases outcome : st.outcome <;> simp [closingReports, outcome] at expands
  | some qty =>
    obtain ⟨_, rfl⟩ := missing_qty_some.mp missing
    rw [missing] at expands
    simp only [Option.map_some, Option.toList_some, List.cons_append, List.nil_append,
      List.cons.injEq] at expands
    exact ⟨expands.1.symm, expands.2⟩

theorem closing_report_closes {outcome : BrokerOrderOutcome} {venue : String}
    {close : ExecutionReport} (closing : closingReports outcome venue = [close])
    (s : OrderAggregateState) :
    ReportFits s close ∧ (reportState s close).status.isTerminal = true ∧
      OrderCommand.execution (.receiveExecutionReport s.orderId close) = none := by
  cases outcome <;> simp only [closingReports, List.cons.injEq, reduceCtorEq, and_true] at closing
  all_goals
    subst closing
    exact ⟨trivial, rfl, rfl⟩

/-- The close is booked exactly when the order is still open and its own call
    does not fail; nothing else is booked by it. -/
theorem book_close {db : OrderDb} (reached : Reached db) {row : OrderRow}
    (stored : db.row = some row) {outcome : BrokerOrderOutcome} {venue : String}
    {close : ExecutionReport} (closing : closingReports outcome venue = [close])
    (fates : List AttemptFate) (metadata : EventMetadata) :
    booked (bookReport fates close metadata db) = booked db ∧
      (Closed (bookReport fates close metadata db) ↔
        (row.status.isTerminal = true ∨ ¬ Fails fates)) := by
  obtain ⟨fits, closes, noFill⟩ := closing_report_closes closing row.toOrderAggregateState
  cases closed : row.status.isTerminal with
  | true =>
    rw [book_report_closed stored closed]
    exact ⟨rfl, by simp [Closed, stored, closed]⟩
  | false =>
    obtain ⟨event, yields, run⟩ := book_report_open (reached_numbered reached) stored
      (reached_lively reached row stored) closed fits fates metadata
    by_cases fails : Fails fates
    · rw [run, if_pos fails]
      exact ⟨rfl, by simp [Closed, stored, closed, fails]⟩
    · rw [run, if_neg fails]
      constructor
      · rw [booked_logged db event rfl, yields.execution]
        simpa using noFill
      · simp [Closed, reportedDb, reportedRow, closes, fails]

theorem book_missing {db : OrderDb} (reached : Reached db) {row : OrderRow}
    (stored : db.row = some row) (isOpen : row.status.isTerminal = false)
    (id : String) (qty price : ℚ) (venue : String) (fates : List AttemptFate)
    (metadata : EventMetadata) :
    let fill := ExecutionReport.fill id qty price venue
    let after := bookReport fates fill metadata db
    (ReportFits row.toOrderAggregateState fill ∧ ¬ Fails fates ∧ Reached after ∧
        booked after = booked db ++ [⟨id, qty, price⟩] ∧
        after.row = some (reportedRow row fill)) ∨
      (¬ (ReportFits row.toOrderAggregateState fill ∧ ¬ Fails fates) ∧ after = db) := by
  intro fill after
  by_cases fits : ReportFits row.toOrderAggregateState fill
  · obtain ⟨event, yields, run⟩ := book_report_open (reached_numbered reached) stored
      (reached_lively reached row stored) isOpen fits fates metadata
    by_cases fails : Fails fates
    · rw [if_pos fails] at run
      exact .inr ⟨fun both => both.2 fails, run⟩
    · rw [if_neg fails] at run
      refine .inl ⟨fits, fails, ?_, ?_, ?_⟩
      · change Reached (bookReport fates fill metadata db)
        rw [run]
        exact .write reached (.reported row fill event stored isOpen fits yields)
      · change booked (bookReport fates fill metadata db) = _
        rw [run, booked_logged db event rfl, yields.execution]
        rfl
      · change (bookReport fates fill metadata db).row = _
        rw [run]
        rfl
  · exact .inr ⟨fun both => fits both.1, book_report_misfit stored isOpen fits fates metadata⟩

/-- Exactly when a closing event keeps the fill before its close: the order is
    still open, and the fill is booked or the close itself fails. -/
theorem closes_after_fill_iff {db : OrderDb} (reached : Reached db) {row : OrderRow}
    (stored : db.row = some row) {ev : ExecEvent} {st : BrokerOrderState}
    (terminal : ev.kind = .terminal st) {id : String} {qty price : ℚ} {venue : String}
    {close : ExecutionReport}
    (expands : reportsFor ev row.cumQty row.avgPx = [.fill id qty price venue, close])
    (fates : List (List AttemptFate)) (metadata : EventMetadata) :
    ClosesAfterFill db (applyExec fates ev metadata db) ⟨id, qty, price⟩ ↔
      row.status.isTerminal = false ∧
        ((ReportFits row.toOrderAggregateState (.fill id qty price venue) ∧
            ¬ Fails (fates.headD [])) ∨ Fails (fates.tail.headD [])) := by
  obtain ⟨_, closing⟩ := missing_report_is_fill terminal expands
  have run : applyExec fates ev metadata db =
      bookReport (fates.tail.headD []) close metadata
        (bookReport (fates.headD []) (.fill id qty price venue) metadata db) := by
    simp only [applyExec, bookedState, terminal, needsBookedState, if_true, stored,
      Option.map_some, expands, bookReports]
  rw [run]
  have unbooked : booked db ≠ booked db ++ [⟨id, qty, price⟩] := by
    intro same
    simpa using congrArg List.length same
  cases closed : row.status.isTerminal with
  | true =>
    rw [book_report_closed stored closed]
    obtain ⟨kept, closes⟩ := book_close reached stored closing (fates.tail.headD []) metadata
    simp only [ClosesAfterFill, kept, closes, closed, true_or, forall_const, unbooked,
      Bool.true_eq_false, false_and]
  | false =>
    rcases book_missing reached stored closed id qty price venue (fates.headD []) metadata with
      ⟨fits, works, after, filled, row'⟩ | ⟨lost, same⟩
    · obtain ⟨kept, _⟩ := book_close after row' closing (fates.tail.headD []) metadata
      simp only [ClosesAfterFill, kept, filled, implies_true, fits, works, not_false_eq_true,
        and_self, true_or]
    · rw [same]
      obtain ⟨kept, closes⟩ := book_close reached stored closing (fates.tail.headD []) metadata
      simp only [ClosesAfterFill, kept, closes, closed, Bool.false_eq_true, false_or, unbooked,
        imp_false, not_not, lost, true_and]

/-- The venue canceled the buy of ten after four executed at a hundred. -/
def canceledFour : ExecEvent :=
  ⟨"o1", "V", "v", .snapshot, .terminal ⟨.canceled, 4, 100⟩⟩

theorem canceled_four_keeps_fill :
    ClosesAfterFill boughtTen (applyExec [[.raced], []] canceledFour stamp boughtTen)
      ⟨"recon-o1", 4, 100⟩ :=
  (closes_after_fill_iff bought_ten_reached bought_ten_row rfl
    (show reportsFor canceledFour boughtRow.cumQty boughtRow.avgPx =
      [.fill "recon-o1" 4 100 "V", .canceled none (some "V")] by decide +kernel)
    [[.raced], []] stamp).mpr ⟨by decide +kernel, .inl (by decide +kernel)⟩

/-- One storage error on the fill's call: the order closes without its four. -/
theorem canceled_four_loses_fill :
    Reached boughtTen ∧ boughtTen.row = some boughtRow ∧
      reportsFor canceledFour boughtRow.cumQty boughtRow.avgPx =
        [.fill "recon-o1" 4 100 "V", .canceled none (some "V")] ∧
      ¬ ClosesAfterFill boughtTen (applyExec [[.failed]] canceledFour stamp boughtTen)
        ⟨"recon-o1", 4, 100⟩ :=
  ⟨bought_ten_reached, bought_ten_row, by decide +kernel, by decide +kernel⟩

end OmsClosingEvent
