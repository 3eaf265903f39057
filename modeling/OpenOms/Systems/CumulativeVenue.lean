import OpenOms.Systems.ClosingEvent
import Mathlib.Data.Fin.SuccPred
import Mathlib.Data.List.Induction
import Mathlib.Data.List.Pairwise
import Mathlib.Order.Fin.Basic

/-!
A venue that reports totals. Its history fixes what it executed and at what
average; its updates are drawn from that history in any order, any number of
times. Booked one at a time, they leave the order at the newest one booked.
-/
namespace OmsCumulativeVenue
open OmsOrders OmsAggregate OmsOrderStore OmsExecution OmsOrderEntry OmsOrderWrites
open OmsGateway OmsReconOrders OmsOrderEngine OmsClosingEvent

structure Totals where
  executed : ℚ
  average : ℚ
  deriving DecidableEq, Repr

def Advances (a b : Totals) : Prop :=
  b.executed - a.executed > EPS ∧ a.executed * a.average < b.executed * b.average

instance (a b : Totals) : Decidable (Advances a b) := by
  unfold Advances
  infer_instance

structure VenueHistory where
  original : ℚ
  states : List Totals
  outcome : BrokerOrderOutcome
  grows : (⟨0, 0⟩ :: states).Pairwise Advances
  room : ∀ totals ∈ states, totals.executed ≤ original
  closes : outcome ≠ .working

def VenueHistory.totals (h : VenueHistory) (k : Fin (h.states.length + 1)) : Totals :=
  (⟨0, 0⟩ :: h.states).get (k.cast (by simp))

def VenueHistory.final (h : VenueHistory) : Totals := h.totals (Fin.last _)

def VenueHistory.FilledInFull (h : VenueHistory) : Prop :=
  h.outcome = .filled → h.final.executed = h.original

/-- A cumulative update names one of the history's states, the terminal one the last. -/
inductive Update (h : VenueHistory) where
  | cumulative (i : Fin h.states.length)
  | terminal
  deriving DecidableEq

def Update.position {h : VenueHistory} : Update h → Fin (h.states.length + 1)
  | .cumulative i => i.succ
  | .terminal => Fin.last _

def newest {h : VenueHistory} (start : Fin (h.states.length + 1)) (updates : List (Update h)) :
    Fin (h.states.length + 1) :=
  updates.foldl (fun k update => max k update.position) start

def Update.event {h : VenueHistory} (sender : Sender) (update : Update h) : ExecEvent :=
  let totals := h.totals update.position
  sender.event .session <|
    match update with
    | .cumulative _ => .cumulative totals.executed totals.average
    | .terminal => .terminal ⟨h.outcome, totals.executed, totals.average⟩

def book {h : VenueHistory} (sender : Sender) (db : OrderDb) (update : Update h) : OrderDb :=
  applyExec [] (update.event sender) sender.metadata db

structure At (h : VenueHistory) (k : Fin (h.states.length + 1)) (row : OrderRow) : Prop where
  original : row.originalQty = h.original
  cum : row.cumQty = (h.totals k).executed
  avg : row.avgPx = if k = 0 then none else some (h.totals k).average
  done : row.status.isTerminal = true → k = Fin.last _ ∧ h.FilledInFull

theorem totals_zero (h : VenueHistory) : h.totals 0 = ⟨0, 0⟩ := rfl

theorem totals_advance (h : VenueHistory) {j k : Fin (h.states.length + 1)} (later : j < k) :
    Advances (h.totals j) (h.totals k) :=
  List.pairwise_iff_get.mp h.grows _ _ (by exact later)

theorem totals_positive (h : VenueHistory) {k : Fin (h.states.length + 1)} (some_done : k ≠ 0) :
    (h.totals k).executed > EPS ∧ 0 < (h.totals k).average := by
  obtain ⟨more, dearer⟩ := totals_advance h (Fin.pos_iff_ne_zero.mpr some_done)
  simp only [totals_zero, sub_zero, zero_mul] at more dearer
  have executed : 0 < (h.totals k).executed := lt_trans eps_positive more
  exact ⟨more, (pos_iff_pos_of_mul_pos dearer).mp executed⟩

theorem totals_mono (h : VenueHistory) {j k : Fin (h.states.length + 1)} (older : j ≤ k) :
    (h.totals j).executed ≤ (h.totals k).executed := by
  rcases older.eq_or_lt with rfl | later
  · exact le_refl _
  · have more := (totals_advance h later).1
    have eps := eps_positive
    linarith

theorem totals_room (h : VenueHistory) {k : Fin (h.states.length + 1)} (some_done : k ≠ 0) :
    (h.totals k).executed ≤ h.original := by
  obtain ⟨i, rfl⟩ := Fin.exists_succ_eq.mpr some_done
  exact h.room _ (List.get_mem h.states i)

theorem increment_reaches (h : VenueHistory) {row : OrderRow} {j k : Fin (h.states.length + 1)}
    (here : At h j row) (later : j < k) (id venue : String) :
    let fill := ExecutionReport.fill id ((h.totals k).executed - row.cumQty)
      (incrementPrice row.cumQty row.avgPx (h.totals k).executed (h.totals k).average) venue
    ReportFits row.toOrderAggregateState fill ∧
      (reportedRow row fill).cumQty = (h.totals k).executed ∧
      (reportedRow row fill).avgPx = some (h.totals k).average := by
  intro fill
  have some_done : k ≠ 0 := Fin.pos_iff_ne_zero.mp (lt_of_le_of_lt (Fin.zero_le j) later)
  obtain ⟨more, dearer⟩ := totals_advance h later
  obtain ⟨executed, average⟩ := totals_positive h some_done
  have eps := eps_positive
  have nonzero : (h.totals k).executed ≠ 0 := by linarith
  have room : (h.totals k).executed ≤ row.originalQty := here.original ▸ totals_room h some_done
  simp only [ReportFits, reportedRow, reportState, fillState, fill, here.cum, here.avg,
    add_sub_cancel, true_and, Option.some.injEq]
  by_cases first : j = 0
  · subst first
    simp only [totals_zero, if_true, increment_price_first, sub_zero, zero_add, zero_mul]
    refine ⟨⟨by linarith, average, ?_⟩, ?_⟩
    · linarith
    · field_simp
  · rw [if_neg first]
    obtain ⟨begun, _⟩ := totals_positive h first
    have notional : (h.totals j).average * (h.totals j).executed <
        (h.totals k).average * (h.totals k).executed := by linarith
    obtain ⟨price, total⟩ := increment_price_exact begun more notional
    refine ⟨⟨by linarith, price, by linarith⟩, ?_⟩
    rw [Option.getD_some, total]
    field_simp

theorem nothing_missing (h : VenueHistory) {j k : Fin (h.states.length + 1)} (older : k ≤ j) :
    missingQty (h.totals j).executed (h.totals k).executed = none := by
  have executed := totals_mono h older
  have eps := eps_positive
  exact missing_qty_none.mpr (by linarith)

theorem something_missing (h : VenueHistory) {j k : Fin (h.states.length + 1)} (later : j < k) :
    missingQty (h.totals j).executed (h.totals k).executed =
      some ((h.totals k).executed - (h.totals j).executed) :=
  missing_qty_some.mpr ⟨(totals_advance h later).1, rfl⟩

theorem book_row {h : VenueHistory} (sender : Sender) (update : Update h) {db : OrderDb}
    {row : OrderRow} (stored : db.row = some row) :
    book sender db update =
      bookReports [] sender.metadata db
        (reportsFor (update.event sender) row.cumQty row.avgPx) :=
  apply_exec_row stored [] _ sender.metadata

/-- The order is where the venue was after `k` executions, and closed if the
    terminal update has been booked and names it filled only in full. -/
structure Tracks (h : VenueHistory) (k : Fin (h.states.length + 1)) (ended : Prop)
    (db : OrderDb) : Prop where
  reached : Reached db
  row : ∃ row, db.row = some row ∧ At h k row ∧
    (ended → h.FilledInFull → row.status.isTerminal = true)

def missingFill (h : VenueHistory) (k : Fin (h.states.length + 1)) (row : OrderRow)
    (id venue : String) : List ExecutionReport :=
  ((missingQty row.cumQty (h.totals k).executed).map fun fillQty =>
    ExecutionReport.fill id fillQty
      (incrementPrice row.cumQty row.avgPx (h.totals k).executed (h.totals k).average) venue).toList

theorem missing_fill_older {h : VenueHistory} {j k : Fin (h.states.length + 1)} {row : OrderRow}
    (here : At h j row) (older : k ≤ j) (id venue : String) :
    missingFill h k row id venue = [] := by
  rw [missingFill, here.cum, nothing_missing h older]
  rfl

theorem missing_fill_tracks {h : VenueHistory} {j : Fin (h.states.length + 1)} {db : OrderDb}
    {row : OrderRow} (reached : Reached db) (stored : db.row = some row) (here : At h j row)
    (k : Fin (h.states.length + 1)) (id venue : String) (metadata : EventMetadata) :
    Tracks h (max j k) (row.status.isTerminal = true)
      (bookReports [] metadata db (missingFill h k row id venue)) := by
  rcases le_or_gt k j with older | later
  · rw [missing_fill_older here older, max_eq_left older]
    exact ⟨reached, row, stored, here, fun closed _ => closed⟩
  · have isOpen : row.status.isTerminal = false := by
      cases closed : row.status.isTerminal with
      | false => rfl
      | true =>
        have last := (here.done closed).1
        exact absurd later (not_lt.mpr (last ▸ Fin.le_last k))
    obtain ⟨fits, cum, avg⟩ := increment_reaches h here later id venue
    obtain ⟨next, row'⟩ := book_fitting reached stored isOpen fits metadata
    rw [max_eq_right later.le, missingFill, here.cum, something_missing h later, ← here.cum]
    refine ⟨next, _, row', ⟨here.original, cum, ?_, ?_⟩, ?_⟩
    · rw [avg, if_neg (Fin.pos_iff_ne_zero.mp (lt_of_le_of_lt (Fin.zero_le j) later))]
    · -- Only the last state can fill the order: every earlier one leaves room.
      intro filled
      have full := (fill_closes_iff ..).mp filled
      have reaches : row.cumQty + ((h.totals k).executed - row.cumQty) = (h.totals k).executed := by
        ring
      rw [reaches, here.original] at full
      have last : k = Fin.last _ := by
        by_contra more
        have before := Fin.lt_last_iff_ne_last.mpr more
        have further := (totals_advance h before).1
        have room := totals_room h (Fin.pos_iff_ne_zero.mp (lt_of_le_of_lt (Fin.zero_le k) before))
        have eps := eps_positive
        linarith
      refine ⟨last, fun _ => ?_⟩
      rw [VenueHistory.final, ← last]
      have room := totals_room h (Fin.pos_iff_ne_zero.mp (lt_of_le_of_lt (Fin.zero_le j) later))
      exact le_antisymm room (by linarith)
    · intro closed
      rw [isOpen] at closed
      cases closed

theorem close_tracks {h : VenueHistory} {db : OrderDb} {row : OrderRow} (reached : Reached db)
    (stored : db.row = some row) (here : At h (Fin.last _) row) (venue : String)
    (metadata : EventMetadata) :
    Tracks h (Fin.last _) True
      (bookReports [] metadata db (closingReports h.outcome venue)) := by
  cases closed : row.status.isTerminal with
  | true =>
    rw [book_reports_closed stored closed]
    exact ⟨reached, row, stored, here, fun _ _ => closed⟩
  | false =>
    cases outcome : h.outcome with
    | working => exact absurd outcome h.closes
    | filled =>
      refine ⟨reached, row, stored, here, fun _ inFull => ?_⟩
      have room := (reached_lively reached row stored).room closed
      have cum := here.cum
      have full := inFull outcome
      have original := here.original
      rw [VenueHistory.final] at full
      linarith
    | canceled =>
      obtain ⟨next, row'⟩ := book_fitting reached stored closed
        (show ReportFits row.toOrderAggregateState (.canceled none (some venue)) from trivial)
        metadata
      have inFull : h.FilledInFull := fun filled => by simp [outcome] at filled
      exact ⟨next, _, row', ⟨here.original, here.cum, here.avg, fun _ => ⟨rfl, inFull⟩⟩,
        fun _ _ => rfl⟩
    | rejected =>
      obtain ⟨next, row'⟩ := book_fitting reached stored closed
        (show ReportFits row.toOrderAggregateState (.reject "rejected" (some venue)) from trivial)
        metadata
      have inFull : h.FilledInFull := fun filled => by simp [outcome] at filled
      exact ⟨next, _, row', ⟨here.original, here.cum, here.avg, fun _ => ⟨rfl, inFull⟩⟩,
        fun _ _ => rfl⟩

theorem update_reports {h : VenueHistory} (sender : Sender) (update : Update h) (row : OrderRow) :
    ∃ id, reportsFor (update.event sender) row.cumQty row.avgPx =
      missingFill h update.position row id sender.venue ++
        (if update = .terminal then closingReports h.outcome sender.venue else []) := by
  cases update with
  | cumulative i =>
    refine ⟨s!"{sender.venue}-{sender.orderId}-{(h.totals i.succ).executed}", ?_⟩
    simp [reportsFor, Update.event, Sender.event, missingFill, Update.position]
  | terminal =>
    refine ⟨s!"recon-{sender.orderId}", ?_⟩
    simp [reportsFor, Update.event, Sender.event, missingFill, Update.position]

theorem book_tracks {h : VenueHistory} (sender : Sender) {k : Fin (h.states.length + 1)}
    {ended : Prop} {db : OrderDb} (tracks : Tracks h k ended db) (update : Update h) :
    Tracks h (max k update.position) (ended ∨ update = .terminal) (book sender db update) := by
  obtain ⟨reached, row, stored, here, shut⟩ := tracks
  obtain ⟨id, reports⟩ := update_reports sender update row
  obtain ⟨filled, row', stored', here', shut'⟩ :=
    missing_fill_tracks reached stored here update.position id sender.venue sender.metadata
  rw [book_row sender update stored, reports, book_reports_append]
  cases update with
  | cumulative i =>
    exact ⟨filled, row', stored', here', by
      simpa using fun was inFull => shut' (shut was inFull) inFull⟩
  | terminal =>
    have last : max k (Update.terminal : Update h).position = Fin.last _ :=
      max_eq_right (Fin.le_last k)
    rw [last] at here' ⊢
    obtain ⟨next, row'', stored'', here'', done⟩ :=
      close_tracks filled stored' here' sender.venue sender.metadata
    exact ⟨next, row'', stored'', here'', fun _ => done trivial⟩

theorem newest_append {h : VenueHistory} (start : Fin (h.states.length + 1))
    (updates : List (Update h)) (update : Update h) :
    newest start (updates ++ [update]) = max (newest start updates) update.position := by
  simp [newest]

theorem updates_track {h : VenueHistory} (sender : Sender) {db : OrderDb}
    (start : Tracks h 0 False db) (updates : List (Update h)) :
    Tracks h (newest 0 updates) (.terminal ∈ updates) (updates.foldl (book sender) db) := by
  induction updates using List.reverseRecOn with
  | nil => simpa [newest] using start
  | append_singleton updates update ih =>
    have next := book_tracks sender ih update
    rw [newest_append, List.foldl_append]
    refine ⟨next.reached, ?_⟩
    obtain ⟨row, stored, here, shut⟩ := next.row
    refine ⟨row, stored, here, fun member => shut ?_⟩
    simpa [eq_comm] using member

theorem newest_terminal {h : VenueHistory} {updates : List (Update h)}
    (member : .terminal ∈ updates) : newest 0 updates = Fin.last _ := by
  induction updates using List.reverseRecOn with
  | nil => cases member
  | append_singleton updates update ih =>
    rw [newest_append]
    rcases List.mem_append.mp member with earlier | last
    · rw [ih earlier]
      exact max_eq_left (Fin.le_last _)
    · cases List.mem_singleton.mp last
      exact max_eq_right (Fin.le_last _)

theorem older_books_nothing {h : VenueHistory} (sender : Sender) {k : Fin (h.states.length + 1)}
    {ended : Prop} {db : OrderDb} (tracks : Tracks h k ended db) {update : Update h}
    (older : update.position ≤ k) :
    booked (book sender db update) = booked db ∧
      ((update = .terminal → ended) → book sender db update = db) := by
  obtain ⟨reached, row, stored, here, shut⟩ := tracks
  obtain ⟨id, reports⟩ := update_reports sender update row
  rw [book_row sender update stored, reports, missing_fill_older here older, List.nil_append]
  cases update with
  | cumulative i => exact ⟨rfl, fun _ => rfl⟩
  | terminal =>
    rw [if_pos rfl]
    have ends : closingReports h.outcome sender.venue = [] ∨
        h.outcome ≠ .filled ∧ ∃ close, closingReports h.outcome sender.venue = [close] := by
      cases h.outcome <;> simp [closingReports]
    rcases ends with none_left | ⟨notFilled, close, closing⟩
    · rw [none_left]
      exact ⟨rfl, fun _ => rfl⟩
    · rw [closing]
      refine ⟨(book_close reached stored closing [] sender.metadata).1, fun was => ?_⟩
      have inFull : h.FilledInFull := fun filled => absurd filled notFilled
      exact book_report_closed stored (shut (was rfl) inFull) [] close sender.metadata

/-- The order stands at the newest update booked, every update no newer books
    nothing on it, and the terminal update leaves it closed with everything the
    venue executed. -/
def Converges (h : VenueHistory) (sender : Sender) (db : OrderDb) (updates : List (Update h)) :
    Prop :=
  let after := updates.foldl (book sender) db
  let now := h.totals (newest 0 updates)
  ∃ row, after.row = some row ∧ row.cumQty = now.executed ∧
    row.avgPx = (if newest 0 updates = 0 then none else some now.average) ∧
    (∀ update : Update h, update.position ≤ newest 0 updates →
      booked (book sender after update) = booked after ∧
        ((update = .terminal → .terminal ∈ updates) → book sender after update = after)) ∧
    (.terminal ∈ updates → row.status.isTerminal = true ∧ row.cumQty = h.final.executed ∧
      (h.states ≠ [] → row.avgPx = some h.final.average))

theorem open_tracks {h : VenueHistory} {db : OrderDb} (reached : Reached db) {row : OrderRow}
    (stored : db.row = some row) (isOpen : row.status.isTerminal = false)
    (unfilled : row.cumQty = 0) (unpriced : row.avgPx = none)
    (original : row.originalQty = h.original) : Tracks h 0 False db := by
  refine ⟨reached, row, stored, ⟨original, unfilled, unpriced, ?_⟩, False.elim⟩
  intro closed
  rw [isOpen] at closed
  cases closed

/-- Whatever of its history a cumulative venue repeats, skips or reorders, the
    order converges to it, unless the venue ends with `filled` an order it is
    anything short of. -/
theorem cumulative_venue_converges_iff (h : VenueHistory) (sender : Sender) {db : OrderDb}
    (reached : Reached db) {row : OrderRow} (stored : db.row = some row)
    (isOpen : row.status.isTerminal = false) (unfilled : row.cumQty = 0)
    (unpriced : row.avgPx = none) (original : row.originalQty = h.original)
    (updates : List (Update h)) :
    Converges h sender db updates ↔
      (.terminal ∈ updates → h.outcome = .filled → h.final.executed = h.original) := by
  have start : Tracks h 0 False db := open_tracks reached stored isOpen unfilled unpriced original
  have tracks := updates_track sender start updates
  obtain ⟨row', stored', here, shut⟩ := tracks.row
  constructor
  · rintro ⟨row'', stored'', _, _, _, ends⟩ member
    rw [stored'] at stored''
    cases stored''
    exact (here.done (ends member).1).2
  · intro inFull
    refine ⟨row', stored', here.cum, here.avg, fun update older =>
      older_books_nothing sender tracks older,
      fun member => ⟨shut member (inFull member), ?_, ?_⟩⟩
    · rw [here.cum, newest_terminal member]
      rfl
    · intro some_states
      have nonzero : Fin.last h.states.length ≠ 0 := by
        simpa [Fin.ext_iff] using some_states
      rw [here.avg, newest_terminal member, if_neg nonzero]
      rfl

/-- Three of the ten at a hundred, then five more at a hundred and eight on
    average, then a cancel. -/
def eightOfTen : VenueHistory where
  original := 10
  states := [⟨3, 100⟩, ⟨8, 105⟩]
  outcome := .canceled
  grows := by decide +kernel
  room := by decide +kernel
  closes := nofun

def okx : Sender := ⟨"o1", "OKX", "okx", stamp⟩

def eightUpdates : List (Update eightOfTen) :=
  [.terminal, .cumulative ⟨1, by decide⟩, .terminal]

theorem eight_of_ten_converges : Converges eightOfTen okx boughtTen eightUpdates :=
  (cumulative_venue_converges_iff eightOfTen okx bought_ten_reached bought_ten_row rfl rfl rfl rfl
    eightUpdates).mpr fun _ filled => by simp [eightOfTen] at filled

/-- An order of ten the venue calls filled at a ten-billionth less. -/
def barelyTen : VenueHistory where
  original := 10
  states := [⟨10 - 1 / 10 ^ 10, 100⟩]
  outcome := .filled
  grows := by decide +kernel
  room := by decide +kernel
  closes := nofun

/-- The terminal update books the missing fill and leaves the order open. -/
theorem barely_ten_stays_open : ¬ Converges barelyTen okx boughtTen [.terminal] := by
  rintro ⟨row, stored, _, _, _, ends⟩
  have start : Tracks barelyTen 0 False boughtTen :=
    open_tracks bought_ten_reached bought_ten_row rfl rfl rfl rfl
  obtain ⟨row', stored', here, _⟩ := (updates_track okx start [.terminal]).row
  rw [stored'] at stored
  cases stored
  have full : barelyTen.final.executed = barelyTen.original :=
    (here.done (ends (List.mem_singleton.mpr rfl)).1).2 rfl
  revert full
  decide +kernel

end OmsCumulativeVenue
