import OpenOms.Library.Runs
import OpenOms.OrderEngine
import Mathlib.Algebra.Order.BigOperators.Group.List

/-!
The live stream and reconciliation on one order. The venue executes and sends
one event per execution, in order but late; a reconcile pass reads the venue's
status and later enqueues what it read; the engine books from one channel, and
order entry may route or cancel the order in between.
-/
namespace OmsLiveAndRecon
open OmsOrders OmsAggregate OmsOrderStore OmsExecution OmsOrderEntry OmsOrderWrites
open OmsGateway OmsReconOrders OmsOrderEngine Runs

/-- `sent` counts the live events handed to the channel, `taken` those the engine
    has taken from it. `reads` are the passes that have asked and not yet enqueued. -/
structure LiveAndRecon where
  db : OrderDb
  fills : List Execution
  sent : Nat
  taken : Nat
  reads : List BrokerOrderState
  channel : List ExecKind
  deriving DecidableEq, Repr

def LiveAndRecon.start : LiveAndRecon := ⟨.empty, [], 0, 0, [], []⟩

inductive Action where
  | submit (cmd : SubmitOrder) (metadata : EventMetadata) (brokerConnectionCode : String)
      (createdAt : Nat)
  | route (venue externalOrderId : String) (metadata : EventMetadata)
  | cancel (reason : Option String) (metadata : EventMetadata)
  | execute (execution : Execution)
  | deliver
  | readStatus (outcome : BrokerOrderOutcome)
  | enqueue (i : Nat)
  | book (fates : List (List AttemptFate)) (sender : Sender)
  deriving DecidableEq, Repr

def total (fills : List Execution) : ℚ := (fills.map (·.qty)).sum

def averagePrice (fills : List Execution) : ℚ :=
  (fills.map (fun execution => execution.qty * execution.price)).sum / total fills

def liveFill (execution : Execution) : ExecKind :=
  .fill execution.executionId execution.qty execution.price

def step (s : LiveAndRecon) : Action → Option LiveAndRecon
  | .submit cmd metadata brokerConnectionCode createdAt =>
    match submitTx cmd metadata brokerConnectionCode createdAt s.db with
    | .ok committed => some { s with db := committed }
    | .error _ => some s
  | .route venue externalOrderId metadata =>
    some { s with db := commitNow (.route venue externalOrderId metadata) s.db }
  | .cancel reason metadata => some { s with db := commitNow (.cancel reason metadata) s.db }
  | .execute execution =>
    if 0 < execution.qty ∧ 0 < execution.price then
      some { s with fills := s.fills ++ [execution] }
    else none
  | .deliver =>
    match s.fills[s.sent]? with
    | some execution =>
      some { s with channel := s.channel ++ [liveFill execution], sent := s.sent + 1 }
    | none => none
  | .readStatus outcome =>
    some { s with reads := s.reads ++ [⟨outcome, total s.fills, averagePrice s.fills⟩] }
  | .enqueue i =>
    match s.reads[i]? with
    | some st =>
      some { s with channel := s.channel ++ [.terminal st], reads := s.reads.eraseIdx i }
    | none => none
  | .book fates sender =>
    match s.channel with
    | [] => none
    | kind :: rest =>
      some { s with
        db := applyExec fates (sender.event .session kind) sender.metadata s.db
        taken := if needsBookedState kind then s.taken else s.taken + 1
        channel := rest }

def LiveAndRecon.live (s : LiveAndRecon) : ℚ := total (s.fills.take s.taken)

def BookedWithinExecuted (s : LiveAndRecon) : Prop :=
  ∀ row ∈ s.db.row, row.cumQty ≤ total s.fills

instance (s : LiveAndRecon) : Decidable (BookedWithinExecuted s) := by
  unfold BookedWithinExecuted
  infer_instance

/-- The engine takes a status that books missing quantity whose live events are
    still on their way, and the order stays open: the status is not a close, or
    the close's own call fails, and the fill does not complete the order. -/
def BooksAheadOfOpenOrder (s : LiveAndRecon) (a : Action) : Prop :=
  match a, s.channel, s.db.row with
  | .book fates _, .terminal st :: _, some row =>
    row.status.isTerminal = false ∧ EPS < st.executedQty - row.cumQty ∧
      s.live < st.executedQty ∧ st.executedQty < row.originalQty ∧ ¬ Fails (fates.headD []) ∧
      (st.outcome = .working ∨ st.outcome = .filled ∨ Fails (fates.tail.headD []))
  | _, _, _ => False

instance (s : LiveAndRecon) (a : Action) : Decidable (BooksAheadOfOpenOrder s a) := by
  unfold BooksAheadOfOpenOrder
  split <;> infer_instance

def liveOf : ExecKind → Option Execution
  | .fill executionId qty price => some ⟨executionId, qty, price⟩
  | _ => none

/-- Nothing is booked that the venue has not executed; and while the order is
    open, nothing beyond the live events taken. -/
structure Inv (s : LiveAndRecon) : Prop where
  reached : Reached s.db
  positive : ∀ execution ∈ s.fills, 0 < execution.qty
  sentLe : s.sent ≤ s.fills.length
  takenLe : s.taken ≤ s.fills.length
  inOrder : s.channel.filterMap liveOf ++ s.fills.drop s.sent = s.fills.drop s.taken
  kinds : ∀ kind ∈ s.channel, (∃ execution, kind = liveFill execution) ∨
    ∃ st, kind = .terminal st ∧ st.executedQty ≤ total s.fills
  reads : ∀ st ∈ s.reads, st.executedQty ≤ total s.fills
  within : ∀ row, s.db.row = some row → row.cumQty ≤ total s.fills
  ahead : ∀ row, s.db.row = some row → row.status.isTerminal = false → row.cumQty ≤ s.live

theorem total_append (early late : List Execution) :
    total (early ++ late) = total early + total late := by
  simp [total]

theorem total_nonneg {fills : List Execution} (positive : ∀ execution ∈ fills, 0 < execution.qty) :
    0 ≤ total fills := by
  unfold total
  refine List.sum_nonneg ?_
  intro qty member
  obtain ⟨execution, there, rfl⟩ := List.mem_map.mp member
  exact (positive execution there).le

theorem total_take_le {fills : List Execution}
    (positive : ∀ execution ∈ fills, 0 < execution.qty) (k : Nat) :
    total (fills.take k) ≤ total fills := by
  have whole := total_append (fills.take k) (fills.drop k)
  rw [List.take_append_drop] at whole
  have rest : 0 ≤ total (fills.drop k) :=
    total_nonneg fun execution member => positive execution (List.mem_of_mem_drop member)
  linarith

theorem fill_books {db : OrderDb} (reached : Reached db) {row : OrderRow}
    (stored : db.row = some row) (fates : List AttemptFate) (id : String) (qty price : ℚ)
    (venue : String) (metadata : EventMetadata) :
    ∃ row', (bookReport fates (.fill id qty price venue) metadata db).row = some row' ∧
      (row'.status.isTerminal = false → row.status.isTerminal = false) ∧
      (row' = row ∨ row.status.isTerminal = false ∧ ¬ Fails fates ∧
        row'.cumQty = row.cumQty + qty ∧
        (row'.status.isTerminal = false → row.cumQty + qty < row.originalQty)) := by
  rcases book_report_cases (reached_numbered reached) (reached_lively reached) fates
    (.fill id qty price venue) metadata with
    ⟨same, _⟩ | ⟨found, event, there, isOpen, _, works, same, _⟩
  · exact ⟨row, by rw [same, stored], fun still => still, .inl rfl⟩
  · cases stored.symm.trans there
    refine ⟨_, by rw [same]; rfl, fun _ => isOpen, .inr ⟨isOpen, works, rfl, ?_⟩⟩
    intro still
    by_contra full
    have closed := (fill_closes_iff row id qty price venue).mpr (not_lt.mp full)
    rw [still] at closed
    cases closed

theorem close_books {db : OrderDb} (reached : Reached db) {row : OrderRow}
    (stored : db.row = some row) (fates : List (List AttemptFate)) (outcome : BrokerOrderOutcome)
    (venue : String) (metadata : EventMetadata) :
    ∃ row', (bookReports fates metadata db (closingReports outcome venue)).row = some row' ∧
      row'.cumQty = row.cumQty ∧
      (row'.status.isTerminal = false → row.status.isTerminal = false ∧
        (outcome = .working ∨ outcome = .filled ∨ Fails (fates.headD []))) := by
  have one : ∀ report : ExecutionReport, ReportFits row.toOrderAggregateState report →
      (reportedRow row report).cumQty = row.cumQty →
      (reportedRow row report).status.isTerminal = true →
      ∃ row', (bookReports fates metadata db [report]).row = some row' ∧
        row'.cumQty = row.cumQty ∧
        (row'.status.isTerminal = false → row.status.isTerminal = false ∧
          Fails (fates.headD [])) := by
    intro report fits kept closes
    rcases book_report_cases (reached_numbered reached) (reached_lively reached) (fates.headD [])
      report metadata with ⟨same, why⟩ | ⟨found, event, there, isOpen, _, works, same, _⟩
    · refine ⟨row, by rw [bookReports, bookReports, same, stored], rfl, fun still => ?_⟩
      rcases why row stored with closed | misfit | fails
      · rw [still] at closed
        cases closed
      · exact absurd fits misfit
      · exact ⟨still, fails⟩
    · cases stored.symm.trans there
      refine ⟨_, by rw [bookReports, bookReports, same]; rfl, kept, fun still => ?_⟩
      rw [closes] at still
      cases still
  cases outcome with
  | filled => exact ⟨row, stored, rfl, fun still => ⟨still, .inr (.inl rfl)⟩⟩
  | working => exact ⟨row, stored, rfl, fun still => ⟨still, .inl rfl⟩⟩
  | canceled =>
    obtain ⟨row', stored', kept, why⟩ := one (.canceled none (some venue)) trivial rfl rfl
    exact ⟨row', stored', kept, fun still => ⟨(why still).1, .inr (.inr (why still).2)⟩⟩
  | rejected =>
    obtain ⟨row', stored', kept, why⟩ := one (.reject "rejected" (some venue)) trivial rfl rfl
    exact ⟨row', stored', kept, fun still => ⟨(why still).1, .inr (.inr (why still).2)⟩⟩

/-- A status booked on an order leaves its quantity, or brings it to the status's
    own; and an order still open afterwards says which way that went. -/
theorem terminal_books {db : OrderDb} (reached : Reached db) {row : OrderRow}
    (stored : db.row = some row) (fates : List (List AttemptFate)) (sender : Sender)
    (st : BrokerOrderState) :
    ∃ row', (applyExec fates (sender.event .session (.terminal st)) sender.metadata db).row =
        some row' ∧
      (row'.status.isTerminal = false → row.status.isTerminal = false) ∧
      (row'.cumQty = row.cumQty ∨
        row'.cumQty = st.executedQty ∧ row.status.isTerminal = false ∧
          EPS < st.executedQty - row.cumQty ∧ ¬ Fails (fates.headD []) ∧
          (row'.status.isTerminal = false → st.executedQty < row.originalQty ∧
            (st.outcome = .working ∨ st.outcome = .filled ∨ Fails (fates.tail.headD [])))) := by
  have run : applyExec fates (sender.event .session (.terminal st)) sender.metadata db =
      bookReports fates sender.metadata db
        (reportsFor (sender.event .session (.terminal st)) row.cumQty row.avgPx) := by
    simp [applyExec, bookedState, Sender.event, needsBookedState, stored]
  rw [run]
  simp only [reportsFor, Sender.event]
  cases missing : missingQty row.cumQty st.executedQty with
  | none =>
    obtain ⟨row', stored', kept, why⟩ :=
      close_books reached stored fates st.outcome sender.venue sender.metadata
    exact ⟨row', stored', fun still => (why still).1, .inl kept⟩
  | some qty =>
    obtain ⟨more, rfl⟩ := missing_qty_some.mp missing
    simp only [Option.map_some, Option.toList_some, List.cons_append, List.nil_append, bookReports]
    obtain ⟨row1, stored1, still1, moved⟩ := fill_books reached stored (fates.headD [])
      s!"recon-{sender.orderId}" (st.executedQty - row.cumQty)
      (incrementPrice row.cumQty row.avgPx st.executedQty st.avgPx) sender.venue sender.metadata
    obtain ⟨row', stored', kept, why⟩ := close_books (book_report_reached reached _ _ _) stored1
      fates.tail st.outcome sender.venue sender.metadata
    refine ⟨row', stored', fun still => still1 (why still).1, ?_⟩
    rcases moved with rfl | ⟨isOpen, works, cum, room⟩
    · exact .inl kept
    · have reaches : row.cumQty + (st.executedQty - row.cumQty) = st.executedQty := by ring
      rw [reaches] at cum room
      exact .inr ⟨kept.trans cum, isOpen, more, works,
        fun still => ⟨room (why still).1, (why still).2⟩⟩

theorem start_inv : Inv .start where
  reached := .start none
  positive := by simp [LiveAndRecon.start]
  sentLe := le_refl _
  takenLe := le_refl _
  inOrder := rfl
  kinds := by simp [LiveAndRecon.start]
  reads := by simp [LiveAndRecon.start]
  within := by intro row missing; cases missing
  ahead := by intro row missing; cases missing

theorem entry_keeps {s : LiveAndRecon} (inv : Inv s) {writer : Writer}
    (entry : FromEntry writer) :
    Inv { s with db := commitNow writer s.db } := by
  have reached := commit_now_reached inv.reached writer
  have keeps : ∀ row', (commitNow writer s.db).row = some row' →
      ∃ row, s.db.row = some row ∧ row'.cumQty = row.cumQty ∧
        (row'.status.isTerminal = false → row.status.isTerminal = false) := by
    intro row' stored'
    rcases commit_now_writes (reached_numbered inv.reached) (reached_lively inv.reached) entry with
      same | ⟨kind, from_entry, write⟩
    · rw [same] at stored'
      exact ⟨row', stored', rfl, fun still => still⟩
    · obtain ⟨row, there, cum, _, _, _, still⟩ :=
        (entry_write_keeps write from_entry).2 row' stored'
      exact ⟨row, there, cum, still⟩
  refine { inv with
    reached, within := fun row' stored' => ?_, ahead := fun row' stored' isOpen => ?_ }
  · obtain ⟨row, stored, cum, _⟩ := keeps row' stored'
    exact cum ▸ inv.within row stored
  · obtain ⟨row, stored, cum, still⟩ := keeps row' stored'
    exact cum ▸ inv.ahead row stored (still isOpen)

theorem live_fill_keeps {s : LiveAndRecon} (inv : Inv s) {execution : Execution}
    {rest : List ExecKind} (head : s.channel = liveFill execution :: rest)
    (fates : List (List AttemptFate)) (sender : Sender) :
    Inv { s with
      db := applyExec fates (sender.event .session (liveFill execution)) sender.metadata s.db
      taken := s.taken + 1
      channel := rest } := by
  have order := inv.inOrder
  rw [head] at order
  simp only [List.filterMap_cons, liveFill, liveOf, List.cons_append] at order
  have short : s.taken < s.fills.length := by
    by_contra all
    rw [List.drop_eq_nil_of_le (not_lt.mp all)] at order
    cases order
  rw [List.drop_eq_getElem_cons short] at order
  obtain ⟨same, rest_order⟩ := List.cons.inj order
  have grown : total (s.fills.take (s.taken + 1)) = s.live + execution.qty := by
    rw [List.take_add_one, List.getElem?_eq_getElem short, Option.toList_some, total_append, ← same]
    simp [LiveAndRecon.live, total]
  have member : execution ∈ s.fills := by
    have there := List.getElem_mem short
    rwa [← same] at there
  have positive := inv.positive execution member
  have all := total_take_le inv.positive (s.taken + 1)
  have run : applyExec fates (sender.event .session (liveFill execution)) sender.metadata s.db =
      bookReport (fates.headD []) (.fill execution.executionId execution.qty execution.price
        sender.venue) sender.metadata s.db := rfl
  rw [run]
  have moved : ∀ row', (bookReport (fates.headD []) (.fill execution.executionId execution.qty
      execution.price sender.venue) sender.metadata s.db).row = some row' →
      ∃ row, s.db.row = some row ∧
        (row'.status.isTerminal = false → row.status.isTerminal = false) ∧
        (row'.cumQty = row.cumQty ∨
          row.status.isTerminal = false ∧ row'.cumQty = row.cumQty + execution.qty) := by
    intro row' stored'
    cases stored : s.db.row with
    | none =>
      rw [book_report_absent stored, stored] at stored'
      cases stored'
    | some row =>
      obtain ⟨found, there, still, change⟩ := fill_books inv.reached stored (fates.headD [])
        execution.executionId execution.qty execution.price sender.venue sender.metadata
      cases there.symm.trans stored'
      rcases change with rfl | ⟨isOpen, _, cum, _⟩
      · exact ⟨row', rfl, still, .inl rfl⟩
      · exact ⟨row, rfl, still, .inr ⟨isOpen, cum⟩⟩
  refine { inv with
    reached := book_report_reached inv.reached _ _ _
    takenLe := short
    inOrder := rest_order
    kinds := fun kind member => inv.kinds kind (head ▸ List.mem_cons_of_mem _ member)
    within := fun row' stored' => ?_
    ahead := fun row' stored' isOpen => ?_ }
  · obtain ⟨row, stored, _, same_cum | ⟨wasOpen, cum⟩⟩ := moved row' stored'
    · exact same_cum ▸ inv.within row stored
    · have before := inv.ahead row stored wasOpen
      linarith
  · obtain ⟨row, stored, still, same_cum | ⟨wasOpen, cum⟩⟩ := moved row' stored'
    all_goals
      have before := inv.ahead row stored (still isOpen)
      simp only [LiveAndRecon.live] at *
      linarith

theorem terminal_keeps {s : LiveAndRecon} (inv : Inv s) {st : BrokerOrderState}
    {rest : List ExecKind} (head : s.channel = .terminal st :: rest)
    {fates : List (List AttemptFate)} {sender : Sender}
    (ok : ¬ BooksAheadOfOpenOrder s (.book fates sender)) :
    Inv { s with
      db := applyExec fates (sender.event .session (.terminal st)) sender.metadata s.db
      channel := rest } := by
  have order := inv.inOrder
  rw [head] at order
  have executed : st.executedQty ≤ total s.fills := by
    rcases inv.kinds _ (head ▸ List.mem_cons_self) with ⟨execution, wrong⟩ | ⟨found, same, bound⟩
    · cases wrong
    · cases same
      exact bound
  have moved : ∀ row', (applyExec fates (sender.event .session (.terminal st)) sender.metadata
      s.db).row = some row' → row'.cumQty ≤ total s.fills ∧
        (row'.status.isTerminal = false → row'.cumQty ≤ s.live) := by
    intro row' stored'
    cases stored : s.db.row with
    | none =>
      have idle : applyExec fates (sender.event .session (.terminal st)) sender.metadata s.db =
          s.db := by
        simp [applyExec, bookedState, Sender.event, needsBookedState, stored]
      rw [idle, stored] at stored'
      cases stored'
    | some row =>
      obtain ⟨found, there, still, change⟩ := terminal_books inv.reached stored fates sender st
      cases there.symm.trans stored'
      rcases change with kept | ⟨cum, isOpen, more, works, open_why⟩
      · rw [kept]
        exact ⟨inv.within row stored, fun isOpen => inv.ahead row stored (still isOpen)⟩
      · rw [cum]
        refine ⟨executed, fun isOpen' => ?_⟩
        -- Still open: the step is no defect only if every counted event was taken.
        by_contra pending
        obtain ⟨room, why⟩ := open_why isOpen'
        refine ok ?_
        simp only [BooksAheadOfOpenOrder, head, stored]
        exact ⟨isOpen, more, not_le.mp pending, room, works, why⟩
  exact { inv with
    reached := apply_exec_reached inv.reached _ _ _
    inOrder := order
    kinds := fun kind member => inv.kinds kind (head ▸ List.mem_cons_of_mem _ member)
    within := fun row' stored' => (moved row' stored').1
    ahead := fun row' stored' => (moved row' stored').2 }

theorem executed_keeps {s : LiveAndRecon} (inv : Inv s) {execution : Execution}
    (positive : 0 < execution.qty) : Inv { s with fills := s.fills ++ [execution] } := by
  have grown : total s.fills ≤ total (s.fills ++ [execution]) := by
    rw [total_append]
    simp [total, positive.le]
  have same : total ((s.fills ++ [execution]).take s.taken) = total (s.fills.take s.taken) := by
    rw [List.take_append_of_le_length inv.takenLe]
  refine { inv with
    positive := ?_
    sentLe := by simpa using Nat.le_succ_of_le inv.sentLe
    takenLe := by simpa using Nat.le_succ_of_le inv.takenLe
    inOrder := ?_
    kinds := fun kind member => (inv.kinds kind member).imp_right fun ⟨st, same, bound⟩ =>
      ⟨st, same, bound.trans grown⟩
    reads := fun st member => (inv.reads st member).trans grown
    within := fun row stored => (inv.within row stored).trans grown
    ahead := fun row stored isOpen => (inv.ahead row stored isOpen).trans same.ge }
  · intro found member
    rcases List.mem_append.mp member with old | new
    · exact inv.positive found old
    · exact List.mem_singleton.mp new ▸ positive
  · rw [List.drop_append_of_le_length inv.sentLe, List.drop_append_of_le_length inv.takenLe,
      ← List.append_assoc, inv.inOrder]

theorem delivered_keeps {s : LiveAndRecon} (inv : Inv s) {execution : Execution}
    (next : s.fills[s.sent]? = some execution) :
    Inv { s with channel := s.channel ++ [liveFill execution], sent := s.sent + 1 } := by
  obtain ⟨short, same⟩ := List.getElem?_eq_some_iff.mp next
  refine { inv with
    sentLe := short
    inOrder := ?_
    kinds := ?_ }
  · rw [← inv.inOrder, List.drop_eq_getElem_cons short, same]
    simp [liveFill, liveOf]
  · intro kind member
    rcases List.mem_append.mp member with old | new
    · exact inv.kinds kind old
    · exact .inl ⟨execution, List.mem_singleton.mp new⟩

theorem enqueued_keeps {s : LiveAndRecon} (inv : Inv s) {i : Nat} {st : BrokerOrderState}
    (read : s.reads[i]? = some st) :
    Inv { s with channel := s.channel ++ [.terminal st], reads := s.reads.eraseIdx i } := by
  refine { inv with
    inOrder := ?_
    kinds := ?_
    reads := fun found member => inv.reads found (List.mem_of_mem_eraseIdx member) }
  · rw [← inv.inOrder]
    simp [liveOf]
  · intro kind member
    rcases List.mem_append.mp member with old | new
    · exact inv.kinds kind old
    · exact .inr ⟨st, List.mem_singleton.mp new, inv.reads st (List.mem_of_getElem? read)⟩

theorem submitted_keeps {s : LiveAndRecon} (inv : Inv s) {cmd : SubmitOrder}
    {metadata : EventMetadata} {code : String} {createdAt : Nat} {committed : OrderDb}
    (inserted : submitTx cmd metadata code createdAt s.db = .ok committed) :
    Inv { s with db := committed } := by
  have num := reached_numbered inv.reached
  obtain ⟨_, _, event, _, _, _, _, same⟩ := submit_tx_inserts num inserted
  have fresh : ∀ row, committed.row = some row → row.cumQty = 0 := by
    intro row stored
    rw [same] at stored
    cases stored
    rfl
  refine { inv with
    reached := .write inv.reached (submit_tx_writes num inserted)
    within := fun row stored => ?_
    ahead := fun row stored _ => ?_ }
  · rw [fresh row stored]
    exact total_nonneg inv.positive
  · rw [fresh row stored]
    exact total_nonneg fun execution member => inv.positive execution (List.mem_of_mem_take member)

theorem step_keeps {s t : LiveAndRecon} {a : Action} (inv : Inv s)
    (ok : ¬ BooksAheadOfOpenOrder s a) (next : step s a = some t) : Inv t := by
  cases a with
  | submit cmd metadata code createdAt =>
    simp only [step] at next
    split at next
    · rename_i committed inserted
      cases next
      exact submitted_keeps inv inserted
    · cases next
      exact inv
  | route venue externalOrderId metadata =>
    cases next
    exact entry_keeps inv trivial
  | cancel reason metadata =>
    cases next
    exact entry_keeps inv trivial
  | execute execution =>
    simp only [step] at next
    split at next
    · rename_i positive
      cases next
      exact executed_keeps inv positive.1
    · cases next
  | deliver =>
    simp only [step] at next
    split at next
    · rename_i execution there
      cases next
      exact delivered_keeps inv there
    · cases next
  | readStatus outcome =>
    cases next
    refine { inv with reads := fun st member => ?_ }
    rcases List.mem_append.mp member with old | new
    · exact inv.reads st old
    · rw [List.mem_singleton.mp new]
  | enqueue i =>
    simp only [step] at next
    split at next
    · rename_i st there
      cases next
      exact enqueued_keeps inv there
    · cases next
  | book fates sender =>
    simp only [step] at next
    split at next
    · cases next
    · rename_i kind rest head
      cases next
      rcases inv.kinds kind (head ▸ List.mem_cons_self) with ⟨execution, rfl⟩ | ⟨st, rfl, _⟩
      · exact live_fill_keeps inv head fates sender
      · exact terminal_keeps inv head ok

/-- As long as no status is booked ahead of the live events of an order it
    leaves open, the books never exceed what the venue has executed. -/
theorem booked_within_executed (as : List Action)
    (steps : Along step (fun s a => ¬ BooksAheadOfOpenOrder s a) .start as) :
    Throughout step BookedWithinExecuted .start as :=
  throughout_mono (fun _ inv row stored => Inv.within inv row stored)
    (throughout_along (fun _ _ _ inv ok next => step_keeps inv ok next) start_inv steps)

def reconciler : Sender := ⟨"o1", "V", "v", stamp⟩

def canceledRun : List Action :=
  [.submit buyTen stamp "paper" 0, .route "V" "v-1" stamp, .execute ⟨"x1", 4, 100⟩, .deliver,
    .book [] reconciler, .execute ⟨"x2", 2, 100⟩, .readStatus .canceled, .enqueue 0, .deliver,
    .book [] reconciler, .book [] reconciler]

theorem canceled_run_within_executed :
    Throughout step BookedWithinExecuted .start canceledRun :=
  booked_within_executed canceledRun (by decide +kernel)

/-- Recon reads four executed of an order that still works and books them; the
    live event of the same four arrives and books them again. -/
theorem working_status_books_twice :
    ¬ ∀ as, Throughout step BookedWithinExecuted .start as := by
  intro always
  have last := throughout_end (always [.submit buyTen stamp "paper" 0, .route "V" "v-1" stamp,
    .execute ⟨"x1", 4, 100⟩, .readStatus .working, .enqueue 0, .book [] reconciler, .deliver,
    .book [] reconciler])
  revert last
  decide +kernel

end OmsLiveAndRecon
