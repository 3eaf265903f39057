import OpenOms.Scope
import OpenOms.Systems.LifeSteps

/-!
Every execution of the venue reaches the books once. The unbooked quantity of an
order is followed from the venue through the queue and the engine's job into
`cum_qty` and the position. What the engine applies it applies without asking
whether it has seen the execution before, and a terminal order takes no more.
-/
namespace OmsFillDelivery
open OmsOrders OmsAggregate OmsPositions OmsOrderStore OmsExecution OmsOrderEntry OmsOrderWrites
open OmsGateway OmsOrderEngine OmsRiskEngine OmsScope OmsOrderLife OmsLifeSteps Runs

def fillQty : ExecutionReport → ℚ
  | .fill _ qty _ _ => qty
  | _ => 0

def closes : ExecutionReport → Bool
  | .fill .. => false
  | _ => true

/-- The reports the engine has still to apply, in order. The events of a venue
    that reports single fills need no booked state. -/
def ahead (s : Life) : List ExecutionReport :=
  jobReports s.job ++ s.queue.flatMap (fun event => reportsFor event 0 none)

def undelivered (fills : List VenueFill) : ℚ :=
  ((fills.filter (·.deliveries = 0)).map (·.execution.qty)).sum

def unbooked (s : Life) : ℚ := undelivered s.venue.fills + ((ahead s).map fillQty).sum

/-- The venue will execute nothing more: it is done with the order, or the order
    was never sent and will not be. -/
def ended (s : Life) : Bool :=
  s.venue.status = .closed || s.venue.status = .refused ||
    (s.stage = .returned && s.venue.status = .unsent)

def Settled (s : Life) : Prop :=
  s.job = none ∧ s.queue = [] ∧ ∀ fill ∈ s.venue.fills, fill.deliveries ≠ 0

instance (s : Life) : Decidable (Settled s) := by
  unfold Settled
  infer_instance

/-- Once all is processed the books show the venue's fills: in `cum_qty` and in
    what the position has moved since `position`. -/
def BooksFills (position : Option PositionMath) (s : Life) : Prop :=
  Settled s → ∀ row, s.db.row = some row → row.cumQty = s.venue.executed ∧
    positionQty s.db.position - positionQty position = row.side.signed s.venue.executed

/-- Reconcile passes, storage failures of the engine and venues that report
    cumulative quantities: not part of this account. -/
def outside : Action → Bool
  | .recon _ | .engine .fail | .venue (.deliverCumulative _) => true
  | _ => false

def redelivers (s : Life) : Action → Bool
  | .venue (.deliverFill i) => s.venue.fills[i]?.any (·.deliveries ≠ 0)
  | _ => false

def confirmsEarly (s : Life) : Action → Bool
  | .venue (.deliverCanceled _) => s.venue.fills.any (·.deliveries = 0)
  | _ => false

/-- A cancel that found no venue id commits while the venue may execute more, or
    has executed what is not booked. -/
def cancelsUnfinished (s : Life) : Action → Bool
  | .cancel (.write i _ _) =>
    match s.cancels[i]?, s.db.row with
    | some (.locally snapshot), some row =>
      snapshot.version = row.version && !(ended s && unbooked s = 0)
    | _, _ => false
  | _ => false

def Disturbs (s : Life) (a : Action) : Prop :=
  outside a ∨ redelivers s a ∨ confirmsEarly s a ∨ cancelsUnfinished s a

instance (s : Life) (a : Action) : Decidable (Disturbs s a) := by
  unfold Disturbs
  infer_instance

/-- What is on its way from the venue to the books. Once a closing report is, the
    venue is done and nothing but closing reports follows. -/
structure Flow (venue : Venue) (ahead : List ExecutionReport) : Prop where
  unfilled : venue.status ≠ .working → venue.status ≠ .closed → venue.fills = []
  fills : ∀ fill ∈ venue.fills, 0 < fill.execution.qty ∧ 0 < fill.execution.price
  reports : ∀ id qty price at_, .fill id qty price at_ ∈ ahead → 0 < qty ∧ 0 < price
  order : ahead.Pairwise fun a b => closes a → closes b
  closing : (∃ report ∈ ahead, closes report) →
    Gone venue ∧ ∀ fill ∈ venue.fills, fill.deliveries ≠ 0

/-- The order's books against the venue's. A terminal row has nothing coming. -/
structure Balanced (row : OrderRow) (ended : Bool) (executed unbooked : ℚ) : Prop where
  balance : row.cumQty + unbooked = executed
  within : executed ≤ row.originalQty
  final : row.status.isTerminal = true → unbooked = 0 ∧ (ended = true ∨ executed = row.originalQty)

/-- How often an order can still be changed under a report's attempt. -/
def rank : OrderStatus → Nat
  | .submitted => 0
  | .filled | .rejected | .canceled | .expired => 2
  | _ => 1

/-- An attempt has lost no more races than the order has had changes, and a row
    read before the last of them is of a lower rank. -/
def Raced (row : OrderRow) (attempt : Nat) (read : Option OrderRow) : Prop :=
  attempt ≤ rank row.status ∧ ∀ snapshot ∈ read,
    attempt ≤ rank snapshot.status ∧ snapshot.cumQty = row.cumQty ∧
      snapshot.originalQty = row.originalQty ∧
      (snapshot.toOrderAggregateState = row.toOrderAggregateState ∨
        rank snapshot.status < rank row.status)

def isLive : ExecKind → Bool
  | .fill .. | .canceled _ | .rejected _ => true
  | _ => false

def positionFor (position : Option PositionMath) (row : Option OrderRow) : ℚ :=
  positionQty position +
    match row with
    | some row => row.side.signed row.cumQty
    | none => 0

structure Delivering (position : Option PositionMath) (s : Life) : Prop where
  wired : Wired s
  unsent : Early s.stage → s.venue.status = .unsent
  rowless : s.db.row = none → (s.stage = .idle ∨ s.stage = .returned) ∧
    s.venue.status = .unsent ∧ s.job = none ∧ s.queue = []
  stored : ∀ quantity row, s.stage = .stored quantity → s.db.row = some row →
    quantity = row.originalQty
  quoted : ∀ row, s.db.row = some row →
    s.venue.status = .pending ∨ s.venue.status = .working → s.venue.quantity = row.originalQty
  live : ∀ event ∈ s.queue, isLive event.kind = true
  job : ∀ job, s.job = some job → ∃ report attempt read, job = .booking [report] attempt read
  flow : Flow s.venue (ahead s)
  balanced : ∀ row, s.db.row = some row → Balanced row (ended s) s.venue.executed (unbooked s)
  raced : ∀ row reports attempt read, s.db.row = some row →
    s.job = some (.booking reports attempt read) → Raced row attempt read
  position : positionQty s.db.position = positionFor position s.db.row

theorem start_delivering (position : Option PositionMath) :
    Delivering position (.start position) where
  wired := start_wired position
  unsent := fun _ => rfl
  rowless := fun _ => ⟨.inl rfl, rfl, rfl, rfl⟩
  stored := by intro _ _ wrong; cases wrong
  quoted := by intro _ missing; cases missing
  live := by intro _ missing; cases missing
  job := by intro _ missing; cases missing
  flow :=
    { unfilled := fun _ _ => rfl
      fills := by intro _ missing; cases missing
      reports := by intro _ _ _ _ missing; cases missing
      order := .nil
      closing := by rintro ⟨_, missing, _⟩; cases missing }
  balanced := by intro _ missing; cases missing
  raced := by intro _ _ _ _ missing; cases missing
  position := by simp [Life.start, positionFor]

theorem delivering_books {position : Option PositionMath} {s : Life}
    (delivering : Delivering position s) : BooksFills position s := by
  rintro ⟨idle, empty, delivered⟩ row stored
  have none_left : unbooked s = 0 := by
    have filtered : s.venue.fills.filter (·.deliveries = 0) = [] := by
      rw [List.filter_eq_nil_iff]
      intro fill member
      simpa using delivered fill member
    simp [unbooked, undelivered, ahead, jobReports, idle, empty, filtered]
  have balance := (delivering.balanced row stored).balance
  rw [none_left, add_zero] at balance
  have moved := delivering.position
  simp only [positionFor, stored, balance] at moved
  exact ⟨balance, by rw [moved]; ring⟩

theorem live_report {event : ExecEvent} (live : isLive event.kind = true) :
    needsBookedState event.kind = false ∧
      ∃ report, ∀ cum avg, reportsFor event cum avg = [report] := by
  obtain ⟨orderId, venue, actor, source, kind⟩ := event
  cases kind with
  | fill executionId qty price => exact ⟨rfl, _, fun _ _ => rfl⟩
  | canceled reason => exact ⟨rfl, _, fun _ _ => rfl⟩
  | rejected reason => exact ⟨rfl, _, fun _ _ => rfl⟩
  | _ => cases live

/-- What order entry does to a stored row: its quantities stay, and unless only a
    venue id is recorded it moves up in rank. -/
structure Overtakes (kind : WriteKind) (row row' : OrderRow) : Prop where
  cum : row'.cumQty = row.cumQty
  original : row'.originalQty = row.originalQty
  side : row'.side = row.side
  moved : row'.toOrderAggregateState = row.toOrderAggregateState ∨
    rank row.status < rank row'.status
  closed : row'.status.isTerminal = true → row.status.isTerminal = true ∨ kind = .localCancel

theorem open_rank {status : OrderStatus} (isOpen : status.isTerminal = false) :
    rank status < 2 := by
  cases status <;> simp_all [OrderStatus.isTerminal, rank]

theorem entry_overtakes {db db' : OrderDb} {kind : WriteKind} (write : Write db kind db')
    (entry : kind.fromEntry) :
    (∀ row', db'.row = some row' → ∃ row, db.row = some row ∧ Overtakes kind row row') ∧
      (db'.row = none → db.row = none) ∧ db'.position = db.position := by
  have position := (entry_write_keeps write entry).1
  refine ⟨?_, ?_, position⟩
  · intro row' stored'
    obtain ⟨row, stored, cum, original, _, side, _⟩ :=
      (entry_write_keeps write entry).2 row' stored'
    refine ⟨row, stored, ?_⟩
    cases write with
    | submitted => cases entry
    | reported => cases entry
    | routed found venue externalOrderId event there submitted yields =>
      cases stored.symm.trans there
      cases stored'
      refine ⟨cum, original, side, .inr ?_, fun closed => by cases closed⟩
      rw [submitted]
      exact Nat.zero_lt_one
    | canceled found reason event there isOpen yields =>
      cases stored.symm.trans there
      cases stored'
      exact ⟨cum, original, side, .inr (open_rank isOpen), fun _ => .inr rfl⟩
    | recorded externalOrderId =>
      simp only [recordExternalId, stored, Option.map_some, Option.some.injEq] at stored'
      subst stored'
      exact ⟨cum, original, side, .inl rfl, .inl⟩
  · intro missing
    cases write with
    | recorded externalOrderId => simpa [recordExternalId] using missing
    | submitted => cases entry
    | _ => cases missing

theorem raced_overtaken {kind : WriteKind} {row row' : OrderRow} {attempt : Nat}
    {read : Option OrderRow} (raced : Raced row attempt read) (moves : Overtakes kind row row') :
    Raced row' attempt read := by
  obtain ⟨tried, known⟩ := raced
  have rises : rank row.status ≤ rank row'.status := by
    rcases moves.moved with same | above
    · rw [same]
    · exact above.le
  refine ⟨tried.trans rises, fun snapshot isRead => ?_⟩
  obtain ⟨triedThen, cum, original, seen⟩ := known snapshot isRead
  refine ⟨triedThen, cum.trans moves.cum.symm, original.trans moves.original.symm, ?_⟩
  rcases seen with same | below
  · rcases moves.moved with unmoved | above
    · exact .inl (same.trans unmoved.symm)
    · exact .inr (by rw [same]; exact above)
  · exact .inr (below.trans_le rises)

theorem balanced_overtaken {kind : WriteKind} {row row' : OrderRow} {isEnded isEnded' : Bool}
    {executed unbooked : ℚ} (balanced : Balanced row isEnded executed unbooked)
    (moves : Overtakes kind row row') (still : isEnded = true → isEnded' = true)
    (finished : kind = .localCancel → isEnded = true ∧ unbooked = 0) :
    Balanced row' isEnded' executed unbooked := by
  refine ⟨by rw [moves.cum]; exact balanced.balance, by rw [moves.original]; exact balanced.within,
    fun closed => ?_⟩
  rw [moves.original]
  rcases moves.closed closed with was | canceled
  · obtain ⟨booked, done⟩ := balanced.final was
    exact ⟨booked, done.imp_left still⟩
  · obtain ⟨done, booked⟩ := finished canceled
    exact ⟨booked, .inl (still done)⟩

/-- The steps that leave the flow alone: whatever stage the submit is in and
    whatever order entry writes. -/
theorem entry_delivers {sender : Sender} {position : Option PositionMath} {s t : Life} {a : Action}
    (delivering : Delivering position s) (next : step sender s a = some t)
    (entry : t.db = s.db ∨ ∃ kind, Write s.db kind t.db ∧ kind.fromEntry ∧
      (kind = .localCancel → ended s = true ∧ unbooked s = 0))
    (venue : t.venue.status = s.venue.status ∧ t.venue.quantity = s.venue.quantity ∧
      t.venue.fills = s.venue.fills) (queue : t.queue = s.queue) (job : t.job = s.job)
    (stored : ∀ quantity, t.stage = .stored quantity → s.stage = .stored quantity)
    (settled : s.db.row = none → t.stage = .idle ∨ t.stage = .returned)
    (returned : s.stage = .returned → t.stage = .returned) : Delivering position t := by
  obtain ⟨status, quantity, fills⟩ := venue
  have sameAhead : ahead t = ahead s := by rw [ahead, ahead, queue, job]
  have sameUnbooked : unbooked t = unbooked s := by rw [unbooked, unbooked, fills, sameAhead]
  have sameExecuted : t.venue.executed = s.venue.executed := by
    rw [Venue.executed, Venue.executed, fills]
  have still : ended s = true → ended t = true := by
    simp only [ended, status, Bool.or_eq_true, Bool.and_eq_true, decide_eq_true_eq]
    exact Or.imp_right fun never => ⟨returned never.1, never.2⟩
  have rows : (∀ row', t.db.row = some row' → ∃ row kind, s.db.row = some row ∧
      Overtakes kind row row' ∧ (kind = .localCancel → ended s = true ∧ unbooked s = 0)) ∧
      (t.db.row = none → s.db.row = none) ∧ t.db.position = s.db.position := by
    rcases entry with same | ⟨kind, write, entry, finished⟩
    · rw [same]
      exact ⟨fun row stored => ⟨row, .recordId "", stored,
        ⟨rfl, rfl, rfl, .inl rfl, .inl⟩, fun wrong => by cases wrong⟩, id, rfl⟩
    · obtain ⟨overtakes, absent, unmoved⟩ := entry_overtakes write entry
      refine ⟨fun row' stored' => ?_, absent, unmoved⟩
      obtain ⟨row, stored, moves⟩ := overtakes row' stored'
      exact ⟨row, kind, stored, moves, finished⟩
  obtain ⟨overtaken, absent, unmoved⟩ := rows
  refine
    { wired := step_wired delivering.wired next
      unsent := step_unsent next delivering.unsent
      rowless := fun missing => ?_
      stored := fun quantity row' isStored stored' => ?_
      quoted := fun row' stored' waits => ?_
      live := by rw [queue]; exact delivering.live
      job := by rw [job]; exact delivering.job
      flow := ?_
      balanced := fun row' stored' => ?_
      raced := fun row' reports attempt read stored' booking => ?_
      position := ?_ }
  · obtain ⟨_, unsent, idle, empty⟩ := delivering.rowless (absent missing)
    exact ⟨settled (absent missing), status.trans unsent, job.trans idle, queue.trans empty⟩
  · obtain ⟨row, kind, there, moves, _⟩ := overtaken row' stored'
    rw [moves.original]
    exact delivering.stored quantity row (stored quantity isStored) there
  · obtain ⟨row, kind, there, moves, _⟩ := overtaken row' stored'
    rw [moves.original, quantity]
    exact delivering.quoted row there (status ▸ waits)
  · rw [sameAhead]
    have flow := delivering.flow
    refine ⟨?_, by rw [fills]; exact flow.fills, flow.reports, flow.order, ?_⟩
    · rw [status, fills]
      exact flow.unfilled
    · rw [Gone, status, fills]
      exact flow.closing
  · obtain ⟨row, kind, there, moves, finished⟩ := overtaken row' stored'
    rw [sameUnbooked, sameExecuted]
    exact balanced_overtaken (delivering.balanced row there) moves still finished
  · obtain ⟨row, kind, there, moves, _⟩ := overtaken row' stored'
    exact raced_overtaken (delivering.raced row reports attempt read there (job ▸ booking)) moves
  · rw [unmoved, delivering.position]
    unfold positionFor
    cases stored' : t.db.row with
    | none => rw [absent stored']
    | some row' =>
      obtain ⟨row, kind, there, moves, _⟩ := overtaken row' stored'
      simp only [there, moves.side, moves.cum]

theorem venue_delivers {sender : Sender} {position : Option PositionMath} {s t : Life} {a : Action}
    (delivering : Delivering position s) (next : step sender s a = some t) (db : t.db = s.db)
    (job : t.job = s.job) {row : OrderRow} (there : s.db.row = some row)
    (stored : ∀ quantity, t.stage = .stored quantity → s.stage = .stored quantity)
    (quoted : t.venue.status = .pending ∨ t.venue.status = .working →
      t.venue.quantity = row.originalQty)
    (live : ∀ event ∈ t.queue, isLive event.kind = true) (flow : Flow t.venue (ahead t))
    (balanced : Balanced row (ended t) t.venue.executed (unbooked t)) : Delivering position t where
  wired := step_wired delivering.wired next
  unsent := step_unsent next delivering.unsent
  rowless := by
    simp [db, there]
  stored quantity found isStored isRow :=
    delivering.stored quantity found (stored quantity isStored) (db ▸ isRow)
  quoted found isRow waits := by
    rw [db] at isRow
    cases there.symm.trans isRow
    exact quoted waits
  live := live
  job := by rw [job]; exact delivering.job
  flow := flow
  balanced found isRow := by
    rw [db] at isRow
    cases there.symm.trans isRow
    exact balanced
  raced found reports attempt read isRow booking :=
    delivering.raced found reports attempt read (db ▸ isRow) (job ▸ booking)
  position := by rw [db]; exact delivering.position

theorem row_there {position : Option PositionMath} {s : Life} (delivering : Delivering position s)
    (known : s.venue.status ≠ .unsent ∨ (∃ quantity, s.stage = .stored quantity)) :
    ∃ row, s.db.row = some row := by
  cases there : s.db.row with
  | some row => exact ⟨row, rfl⟩
  | none =>
    obtain ⟨stage, unsent, _⟩ := delivering.rowless there
    rcases known with sent | ⟨quantity, stored⟩
    · exact absurd unsent sent
    · rcases stage with idle | returned <;> simp_all

theorem ahead_queued {s t : Life} {event : ExecEvent} {report : ExecutionReport}
    (job : t.job = s.job) (queue : t.queue = s.queue ++ [event])
    (reports : ∀ cum avg, reportsFor event cum avg = [report]) : ahead t = ahead s ++ [report] := by
  simp [ahead, job, queue, reports]

theorem live_queued {position : Option PositionMath} {s : Life} {event : ExecEvent}
    (delivering : Delivering position s) (live : isLive event.kind = true) :
    ∀ queued ∈ s.queue ++ [event], isLive queued.kind = true := by
  intro queued member
  rcases List.mem_append.mp member with old | new
  · exact delivering.live queued old
  · cases List.mem_singleton.mp new
    exact live

theorem closing_delivers {sender : Sender} {position : Option PositionMath} {s t : Life}
    {a : Action}
    (delivering : Delivering position s) (next : step sender s a = some t) (db : t.db = s.db)
    (job : t.job = s.job) {row : OrderRow} (there : s.db.row = some row)
    (stored : ∀ quantity, t.stage ≠ .stored quantity ∨ s.stage = .stored quantity)
    (fills : t.venue.fills = s.venue.fills) (gone : Gone t.venue)
    (delivered : ∀ fill ∈ s.venue.fills, fill.deliveries ≠ 0)
    (unfilled : t.venue.status ≠ .closed → s.venue.fills = [])
    {event : ExecEvent} {report : ExecutionReport} (queue : t.queue = s.queue ++ [event])
    (live : isLive event.kind = true) (reports : ∀ cum avg, reportsFor event cum avg = [report])
    (isClosing : closes report = true) : Delivering position t := by
  have grown := ahead_queued job queue reports
  have noFill : fillQty report = 0 := by cases report <;> simp_all [closes, fillQty]
  have same : unbooked t = unbooked s := by simp [unbooked, fills, grown, noFill]
  have executed : t.venue.executed = s.venue.executed := by simp [Venue.executed, fills]
  have flow := delivering.flow
  refine venue_delivers delivering next db job there (fun quantity isStored => ?_) (fun waits => ?_)
    (queue ▸ live_queued delivering live) ?_ ?_
  · exact (stored quantity).resolve_left (not_not.mpr isStored)
  · rcases gone with closed | refused <;> rcases waits with pending | working <;> simp_all
  · rw [grown]
    refine ⟨fun _ notClosed => fills ▸ unfilled notClosed, by rw [fills]; exact flow.fills, ?_, ?_,
      fun _ => ⟨gone, by rw [fills]; exact delivered⟩⟩
    · intro id qty price at_ member
      rcases List.mem_append.mp member with old | new
      · exact flow.reports id qty price at_ old
      · cases List.mem_singleton.mp new
        cases isClosing
    · refine List.pairwise_append.mpr ⟨flow.order, List.pairwise_singleton _ _, ?_⟩
      intro earlier _ later member _
      cases List.mem_singleton.mp member
      exact isClosing
  · obtain ⟨balance, within, final⟩ := delivering.balanced row there
    rw [same, executed]
    refine ⟨balance, within, fun closed => ⟨(final closed).1, .inl ?_⟩⟩
    rcases gone with closed | refused <;> simp [ended, *]

theorem status_delivers {sender : Sender} {position : Option PositionMath} {s t : Life} {a : Action}
    (delivering : Delivering position s) (next : step sender s a = some t) (db : t.db = s.db)
    (job : t.job = s.job) (queue : t.queue = s.queue) {row : OrderRow}
    (there : s.db.row = some row)
    (stored : ∀ quantity, t.stage = .stored quantity → s.stage = .stored quantity)
    (quoted : t.venue.status = .pending ∨ t.venue.status = .working →
      t.venue.quantity = row.originalQty)
    (fills : t.venue.fills = s.venue.fills) (waiting : ¬ Gone s.venue) (active : ended s = false)
    (unfilled : t.venue.status = .working ∨ t.venue.status = .closed ∨ s.venue.fills = []) :
    Delivering position t := by
  have sameAhead : ahead t = ahead s := by rw [ahead, ahead, queue, job]
  have flow := delivering.flow
  refine venue_delivers delivering next db job there stored quoted (queue ▸ delivering.live) ?_ ?_
  · rw [sameAhead]
    refine ⟨fun notWorking notClosed => ?_, by rw [fills]; exact flow.fills, flow.reports,
      flow.order, fun closing => absurd (flow.closing closing).1 waiting⟩
    rw [fills]
    exact (unfilled.resolve_left notWorking).resolve_left notClosed
  · obtain ⟨balance, within, final⟩ := delivering.balanced row there
    rw [unbooked, sameAhead, fills, Venue.executed, fills]
    refine ⟨balance, within, fun closed => ?_⟩
    obtain ⟨booked, done⟩ := final closed
    rw [active] at done
    exact ⟨booked, .inr (done.resolve_left Bool.false_ne_true)⟩

theorem execute_delivers {sender : Sender} {position : Option PositionMath} {s t : Life}
    {execution : Execution} (delivering : Delivering position s)
    (next : step sender s (.venue (.execute execution)) = some t) : Delivering position t := by
  have taken := next
  simp only [step, venueStep] at taken
  split at taken
  · rename_i fits
    obtain ⟨working, positive, priced, room⟩ := fits
    cases taken
    obtain ⟨row, there⟩ := row_there delivering (.inl (by simp [working]))
    have quantity := delivering.quoted row there (.inr working)
    have flow := delivering.flow
    have waiting : ¬ Gone s.venue := by rintro (closed | refused) <;> simp_all
    refine venue_delivers delivering next rfl rfl there (fun _ => id) (fun _ => quantity)
      delivering.live ?_ ?_
    · refine ⟨fun notWorking => absurd working notWorking, ?_, flow.reports, flow.order,
        fun closing => absurd (flow.closing closing).1 waiting⟩
      intro fill member
      rcases List.mem_append.mp member with old | new
      · exact flow.fills fill old
      · cases List.mem_singleton.mp new
        exact ⟨positive, priced⟩
    · obtain ⟨balance, within, final⟩ := delivering.balanced row there
      have executed : Venue.executed { s.venue with
          fills := s.venue.fills ++ [⟨execution, 0⟩] } = s.venue.executed + execution.qty := by
        simp [Venue.executed]
      have more : undelivered (s.venue.fills ++ [⟨execution, 0⟩]) =
          undelivered s.venue.fills + execution.qty := by
        simp [undelivered, List.filter_append]
      rw [executed, unbooked, more]
      refine ⟨?_, by linarith, fun closed => ?_⟩
      · rw [← balance, unbooked]
        change row.cumQty + (undelivered s.venue.fills + execution.qty +
          ((ahead s).map fillQty).sum) = _
        ring
      · obtain ⟨_, done⟩ := final closed
        have notEnded : ended s = false := by simp [ended, working]
        rw [notEnded] at done
        have full := done.resolve_left Bool.false_ne_true
        linarith
  · cases taken

theorem undelivered_set {fills : List VenueFill} {i : Nat} {execution : Execution}
    (there : fills[i]? = some ⟨execution, 0⟩) :
    undelivered (fills.set i ⟨execution, 1⟩) = undelivered fills - execution.qty := by
  induction fills generalizing i with
  | nil => cases there
  | cons fill fills ih =>
    cases i with
    | zero =>
      cases there
      simp [undelivered]
    | succ i =>
      have rest := ih there
      simp only [undelivered, List.set_cons_succ, List.filter_cons] at *
      split
      · simp only [List.map_cons, List.sum_cons, rest]
        ring
      · exact rest

theorem executed_set {fills : List VenueFill} {i : Nat} {execution : Execution} {deliveries : Nat}
    (there : fills[i]? = some ⟨execution, deliveries⟩) (now : Nat) :
    ((fills.set i ⟨execution, now⟩).map (·.execution.qty)).sum =
      (fills.map (·.execution.qty)).sum := by
  induction fills generalizing i with
  | nil => cases there
  | cons fill fills ih =>
    cases i with
    | zero =>
      cases there
      simp
    | succ i =>
      have rest := ih there
      simp only [List.set_cons_succ, List.map_cons, List.sum_cons, rest]

theorem fill_delivers {sender : Sender} {position : Option PositionMath} {s t : Life} {i : Nat}
    (delivering : Delivering position s)
    (first : redelivers s (.venue (.deliverFill i)) = false)
    (next : step sender s (.venue (.deliverFill i)) = some t) : Delivering position t := by
  have taken := next
  simp only [step, venueStep] at taken
  split at taken
  · rename_i execution deliveries listed
    have new : deliveries = 0 := by simpa [redelivers, listed] using first
    subst new
    have effect := (Option.some.inj taken).symm
    have queue : t.queue = s.queue ++ [sender.event .session
        (.fill execution.executionId execution.qty execution.price)] := by rw [effect]
    have fills : t.venue.fills = s.venue.fills.set i ⟨execution, 1⟩ := by rw [effect]
    have status : t.venue.status = s.venue.status := by rw [effect]
    have isEnded : ended t = ended s := by rw [effect]; rfl
    have grown := ahead_queued (by rw [effect] : t.job = s.job) queue (fun _ _ => rfl)
    have flow := delivering.flow
    have member := List.mem_of_getElem? listed
    obtain ⟨positive, priced⟩ := flow.fills _ member
    have sent : s.venue.status ≠ .unsent := by
      intro unsent
      rw [flow.unfilled (by simp [unsent]) (by simp [unsent])] at member
      cases member
    obtain ⟨row, there⟩ := row_there delivering (.inl sent)
    have noClosing : ¬ ∃ report ∈ ahead s, closes report = true := fun closing =>
      (flow.closing closing).2 _ member rfl
    refine venue_delivers delivering next (by rw [effect]) (by rw [effect]) there
      (by rw [effect]; exact fun _ => id) (by rw [effect]; exact delivering.quoted row there)
      (queue ▸ live_queued delivering rfl) ?_ ?_
    · rw [grown]
      refine ⟨fun notWorking notClosed => ?_, ?_, ?_, ?_, ?_⟩
      · rw [status] at notWorking notClosed
        rw [flow.unfilled notWorking notClosed] at member
        cases member
      · rw [fills]
        intro fill inside
        rcases List.mem_or_eq_of_mem_set inside with old | rfl
        · exact flow.fills fill old
        · exact ⟨positive, priced⟩
      · intro id qty price at_ inside
        rcases List.mem_append.mp inside with old | added
        · exact flow.reports id qty price at_ old
        · cases List.mem_singleton.mp added
          exact ⟨positive, priced⟩
      · refine List.pairwise_append.mpr ⟨flow.order, List.pairwise_singleton _ _, ?_⟩
        intro earlier inside later _ isClosing
        exact absurd ⟨earlier, inside, isClosing⟩ noClosing
      · rintro ⟨report, inside, isClosing⟩
        rcases List.mem_append.mp inside with old | added
        · exact absurd ⟨report, old, isClosing⟩ noClosing
        · cases List.mem_singleton.mp added
          cases isClosing
    · have executed : t.venue.executed = s.venue.executed := by
        rw [Venue.executed, fills, executed_set listed]
        rfl
      have same : unbooked t = unbooked s := by
        simp only [unbooked, fills, grown, undelivered_set listed, List.map_append,
          List.sum_append, List.map_cons, List.map_nil, List.sum_singleton, fillQty]
        ring
      rw [same, executed, isEnded]
      exact delivering.balanced row there
  · cases taken

theorem engine_delivers {sender : Sender} {position : Option PositionMath} {s t : Life} {a : Action}
    (delivering : Delivering position s) (next : step sender s a = some t) (db : t.db = s.db)
    (venue : t.venue = s.venue) (stage : t.stage = s.stage) (sameAhead : ahead t = ahead s)
    (live : ∀ event ∈ t.queue, event ∈ s.queue) {row : OrderRow} (there : s.db.row = some row)
    {report : ExecutionReport} {attempt : Nat} {read : Option OrderRow}
    (job : t.job = some (.booking [report] attempt read)) (raced : Raced row attempt read) :
    Delivering position t where
  wired := step_wired delivering.wired next
  unsent := step_unsent next delivering.unsent
  rowless := by
    simp [db, there]
  stored := by rw [stage, db]; exact delivering.stored
  quoted := by rw [venue, db]; exact delivering.quoted
  live event member := delivering.live event (live event member)
  job found isOn := ⟨report, attempt, read, (Option.some.inj (job.symm.trans isOn)).symm⟩
  flow := by rw [venue, sameAhead]; exact delivering.flow
  balanced := by
    rw [db, unbooked, ended, venue, stage, sameAhead]
    exact delivering.balanced
  raced found reports tried seen isRow booking := by
    rw [db] at isRow
    cases there.symm.trans isRow
    cases job.symm.trans booking
    exact raced
  position := by rw [db]; exact delivering.position

theorem take_delivers {sender : Sender} {position : Option PositionMath} {s t : Life}
    (delivering : Delivering position s) (next : step sender s (.engine .take) = some t) :
    Delivering position t := by
  have taken := next
  simp only [step, engineStep] at taken
  split at taken
  · rename_i event queue idle queued
    have live := delivering.live event (by rw [queued]; exact List.mem_cons_self)
    obtain ⟨unneeded, report, reports⟩ := live_report live
    have row : ∃ row, s.db.row = some row := by
      cases there : s.db.row with
      | some row => exact ⟨row, rfl⟩
      | none =>
        rw [(delivering.rowless there).2.2.2] at queued
        cases queued
    obtain ⟨row, there⟩ := row
    split at taken
    · rename_i venueOrderId ack
      rw [ack] at live
      cases live
    · simp only [bookedState, unneeded, Bool.false_eq_true, if_false, reports] at taken
      have effect := (Option.some.inj taken).symm
      refine engine_delivers delivering next
        (by rw [effect]) (by rw [effect]) (by rw [effect]) ?_ ?_
        there (by rw [effect]; rfl : t.job = some (.booking [report] 0 none))
        ⟨Nat.zero_le _, by rintro _ ⟨⟩⟩
      · simp [ahead, effect, idle, queued, jobReports, jobFor, reports]
      · rw [effect, queued]
        exact fun event member => List.mem_cons_of_mem _ member
  · cases taken

theorem read_delivers {sender : Sender} {position : Option PositionMath} {s t : Life}
    (delivering : Delivering position s) (next : step sender s (.engine .read) = some t) :
    Delivering position t := by
  have taken := next
  simp only [step, engineStep] at taken
  split at taken
  · rename_i reports attempt row booking there
    obtain ⟨report, tried, read, same⟩ := delivering.job _ booking
    cases same
    have effect := (Option.some.inj taken).symm
    have raced := delivering.raced row _ _ _ there booking
    refine engine_delivers delivering next (by rw [effect]) (by rw [effect]) (by rw [effect]) ?_
      (by rw [effect]; exact fun _ => id) there
      (by rw [effect] : t.job = some (.booking [report] attempt (some row))) ⟨raced.1, ?_⟩
    · simp [ahead, effect, booking, jobReports]
    · rintro snapshot ⟨⟩
      exact ⟨raced.1, rfl, rfl, .inl rfl⟩
  · rename_i booking there
    rw [(delivering.rowless there).2.2.1] at booking
    cases booking
  · rename_i routing _
    obtain ⟨_, _, _, wrong⟩ := delivering.job _ routing
    cases wrong
  · cases taken

theorem fill_qty_nonneg {venue : Venue} {ahead : List ExecutionReport} (flow : Flow venue ahead) :
    0 ≤ (ahead.map fillQty).sum := by
  refine List.sum_nonneg ?_
  intro qty member
  obtain ⟨report, inside, rfl⟩ := List.mem_map.mp member
  cases report with
  | fill id qty price at_ => exact (flow.reports id qty price at_ inside).1.le
  | _ => exact le_refl _

theorem undelivered_nonneg {venue : Venue} {ahead : List ExecutionReport}
    (flow : Flow venue ahead) :
    0 ≤ undelivered venue.fills := by
  refine List.sum_nonneg ?_
  intro qty member
  obtain ⟨fill, inside, rfl⟩ := List.mem_map.mp member
  exact (flow.fills fill (List.mem_of_mem_filter inside)).1.le

theorem flow_tail {venue : Venue} {report : ExecutionReport} {rest : List ExecutionReport}
    (flow : Flow venue (report :: rest)) : Flow venue rest where
  unfilled := flow.unfilled
  fills := flow.fills
  reports id qty price at_ inside := flow.reports id qty price at_ (List.mem_cons_of_mem _ inside)
  order := flow.order.of_cons
  closing := by
    rintro ⟨found, inside, isClosing⟩
    exact flow.closing ⟨found, List.mem_cons_of_mem _ inside, isClosing⟩

theorem closing_last {venue : Venue} {report : ExecutionReport} {rest : List ExecutionReport}
    (flow : Flow venue (report :: rest)) (isClosing : closes report = true) :
    undelivered venue.fills + (rest.map fillQty).sum = 0 := by
  obtain ⟨_, delivered⟩ := flow.closing ⟨report, List.mem_cons_self, isClosing⟩
  have none_left : venue.fills.filter (·.deliveries = 0) = [] := by
    rw [List.filter_eq_nil_iff]
    intro fill member
    simpa using delivered fill member
  have no_fill : (rest.map fillQty).sum = 0 := by
    refine List.sum_eq_zero ?_
    intro qty member
    obtain ⟨found, inside, rfl⟩ := List.mem_map.mp member
    have closing := List.rel_of_pairwise_cons flow.order inside isClosing
    cases found <;> simp_all [closes, fillQty]
  simp [no_fill, undelivered, none_left]

theorem report_balances {row : OrderRow} {isEnded : Bool} {venue : Venue} {report : ExecutionReport}
    {rest : List ExecutionReport} (flow : Flow venue (report :: rest))
    (balanced : Balanced row isEnded venue.executed
      (undelivered venue.fills + ((report :: rest).map fillQty).sum))
    (gone : Gone venue → isEnded = true) :
    Balanced (reportedRow row report) isEnded venue.executed
      (undelivered venue.fills + (rest.map fillQty).sum) := by
  have start := undelivered_nonneg flow
  have later := fill_qty_nonneg (flow_tail flow)
  obtain ⟨balance, within, _⟩ := balanced
  simp only [List.map_cons, List.sum_cons] at balance
  cases report with
  | fill id qty price at_ =>
    have booked : (reportedRow row (.fill id qty price at_)).cumQty = row.cumQty + qty := rfl
    simp only [fillQty] at balance
    refine ⟨by rw [booked]; linarith, within, fun closed => ?_⟩
    have full := (fill_closes_iff row id qty price at_).mp closed
    have original : (reportedRow row (.fill id qty price at_)).originalQty = row.originalQty := rfl
    rw [original]
    exact ⟨by linarith, .inr (by linarith)⟩
  | _ =>
    have last := closing_last flow rfl
    have isGone := (flow.closing ⟨_, List.mem_cons_self, rfl⟩).1
    simp only [fillQty] at balance
    refine ⟨?_, within, fun _ => ⟨last, .inl (gone isGone)⟩⟩
    change row.cumQty + _ = _
    linarith

theorem report_position {position : Option PositionMath} {db : OrderDb} {row : OrderRow}
    {report : ExecutionReport} {event : OrderDomainEvent} (stored : db.row = some row)
    (yields : Yields row.toOrderAggregateState (.receiveExecutionReport row.orderId report) event)
    (stands : positionQty db.position = positionFor position db.row) :
    positionQty (persistFills db row.side [event]).position =
      positionFor position (some (reportedRow row report)) := by
  rw [reported_position db yields]
  simp only [positionFor, stored] at stands
  cases report with
  | fill id qty price at_ =>
    have before : positionQty db.position = (db.position.getD .flat).netQty := by
      cases db.position <;> rfl
    have moved := apply_fill_net (db.position.getD .flat) row.side qty price
    change ((db.position.getD .flat).applyFill row.side qty price).netQty =
      positionQty position + row.side.signed (row.cumQty + qty)
    rw [moved, ← before, stands]
    cases row.side <;> simp only [OrderSide.signed] <;> ring
  | _ => exact stands

theorem attempt_cases {s : Life} (wired : Wired s) {row snapshot : OrderRow}
    {report : ExecutionReport} {attempt : Nat} (there : s.db.row = some row)
    (booking : s.job = some (.booking [report] attempt (some snapshot)))
    (raced : Raced row attempt (some snapshot))
    (fits : ReportFits row.toOrderAggregateState report) (metadata : EventMetadata) :
    (row.status.isTerminal = true ∧
      bookOnce [] report attempt snapshot metadata s.db = (none, s.db)) ∨
    (row.status.isTerminal = false ∧ ∃ event,
      Yields row.toOrderAggregateState (.receiveExecutionReport row.orderId report) event ∧
      bookOnce [] report attempt snapshot metadata s.db =
        (none, reportedDb s.db row report event)) ∨
    (rank snapshot.status < rank row.status ∧
      bookOnce [] report attempt snapshot metadata s.db =
        (some (.booking [report] (attempt + 1) none), s.db)) := by
  have num := reached_numbered wired.reached
  have lively := reached_lively wired.reached
  have read := wired.job _ _ booking rfl
  obtain ⟨tried, known⟩ := raced
  obtain ⟨triedThen, cum, original, seen⟩ := known snapshot rfl
  have top : rank row.status ≤ 2 := by cases row.status <;> simp [rank]
  cases closed : snapshot.status.isTerminal with
  | true =>
    have same : snapshot.toOrderAggregateState = row.toOrderAggregateState := by
      refine seen.resolve_right ?_
      have high : rank snapshot.status = 2 := by
        cases status : snapshot.status <;> simp_all [OrderStatus.isTerminal, rank]
      omega
    refine .inl ⟨by rw [← same]; exact closed, ?_⟩
    simp [bookOnce, apply_once_terminal closed, jobFor]
  | false =>
    have low := open_rank closed
    by_cases current : s.db.log.length = snapshot.version
    · obtain ⟨row', stored', version, same⟩ := snapshot_current num read current
      cases there.symm.trans stored'
      have isOpen : row.status.isTerminal = false := by rw [← same]; exact closed
      have fitting : ReportFits snapshot.toOrderAggregateState report := same ▸ fits
      obtain ⟨event, yields, once⟩ := apply_once_open closed fitting metadata num
      rw [if_pos current, booked_db_eq num there same (lively row there).resume report event]
        at once
      refine .inr (.inl ⟨isOpen, event, same ▸ yields, ?_⟩)
      simp [bookOnce, once, jobFor, reportedDb]
    · have stale : rank snapshot.status < rank row.status := by
        refine seen.resolve_left fun same => current ?_
        rw [← num.rowVersion row there, ← same]
      have fitting : ReportFits snapshot.toOrderAggregateState report := by
        cases report with
        | fill id qty price at_ =>
          exact ⟨fits.1, fits.2.1, by rw [cum, original]; exact fits.2.2⟩
        | _ => trivial
      obtain ⟨event, yields, once⟩ := apply_once_open closed fitting metadata num
      rw [if_neg current] at once
      refine .inr (.inr ⟨stale, ?_⟩)
      have more : attempt + 1 ≠ maxAttempts := by
        unfold maxAttempts
        omega
      simp [bookOnce, once, more]

theorem done_delivers {sender : Sender} {position : Option PositionMath} {s t : Life} {a : Action}
    (delivering : Delivering position s) (next : step sender s a = some t)
    (venue : t.venue = s.venue) (stage : t.stage = s.stage) (queue : t.queue = s.queue)
    (job : t.job = none) {report : ExecutionReport}
    (isAhead : ahead s = report :: ahead t) {row row' : OrderRow} (there : s.db.row = some row)
    (there' : t.db.row = some row') (original : row'.originalQty = row.originalQty)
    (balanced : Balanced row' (ended s) s.venue.executed
      (undelivered s.venue.fills + ((ahead t).map fillQty).sum))
    (stands : positionQty t.db.position = positionFor position t.db.row) :
    Delivering position t where
  wired := step_wired delivering.wired next
  unsent := step_unsent next delivering.unsent
  rowless := by
    rw [there']
    intro missing
    cases missing
  stored quantity found isStored isRow := by
    cases there'.symm.trans isRow
    rw [original]
    exact delivering.stored quantity row (stage ▸ isStored) there
  quoted found isRow waits := by
    cases there'.symm.trans isRow
    rw [original, venue]
    exact delivering.quoted row there (venue ▸ waits)
  live := by rw [queue]; exact delivering.live
  job found isOn := by
    rw [job] at isOn
    cases isOn
  flow := by
    rw [venue]
    have flow := delivering.flow
    rw [isAhead] at flow
    exact flow_tail flow
  balanced found isRow := by
    cases there'.symm.trans isRow
    rw [unbooked, ended, venue, stage]
    exact balanced
  raced found reports attempt read isRow booking := by
    rw [job] at booking
    cases booking
  position := stands

theorem ahead_fits {position : Option PositionMath} {s : Life}
    (delivering : Delivering position s) {row : OrderRow} (there : s.db.row = some row)
    {report : ExecutionReport} {rest : List ExecutionReport} (isAhead : ahead s = report :: rest) :
    ReportFits row.toOrderAggregateState report := by
  have flow := delivering.flow
  have balanced := delivering.balanced row there
  rw [isAhead] at flow
  have start := undelivered_nonneg flow
  have later := fill_qty_nonneg (flow_tail flow)
  cases report with
  | fill id qty price at_ =>
    obtain ⟨positive, priced⟩ := flow.reports id qty price at_ List.mem_cons_self
    have balance := balanced.balance
    have within := balanced.within
    rw [unbooked, isAhead, List.map_cons, List.sum_cons, fillQty] at balance
    exact ⟨positive, priced, by linarith⟩
  | _ => trivial

theorem terminal_balances {position : Option PositionMath} {s : Life}
    (delivering : Delivering position s) {row : OrderRow} (there : s.db.row = some row)
    (closed : row.status.isTerminal = true) {report : ExecutionReport}
    {rest : List ExecutionReport} (isAhead : ahead s = report :: rest) :
    Balanced row (ended s) s.venue.executed
      (undelivered s.venue.fills + (rest.map fillQty).sum) := by
  have flow := delivering.flow
  obtain ⟨balance, within, final⟩ := delivering.balanced row there
  obtain ⟨booked, done⟩ := final closed
  rw [isAhead] at flow
  have start := undelivered_nonneg flow
  have later := fill_qty_nonneg (flow_tail flow)
  have first : 0 ≤ fillQty report := by
    cases report with
    | fill id qty price at_ => exact (flow.reports id qty price at_ List.mem_cons_self).1.le
    | _ => exact le_refl _
  have sum := booked
  rw [unbooked, isAhead, List.map_cons, List.sum_cons] at sum
  have rest_booked : undelivered s.venue.fills + (rest.map fillQty).sum = 0 := by linarith
  rw [rest_booked]
  rw [booked] at balance
  exact ⟨balance, within, fun _ => ⟨rfl, done⟩⟩

theorem write_delivers {sender : Sender} {position : Option PositionMath} {s t : Life}
    {metadata : EventMetadata} (delivering : Delivering position s)
    (next : step sender s (.engine (.write metadata)) = some t) : Delivering position t := by
  have taken := next
  simp only [step, engineStep] at taken
  split at taken
  · rename_i report reports attempt snapshot booking
    obtain ⟨_, _, _, same⟩ := delivering.job _ booking
    cases same
    obtain ⟨row, there⟩ : ∃ row, s.db.row = some row := by
      cases there : s.db.row with
      | some row => exact ⟨row, rfl⟩
      | none =>
        rw [(delivering.rowless there).2.2.1] at booking
        cases booking
    have isAhead : ahead s =
        report :: s.queue.flatMap (fun event => reportsFor event 0 none) := by
      simp [ahead, booking, jobReports]
    have raced := delivering.raced row _ _ _ there booking
    have fits := ahead_fits delivering there isAhead
    have effect := (Option.some.inj taken).symm
    rcases attempt_cases delivering.wired there booking raced fits metadata with
      ⟨closed, outcome⟩ | ⟨isOpen, event, yields, outcome⟩ | ⟨stale, outcome⟩
    · rw [outcome] at effect
      refine done_delivers delivering next (by rw [effect]) (by rw [effect]) (by rw [effect])
        (by rw [effect]) (by rw [isAhead, effect]; rfl) there (by rw [effect]; exact there) rfl ?_
        (by rw [effect]; exact delivering.position)
      rw [effect]
      exact terminal_balances delivering there closed isAhead
    · rw [outcome] at effect
      refine done_delivers delivering next (by rw [effect]) (by rw [effect]) (by rw [effect])
        (by rw [effect]) (by rw [isAhead, effect]; rfl) there
        (by rw [effect]; rfl : t.db.row = some (reportedRow row report))
        (by cases report <;> rfl) ?_
        (by rw [effect]; exact report_position there yields delivering.position)
      have flow := delivering.flow
      have balanced := delivering.balanced row there
      rw [isAhead] at flow
      rw [unbooked, isAhead] at balanced
      rw [effect]
      refine report_balances flow balanced ?_
      rintro (closed | refused) <;> simp [ended, *]
    · rw [outcome] at effect
      refine engine_delivers delivering next (by rw [effect]) (by rw [effect]) (by rw [effect]) ?_
        (by rw [effect]; exact fun _ => id) there
        (by rw [effect] : t.job = some (.booking [report] (attempt + 1) none)) ⟨?_, by rintro _ ⟨⟩⟩
      · simp [ahead, effect, booking, jobReports]
      · have tried := (raced.2 snapshot rfl).1
        omega
  · rename_i routing
    obtain ⟨_, _, _, wrong⟩ := delivering.job _ routing
    cases wrong
  · cases taken

theorem submitted_delivers {sender : Sender} {position : Option PositionMath} {s t : Life}
    {cmd : SubmitOrder} {metadata : EventMetadata} {code : String}
    (delivering : Delivering position s)
    (next : step sender s (.submit (.store cmd metadata code)) = some t) :
    Delivering position t := by
  have taken := next
  simp only [step, submitStep] at taken
  split at taken
  · rename_i idle
    split at taken
    · rename_i committed inserted
      have num := reached_numbered delivering.wired.reached
      obtain ⟨absent, positive, event, _, _, _, _, result⟩ := submit_tx_inserts num inserted
      obtain ⟨_, unsent, noJob, noQueue⟩ := delivering.rowless absent
      have noFills := delivering.flow.unfilled (by simp [unsent]) (by simp [unsent])
      have effect := (Option.some.inj taken).symm
      have row : t.db.row = some ⟨submitState cmd, none, code, s.now⟩ := by rw [effect, result]
      have nothing : ahead t = [] := by simp [ahead, effect, noJob, noQueue, jobReports]
      have fills : t.venue.fills = [] := by rw [effect]; exact noFills
      refine
        { wired := step_wired delivering.wired next
          unsent := step_unsent next delivering.unsent
          rowless := by
            rw [row]
            intro missing
            cases missing
          stored := ?_
          quoted := ?_
          live := by rw [effect]; exact delivering.live
          job := by rw [effect]; exact delivering.job
          flow := ?_
          balanced := ?_
          raced := ?_
          position := ?_ }
      · intro quantity found isStored isRow
        cases row.symm.trans isRow
        rw [effect] at isStored
        cases isStored
        rfl
      · intro found _ waits
        rw [effect] at waits
        simp [unsent] at waits
      · rw [nothing]
        refine ⟨fun _ _ => fills, ?_, by simp, .nil, by rintro ⟨_, missing, _⟩; cases missing⟩
        simp [fills]
      · intro found isRow
        cases row.symm.trans isRow
        simp only [unbooked, nothing, fills, undelivered, Venue.executed]
        exact ⟨by simp [submitState], positive.le, fun closed => by cases closed⟩
      · intro found reports attempt read _ booking
        rw [effect] at booking
        rw [noJob] at booking
        cases booking
      · have stands := delivering.position
        rw [row, effect, result]
        simp only [positionFor, absent, submitState] at *
        rw [stands]
        cases cmd.side <;> simp [OrderSide.signed]
    · have effect := (Option.some.inj taken).symm
      exact entry_delivers delivering next (.inl (by rw [effect]))
        (by rw [effect]; exact ⟨rfl, rfl, rfl⟩) (by rw [effect]) (by rw [effect])
        (by rw [effect]; intro _ stored; cases stored) (by rw [effect]; exact fun _ => .inr rfl)
        (by rw [effect]; exact fun _ => rfl)
  · cases taken

theorem entry_writes {sender : Sender} {s t : Life} {a : Action} (wired : Wired s)
    (next : step sender s a = some t)
    (notStore : ∀ cmd metadata code, a ≠ .submit (.store cmd metadata code))
    (notBooks : ∀ metadata, a ≠ .engine (.write metadata))
    (finished : cancelsUnfinished s a = false) :
    t.db = s.db ∨ ∃ kind, Write s.db kind t.db ∧ kind.fromEntry ∧
      (kind = .localCancel → ended s = true ∧ unbooked s = 0) := by
  rcases step_writes wired next with
    same | ⟨cmd, metadata, code, isStore, _⟩ | ⟨w, snapshot, kind, runs, makes, write⟩
  · exact .inl same
  · exact absurd isStore (notStore cmd metadata code)
  · have entry : FromEntry w := by
      cases w with
      | report report metadata => exact absurd (writer_report runs).1 (notBooks metadata)
      | _ => trivial
    refine .inr ⟨kind, write, makes_from_entry makes entry, ?_⟩
    rintro rfl
    obtain ⟨reason, metadata, row, rfl, there, version⟩ := makes_local_cancel makes
    obtain ⟨i, rfl, listed⟩ := writer_cancel runs
    simpa [cancelsUnfinished, listed, there, version] using finished

theorem stage_delivers {sender : Sender} {position : Option PositionMath} {s t : Life}
    {a : SubmitAction} (delivering : Delivering position s)
    (next : step sender s (.submit a) = some t)
    (notStore : ∀ cmd metadata code, a ≠ .store cmd metadata code)
    (venue : t.venue.status = s.venue.status ∧ t.venue.quantity = s.venue.quantity ∧
      t.venue.fills = s.venue.fills) (queue : t.queue = s.queue) (job : t.job = s.job)
    (stored : ∀ quantity, t.stage = .stored quantity → s.stage = .stored quantity)
    (settled : s.db.row = none → t.stage = .idle ∨ t.stage = .returned)
    (returned : s.stage = .returned → t.stage = .returned) : Delivering position t := by
  refine entry_delivers delivering next (entry_writes delivering.wired next ?_ (by simp) rfl)
    venue queue job stored settled returned
  intro cmd metadata code same
  cases same
  exact notStore cmd metadata code rfl

theorem return_delivers {sender : Sender} {position : Option PositionMath} {s t : Life}
    {a : SubmitAction} (delivering : Delivering position s)
    (next : step sender s (.submit a) = some t)
    (notStore : ∀ cmd metadata code, a ≠ .store cmd metadata code)
    (venue : t.venue.status = s.venue.status ∧ t.venue.quantity = s.venue.quantity ∧
      t.venue.fills = s.venue.fills) (queue : t.queue = s.queue) (job : t.job = s.job)
    (returned : t.stage = .returned) : Delivering position t := by
  refine stage_delivers delivering next notStore venue queue job ?_ ?_ ?_
  · intro quantity stored
    cases returned.symm.trans stored
  · exact fun _ => .inr returned
  · exact fun _ => returned

theorem unheld_unfilled {position : Option PositionMath} {s : Life}
    (delivering : Delivering position s)
    (unheld : s.venue.status = .unsent ∨ s.venue.status = .refused) : s.venue.fills = [] := by
  rcases unheld with unsent | refused
  · exact delivering.flow.unfilled (by simp [unsent]) (by simp [unsent])
  · exact delivering.flow.unfilled (by simp [refused]) (by simp [refused])

theorem no_adapter_delivers {sender : Sender} {position : Option PositionMath} {s t : Life}
    {reason : String} (delivering : Delivering position s)
    (next : step sender s (.submit (.noAdapter reason)) = some t) : Delivering position t := by
  have taken := next
  simp only [step, submitStep] at taken
  split at taken
  · rename_i quantity isStored
    obtain ⟨row, there⟩ := row_there delivering (.inr ⟨quantity, isStored⟩)
    have unsent := delivering.unsent (.inr ⟨quantity, isStored⟩)
    have noFills := unheld_unfilled delivering (.inl unsent)
    have effect := (Option.some.inj taken).symm
    refine closing_delivers delivering next (by rw [effect]) (by rw [effect]) there
      (by rw [effect]; exact fun _ => .inl (by simp)) (by rw [effect])
      (by rw [effect]; exact .inr rfl)
      (by simp [noFills]) (fun _ => noFills) (by rw [effect]) rfl (fun _ _ => rfl) rfl
  · cases taken

theorem answer_rejected_delivers {sender : Sender} {position : Option PositionMath} {s t : Life}
    {reason : String} (delivering : Delivering position s)
    (next : step sender s (.submit (.answerRejected reason)) = some t) :
    Delivering position t := by
  have taken := next
  simp only [step, submitStep] at taken
  split at taken
  · rename_i answered
    obtain ⟨_, refused⟩ := answered
    obtain ⟨row, there⟩ := row_there delivering (.inl (by simp [refused]))
    have noFills := unheld_unfilled delivering (.inr refused)
    have effect := (Option.some.inj taken).symm
    refine closing_delivers delivering next (by rw [effect]) (by rw [effect]) there
      (by rw [effect]; exact fun _ => .inl (by simp)) (by rw [effect])
      (by rw [effect]; exact .inr refused) (by simp [noFills]) (fun _ => noFills)
      (by rw [effect]) rfl (fun _ _ => rfl) rfl
  · cases taken

theorem send_delivers {sender : Sender} {position : Option PositionMath} {s t : Life}
    (delivering : Delivering position s) (next : step sender s (.submit .send) = some t) :
    Delivering position t := by
  have taken := next
  simp only [step, submitStep] at taken
  split at taken
  · rename_i quantity isStored
    obtain ⟨row, there⟩ := row_there delivering (.inr ⟨quantity, isStored⟩)
    have unsent := delivering.unsent (.inr ⟨quantity, isStored⟩)
    have noFills := unheld_unfilled delivering (.inl unsent)
    have effect := (Option.some.inj taken).symm
    refine status_delivers delivering next
      (by rw [effect]) (by rw [effect]) (by rw [effect]) there
      (by rw [effect]; intro _ stored; cases stored) (fun _ => ?_) (by rw [effect]) ?_ ?_
      (.inr (.inr noFills))
    · rw [effect]
      exact delivering.stored quantity row isStored there
    · rintro (closed | refused) <;> simp_all
    · simp [ended, unsent, isStored]
  · cases taken

theorem answer_ok_delivers {sender : Sender} {position : Option PositionMath} {s t : Life}
    {externalOrderId : String} (delivering : Delivering position s)
    (next : step sender s (.submit (.answerOk externalOrderId)) = some t) :
    Delivering position t := by
  have taken := next
  simp only [step, submitStep] at taken
  split at taken
  · rename_i answered
    have effect := (Option.some.inj taken).symm
    refine stage_delivers delivering next (by intro _ _ _ same; cases same)
      (by rw [effect]; exact ⟨rfl, rfl, rfl⟩)
      (by rw [effect]) (by rw [effect])
      (by rw [effect]; intro _ stored; cases stored) (fun missing => ?_) (fun returned => ?_)
    · have stage := (delivering.rowless missing).1
      rw [answered.1] at stage
      rcases stage with wrong | wrong <;> cases wrong
    · rw [answered.1] at returned
      cases returned
  · cases taken

theorem read_route_delivers {sender : Sender} {position : Option PositionMath} {s t : Life}
    (delivering : Delivering position s) (next : step sender s (.submit .readRoute) = some t) :
    Delivering position t := by
  have taken := next
  simp only [step, submitStep] at taken
  split at taken
  · rename_i persisting there
    have effect := (Option.some.inj taken).symm
    refine stage_delivers delivering next (by intro _ _ _ same; cases same)
      (by rw [effect]; exact ⟨rfl, rfl, rfl⟩)
      (by rw [effect]) (by rw [effect])
      (by rw [effect]; intro _ stored; cases stored) (fun missing => ?_) (fun returned => ?_)
    · rw [there] at missing
      cases missing
    · rw [persisting] at returned
      cases returned
  · cases taken

theorem write_route_delivers {sender : Sender} {position : Option PositionMath} {s t : Life}
    {metadata : EventMetadata} (delivering : Delivering position s)
    (next : step sender s (.submit (.writeRoute metadata)) = some t) :
    Delivering position t := by
  have taken := next
  simp only [step, submitStep] at taken
  split at taken
  · rename_i persisting
    have effect := (Option.some.inj taken).symm
    refine stage_delivers delivering next (by intro _ _ _ same; cases same)
      (by rw [effect]; exact ⟨rfl, rfl, rfl⟩)
      (by rw [effect]) (by rw [effect])
      (fun quantity isStored => ?_) (fun missing => ?_) (fun returned => ?_)
    · rw [effect] at isStored
      exact absurd (.inr ⟨quantity, isStored⟩) (route_not_early _ _)
    · have stage := (delivering.rowless missing).1
      rw [persisting] at stage
      rcases stage with wrong | wrong <;> cases wrong
    · rw [persisting] at returned
      cases returned
  · cases taken

theorem submit_delivers {sender : Sender} {position : Option PositionMath} {s t : Life}
    {a : SubmitAction} (delivering : Delivering position s)
    (next : step sender s (.submit a) = some t) : Delivering position t := by
  have taken := next
  cases a with
  | store cmd metadata code => exact submitted_delivers delivering next
  | noAdapter reason => exact no_adapter_delivers delivering next
  | answerRejected reason => exact answer_rejected_delivers delivering next
  | send => exact send_delivers delivering next
  | answerOk externalOrderId => exact answer_ok_delivers delivering next
  | readRoute => exact read_route_delivers delivering next
  | writeRoute metadata => exact write_route_delivers delivering next
  | answerLost =>
    simp only [step, submitStep] at taken
    split at taken
    · have effect := (Option.some.inj taken).symm
      exact return_delivers delivering next (by intro _ _ _ same; cases same)
        (by rw [effect]; exact ⟨rfl, rfl, rfl⟩) (by rw [effect]) (by rw [effect]) (by rw [effect])
    · cases taken
  | sendCancel =>
    simp only [step, submitStep] at taken
    split at taken
    · have effect := (Option.some.inj taken).symm
      exact return_delivers delivering next (by intro _ _ _ same; cases same)
        (by rw [effect]; exact ⟨rfl, rfl, rfl⟩) (by rw [effect]) (by rw [effect]) (by rw [effect])
    · cases taken
  | stop =>
    simp only [step, submitStep] at taken
    split at taken
    · cases taken
    · have effect := (Option.some.inj taken).symm
      exact return_delivers delivering next (by intro _ _ _ same; cases same)
        (by rw [effect]; exact ⟨rfl, rfl, rfl⟩) (by rw [effect]) (by rw [effect]) (by rw [effect])

theorem cancel_delivers {sender : Sender} {position : Option PositionMath} {s t : Life}
    {a : CancelAction} (delivering : Delivering position s)
    (finished : cancelsUnfinished s (.cancel a) = false)
    (next : step sender s (.cancel a) = some t) : Delivering position t := by
  obtain ⟨_, stage, queue, job, _⟩ := cancel_step_frame next
  have writes := entry_writes delivering.wired next (by simp) (by simp) finished
  refine entry_delivers delivering next writes (cancel_step_venue next) queue job
    (by rw [stage]; exact fun _ => id) (fun missing => ?_) (by rw [stage]; exact id)
  rw [stage]
  exact (delivering.rowless missing).1

theorem venue_step_delivers {sender : Sender} {position : Option PositionMath} {s t : Life}
    {a : VenueAction} (delivering : Delivering position s) (kept : ¬ Disturbs s (.venue a))
    (next : step sender s (.venue a) = some t) : Delivering position t := by
  have taken := next
  cases a with
  | accept =>
    simp only [step, venueStep] at taken
    split at taken
    · rename_i pending
      obtain ⟨row, there⟩ := row_there delivering (.inl (by simp [pending]))
      have effect := (Option.some.inj taken).symm
      refine status_delivers delivering next
        (by rw [effect]) (by rw [effect]) (by rw [effect]) there
        (by rw [effect]; exact fun _ => id) (fun _ => ?_) (by rw [effect]) ?_ ?_
        (by rw [effect]; exact .inl rfl)
      · rw [effect]
        exact delivering.quoted row there (.inl pending)
      · rintro (closed | refused) <;> simp_all
      · simp [ended, pending]
    · cases taken
  | refuse =>
    simp only [step, venueStep] at taken
    split at taken
    · rename_i pending
      obtain ⟨row, there⟩ := row_there delivering (.inl (by simp [pending]))
      have noFills := delivering.flow.unfilled (by simp [pending]) (by simp [pending])
      have effect := (Option.some.inj taken).symm
      refine status_delivers delivering next
        (by rw [effect]) (by rw [effect]) (by rw [effect]) there
        (by rw [effect]; exact fun _ => id) (fun _ => ?_) (by rw [effect]) ?_ ?_
        (.inr (.inr noFills))
      · rw [effect]
        exact delivering.quoted row there (.inl pending)
      · rintro (closed | refused) <;> simp_all
      · simp [ended, pending]
    · cases taken
  | close =>
    simp only [step, venueStep] at taken
    split at taken
    · rename_i working
      obtain ⟨row, there⟩ := row_there delivering (.inl (by simp [working]))
      have effect := (Option.some.inj taken).symm
      refine status_delivers delivering next
        (by rw [effect]) (by rw [effect]) (by rw [effect]) there
        (by rw [effect]; exact fun _ => id) (fun _ => ?_) (by rw [effect]) ?_ ?_
        (by rw [effect]; exact .inr (.inl rfl))
      · rw [effect]
        exact delivering.quoted row there (.inr working)
      · rintro (closed | refused) <;> simp_all
      · simp [ended, working]
    · cases taken
  | execute execution => exact execute_delivers delivering next
  | deliverFill i =>
    refine fill_delivers delivering ?_ next
    rw [← Bool.not_eq_true]
    exact fun again => kept (.inr (.inl again))
  | deliverCumulative avgPx => exact absurd (.inl rfl) kept
  | deliverCanceled reason =>
    simp only [step, venueStep] at taken
    split at taken
    · rename_i closed
      obtain ⟨row, there⟩ := row_there delivering (.inl (by simp [closed]))
      have effect := (Option.some.inj taken).symm
      refine closing_delivers delivering next (by rw [effect]) (by rw [effect]) there
        (fun quantity => ?_) (by rw [effect]) (by rw [effect]; exact .inl closed) ?_ ?_
        (by rw [effect]) rfl (fun _ _ => rfl) rfl
      · by_cases isStored : s.stage = .stored quantity
        · exact .inr isStored
        · exact .inl (by rw [effect]; exact isStored)
      · intro fill member zero
        refine kept (.inr (.inr (.inl ?_)))
        simp only [confirmsEarly, List.any_eq_true, decide_eq_true_eq]
        exact ⟨fill, member, zero⟩
      · intro notClosed
        rw [effect] at notClosed
        exact absurd closed notClosed
    · cases taken
  | deliverRejected reason =>
    simp only [step, venueStep] at taken
    split at taken
    · rename_i refused
      obtain ⟨row, there⟩ := row_there delivering (.inl (by simp [refused]))
      have noFills := delivering.flow.unfilled (by simp [refused]) (by simp [refused])
      have effect := (Option.some.inj taken).symm
      refine closing_delivers delivering next (by rw [effect]) (by rw [effect]) there
        (fun quantity => ?_) (by rw [effect]) (by rw [effect]; exact .inr refused)
        (by simp [noFills]) (fun _ => noFills) (by rw [effect]) rfl (fun _ _ => rfl) rfl
      by_cases isStored : s.stage = .stored quantity
      · exact .inr isStored
      · exact .inl (by rw [effect]; exact isStored)
    · cases taken

theorem step_delivers {sender : Sender} {position : Option PositionMath} {s t : Life} {a : Action}
    (delivering : Delivering position s) (kept : ¬ Disturbs s a)
    (next : step sender s a = some t) : Delivering position t := by
  cases a with
  | submit a => exact submit_delivers delivering next
  | venue a => exact venue_step_delivers delivering kept next
  | cancel a =>
    refine cancel_delivers delivering ?_ next
    rw [← Bool.not_eq_true]
    exact fun unfinished => kept (.inr (.inr (.inr unfinished)))
  | engine a =>
    cases a with
    | take => exact take_delivers delivering next
    | read => exact read_delivers delivering next
    | write metadata => exact write_delivers delivering next
    | fail => exact absurd (.inl rfl) kept
  | recon a => exact absurd (.inl rfl) kept
  | tick n =>
    have same := next
    cases same
    exact entry_delivers delivering next (.inl rfl) ⟨rfl, rfl, rfl⟩ rfl rfl (fun _ => id)
      (fun missing => (delivering.rowless missing).1) id

/-- In every run that nothing disturbs, once all is processed `cum_qty` and the
    position show exactly what the venue has executed. -/
theorem fills_booked (sender : Sender) (position : Option PositionMath) {as : List Action}
    (kept : Along (step sender) (fun s a => ¬ Disturbs s a) (.start position) as) :
    Throughout (step sender) (BooksFills position) (.start position) as :=
  throughout_mono (fun _ delivering => delivering_books delivering)
    (throughout_along (fun _ _ _ delivering kept next => step_delivers delivering kept next)
      (start_delivering position) kept)

/-- A routed buy of ten and the engine's booking of one queued event. -/
def routedBuy : List Action :=
  [.submit (.store buyTen stamp "paper"), .submit .send, .venue .accept,
    .submit (.answerOk "v1"), .submit .readRoute, .submit (.writeRoute stamp)]

def bookNext : List Action := [.engine .take, .engine .read, .engine (.write stamp)]

/-- A fill of four and one of three, then a user's cancel at the broker, which
    the venue confirms. -/
theorem canceled_order_books_fills : Throughout (step paper) (BooksFills none) (.start none)
    (routedBuy ++ [.venue (.execute ⟨"x1", 4, 10⟩), .venue (.deliverFill 0)] ++ bookNext ++
      [.cancel .read, .venue (.execute ⟨"x2", 3, 11⟩), .cancel (.send 0), .venue .close,
        .venue (.deliverFill 1), .venue (.deliverCanceled none)] ++ bookNext ++ bookNext) :=
  fills_booked paper none (by decide +kernel)

/-- The event about a fill of one comes twice: nothing tells the second from a
    second fill. -/
theorem repeated_fill_books_twice :
    ¬ ∀ as, Along (step paper) (fun _ a => outside a = false) (.start none) as →
      Throughout (step paper) (BooksFills none) (.start none) as := by
  intro always
  have last := throughout_end (always (routedBuy ++ [.venue (.execute ⟨"x1", 1, 10⟩),
    .venue (.deliverFill 0), .venue (.deliverFill 0)] ++ bookNext ++ bookNext) (by decide +kernel))
  have twice : ∃ t ∈ run (step paper) (.start none) (routedBuy ++
      [.venue (.execute ⟨"x1", 1, 10⟩), .venue (.deliverFill 0), .venue (.deliverFill 0)] ++
      bookNext ++ bookNext), ∃ row ∈ t.db.row, Settled t ∧ row.cumQty ≠ t.venue.executed := by
    decide +kernel
  obtain ⟨t, ends, row, stored, settled, differ⟩ := twice
  exact differ (last t ends settled row stored).1

end OmsFillDelivery
