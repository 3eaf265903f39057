import OpenOms.Systems.FillDelivery
import OpenOms.Systems.Orphans

/-!
One order of a strategy through a Kill: its submit, whose broker calls are all
answered, the venue, the engine that books what the venue says, and the Kill's
own cancel. A local cancel is made good by the submit's follow-up unless the
route step has read the order before it.
-/
namespace OmsKilledOrder
open OmsOrders OmsAggregate OmsOrderStore OmsExecution OmsOrderEntry OmsOrderWrites OmsGateway
open OmsOrderEngine OmsOrderLife OmsLifeSteps OmsOrphans OmsFillDelivery

def takesPart : Action → Bool
  | .recon _ | .engine .fail | .submit .answerLost | .submit .stop => false
  | _ => true

/-- The route step has read the order as neither submitted nor canceled, or is over:
    nothing of the submit will look at the order again. -/
def routeRead : Stage → Bool
  | .persisting ⟨_, _, some snapshot⟩ =>
    snapshot.status ≠ .submitted && snapshot.status ≠ .canceled
  | .returned => true
  | _ => false

/-- A local cancel commits behind the route step, of an order the venue has or is
    being sent and was not asked to cancel. -/
def cancelsBehind (s : Life) : Action → Bool
  | .cancel (.write i _ _) =>
    match s.cancels[i]?, s.db.row with
    | some (.locally snapshot), some row =>
      routeRead s.stage && unheard s.venue && snapshot.version = row.version
    | _, _ => false
  | _ => false

/-- The engine books a fill beyond what the venue has executed: it has booked some
    fill of it before. -/
def overbooks (s : Life) : Action → Bool
  | .engine (.write _) =>
    match s.job, s.db.row with
    | some (.booking (report :: _) _ (some snapshot)), some row =>
      snapshot.version = row.version && !row.status.isTerminal &&
        s.venue.executed < row.cumQty + fillQty report
    | _, _ => false
  | _ => false

def worksAt (venue : Venue) : Bool :=
  (venue.status = .pending || venue.status = .working) && venue.executed < venue.quantity

def filledQty (db : OrderDb) : ℚ := db.row.elim 0 (·.cumQty)

def bookedBy : WriteKind → ℚ
  | .report report => fillQty report
  | _ => 0

def ClosesTruly (venue : Venue) (event : ExecEvent) : Prop :=
  ∀ cum avg, ∀ report ∈ reportsFor event cum avg, closes report = true → Gone venue

def PastSubmitted (version : Option Nat) (db : OrderDb) : Prop :=
  ∃ row, db.row = some row ∧ (some row.version = version ∨ row.status ≠ .submitted)

/-- The route step loses one race at most, with whatever took the order on. -/
structure RouteRaced (db : OrderDb) (attempt : Nat) (read : Option OrderRow) : Prop where
  tries : attempt = 0 ∨ attempt = 1 ∧ PastSubmitted none db ∧
    ∀ snapshot ∈ read, snapshot.status ≠ .submitted
  overtaken : ∀ snapshot ∈ read, PastSubmitted (some snapshot.version) db

structure Tracked (s : Life) : Prop where
  wired : Wired s
  unsent : Early s.stage → s.venue.status = .unsent
  stored : ∀ quantity, s.stage = .stored quantity →
    ∃ row, s.db.row = some row ∧ row.originalQty = quantity
  quoted : s.venue.status = .pending ∨ s.venue.status = .working →
    ∃ row, s.db.row = some row ∧ row.originalQty = s.venue.quantity
  reports : ∀ report ∈ jobReports s.job, closes report = true → Gone s.venue
  queue : ∀ event ∈ s.queue, ClosesTruly s.venue event
  counted : filledQty s.db ≤ s.venue.executed
  rejected : ∀ row, s.db.row = some row → row.status = .rejected → Gone s.venue
  raced : ∀ name attempt read, s.stage = .persisting ⟨name, attempt, read⟩ →
    RouteRaced s.db attempt read
  kept : routeRead s.stage = true → unheard s.venue = true → closedRow s.db = false

theorem start_tracked (position : Option OmsPositions.PositionMath) :
    Tracked (.start position) where
  wired := start_wired position
  unsent := fun _ => rfl
  stored := by intro _ wrong; cases wrong
  quoted := by rintro (wrong | wrong) <;> cases wrong
  reports := by intro _ missing; cases missing
  queue := by intro _ missing; cases missing
  counted := by simp [Life.start, filledQty, Venue.executed]
  rejected := by intro _ missing; cases missing
  raced := by intro _ _ _ wrong; cases wrong
  kept := by intro wrong; cases wrong

/-- A write keeps a stored order's quantity, adds what it books, and moves the
    order on unless it only records a venue id. -/
theorem write_moves {db db' : OrderDb} {kind : WriteKind} (write : Write db kind db')
    {row : OrderRow} (there : db.row = some row) :
    ∃ row', db'.row = some row' ∧ row'.originalQty = row.originalQty ∧
      row'.cumQty = row.cumQty + bookedBy kind ∧
      (row'.version = row.version ∧ row'.status = row.status ∨ row'.status ≠ .submitted) := by
  cases write with
  | submitted cmd event code createdAt absent => cases absent.symm.trans there
  | reported found report event stored isOpen fits yields =>
    cases stored.symm.trans there
    refine ⟨_, rfl, ?_, ?_, .inr ?_⟩
    · cases report <;> rfl
    · cases report <;> simp [reportedRow, reportState, fillState, closeState, cancelState,
        bookedBy, fillQty]
    · cases report <;> simp only [reportedRow, reportState, fillState, closeState, cancelState]
      · split <;> simp
      · simp
      · simp
  | routed found venue externalOrderId event stored submitted yields =>
    cases stored.symm.trans there
    exact ⟨_, rfl, rfl, by simp [routedRow, closeState, bookedBy],
      .inr (by simp [routedRow, closeState])⟩
  | canceled found reason event stored isOpen yields =>
    cases stored.symm.trans there
    exact ⟨_, rfl, rfl, by simp [locallyCanceledRow, cancelState, closeState, bookedBy],
      .inr (by simp [locallyCanceledRow, cancelState, closeState])⟩
  | recorded externalOrderId =>
    refine ⟨{ row with externalOrderId := row.externalOrderId.or (some externalOrderId) }, ?_, rfl,
      by simp [bookedBy], .inl ⟨rfl, rfl⟩⟩
    simp [recordExternalId, there]

theorem write_filled {db db' : OrderDb} {kind : WriteKind} (write : Write db kind db') :
    filledQty db' = filledQty db + bookedBy kind := by
  cases there : db.row with
  | some row =>
    obtain ⟨row', there', _, cum, _⟩ := write_moves write there
    simp [filledQty, there, there', cum]
  | none =>
    cases write with
    | submitted cmd event code createdAt => simp [filledQty, there, bookedBy, submitState]
    | reported row report event stored => cases stored.symm.trans there
    | routed row venue externalOrderId event stored => cases stored.symm.trans there
    | canceled row reason event stored => cases stored.symm.trans there
    | recorded externalOrderId => simp [filledQty, recordExternalId, there, bookedBy]

theorem past_submitted_keeps {db db' : OrderDb} {kind : WriteKind} (write : Write db kind db')
    {version : Option Nat} (past : PastSubmitted version db) : PastSubmitted version db' := by
  obtain ⟨row, there, still⟩ := past
  obtain ⟨row', there', _, _, moved⟩ := write_moves write there
  refine ⟨row', there', ?_⟩
  rcases moved with ⟨sameVersion, sameStatus⟩ | past
  · rw [sameVersion, sameStatus]
    exact still
  · exact .inr past

theorem route_raced_keeps {db db' : OrderDb} {kind : WriteKind} (write : Write db kind db')
    {attempt : Nat} {read : Option OrderRow} (raced : RouteRaced db attempt read) :
    RouteRaced db' attempt read :=
  ⟨raced.tries.imp_right fun lost => ⟨lost.1, past_submitted_keeps write lost.2.1, lost.2.2⟩,
    fun snapshot isRead => past_submitted_keeps write (raced.overtaken snapshot isRead)⟩

theorem step_filled {sender : Sender} {s t : Life} {a : Action} (wired : Wired s)
    (next : step sender s a = some t) :
    filledQty t.db = filledQty s.db ∨
      ∃ report, CommitsReport s a report ∧ filledQty t.db = filledQty s.db + fillQty report := by
  rcases step_writes wired next with
    same | ⟨_, _, _, _, _, write⟩ | ⟨w, snapshot, kind, runs, makes, write⟩
  · exact .inl (by rw [same])
  · exact .inl (by simpa [bookedBy] using write_filled write)
  · have filled := write_filled write
    cases kind with
    | report report => exact .inr ⟨report, writer_commits runs makes write, filled⟩
    | _ => exact .inl (by simpa [bookedBy] using filled)

theorem step_original {sender : Sender} {s t : Life} {a : Action} (wired : Wired s)
    (next : step sender s a = some t) {quantity : ℚ}
    (there : ∃ row, s.db.row = some row ∧ row.originalQty = quantity) :
    ∃ row, t.db.row = some row ∧ row.originalQty = quantity := by
  obtain ⟨row, stored, original⟩ := there
  rcases step_commits wired next with same | ⟨kind, write⟩
  · rw [same]
    exact ⟨row, stored, original⟩
  · obtain ⟨row', stored', same, _⟩ := write_moves write stored
    exact ⟨row', stored', same.trans original⟩

theorem step_stored {sender : Sender} {s t : Life} {a : Action} (tracked : Tracked s)
    (next : step sender s a = some t) {quantity : ℚ} (stored : t.stage = .stored quantity) :
    ∃ row, t.db.row = some row ∧ row.originalQty = quantity := by
  have still : t.stage = s.stage → ∃ row, t.db.row = some row ∧ row.originalQty = quantity :=
    fun same => step_original tracked.wired next (tracked.stored quantity (same ▸ stored))
  cases a with
  | submit a =>
    cases a with
    | store cmd metadata code =>
      simp only [step, submitStep] at next
      split at next
      · split at next
        · rename_i committed inserted
          cases next
          cases stored
          obtain ⟨_, _, event, _, _, _, _, rfl⟩ :=
            submit_tx_inserts (reached_numbered tracked.wired.reached) inserted
          exact ⟨_, rfl, rfl⟩
        · cases next
          cases stored
      · cases next
    | writeRoute metadata =>
      simp only [step, submitStep] at next
      split at next
      · cases next
        exact absurd (.inr ⟨quantity, stored⟩) (route_not_early _ _)
      · cases next
    | _ =>
      simp only [step, submitStep] at next
      repeat' split at next
      all_goals
        cases next
        try cases stored
  | _ => exact still (step_stage next (by simp))

theorem step_holds {sender : Sender} {s t : Life} {a : Action} (next : step sender s a = some t)
    (other : a ≠ .submit .send) : t.venue.quantity = s.venue.quantity ∧
      (t.venue.status = .pending ∨ t.venue.status = .working →
        s.venue.status = .pending ∨ s.venue.status = .working) := by
  cases a with
  | submit a =>
    cases a with
    | send => exact absurd rfl other
    | noAdapter reason =>
      simp only [step, submitStep] at next
      split at next <;> cases next
      exact ⟨rfl, by simp⟩
    | _ =>
      simp only [step, submitStep] at next
      repeat' split at next
      all_goals
        cases next
        try exact ⟨rfl, id⟩
  | venue a =>
    cases a with
    | deliverCumulative avgPx =>
      cases next
      exact ⟨rfl, id⟩
    | accept =>
      simp only [step, venueStep] at next
      split at next <;> cases next
      rename_i pending
      exact ⟨rfl, fun _ => .inl pending⟩
    | refuse =>
      simp only [step, venueStep] at next
      split at next <;> cases next
      exact ⟨rfl, by simp⟩
    | close =>
      simp only [step, venueStep] at next
      split at next <;> cases next
      exact ⟨rfl, by simp⟩
    | _ =>
      simp only [step, venueStep] at next
      split at next <;> cases next
      exact ⟨rfl, id⟩
  | cancel a =>
    obtain ⟨status, quantity, _⟩ := cancel_step_venue next
    rw [status]
    exact ⟨quantity, id⟩
  | engine a =>
    rw [(engine_step_frame next).2.2.1]
    exact ⟨rfl, id⟩
  | recon a =>
    rw [(recon_step_frame next).2.2.2.1]
    exact ⟨rfl, id⟩
  | tick n =>
    cases next
    exact ⟨rfl, id⟩

theorem step_quoted {sender : Sender} {s t : Life} {a : Action} (tracked : Tracked s)
    (next : step sender s a = some t)
    (waits : t.venue.status = .pending ∨ t.venue.status = .working) :
    ∃ row, t.db.row = some row ∧ row.originalQty = t.venue.quantity := by
  by_cases sends : a = .submit .send
  · subst sends
    simp only [step, submitStep] at next
    split at next
    · rename_i quantity stored
      cases next
      exact tracked.stored quantity stored
    · cases next
  · obtain ⟨quantity, held⟩ := step_holds next sends
    rw [quantity]
    exact step_original tracked.wired next (tracked.quoted (held waits))

theorem step_executed {sender : Sender} {s t : Life} {a : Action}
    (next : step sender s a = some t) : s.venue.executed ≤ t.venue.executed := by
  cases a with
  | submit a =>
    rw [Venue.executed, Venue.executed, submit_step_fills next]
  | venue a =>
    cases a with
    | execute execution =>
      simp only [step, venueStep] at next
      split at next
      · rename_i fits
        cases next
        simp only [Venue.executed, List.map_append, List.sum_append, List.map_cons, List.map_nil,
          List.sum_singleton]
        linarith [fits.2.1]
      · cases next
    | deliverFill i =>
      simp only [step, venueStep] at next
      split at next
      · rename_i listed
        cases next
        simp only [Venue.executed]
        rw [executed_set listed]
      · cases next
    | deliverCumulative avgPx =>
      cases next
      exact le_refl _
    | _ =>
      simp only [step, venueStep] at next
      split at next <;> cases next
      exact le_refl _
  | cancel a =>
    rw [Venue.executed, Venue.executed, (cancel_step_venue next).2.2]
  | engine a => rw [(engine_step_frame next).2.2.1]
  | recon a => rw [(recon_step_frame next).2.2.2.1]
  | tick n =>
    cases next
    exact le_refl _

theorem step_counted {sender : Sender} {s t : Life} {a : Action} (tracked : Tracked s)
    (within : overbooks s a = false) (next : step sender s a = some t) :
    filledQty t.db ≤ t.venue.executed := by
  have counted := tracked.counted
  have executed := step_executed next
  rcases step_filled tracked.wired next with
    same | ⟨report, ⟨_, _, _, _, row, rfl, booking, stored, version, isOpen⟩, filled⟩
  · linarith
  · have fits : row.cumQty + fillQty report ≤ s.venue.executed := by
      simpa [overbooks, booking, stored, version, isOpen] using within
    have cum : filledQty s.db = row.cumQty := by simp [filledQty, stored]
    linarith

theorem closes_truly_gone {venue venue' : Venue} (gone : Gone venue → Gone venue')
    {event : ExecEvent} (truly : ClosesTruly venue event) : ClosesTruly venue' event :=
  fun cum avg report member closing => gone (truly cum avg report member closing)

theorem said_closes {sender : Sender} {t : Life} {event : ExecEvent} (said : Said sender t event) :
    ClosesTruly t.venue event := by
  intro cum avg report member closing
  cases said with
  | fill execution executed =>
    cases List.mem_singleton.mp member
    cases closing
  | cumulative avgPx =>
    obtain ⟨missing, _, rfl⟩ := Option.map_eq_some_iff.mp (Option.mem_toList.mp member)
    cases closing
  | canceled reason closed => exact .inl closed
  | rejected reason refused => exact .inr refused

theorem step_reports {sender : Sender} {s t : Life} {a : Action} (tracked : Tracked s)
    (next : step sender s a = some t) :
    ∀ report ∈ jobReports t.job, closes report = true → Gone t.venue := by
  intro report member closing
  refine step_gone tracked.unsent next ?_
  rcases (step_job next).1 report member with old | ⟨event, queued, cum, avg, new⟩
  · exact tracked.reports report old closing
  · exact tracked.queue event queued cum avg report new closing

theorem step_queue_true {sender : Sender} {s t : Life} {a : Action} (tracked : Tracked s)
    (part : takesPart a = true) (next : step sender s a = some t) :
    ∀ event ∈ t.queue, ClosesTruly t.venue event := by
  intro event member
  have old : event ∈ s.queue → ClosesTruly t.venue event := fun queued =>
    closes_truly_gone (step_gone tracked.unsent next) (tracked.queue event queued)
  cases a with
  | submit a => exact (submit_step_queue next member).elim old said_closes
  | venue a => exact (venue_step_queue next member).elim old said_closes
  | cancel a => exact old ((cancel_step_frame next).2.2.1 ▸ member)
  | engine a => exact old (engine_step_queue next event member)
  | recon a => cases part
  | tick n =>
    cases next
    exact old member

theorem write_rejects {db db' : OrderDb} {kind : WriteKind} (write : Write db kind db')
    {row' : OrderRow} (there' : db'.row = some row') (rejected : row'.status = .rejected) :
    (∃ row, db.row = some row ∧ row.status = .rejected) ∨
      ∃ report, kind = .report report ∧ closes report = true := by
  cases write with
  | submitted cmd event code createdAt =>
    cases there'
    cases rejected
  | reported row report event stored isOpen fits yields =>
    cases there'
    cases report with
    | fill id qty price venue =>
      simp only [reportedRow, reportState, fillState] at rejected
      split at rejected <;> cases rejected
    | reject reason venue => exact .inr ⟨_, rfl, rfl⟩
    | canceled reason venue => exact .inr ⟨_, rfl, rfl⟩
  | routed row venue externalOrderId event stored submitted yields =>
    cases there'
    cases rejected
  | canceled row reason event stored isOpen yields =>
    cases there'
    cases rejected
  | recorded externalOrderId =>
    simp only [recordExternalId, Option.map_eq_some_iff] at there'
    obtain ⟨row, there, rfl⟩ := there'
    exact .inl ⟨row, there, rejected⟩

theorem report_in_hand {s : Life} {a : Action} {report : ExecutionReport}
    (commits : CommitsReport s a report) : report ∈ jobReports s.job := by
  obtain ⟨_, _, _, _, _, _, booking, _⟩ := commits
  simp [booking, jobReports]

theorem step_rejected {sender : Sender} {s t : Life} {a : Action} (tracked : Tracked s)
    (next : step sender s a = some t) : ∀ row, t.db.row = some row → row.status = .rejected →
      Gone t.venue := by
  intro row' there' rejected
  have gone := step_gone tracked.unsent next
  rcases step_writes tracked.wired next with
    same | ⟨_, _, _, _, _, write⟩ | ⟨w, snapshot, kind, runs, makes, write⟩
  · exact gone (tracked.rejected row' (same ▸ there') rejected)
  · rcases write_rejects write there' rejected with ⟨row, there, was⟩ | ⟨_, wrong, _⟩
    · exact gone (tracked.rejected row there was)
    · cases wrong
  · rcases write_rejects write there' rejected with ⟨row, there, was⟩ | ⟨report, rfl, closing⟩
    · exact gone (tracked.rejected row there was)
    · exact gone (tracked.reports report (report_in_hand (writer_commits runs makes write)) closing)

/-- The route step goes round again only where another write took the order on. -/
theorem route_persists {sender : Sender} {s : Life} (wired : Wired s) {name : String}
    {attempt : Nat} {snapshot : OrderRow} {metadata : EventMetadata} {routing : Routing}
    (again : stageAfterRoute name
      (routeOnce sender.venue name attempt snapshot metadata s.db).1 = .persisting routing) :
    snapshot.status = .submitted ∧ routing = ⟨name, attempt + 1, none⟩ ∧
      s.db.log.length ≠ snapshot.version := by
  have num := reached_numbered wired.reached
  by_cases submitted : snapshot.status = .submitted
  · obtain ⟨event, _, once⟩ := route_once_submitted submitted sender.venue name metadata num
    by_cases current : s.db.log.length = snapshot.version
    · simp [routeOnce, once, current, stageAfterRoute] at again
    · simp only [routeOnce, once, if_neg current] at again
      split at again
      · cases again
      · cases again
        exact ⟨submitted, rfl, current⟩
  · exfalso
    cases terminal : snapshot.status.isTerminal with
    | true =>
      simp only [routeOnce, persistRoutedOnce, terminal, if_true] at again
      cases status : snapshot.status <;> simp_all [stageAfterRoute]
    | false => simp [routeOnce, persistRoutedOnce, terminal, submitted, stageAfterRoute] at again

theorem step_raced {sender : Sender} {s t : Life} {a : Action} (tracked : Tracked s)
    (next : step sender s a = some t) {name : String} {attempt : Nat} {read : Option OrderRow}
    (persisting : t.stage = .persisting ⟨name, attempt, read⟩) : RouteRaced t.db attempt read := by
  have keeps : RouteRaced s.db attempt read → RouteRaced t.db attempt read := by
    intro raced
    rcases step_commits tracked.wired next with same | ⟨kind, write⟩
    · rw [same]
      exact raced
    · exact route_raced_keeps write raced
  have still : t.stage = s.stage → RouteRaced t.db attempt read := fun same =>
    keeps (tracked.raced name attempt read (same ▸ persisting))
  cases a with
  | submit a =>
    cases a with
    | answerOk externalOrderId =>
      simp only [step, submitStep] at next
      split at next <;> cases next
      cases persisting
      exact ⟨.inl rfl, by intro _ missing; cases missing⟩
    | readRoute =>
      simp only [step, submitStep] at next
      split at next
      · rename_i found tried row before there
        cases next
        cases persisting
        have raced := tracked.raced _ _ _ before
        refine ⟨raced.tries.imp_right fun lost => ⟨lost.1, lost.2.1, ?_⟩, ?_⟩
        · intro snapshot isRead
          cases isRead
          obtain ⟨stored, there', past⟩ := lost.2.1
          cases there.symm.trans there'
          exact past.resolve_left (by simp)
        · intro snapshot isRead
          cases isRead
          exact ⟨row, there, .inl rfl⟩
      · cases next
    | writeRoute metadata =>
      have taken := next
      simp only [step, submitStep] at taken
      split at taken
      · rename_i found tried snapshot before
        have effect := (Option.some.inj taken).symm
        rw [effect] at persisting
        obtain ⟨submitted, same, raced⟩ := route_persists tracked.wired persisting
        cases same
        refine keeps ?_
        obtain ⟨tries, overtaken⟩ := tracked.raced _ _ _ before
        have first : tried = 0 := by
          refine tries.resolve_right fun lost => ?_
          exact lost.2.2 snapshot rfl submitted
        obtain ⟨row, there, past⟩ := overtaken snapshot rfl
        have moved : row.status ≠ .submitted := by
          refine past.resolve_left fun sameVersion => raced ?_
          rw [← (reached_numbered tracked.wired.reached).rowVersion row there]
          exact Option.some.inj sameVersion
        refine ⟨.inr ⟨by omega, ⟨row, there, .inr moved⟩, ?_⟩, ?_⟩
        · intro _ missing
          cases missing
        · intro _ missing
          cases missing
      · cases taken
    | _ =>
      simp only [step, submitStep] at next
      repeat' split at next
      all_goals
        cases next
        try cases persisting
  | _ => exact still (step_stage next (by simp))

theorem behind_closes {sender : Sender} {s t : Life} {a : Action} (tracked : Tracked s)
    (next : step sender s a = some t) (behind : routeRead s.stage = true)
    (waits : unheard s.venue = true) (closed : closedRow t.db = true) :
    cancelsBehind s a = true := by
  have wasOpen := tracked.kept behind waits
  have heard : ¬ Gone s.venue := by
    intro gone
    rw [gone_heard gone] at waits
    cases waits
  rcases step_closes tracked.wired next wasOpen closed with
    ⟨i, reason, metadata, snapshot, row, rfl, there, stored, version⟩ | ⟨report, commits, noFill⟩
  · simp [cancelsBehind, there, stored, behind, waits, version]
  · have closing : closes report = true := by
      cases report with
      | fill id qty price venue => exact absurd rfl (noFill id qty price venue)
      | reject reason venue => rfl
      | canceled reason venue => rfl
    exact absurd (tracked.reports report (report_in_hand commits) closing) heard

theorem submit_behind {sender : Sender} {s t : Life} {a : SubmitAction} (tracked : Tracked s)
    (part : takesPart (.submit a) = true) (next : submitStep sender s a = some t)
    (before : routeRead s.stage = false) (behind : routeRead t.stage = true)
    (waits : unheard t.venue = true) : closedRow t.db = false := by
  cases a with
  | store cmd metadata code =>
    simp only [submitStep] at next
    split at next
    · rename_i idle
      have unsent := tracked.unsent (.inl idle.1)
      split at next <;> cases next <;> simp [unheard, unsent] at waits
    · cases next
  | noAdapter reason =>
    simp only [submitStep] at next
    split at next <;> cases next
    simp [unheard] at waits
  | answerRejected reason =>
    simp only [submitStep] at next
    split at next
    · rename_i answered
      cases next
      simp [unheard, answered.2] at waits
    · cases next
  | answerLost => cases part
  | stop => cases part
  | sendCancel =>
    simp only [submitStep] at next
    split at next <;> cases next
    simp [unheard] at waits
  | readRoute =>
    simp only [submitStep] at next
    split at next
    · rename_i name attempt row _ there
      cases next
      simp only [routeRead, Bool.and_eq_true, decide_eq_true_eq] at behind
      have unrejected : row.status ≠ .rejected := by
        intro rejected
        rw [gone_heard (tracked.rejected row there rejected)] at waits
        cases waits
      simp [closedRow, isClosed, there, behind.2, unrejected]
    · cases next
  | writeRoute metadata =>
    simp only [submitStep] at next
    split at next
    · rename_i name attempt snapshot persisting
      cases next
      by_contra closed
      rw [Bool.not_eq_false] at closed
      have returned : stageAfterRoute name
          (routeOnce sender.venue name attempt snapshot metadata s.db).1 = .returned := by
        simp only at behind
        cases left : stageAfterRoute name
            (routeOnce sender.venue name attempt snapshot metadata s.db).1 with
        | persisting routing =>
          obtain ⟨_, rfl, _⟩ := route_persists tracked.wired left
          rw [left] at behind
          cases behind
        | returned => rfl
        | _ =>
          rw [left] at behind
          cases behind
      obtain ⟨_, uncanceled, past⟩ := route_ends tracked.wired persisting returned closed
      have tries := (tracked.raced _ _ _ persisting).tries
      have unsubmitted : snapshot.status ≠ .submitted := by
        refine past.resolve_right fun last => ?_
        unfold maxRouteAttempts at last
        omega
      simp [routeRead, persisting, uncanceled, unsubmitted] at before
    · cases next
  | _ =>
    simp only [submitStep] at next
    repeat' split at next
    all_goals
      cases next
      try cases behind

theorem step_kept {sender : Sender} {s t : Life} {a : Action} (tracked : Tracked s)
    (part : takesPart a = true) (ok : cancelsBehind s a = false)
    (next : step sender s a = some t) (behind : routeRead t.stage = true)
    (waits : unheard t.venue = true) :
    closedRow t.db = false := by
  cases before : routeRead s.stage with
  | true =>
    by_contra closed
    rw [Bool.not_eq_false] at closed
    have waited : unheard s.venue = true := by
      obtain ⟨advances, asked⟩ := step_venue next
      have early : ∀ quantity, s.stage ≠ .stored quantity := by
        intro quantity stored
        rw [stored] at before
        cases before
      unfold unheard at *
      generalize s.venue.status = status at advances ⊢
      generalize t.venue.status = now at advances waits
      cases advances with
      | stays => cases sent : s.venue.cancelSent <;> simp_all
      | accepted => cases sent : s.venue.cancelSent <;> simp_all
      | sent quantity stored => exact absurd stored (early quantity)
      | unroutable quantity stored => exact absurd stored (early quantity)
      | _ => simp at waits
    rw [behind_closes tracked next before waited closed] at ok
    cases ok
  | false =>
    cases a with
    | submit a => exact submit_behind tracked part next before behind waits
    | _ =>
      rw [step_stage next (by simp), before] at behind
      cases behind

theorem step_tracked {sender : Sender} {s t : Life} {a : Action} (tracked : Tracked s)
    (part : takesPart a = true) (ok : cancelsBehind s a = false) (within : overbooks s a = false)
    (next : step sender s a = some t) : Tracked t where
  wired := step_wired tracked.wired next
  unsent := step_unsent next tracked.unsent
  stored _ stored := step_stored tracked next stored
  quoted := step_quoted tracked next
  reports := step_reports tracked next
  queue := step_queue_true tracked part next
  counted := step_counted tracked within next
  rejected := step_rejected tracked next
  raced _ _ _ persisting := step_raced tracked next persisting
  kept := step_kept tracked part ok next

theorem returned_done {s : Life} (tracked : Tracked s) (returned : s.stage = .returned)
    {row : OrderRow} (there : s.db.row = some row) (terminal : row.status.isTerminal = true) :
    worksAt s.venue = false ∨ s.venue.cancelSent = true := by
  obtain ⟨unexpired, full⟩ := reached_finished tracked.wired.reached row there
  by_cases filled : row.status = .filled
  · left
    have counted := tracked.counted
    have booked : filledQty s.db = row.cumQty := by simp [filledQty, there]
    have enough := full filled
    by_contra works
    simp only [worksAt, Bool.not_eq_false, Bool.and_eq_true, Bool.or_eq_true,
      decide_eq_true_eq] at works
    obtain ⟨found, there', quantity⟩ := tracked.quoted works.1
    cases there.symm.trans there'
    rw [booked] at counted
    linarith [works.2]
  · have closed : closedRow s.db = true := by
      cases status : row.status <;> simp_all [closedRow, isClosed, OrderStatus.isTerminal]
    have heard : unheard s.venue = false := by
      by_contra waits
      rw [Bool.not_eq_false] at waits
      have isOpen := tracked.kept (by rw [returned]; rfl) waits
      rw [isOpen] at closed
      cases closed
    cases sent : s.venue.cancelSent with
    | true => exact .inr rfl
    | false => exact .inl (by simp_all [unheard, worksAt])

end OmsKilledOrder
