import OpenOms.Systems.LifeSteps

/-!
Orders the OMS has closed while their venue still works them and was never asked
to stop. Three parties can close an order on a partial view: a cancel that finds
no venue id, the stuck-order sweep, and a venue's own close, which is the only
one that is always true.
-/
namespace OmsOrphans
open OmsOrders OmsAggregate OmsOrderStore OmsExecution OmsOrderEntry OmsOrderWrites OmsGateway
open OmsReconOrders OmsOrderEngine OmsOrderLife OmsLifeSteps Runs

def isClosed (status : OrderStatus) : Bool := status = .canceled || status = .rejected

def closedRow (db : OrderDb) : Bool := db.row.any (fun row => isClosed row.status)

def unheard (venue : Venue) : Bool :=
  (venue.status = .pending || venue.status = .working) && !venue.cancelSent

/-- Once submit has returned: closed in the OMS, worked by the venue, no cancel sent. -/
def Orphan (s : Life) : Prop :=
  s.stage = .returned ∧ closedRow s.db ∧ s.venue.status = .working ∧ s.venue.cancelSent = false

instance (s : Life) : Decidable (Orphan s) := by
  unfold Orphan
  infer_instance

/-- The reason the sweep gives an order its venue does not know. -/
def neverReached : String := "never reached the broker"

def cancelsUnheard (s : Life) : Action → Bool
  | .cancel (.write i _ _) =>
    match s.cancels[i]?, s.db.row with
    | some (.locally snapshot), some row =>
      s.stage = .returned && unheard s.venue && snapshot.version = row.version
    | _, _ => false
  | _ => false

/-- The submit ends on a closed order without its follow-up cancel: its broker
    call or its storage failed, or its route step met another state than `canceled`. -/
def endsUnheard (s : Life) : Action → Bool
  | .submit .answerLost | .submit .stop => closedRow s.db && unheard s.venue
  | .submit (.writeRoute _) =>
    match s.stage with
    | .persisting ⟨_, attempt, some snapshot⟩ =>
      closedRow s.db && unheard s.venue && snapshot.status ≠ .canceled &&
        (snapshot.status ≠ .submitted || attempt + 1 = maxRouteAttempts)
    | _ => false
  | _ => false

def sweepsUnheard (s : Life) : Action → Bool
  | .engine (.write _) =>
    match s.job, s.db.row with
    | some (.booking (.reject reason _ :: _) _ (some snapshot)), some row =>
      reason = neverReached && s.stage = .returned && unheard s.venue &&
        snapshot.version = row.version && !row.status.isTerminal
    | _, _ => false
  | _ => false

def Orphans (s : Life) (a : Action) : Prop :=
  cancelsUnheard s a ∨ endsUnheard s a ∨ sweepsUnheard s a

instance (s : Life) (a : Action) : Decidable (Orphans s a) := by
  unfold Orphans
  infer_instance

def TrueEvent (venue : Venue) : ExecKind → Prop
  | .canceled _ => Gone venue
  | .rejected reason => Gone venue ∨ reason = neverReached
  | .terminal state =>
    state.outcome = .canceled ∨ state.outcome = .rejected → Gone venue
  | _ => True

def TrueReport (venue : Venue) : ExecutionReport → Prop
  | .canceled .. => Gone venue
  | .reject reason _ => Gone venue ∨ reason = neverReached
  | .fill .. => True

theorem gone_heard {venue : Venue} (gone : Gone venue) : unheard venue = false := by
  rcases gone with closed | refused <;> simp [unheard, *]

theorem true_reports {venue : Venue} {event : ExecEvent} (told : TrueEvent venue event.kind)
    {cum : ℚ} {avg : Option ℚ} {report : ExecutionReport}
    (member : report ∈ reportsFor event cum avg) : TrueReport venue report := by
  unfold reportsFor at member
  split at member
  · cases List.mem_singleton.mp member
    trivial
  · obtain ⟨missing, _, rfl⟩ := Option.map_eq_some_iff.mp (Option.mem_toList.mp member)
    trivial
  · rename_i state isTerminal
    rw [isTerminal] at told
    rcases List.mem_append.mp member with fill | close
    · obtain ⟨missing, _, rfl⟩ := Option.map_eq_some_iff.mp (Option.mem_toList.mp fill)
      trivial
    · cases outcome : state.outcome <;> rw [outcome] at close
      · cases close
      · cases List.mem_singleton.mp close
        exact told (.inl outcome)
      · cases List.mem_singleton.mp close
        exact .inl (told (.inr outcome))
      · cases close
  · rename_i reason isCanceled
    rw [isCanceled] at told
    cases List.mem_singleton.mp member
    exact told
  · rename_i reason isRejected
    rw [isRejected] at told
    cases List.mem_singleton.mp member
    exact told
  · cases member

/-- No closing word about the order is false but the sweep's, and once submit has
    returned an order its venue has not heard a cancel of is not closed. -/
structure Safe (s : Life) : Prop where
  wired : Wired s
  unsent : Early s.stage → s.venue.status = .unsent
  reports : ∀ report ∈ jobReports s.job, TrueReport s.venue report
  queue : ∀ event ∈ s.queue, TrueEvent s.venue event.kind
  recon : ∀ event, .sends event ∈ s.recon → TrueEvent s.venue event.kind
  kept : s.stage = .returned → unheard s.venue = true → closedRow s.db = false

theorem start_safe (position : Option OmsPositions.PositionMath) : Safe (.start position) where
  wired := start_wired position
  unsent := fun _ => rfl
  reports := by intro _ missing; cases missing
  queue := by intro _ missing; cases missing
  recon := by intro _ missing; cases missing
  kept := by intro wrong; cases wrong

theorem safe_no_orphan {s : Life} (safe : Safe s) : ¬ Orphan s := by
  rintro ⟨returned, closed, working, unasked⟩
  have waits : unheard s.venue = true := by simp [unheard, working, unasked]
  rw [safe.kept returned waits] at closed
  cases closed

theorem still_true_event {venue venue' : Venue} (gone : Gone venue → Gone venue')
    {kind : ExecKind} (told : TrueEvent venue kind) : TrueEvent venue' kind := by
  cases kind with
  | terminal state => exact fun closes => gone (told closes)
  | canceled reason => exact gone told
  | rejected reason => exact told.imp_left gone
  | _ => trivial

theorem still_true_report {venue venue' : Venue} (gone : Gone venue → Gone venue')
    {report : ExecutionReport} (told : TrueReport venue report) : TrueReport venue' report := by
  cases report with
  | fill => trivial
  | canceled reason at_ => exact gone told
  | reject reason at_ => exact told.imp_left gone

theorem found_true {sender : Sender} {s : Life} {event : ExecEvent}
    (found : Found sender s (.sends event)) : TrueEvent s.venue event.kind := by
  have closing : ∀ state : BrokerOrderState, answers s.venue.status (.ok state) = true →
      state.outcome = .canceled ∨ state.outcome = .rejected → Gone s.venue := by
    intro state agrees outcome
    unfold Gone
    rcases outcome with outcome | outcome <;> simp_all [answers]
  cases found with
  | ack venueOrderId named => trivial
  | resolved state agrees => exact closing state agrees
  | swept answer kind agrees outcome =>
    cases answer with
    | ok state =>
      simp only [stuckOutcome] at outcome
      split at outcome <;> cases outcome
      exact closing state agrees
    | error failure =>
      cases failure with
      | noSuchOrder id =>
        cases outcome
        exact .inr rfl
      | _ => cases outcome

theorem said_true {sender : Sender} {t : Life} {event : ExecEvent} (said : Said sender t event) :
    TrueEvent t.venue event.kind := by
  cases said with
  | fill execution executed => trivial
  | cumulative avgPx => trivial
  | canceled reason closed => exact .inl closed
  | rejected reason refused => exact .inl (.inr refused)

theorem write_closes {db db' : OrderDb} {kind : WriteKind} (write : Write db kind db')
    (closed : closedRow db' = true) : closedRow db = true ∨ kind = .localCancel ∨
      ∃ row report, db.row = some row ∧ row.status.isTerminal = false ∧ kind = .report report ∧
        ∀ id qty price venue, report ≠ .fill id qty price venue := by
  cases write with
  | submitted => cases closed
  | reported row report event stored isOpen fits yields =>
    refine .inr (.inr ⟨row, report, stored, isOpen, rfl, ?_⟩)
    rintro id qty price venue rfl
    simp only [closedRow, Option.any_some, reportedRow, reportState, fillState] at closed
    split at closed <;> cases closed
  | routed => cases closed
  | canceled => exact .inr (.inl rfl)
  | recorded externalOrderId =>
    left
    cases stored : db.row with
    | none => simp [closedRow, recordExternalId, stored] at closed
    | some row => simpa [closedRow, recordExternalId, stored] using closed

theorem route_ends {sender : Sender} {s : Life} (wired : Wired s) {name : String} {attempt : Nat}
    {snapshot : OrderRow} (persisting : s.stage = .persisting ⟨name, attempt, some snapshot⟩)
    {metadata : EventMetadata}
    (returned : stageAfterRoute name
      (routeOnce sender.venue name attempt snapshot metadata s.db).1 = .returned)
    (closed : closedRow (routeOnce sender.venue name attempt snapshot metadata s.db).2 = true) :
    closedRow s.db = true ∧ snapshot.status ≠ .canceled ∧
      (snapshot.status ≠ .submitted ∨ attempt + 1 = maxRouteAttempts) := by
  have num := reached_numbered wired.reached
  cases run : persistRoutedOnce snapshot sender.venue name metadata s.db with
  | ok outcome =>
    obtain ⟨result, committed⟩ := outcome
    simp only [routeOnce, run] at returned closed
    rcases route_once_cases num (wired.route _ _ _ persisting) (reached_lively wired.reached) run
      with ⟨terminal, rfl, rfl⟩ | ⟨isOpen, other, rfl, rfl⟩ | ⟨row, event, _, _, _, _, _, _, rfl⟩
    · refine ⟨closed, ?_, .inl ?_⟩ <;> intro status <;> rw [status] at returned terminal
      · cases returned
      · cases terminal
    · refine ⟨?_, ?_, .inl other⟩
      · simpa using write_closes (.recorded name) closed
      · intro canceled
        rw [canceled] at isOpen
        cases isOpen
    · cases closed
  | error failure =>
    by_cases submitted : snapshot.status = .submitted
    · obtain ⟨event, _, once⟩ := route_once_submitted submitted sender.venue name metadata num
      rw [once] at run
      split at run
      · cases run
      · cases run
        rename_i lost
        simp only [routeOnce, once, if_neg lost] at returned closed
        split at returned
        · rename_i last
          simp only [last, if_true] at closed
          exact ⟨closed, by simp [submitted], .inr last⟩
        · cases returned
    · cases terminal : snapshot.status.isTerminal <;>
        simp [persistRoutedOnce, terminal, submitted] at run

theorem submit_ends {sender : Sender} {s t : Life} {a : SubmitAction} (safe : Safe s)
    (next : submitStep sender s a = some t) (returned : t.stage = .returned)
    (waits : unheard t.venue = true) (closed : closedRow t.db = true) :
    endsUnheard s (.submit a) = true := by
  cases a with
  | store cmd metadata code =>
    simp only [submitStep] at next
    split at next
    · rename_i idle
      have unsent := safe.unsent (.inl idle.1)
      split at next <;> cases next
      · cases returned
      · simp [unheard, unsent] at waits
    · cases next
  | noAdapter reason =>
    simp only [submitStep] at next
    split at next <;> cases next
    simp [unheard] at waits
  | answerRejected reason =>
    simp only [submitStep] at next
    split at next
    · rename_i answered
      cases next
      simp [unheard, answered.2] at waits
    · cases next
  | sendCancel =>
    simp only [submitStep] at next
    split at next <;> cases next
    simp [unheard] at waits
  | answerLost =>
    simp only [submitStep] at next
    split at next <;> cases next
    simp only [endsUnheard, Bool.and_eq_true]
    exact ⟨closed, waits⟩
  | stop =>
    simp only [submitStep] at next
    split at next <;> cases next
    simp only [endsUnheard, Bool.and_eq_true]
    exact ⟨closed, waits⟩
  | writeRoute metadata =>
    simp only [submitStep] at next
    split at next
    · rename_i name attempt snapshot persisting
      cases next
      obtain ⟨before, uncanceled, last⟩ := route_ends safe.wired persisting returned closed
      have waiting : unheard s.venue = true := waits
      simp [endsUnheard, persisting, before, waiting, uncanceled, last]
    · cases next
  | _ =>
    simp only [submitStep] at next
    repeat' split at next
    all_goals
      cases next
      try cases returned

theorem step_unheard {sender : Sender} {s t : Life} {a : Action}
    (next : step sender s a = some t) (returned : s.stage = .returned)
    (waits : unheard t.venue = true) : unheard s.venue = true := by
  obtain ⟨advances, asked⟩ := step_venue next
  unfold unheard at *
  generalize s.venue.status = before at advances ⊢
  generalize t.venue.status = now at advances waits
  cases advances with
  | stays => cases sent : s.venue.cancelSent <;> simp_all
  | accepted => cases sent : s.venue.cancelSent <;> simp_all
  | sent quantity stored => simp [stored] at returned
  | unroutable quantity stored => simp [stored] at returned
  | _ => simp at waits

theorem step_closes {sender : Sender} {s t : Life} {a : Action} (wired : Wired s)
    (next : step sender s a = some t) (wasOpen : closedRow s.db = false)
    (closed : closedRow t.db = true) :
    (∃ i reason metadata snapshot row, a = .cancel (.write i reason metadata) ∧
      s.cancels[i]? = some (.locally snapshot) ∧ s.db.row = some row ∧
      row.version = snapshot.version) ∨
    ∃ report, CommitsReport s a report ∧
      ∀ id qty price venue, report ≠ .fill id qty price venue := by
  have unclosed : ¬ closedRow s.db = true := by simp [wasOpen]
  rcases step_writes wired next with
    same | ⟨_, _, _, _, _, write⟩ | ⟨w, snapshot, kind, runs, makes, write⟩
  · rw [same, wasOpen] at closed
    cases closed
  · rcases (write_closes write closed).resolve_left unclosed with wrong | ⟨_, _, _, _, wrong, _⟩ <;>
      cases wrong
  · rcases (write_closes write closed).resolve_left unclosed with
      rfl | ⟨_, report, _, _, rfl, closes⟩
    · obtain ⟨reason, metadata, row, rfl, stored, version⟩ := makes_local_cancel makes
      obtain ⟨i, rfl, there⟩ := writer_cancel runs
      exact .inl ⟨i, reason, metadata, snapshot, row, rfl, there, stored, version⟩
    · exact .inr ⟨report, writer_commits runs makes write, closes⟩

/-- After submit has returned, only a local cancel or the sweep closes an order
    whose venue still waits. -/
theorem returned_closes {sender : Sender} {s t : Life} {a : Action} (safe : Safe s)
    (next : step sender s a = some t) (returned : s.stage = .returned)
    (waits : unheard t.venue = true) (closed : closedRow t.db = true) : Orphans s a := by
  have waited := step_unheard next returned waits
  have wasOpen := safe.kept returned waited
  rcases step_closes safe.wired next wasOpen closed with
    ⟨i, reason, metadata, snapshot, row, rfl, there, stored, version⟩ |
    ⟨report, ⟨_, _, _, _, row, rfl, booking, stored, version, isOpen⟩, closes⟩
  · exact .inl (by simp [cancelsUnheard, there, stored, returned, waited, version])
  · have told := safe.reports report (by rw [booking]; exact List.mem_cons_self)
    have waiting : ¬ Gone s.venue := by
      intro gone
      rw [gone_heard gone] at waited
      cases waited
    cases report with
    | fill id qty price venue => exact absurd rfl (closes id qty price venue)
    | canceled reason venue => exact absurd told waiting
    | reject reason venue =>
      have swept : reason = neverReached := told.resolve_left waiting
      exact .inr (.inr
        (by simp [sweepsUnheard, booking, stored, swept, returned, waited, version, isOpen]))

theorem step_safe {sender : Sender} {s t : Life} {a : Action} (safe : Safe s)
    (kept : ¬ Orphans s a) (next : step sender s a = some t) : Safe t where
  wired := step_wired safe.wired next
  unsent := step_unsent next safe.unsent
  reports := by
    intro report member
    rcases (step_job next).1 report member with old | ⟨event, queued, cum, avg, new⟩
    · exact still_true_report (step_gone safe.unsent next) (safe.reports report old)
    · exact still_true_report (step_gone safe.unsent next)
        (true_reports (safe.queue event queued) new)
  queue := by
    intro event member
    rcases step_queue next member with old | held | said
    · exact still_true_event (step_gone safe.unsent next) (safe.queue event old)
    · exact still_true_event (step_gone safe.unsent next) (safe.recon event held)
    · exact said_true said
  recon := by
    intro event member
    rcases step_recon next member with old | found
    · exact still_true_event (step_gone safe.unsent next) (safe.recon event old)
    · exact still_true_event (step_gone safe.unsent next) (found_true found)
  kept := by
    intro returned waits
    by_contra closed
    rw [Bool.not_eq_false] at closed
    by_cases before : s.stage = .returned
    · exact kept (returned_closes safe next before waits closed)
    · cases a with
      | submit a => exact kept (.inr (.inl (submit_ends safe next returned waits closed)))
      | _ => exact before (step_stage next (by simp) ▸ returned)

/-- In every run with none of the three steps, no order is orphaned. -/
theorem no_orphan (sender : Sender) (position : Option OmsPositions.PositionMath)
    {as : List Action}
    (kept : Along (step sender) (fun s a => ¬ Orphans s a) (.start position) as) :
    Throughout (step sender) (fun s => ¬ Orphan s) (.start position) as :=
  throughout_mono (fun _ safe => safe_no_orphan safe)
    (throughout_along (fun _ _ _ safe kept next => step_safe safe kept next)
      (start_safe position) kept)

/-- A Kill cancels locally while the broker call is in flight: the route step
    finds the order canceled and the submit cancels it at the venue. -/
theorem canceled_in_flight_not_orphaned :
    Throughout (step paper) (fun s => ¬ Orphan s) (.start none)
      [.submit (.store buyTen stamp "paper"), .submit .send, .venue .accept, .cancel .read,
        .cancel (.write 0 none stamp), .submit (.answerOk "v1"), .submit .readRoute,
        .submit (.writeRoute stamp), .submit .sendCancel] :=
  no_orphan paper none (by decide +kernel)

/-- The venue's answer is lost, and a cancel finds no venue id. -/
theorem lost_answer_orphans :
    ¬ ∀ as, Throughout (step paper) (fun s => ¬ Orphan s) (.start none) as := by
  intro always
  have last := throughout_end (always [.submit (.store buyTen stamp "paper"), .submit .send,
    .venue .accept, .submit .answerLost, .cancel .read, .cancel (.write 0 none stamp)])
  revert last
  decide +kernel

end OmsOrphans
