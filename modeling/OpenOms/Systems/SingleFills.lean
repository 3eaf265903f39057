import OpenOms.Systems.KilledOrder

/-!
A venue that sends one event about each fill, and no totals: what is filled and
what is on its way stay within what it has executed, whoever else writes the
order. So nothing is ever booked beyond that.
-/
namespace OmsSingleFills
open OmsOrders OmsAggregate OmsOrderStore OmsOrderEntry OmsOrderWrites OmsGateway OmsOrderEngine
open OmsOrderLife OmsLifeSteps OmsFillDelivery OmsKilledOrder

/-- The venue's events are about single fills and come once each; no pass of
    reconciliation and no storage failure comes between. -/
def Singly (s : Life) (a : Action) : Prop := outside a = false ∧ redelivers s a = false

instance (s : Life) (a : Action) : Decidable (Singly s a) := by
  unfold Singly
  infer_instance

structure Account (venue : Venue) (ahead : List ExecutionReport) (filled : ℚ) : Prop where
  fills : ∀ fill ∈ venue.fills, 0 < fill.execution.qty
  reports : ∀ report ∈ ahead, 0 ≤ fillQty report
  counted : filled + (undelivered venue.fills + (ahead.map fillQty).sum) ≤ venue.executed

structure Flowing (s : Life) : Prop where
  live : ∀ event ∈ s.queue, isLive event.kind = true
  account : Account s.venue (ahead s) (filledQty s.db)

theorem start_flowing (position : Option OmsPositions.PositionMath) :
    Flowing (.start position) where
  live := by intro _ missing; cases missing
  account :=
    { fills := by intro _ missing; cases missing
      reports := by intro _ missing; cases missing
      counted := by simp [Life.start, filledQty, undelivered, ahead, jobReports, Venue.executed] }

theorem coming_nonneg {venue : Venue} {ahead : List ExecutionReport} {filled : ℚ}
    (account : Account venue ahead filled) :
    0 ≤ undelivered venue.fills ∧ 0 ≤ (ahead.map fillQty).sum := by
  refine ⟨List.sum_nonneg ?_, List.sum_nonneg ?_⟩
  · intro qty member
    obtain ⟨fill, inside, rfl⟩ := List.mem_map.mp member
    exact (account.fills fill (List.mem_of_mem_filter inside)).le
  · intro qty member
    obtain ⟨report, inside, rfl⟩ := List.mem_map.mp member
    exact account.reports report inside

theorem account_same {venue venue' : Venue} {ahead : List ExecutionReport} {filled : ℚ}
    (account : Account venue ahead filled) (fills : venue'.fills = venue.fills) :
    Account venue' ahead filled where
  fills := by rw [fills]; exact account.fills
  reports := account.reports
  counted := by
    rw [Venue.executed, fills]
    exact account.counted

theorem account_closing {venue : Venue} {ahead : List ExecutionReport} {filled : ℚ}
    (account : Account venue ahead filled) {report : ExecutionReport}
    (isClosing : closes report = true) : Account venue (ahead ++ [report]) filled := by
  have none_filled : fillQty report = 0 := by cases report <;> simp_all [closes, fillQty]
  refine ⟨account.fills, ?_, ?_⟩
  · intro found member
    rcases List.mem_append.mp member with old | new
    · exact account.reports found old
    · cases List.mem_singleton.mp new
      exact none_filled.ge
  · simpa [none_filled] using account.counted

theorem account_executes {venue : Venue} {ahead : List ExecutionReport} {filled : ℚ}
    (account : Account venue ahead filled) {execution : Execution} (positive : 0 < execution.qty) :
    Account { venue with fills := venue.fills ++ [⟨execution, 0⟩] } ahead filled := by
  refine ⟨?_, account.reports, ?_⟩
  · intro fill member
    rcases List.mem_append.mp member with old | new
    · exact account.fills fill old
    · cases List.mem_singleton.mp new
      exact positive
  · have counted := account.counted
    simp only [Venue.executed, undelivered, List.filter_append, List.map_append, List.sum_append]
      at counted ⊢
    simp only [decide_true, List.filter_singleton, cond_true, List.map_cons, List.map_nil,
      List.sum_singleton]
    linarith

theorem account_delivers {venue : Venue} {ahead : List ExecutionReport} {filled : ℚ}
    (account : Account venue ahead filled) {i : Nat} {execution : Execution}
    (listed : venue.fills[i]? = some ⟨execution, 0⟩) (at_ : String) :
    Account { venue with fills := venue.fills.set i ⟨execution, 1⟩ }
      (ahead ++ [.fill execution.executionId execution.qty execution.price at_]) filled := by
  have positive := account.fills _ (List.mem_of_getElem? listed)
  refine ⟨?_, ?_, ?_⟩
  · intro fill member
    rcases List.mem_or_eq_of_mem_set member with old | rfl
    · exact account.fills fill old
    · exact positive
  · intro report member
    rcases List.mem_append.mp member with old | new
    · exact account.reports report old
    · cases List.mem_singleton.mp new
      exact positive.le
  · have counted := account.counted
    simp only [Venue.executed, executed_set listed, undelivered_set listed, List.map_append,
      List.sum_append, List.map_cons, List.map_nil, List.sum_singleton, fillQty] at counted ⊢
    linarith

theorem account_tail {venue : Venue} {report : ExecutionReport} {rest : List ExecutionReport}
    {filled now : ℚ} (account : Account venue (report :: rest) filled)
    (books : now ≤ filled + fillQty report) : Account venue rest now := by
  refine ⟨account.fills, fun found member => account.reports found (by simp [member]), ?_⟩
  have counted := account.counted
  simp only [List.map_cons, List.sum_cons] at counted
  linarith

theorem flowing_within {s : Life} (flowing : Flowing s) (a : Action) : overbooks s a = false := by
  unfold overbooks
  split
  · split
    · rename_i report reports attempt snapshot row booking stored
      have account := flowing.account
      have before : ahead s = report ::
          (reports ++ s.queue.flatMap (fun event => reportsFor event 0 none)) := by
        simp [ahead, booking, jobReports]
      have filled : filledQty s.db = row.cumQty := by simp [filledQty, stored]
      rw [before, filled] at account
      obtain ⟨held, _⟩ := coming_nonneg account
      have later := (coming_nonneg (account_tail account (le_refl _))).2
      have counted := account.counted
      simp only [List.map_cons, List.sum_cons] at counted
      have fits : ¬ s.venue.executed < row.cumQty + fillQty report := by linarith
      simp [fits]
    · rfl
  · rfl

theorem flowing_same {s t : Life} (flowing : Flowing s) (queue : t.queue = s.queue)
    (job : t.job = s.job) (fills : t.venue.fills = s.venue.fills)
    (filled : filledQty t.db = filledQty s.db) : Flowing t where
  live := by rw [queue]; exact flowing.live
  account := by
    have same : ahead t = ahead s := by rw [ahead, ahead, queue, job]
    rw [same, filled]
    exact account_same flowing.account fills

theorem flowing_closes {s t : Life} (flowing : Flowing s) {event : ExecEvent}
    {report : ExecutionReport} (queue : t.queue = s.queue ++ [event]) (job : t.job = s.job)
    (fills : t.venue.fills = s.venue.fills)
    (filled : filledQty t.db = filledQty s.db) (live : isLive event.kind = true)
    (reports : ∀ cum avg, reportsFor event cum avg = [report]) (closing : closes report = true) :
    Flowing t where
  live := by
    rw [queue]
    intro queued member
    rcases List.mem_append.mp member with old | new
    · exact flowing.live queued old
    · cases List.mem_singleton.mp new
      exact live
  account := by
    rw [ahead_queued job queue reports, filled]
    exact account_closing (account_same flowing.account fills) closing

theorem submit_flows {sender : Sender} {s t : Life} {a : SubmitAction} (flowing : Flowing s)
    (next : submitStep sender s a = some t) (filled : filledQty t.db = filledQty s.db) :
    Flowing t := by
  cases a with
  | noAdapter reason =>
    simp only [submitStep] at next
    split at next <;> cases next
    exact flowing_closes flowing rfl rfl rfl filled rfl (fun _ _ => rfl) rfl
  | answerRejected reason =>
    simp only [submitStep] at next
    split at next
    · cases next
      exact flowing_closes flowing rfl rfl rfl filled rfl (fun _ _ => rfl) rfl
    · cases next
  | _ =>
    simp only [submitStep] at next
    repeat' split at next
    all_goals
      cases next
      try exact flowing_same flowing rfl rfl rfl filled

theorem venue_flows {sender : Sender} {s t : Life} {a : VenueAction} (flowing : Flowing s)
    (once : Singly s (.venue a)) (next : venueStep sender s a = some t) : Flowing t := by
  cases a with
  | execute execution =>
    simp only [venueStep] at next
    split at next
    · rename_i fits
      cases next
      exact ⟨flowing.live, account_executes flowing.account fits.2.1⟩
    · cases next
  | deliverFill i =>
    simp only [venueStep] at next
    split at next
    · rename_i execution deliveries listed
      have first : deliveries = 0 := by simpa [redelivers, listed] using once.2
      subst first
      cases next
      refine ⟨?_, ?_⟩
      · intro queued member
        rcases List.mem_append.mp member with old | new
        · exact flowing.live queued old
        · cases List.mem_singleton.mp new
          rfl
      · have queued := @ahead_queued s
          { s with
            venue := { s.venue with fills := s.venue.fills.set i ⟨execution, 1⟩ }
            queue := s.queue ++ [sender.event .session
              (.fill execution.executionId execution.qty execution.price)] }
          _ (.fill execution.executionId execution.qty execution.price sender.venue)
          rfl rfl (fun _ _ => rfl)
        rw [queued]
        exact account_delivers flowing.account listed sender.venue
    · cases next
  | deliverCumulative avgPx => cases once.1
  | deliverCanceled reason =>
    simp only [venueStep] at next
    split at next
    · cases next
      exact flowing_closes flowing rfl rfl rfl rfl rfl (fun _ _ => rfl) rfl
    · cases next
  | deliverRejected reason =>
    simp only [venueStep] at next
    split at next
    · cases next
      exact flowing_closes flowing rfl rfl rfl rfl rfl (fun _ _ => rfl) rfl
    · cases next
  | _ =>
    simp only [venueStep] at next
    split at next <;> cases next
    exact flowing_same flowing rfl rfl rfl rfl

theorem book_once_cases (reports : List ExecutionReport) (report : ExecutionReport)
    (attempt : Nat) (snapshot : OrderRow) (metadata : EventMetadata) (db : OrderDb) :
    jobReports (bookOnce reports report attempt snapshot metadata db).1 = reports ∨
      jobReports (bookOnce reports report attempt snapshot metadata db).1 = report :: reports ∧
        (bookOnce reports report attempt snapshot metadata db).2 = db := by
  unfold bookOnce
  split
  · exact .inl (job_for_reports reports)
  · exact .inl (job_for_reports reports)
  · split
    · exact .inl (job_for_reports reports)
    · exact .inr ⟨rfl, rfl⟩

theorem write_flows {sender : Sender} {s t : Life} {metadata : EventMetadata} (wired : Wired s)
    (flowing : Flowing s) (next : step sender s (.engine (.write metadata)) = some t) :
    Flowing t := by
  have books := step_filled wired next
  have taken := next
  simp only [step, engineStep] at taken
  split at taken
  · rename_i report reports attempt snapshot booking
    have effect := (Option.some.inj taken).symm
    have before : ahead s = report ::
        (reports ++ s.queue.flatMap (fun event => reportsFor event 0 none)) := by
      simp [ahead, booking, jobReports]
    have account := flowing.account
    rw [before] at account
    have nonneg := account.reports report List.mem_cons_self
    have covers : filledQty t.db ≤ filledQty s.db + fillQty report := by
      rcases books with same | ⟨_, ⟨_, _, _, _, _, _, hand, _⟩, filled⟩
      · linarith
      · cases booking.symm.trans hand
        exact filled.le
    refine ⟨by rw [effect]; exact flowing.live, ?_⟩
    have venue : t.venue = s.venue := by rw [effect]
    have queue : t.queue = s.queue := by rw [effect]
    rw [venue]
    rcases book_once_cases reports report attempt snapshot metadata s.db with done | ⟨again, same⟩
    · have after : ahead t =
          reports ++ s.queue.flatMap (fun event => reportsFor event 0 none) := by
        rw [ahead, queue, effect, done]
      rw [after]
      exact account_tail account covers
    · have after : ahead t = ahead s := by
        rw [before, ahead, queue, effect, again, List.cons_append]
      have unmoved : t.db = s.db := by rw [effect]; exact same
      rw [after, unmoved]
      exact flowing.account
  · rename_i externalOrderId attempt snapshot routing
    have effect := (Option.some.inj taken).symm
    have same : filledQty t.db = filledQty s.db := by
      refine books.resolve_right ?_
      rintro ⟨_, ⟨_, _, _, _, _, _, booking, _⟩, _⟩
      cases routing.symm.trans booking
    have after : ahead t = ahead s := by
      rw [ahead, ahead, effect, routing, job_after_route_reports]
      rfl
    refine ⟨by rw [effect]; exact flowing.live, ?_⟩
    have venue : t.venue = s.venue := by rw [effect]
    rw [after, venue, same]
    exact flowing.account
  · cases taken

theorem engine_flows {sender : Sender} {s t : Life} {a : EngineAction} (wired : Wired s)
    (flowing : Flowing s) (once : Singly s (.engine a))
    (next : step sender s (.engine a) = some t) : Flowing t := by
  cases a with
  | write metadata => exact write_flows wired flowing next
  | fail => cases once.1
  | take =>
    simp only [step, engineStep] at next
    split at next
    · rename_i event queue idle queued
      have live := flowing.live event (by rw [queued]; exact List.mem_cons_self)
      have later : ∀ queued ∈ queue, isLive queued.kind = true := fun found member =>
        flowing.live found (by rw [queued]; exact List.mem_cons_of_mem _ member)
      obtain ⟨unneeded, report, reports⟩ := live_report live
      split at next
      · rename_i venueOrderId ack
        rw [ack] at live
        cases live
      · simp only [bookedState, unneeded, Bool.false_eq_true, if_false, reports] at next
        cases next
        refine ⟨later, ?_⟩
        have account := flowing.account
        simpa [ahead, idle, queued, jobReports, jobFor, reports] using account
    · cases next
  | read =>
    simp only [step, engineStep] at next
    split at next
    · rename_i booking _
      cases next
      refine ⟨flowing.live, ?_⟩
      have account := flowing.account
      simpa [ahead, booking, jobReports] using account
    · rename_i reports attempt booking _
      cases next
      refine ⟨flowing.live, ?_⟩
      have account := flowing.account
      cases reports with
      | nil => simpa [ahead, booking, jobReports, jobFor] using account
      | cons report rest =>
        have before : ahead s = report ::
            (rest ++ s.queue.flatMap (fun event => reportsFor event 0 none)) := by
          simp [ahead, booking, jobReports]
        rw [before] at account
        have nonneg := account.reports report List.mem_cons_self
        have left := account_tail account (show filledQty s.db ≤ _ by linarith)
        simpa [ahead] using left
    · rename_i routing _
      cases next
      refine ⟨flowing.live, ?_⟩
      have account := flowing.account
      simpa [ahead, routing, jobReports] using account
    · cases next

theorem step_flows {sender : Sender} {s t : Life} {a : Action} (wired : Wired s)
    (flowing : Flowing s) (once : Singly s a) (next : step sender s a = some t) : Flowing t := by
  have filled : (∀ a', a ≠ .engine a') → filledQty t.db = filledQty s.db := fun other =>
    (step_filled wired next).resolve_right fun ⟨_, ⟨_, _, _, _, _, books, _⟩, _⟩ => other _ books
  cases a with
  | submit a => exact submit_flows flowing next (filled (by simp))
  | venue a => exact venue_flows flowing once next
  | cancel a =>
    obtain ⟨_, _, queue, job, _⟩ := cancel_step_frame next
    exact flowing_same flowing queue job (cancel_step_venue next).2.2 (filled (by simp))
  | engine a => exact engine_flows wired flowing once next
  | recon a => cases once.1
  | tick n =>
    cases next
    exact flowing_same flowing rfl rfl rfl rfl

end OmsSingleFills
