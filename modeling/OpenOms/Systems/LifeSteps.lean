import OpenOms.Systems.OrderLife

/-!
What a step of an order's life can do, said once for each thing it moves: the
database, the rows its writers hold, the queue, the engine's job and the views
of reconcile passes. Every write of a run is one of `Write`, made by a writer
whose row was current when it was read.
-/
namespace OmsLifeSteps
open OmsOrders OmsAggregate OmsOrderStore OmsExecution OmsOrderEntry OmsOrderWrites OmsGateway
open OmsReconOrders OmsReconQueries OmsOrderEngine OmsOrderLife

def writer (sender : Sender) (s : Life) : Action → Option (Writer × OrderRow)
  | .submit (.writeRoute metadata) =>
    match s.stage with
    | .persisting ⟨externalOrderId, _, some snapshot⟩ =>
      some (.route sender.venue externalOrderId metadata, snapshot)
    | _ => none
  | .cancel (.write i reason metadata) =>
    match s.cancels[i]? with
    | some (.locally snapshot) => some (.cancel reason metadata, snapshot)
    | _ => none
  | .engine (.write metadata) =>
    match s.job with
    | some (.booking (report :: _) _ (some snapshot)) => some (.report report metadata, snapshot)
    | some (.routing ⟨externalOrderId, _, some snapshot⟩) =>
      some (.route sender.venue externalOrderId metadata, snapshot)
    | _ => none
  | _ => none

theorem route_once_db (venue externalOrderId : String) (attempt : Nat) (snapshot : OrderRow)
    (metadata : EventMetadata) (db : OrderDb) :
    (routeOnce venue externalOrderId attempt snapshot metadata db).2 =
      perform (.route venue externalOrderId metadata) snapshot db := by
  simp only [routeOnce, perform]
  split <;> rename_i run <;> simp only [run]
  split <;> rfl

theorem book_once_db (reports : List ExecutionReport) (report : ExecutionReport) (attempt : Nat)
    (snapshot : OrderRow) (metadata : EventMetadata) (db : OrderDb) :
    (bookOnce reports report attempt snapshot metadata db).2 =
      perform (.report report metadata) snapshot db := by
  simp only [bookOnce, perform]
  split <;> rename_i run <;> simp only [run]
  split <;> rfl

inductive Found (sender : Sender) (s : Life) : ReconView → Prop where
  | stuck (order : StuckOrder) : Found sender s (.stuck order)
  | askStuck : Found sender s .askStuck
  | working (order : OmsWorkingOrder) : Found sender s (.working order)
  | askWorking : Found sender s .askWorking
  | ack (venueOrderId : String) (named : venueOrderId ≠ "") :
      Found sender s (.sends (sender.event .snapshot (.ack venueOrderId)))
  | swept (answer : Except BrokerError BrokerOrderState) (kind : ExecKind)
      (agrees : answers s.venue.status answer) (outcome : stuckOutcome answer = some kind) :
      Found sender s (.sends (sender.event .snapshot kind))
  | resolved (state : BrokerOrderState) (agrees : answers s.venue.status (.ok state)) :
      Found sender s (.sends (sender.event .snapshot (.terminal state)))

theorem recon_step_cases {sender : Sender} {s t : Life} {a : ReconStep}
    (next : reconStep sender s a = some t) :
    ∃ recon, (∀ view ∈ recon, view ∈ s.recon ∨ Found sender s view) ∧
      (t = { s with recon } ∨
        ∃ event, .sends event ∈ s.recon ∧ t = { s with queue := s.queue ++ [event], recon }) := by
  have replaced : ∀ i (view : Option ReconView), (∀ found ∈ view, Found sender s found) →
      ∃ recon, (∀ view ∈ recon, view ∈ s.recon ∨ Found sender s view) ∧
        setView s i view = { s with recon } := by
    intro i view new
    cases view with
    | none => exact ⟨_, fun view member => .inl (List.mem_of_mem_eraseIdx member), rfl⟩
    | some found =>
      refine ⟨_, fun view member => ?_, rfl⟩
      rcases List.mem_or_eq_of_mem_set member with old | rfl
      · exact .inl old
      · exact .inr (new view rfl)
  have added : ∀ views : List ReconView, (∀ view ∈ views, Found sender s view) →
      ∀ view ∈ s.recon ++ views, view ∈ s.recon ∨ Found sender s view := by
    intro views new view member
    exact (List.mem_append.mp member).imp_right (new view)
  cases a with
  | loadStuck tables brokerCode environment =>
    cases next
    refine ⟨_, added _ fun view member => ?_, .inl rfl⟩
    obtain ⟨order, _, rfl⟩ := List.mem_map.mp member
    exact .stuck order
  | loadWorking tables brokerCode environment =>
    cases next
    refine ⟨_, added _ fun view member => ?_, .inl rfl⟩
    obtain ⟨order, _, rfl⟩ := List.mem_map.mp member
    exact .working order
  | snapshot i brokerOpen =>
    simp only [reconStep] at next
    split at next
    · split at next
      · split at next
        · rename_i orderId venueOrderId routes
          cases next
          obtain ⟨recon, new, same⟩ := replaced i (viewAfter sender (some (.ack venueOrderId)))
            (by rintro found ⟨⟩; exact .ack venueOrderId (plan_stuck_routes routes))
          exact ⟨recon, new, .inl same⟩
        · cases next
          obtain ⟨recon, new, same⟩ :=
            replaced i (some .askStuck) (by rintro found ⟨⟩; exact .askStuck)
          exact ⟨recon, new, .inl same⟩
      · split at next
        · cases next
          obtain ⟨recon, new, same⟩ := replaced i (some .askWorking)
            (by rintro found ⟨⟩; exact .askWorking)
          exact ⟨recon, new, .inl same⟩
        · cases next
          obtain ⟨recon, new, same⟩ := replaced i none (by rintro found ⟨⟩)
          exact ⟨recon, new, .inl same⟩
      · cases next
    · cases next
  | ask i answer =>
    simp only [reconStep] at next
    split at next
    · rename_i agrees
      split at next
      · cases next
        obtain ⟨recon, new, same⟩ := replaced i (viewAfter sender (stuckOutcome answer)) (by
          intro found member
          obtain ⟨kind, outcome, rfl⟩ := Option.map_eq_some_iff.mp member
          exact .swept answer kind agrees outcome)
        exact ⟨recon, new, .inl same⟩
      · split at next
        · rename_i state
          cases next
          obtain ⟨recon, new, same⟩ := replaced i (viewAfter sender (some (.terminal state)))
            (by rintro found ⟨⟩; exact .resolved state agrees)
          exact ⟨recon, new, .inl same⟩
        · cases next
          obtain ⟨recon, new, same⟩ := replaced i none (by rintro found ⟨⟩)
          exact ⟨recon, new, .inl same⟩
      · cases next
    · cases next
  | send i =>
    simp only [reconStep] at next
    split at next
    · rename_i event there
      cases next
      exact ⟨_, fun view member => .inl (List.mem_of_mem_eraseIdx member),
        .inr ⟨event, List.mem_of_getElem? there, rfl⟩⟩
    · cases next
  | drop i =>
    cases next
    exact ⟨_, fun view member => .inl (List.mem_of_mem_eraseIdx member), .inl rfl⟩

theorem step_db {sender : Sender} {s t : Life} {a : Action} (next : step sender s a = some t) :
    (∃ cmd metadata code, a = .submit (.store cmd metadata code) ∧
      submitTx cmd metadata code s.now s.db = .ok t.db) ∨
    (∃ w snapshot, writer sender s a = some (w, snapshot) ∧ t.db = perform w snapshot s.db) ∨
    t.db = s.db := by
  cases a with
  | submit a =>
    cases a with
    | store cmd metadata code =>
      simp only [step, submitStep] at next
      split at next
      · split at next
        · rename_i committed inserted
          cases next
          exact .inl ⟨cmd, metadata, code, rfl, inserted⟩
        · cases next
          exact .inr (.inr rfl)
      · cases next
    | writeRoute metadata =>
      simp only [step, submitStep] at next
      split at next
      · rename_i externalOrderId attempt snapshot isPersisting
        cases next
        refine .inr (.inl ⟨.route sender.venue externalOrderId metadata, snapshot, ?_, ?_⟩)
        · simp only [writer, isPersisting]
        · exact route_once_db ..
      · cases next
    | _ =>
      simp only [step, submitStep] at next
      refine .inr (.inr ?_)
      split at next <;> cases next
      rfl
  | venue a =>
    refine .inr (.inr ?_)
    cases a with
    | deliverCumulative avgPx =>
      cases next
      rfl
    | _ =>
      simp only [step, venueStep] at next
      split at next <;> cases next
      rfl
  | cancel a =>
    cases a with
    | write i reason metadata =>
      simp only [step, cancelStep] at next
      split at next
      · rename_i snapshot there
        refine .inr (.inl ⟨.cancel reason metadata, snapshot, ?_, ?_⟩)
        · simp only [writer, there]
        · cases run : cancelLocally snapshot reason metadata s.db with
          | ok committed =>
            simp only [run] at next
            cases next
            simp only [perform, run]
          | error e =>
            simp only [run] at next
            cases next
            simp only [perform, run]
      · cases next
    | drop i =>
      cases next
      exact .inr (.inr rfl)
    | _ =>
      refine .inr (.inr ?_)
      simp only [step, cancelStep] at next
      split at next <;> cases next <;> rfl
  | engine a =>
    cases a with
    | write metadata =>
      simp only [step, engineStep] at next
      split at next
      · rename_i report reports attempt snapshot isBooking
        cases next
        refine .inr (.inl ⟨.report report metadata, snapshot, ?_, book_once_db ..⟩)
        simp only [writer, isBooking]
      · rename_i externalOrderId attempt snapshot isRouting
        cases next
        refine .inr (.inl ⟨.route sender.venue externalOrderId metadata, snapshot, ?_,
          route_once_db ..⟩)
        simp only [writer, isRouting]
      · cases next
    | take =>
      refine .inr (.inr ?_)
      simp only [step, engineStep] at next
      split at next
      · split at next
        · cases next
          rfl
        · split at next <;> cases next <;> rfl
      · cases next
    | _ =>
      refine .inr (.inr ?_)
      simp only [step, engineStep] at next
      split at next <;> cases next <;> rfl
  | recon a =>
    obtain ⟨recon, _, same | ⟨event, _, same⟩⟩ := recon_step_cases next <;>
      exact .inr (.inr (by rw [same]))
  | tick n =>
    cases next
    exact .inr (.inr rfl)

theorem stage_after_route_unread {venue externalOrderId : String} {attempt : Nat}
    {snapshot : OrderRow} {metadata : EventMetadata} {db : OrderDb} {name : String} {tried : Nat}
    {found : OrderRow} :
    stageAfterRoute externalOrderId
        (routeOnce venue externalOrderId attempt snapshot metadata db).1 ≠
      .persisting ⟨name, tried, some found⟩ := by
  unfold routeOnce
  split
  · rename_i result committed run
    cases result with
    | terminal status => cases status <;> simp [stageAfterRoute]
    | _ => simp [stageAfterRoute]
  · simp [stageAfterRoute]
  · split <;> simp [stageAfterRoute]

/-- The submit touches its own stage, the venue, the queue and the database. -/
theorem submit_step_frame {sender : Sender} {s t : Life} {a : SubmitAction}
    (next : submitStep sender s a = some t) :
    t.now = s.now ∧ t.cancels = s.cancels ∧ t.job = s.job ∧ t.recon = s.recon := by
  cases a <;> simp only [submitStep] at next <;> repeat' split at next
  all_goals
    cases next
    try exact ⟨rfl, rfl, rfl, rfl⟩

theorem venue_step_frame {sender : Sender} {s t : Life} {a : VenueAction}
    (next : venueStep sender s a = some t) :
    t.db = s.db ∧ t.now = s.now ∧ t.stage = s.stage ∧ t.cancels = s.cancels ∧ t.job = s.job ∧
      t.recon = s.recon := by
  cases a <;> simp only [venueStep] at next <;> repeat' split at next
  all_goals
    cases next
    try exact ⟨rfl, rfl, rfl, rfl, rfl, rfl⟩

theorem cancel_step_frame {s t : Life} {a : CancelAction} (next : cancelStep s a = some t) :
    t.now = s.now ∧ t.stage = s.stage ∧ t.queue = s.queue ∧ t.job = s.job ∧
      t.recon = s.recon := by
  cases a <;> simp only [cancelStep] at next <;> repeat' split at next
  all_goals
    cases next
    try exact ⟨rfl, rfl, rfl, rfl, rfl⟩

theorem engine_step_frame {sender : Sender} {s t : Life} {a : EngineAction}
    (next : engineStep sender s a = some t) :
    t.now = s.now ∧ t.stage = s.stage ∧ t.venue = s.venue ∧ t.cancels = s.cancels ∧
      t.recon = s.recon := by
  cases a <;> simp only [engineStep] at next <;> repeat' split at next
  all_goals
    cases next
    try exact ⟨rfl, rfl, rfl, rfl, rfl⟩

theorem cancel_step_venue {s t : Life} {a : CancelAction} (next : cancelStep s a = some t) :
    t.venue.status = s.venue.status ∧ t.venue.quantity = s.venue.quantity ∧
      t.venue.fills = s.venue.fills := by
  cases a <;> simp only [cancelStep] at next <;> repeat' split at next
  all_goals
    cases next
    try exact ⟨rfl, rfl, rfl⟩

theorem submit_step_fills {sender : Sender} {s t : Life} {a : SubmitAction}
    (next : submitStep sender s a = some t) : t.venue.fills = s.venue.fills := by
  cases a <;> simp only [submitStep] at next <;> repeat' split at next
  all_goals
    cases next
    try rfl

theorem submit_step_reads {sender : Sender} {s t : Life} {a : SubmitAction} {name : String}
    {tried : Nat} {found : OrderRow} (next : submitStep sender s a = some t)
    (persisting : t.stage = .persisting ⟨name, tried, some found⟩) : s.db.row = some found := by
  cases a with
  | readRoute =>
    simp only [submitStep] at next
    split at next
    · rename_i externalOrderId attempt row _ stored
      cases next
      cases persisting
      exact stored
    · cases next
  | writeRoute metadata =>
    simp only [submitStep] at next
    split at next
    · cases next
      exact absurd persisting stage_after_route_unread
    · cases next
  | _ =>
    simp only [submitStep] at next
    repeat' split at next
    all_goals
      cases next
      try cases persisting

theorem cancel_step_reads {s t : Life} {a : CancelAction} {found : OrderRow}
    (next : cancelStep s a = some t) (member : .locally found ∈ t.cancels) :
    .locally found ∈ s.cancels ∨ s.db.row = some found ∧ found.status.isTerminal = false := by
  cases a with
  | read =>
    simp only [cancelStep] at next
    split at next
    · rename_i path read
      cases next
      rcases List.mem_append.mp member with old | new
      · exact .inl old
      · cases List.mem_singleton.mp new
        have snapshot : readRow (.cancel none ⟨"", 0, ""⟩) s.db.row = some found := by
          simp only [readRow, read]
        obtain ⟨stored, isOpen⟩ := read_row_snapshot snapshot
        exact .inr ⟨stored, isOpen none _ rfl⟩
    · cases next
      exact .inl member
  | drop i =>
    cases next
    exact .inl (List.mem_of_mem_eraseIdx member)
  | _ =>
    simp only [cancelStep] at next
    repeat' split at next
    all_goals
      cases next
      try exact .inl (List.mem_of_mem_eraseIdx member)

theorem job_after_route_unread {venue externalOrderId : String} {attempt : Nat}
    {snapshot : OrderRow} {metadata : EventMetadata} {db : OrderDb} {job : Job}
    (goesOn : jobAfterRoute (routeOnce venue externalOrderId attempt snapshot metadata db).1 =
      some job) : job = .routing ⟨externalOrderId, attempt + 1, none⟩ := by
  unfold routeOnce at goesOn
  split at goesOn
  · cases goesOn
  · cases goesOn
  · split at goesOn <;> cases goesOn
    rfl

theorem book_once_unread {reports : List ExecutionReport} {report : ExecutionReport}
    {attempt : Nat} {snapshot : OrderRow} {metadata : EventMetadata} {db : OrderDb} {job : Job}
    (goesOn : (bookOnce reports report attempt snapshot metadata db).1 = some job) :
    jobFor reports = some job ∨ job = .booking (report :: reports) (attempt + 1) none := by
  unfold bookOnce at goesOn
  split at goesOn
  · exact .inl goesOn
  · exact .inl goesOn
  · split at goesOn
    · exact .inl goesOn
    · cases goesOn
      exact .inr rfl

def jobSnapshot : Job → Option OrderRow
  | .booking _ _ read => read
  | .routing inHand => inHand.read

theorem job_for_snapshot {reports : List ExecutionReport} {job : Job}
    (goesOn : jobFor reports = some job) : jobSnapshot job = none := by
  cases reports with
  | nil => cases goesOn
  | cons report reports =>
    cases goesOn
    rfl

theorem engine_step_reads {sender : Sender} {s t : Life} {a : EngineAction} {job : Job}
    {found : OrderRow} (next : engineStep sender s a = some t) (isOn : t.job = some job)
    (read : jobSnapshot job = some found) : s.job = some job ∨ s.db.row = some found := by
  cases a with
  | take =>
    simp only [engineStep] at next
    split at next
    · split at next
      · cases next
        cases isOn
        cases read
      · split at next
        · rename_i idle _ _ _ _ _
          cases next
          rw [idle] at isOn
          cases isOn
        · cases next
          rw [job_for_snapshot isOn] at read
          cases read
    · cases next
  | read =>
    simp only [engineStep] at next
    split at next
    · rename_i stored
      cases next
      cases isOn
      cases read
      exact .inr stored
    · cases next
      rw [job_for_snapshot isOn] at read
      cases read
    · rename_i stored
      cases next
      cases isOn
      cases read
      exact .inr stored
    · cases next
  | write metadata =>
    simp only [engineStep] at next
    split at next
    · cases next
      rcases book_once_unread isOn with goesOn | rfl
      · rw [job_for_snapshot goesOn] at read
        cases read
      · cases read
    · cases next
      rw [job_after_route_unread isOn] at read
      cases read
    · cases next
  | fail =>
    simp only [engineStep] at next
    split at next
    · cases next
      rw [job_for_snapshot isOn] at read
      cases read
    · cases next
      cases isOn
    · cases next
      exact .inl isOn

theorem recon_step_frame {sender : Sender} {s t : Life} {a : ReconStep}
    (next : reconStep sender s a = some t) :
    t.db = s.db ∧ t.now = s.now ∧ t.stage = s.stage ∧ t.venue = s.venue ∧ t.cancels = s.cancels ∧
      t.job = s.job := by
  obtain ⟨recon, _, rfl | ⟨event, _, rfl⟩⟩ := recon_step_cases next <;>
    exact ⟨rfl, rfl, rfl, rfl, rfl, rfl⟩

theorem step_stage {sender : Sender} {s t : Life} {a : Action} (next : step sender s a = some t)
    (other : ∀ submitted, a ≠ .submit submitted) : t.stage = s.stage := by
  cases a with
  | submit a => exact absurd rfl (other a)
  | venue a => exact (venue_step_frame next).2.2.1
  | cancel a => exact (cancel_step_frame next).2.1
  | engine a => exact (engine_step_frame next).2.1
  | recon a => exact (recon_step_frame next).2.2.1
  | tick n =>
    cases next
    rfl

/-- How the venue's hold on the order moves: only forward. -/
inductive Advances (before now : Stage) : VenueStatus → VenueStatus → Prop where
  | stays (status : VenueStatus) : Advances before now status status
  | sent (quantity : ℚ) (stored : before = .stored quantity) (calling : now = .calling)
      (status : VenueStatus) : Advances before now status .pending
  | unroutable (quantity : ℚ) (stored : before = .stored quantity) (returned : now = .returned)
      (status : VenueStatus) : Advances before now status .refused
  | accepted : Advances before now .pending .working
  | refused : Advances before now .pending .refused
  | closed : Advances before now .working .closed

theorem step_venue {sender : Sender} {s t : Life} {a : Action} (next : step sender s a = some t) :
    Advances s.stage t.stage s.venue.status t.venue.status ∧
      (s.venue.cancelSent = true → t.venue.cancelSent = true) := by
  cases a with
  | submit a =>
    cases a with
    | noAdapter reason =>
      simp only [step, submitStep] at next
      split at next
      · rename_i quantity stored
        cases next
        exact ⟨.unroutable quantity stored rfl _, id⟩
      · cases next
    | send =>
      simp only [step, submitStep] at next
      split at next
      · rename_i quantity stored
        cases next
        exact ⟨.sent quantity stored rfl _, id⟩
      · cases next
    | sendCancel =>
      simp only [step, submitStep] at next
      split at next <;> cases next
      exact ⟨.stays _, fun _ => rfl⟩
    | _ =>
      simp only [step, submitStep] at next
      repeat' split at next
      all_goals
        cases next
        try exact ⟨.stays _, id⟩
  | venue a =>
    cases a with
    | accept =>
      simp only [step, venueStep] at next
      split at next
      · rename_i pending
        cases next
        rw [pending]
        exact ⟨.accepted, id⟩
      · cases next
    | refuse =>
      simp only [step, venueStep] at next
      split at next
      · rename_i pending
        cases next
        rw [pending]
        exact ⟨.refused, id⟩
      · cases next
    | close =>
      simp only [step, venueStep] at next
      split at next
      · rename_i working
        cases next
        rw [working]
        exact ⟨.closed, id⟩
      · cases next
    | deliverCumulative avgPx =>
      cases next
      exact ⟨.stays _, id⟩
    | _ =>
      simp only [step, venueStep] at next
      split at next <;> cases next
      exact ⟨.stays _, id⟩
  | cancel a =>
    cases a with
    | send i =>
      simp only [step, cancelStep] at next
      split at next <;> cases next
      exact ⟨.stays _, fun _ => rfl⟩
    | drop i =>
      cases next
      exact ⟨.stays _, id⟩
    | _ =>
      simp only [step, cancelStep] at next
      repeat' split at next
      all_goals
        cases next
        try exact ⟨.stays _, id⟩
  | engine a =>
    rw [(engine_step_frame next).2.2.1]
    exact ⟨.stays _, id⟩
  | recon a =>
    rw [(recon_step_frame next).2.2.2.1]
    exact ⟨.stays _, id⟩
  | tick n =>
    cases next
    exact ⟨.stays _, id⟩

def Early (stage : Stage) : Prop := stage = .idle ∨ ∃ quantity, stage = .stored quantity

theorem route_not_early (externalOrderId : String) (next : Option RouteResult ⊕ Routing) :
    ¬ Early (stageAfterRoute externalOrderId next) := by
  unfold stageAfterRoute Early
  split <;> simp

theorem step_early {sender : Sender} {s t : Life} {a : Action} (next : step sender s a = some t)
    (early : Early t.stage) : Early s.stage := by
  cases a with
  | submit a =>
    cases a with
    | store cmd metadata code =>
      simp only [step, submitStep] at next
      split at next
      · rename_i idle
        exact .inl idle.1
      · cases next
    | writeRoute metadata =>
      simp only [step, submitStep] at next
      split at next <;> cases next
      exact absurd early (route_not_early _ _)
    | _ =>
      simp only [step, submitStep] at next
      repeat' split at next
      all_goals
        cases next
        try simp [Early] at early
  | _ => exact step_stage next (by simp) ▸ early

theorem step_unsent {sender : Sender} {s t : Life} {a : Action} (next : step sender s a = some t)
    (unsent : Early s.stage → s.venue.status = .unsent) (early : Early t.stage) :
    t.venue.status = .unsent := by
  have before := unsent (step_early next early)
  obtain ⟨advances, _⟩ := step_venue next
  rw [before] at advances
  generalize t.venue.status = now at advances ⊢
  cases advances with
  | stays => rfl
  | sent quantity stored calling => simp [Early, calling] at early
  | unroutable quantity stored returned => simp [Early, returned] at early

theorem step_gone {sender : Sender} {s t : Life} {a : Action}
    (unsent : Early s.stage → s.venue.status = .unsent) (next : step sender s a = some t)
    (gone : Gone s.venue) : Gone t.venue := by
  have noLonger : ∀ quantity, s.stage ≠ .stored quantity := by
    intro quantity stored
    have before := unsent (.inr ⟨quantity, stored⟩)
    rcases gone with closed | refused <;> simp_all
  obtain ⟨advances, _⟩ := step_venue next
  unfold Gone at *
  generalize s.venue.status = before at advances gone
  generalize t.venue.status = now at advances ⊢
  cases advances with
  | stays => exact gone
  | sent quantity stored => exact absurd stored (noLonger quantity)
  | unroutable quantity stored => exact absurd stored (noLonger quantity)
  | _ => simp_all

inductive Said (sender : Sender) (t : Life) : ExecEvent → Prop where
  | fill (execution : Execution)
      (executed : ∃ deliveries, ⟨execution, deliveries⟩ ∈ t.venue.fills) :
      Said sender t (sender.event .session
        (.fill execution.executionId execution.qty execution.price))
  | cumulative (avgPx : ℚ) :
      Said sender t (sender.event .session (.cumulative t.venue.executed avgPx))
  | canceled (reason : Option String) (closed : t.venue.status = .closed) :
      Said sender t (sender.event .session (.canceled reason))
  | rejected (reason : String) (refused : t.venue.status = .refused) :
      Said sender t (sender.event .session (.rejected reason))

theorem submit_step_queue {sender : Sender} {s t : Life} {a : SubmitAction}
    (next : submitStep sender s a = some t) {event : ExecEvent} (member : event ∈ t.queue) :
    event ∈ s.queue ∨ Said sender t event := by
  cases a with
  | noAdapter reason =>
    simp only [submitStep] at next
    split at next
    · cases next
      refine (List.mem_append.mp member).imp_right fun new => ?_
      cases List.mem_singleton.mp new
      exact .rejected reason rfl
    · cases next
  | answerRejected reason =>
    simp only [submitStep] at next
    split at next
    · rename_i answered
      cases next
      refine (List.mem_append.mp member).imp_right fun new => ?_
      cases List.mem_singleton.mp new
      exact .rejected reason answered.2
    · cases next
  | _ =>
    simp only [submitStep] at next
    repeat' split at next
    all_goals
      cases next
      try exact .inl member

theorem venue_step_queue {sender : Sender} {s t : Life} {a : VenueAction}
    (next : venueStep sender s a = some t) {event : ExecEvent} (member : event ∈ t.queue) :
    event ∈ s.queue ∨ Said sender t event := by
  cases a with
  | deliverFill i =>
    simp only [venueStep] at next
    split at next
    · rename_i execution deliveries there
      cases next
      refine (List.mem_append.mp member).imp_right fun new => ?_
      cases List.mem_singleton.mp new
      obtain ⟨inside, _⟩ := List.getElem?_eq_some_iff.mp there
      exact .fill execution ⟨deliveries + 1, List.mem_set inside _⟩
    · cases next
  | deliverCumulative avgPx =>
    cases next
    refine (List.mem_append.mp member).imp_right fun new => ?_
    cases List.mem_singleton.mp new
    exact .cumulative avgPx
  | deliverCanceled reason =>
    simp only [venueStep] at next
    split at next
    · rename_i closed
      cases next
      refine (List.mem_append.mp member).imp_right fun new => ?_
      cases List.mem_singleton.mp new
      exact .canceled reason closed
    · cases next
  | deliverRejected reason =>
    simp only [venueStep] at next
    split at next
    · rename_i refused
      cases next
      refine (List.mem_append.mp member).imp_right fun new => ?_
      cases List.mem_singleton.mp new
      exact .rejected reason refused
    · cases next
  | _ =>
    simp only [venueStep] at next
    split at next <;> cases next
    exact .inl member

theorem engine_step_queue {sender : Sender} {s t : Life} {a : EngineAction}
    (next : engineStep sender s a = some t) : ∀ event ∈ t.queue, event ∈ s.queue := by
  intro event member
  cases a with
  | take =>
    simp only [engineStep] at next
    split at next
    · rename_i queued
      rw [queued]
      repeat' split at next
      all_goals
        cases next
        exact List.mem_cons_of_mem _ member
    · cases next
  | fail =>
    simp only [engineStep] at next
    split at next <;> cases next
    · exact member
    · exact member
    · exact List.mem_of_mem_tail member
  | _ =>
    simp only [engineStep] at next
    repeat' split at next
    all_goals
      cases next
      try exact member

/-- What comes onto the queue: the venue's and the submit's own words, and what a
    reconcile pass has found. -/
theorem step_queue {sender : Sender} {s t : Life} {a : Action} (next : step sender s a = some t)
    {event : ExecEvent} (member : event ∈ t.queue) :
    event ∈ s.queue ∨ .sends event ∈ s.recon ∨ Said sender t event := by
  cases a with
  | submit a => exact (submit_step_queue next member).imp_right .inr
  | venue a => exact (venue_step_queue next member).imp_right .inr
  | cancel a => exact .inl ((cancel_step_frame next).2.2.1 ▸ member)
  | engine a => exact .inl (engine_step_queue next event member)
  | recon a =>
    obtain ⟨recon, _, rfl | ⟨found, held, rfl⟩⟩ := recon_step_cases next
    · exact .inl member
    · refine (List.mem_append.mp member).imp_right fun new => .inl ?_
      cases List.mem_singleton.mp new
      exact held
  | tick n =>
    cases next
    exact .inl member

theorem step_recon {sender : Sender} {s t : Life} {a : Action} (next : step sender s a = some t)
    {view : ReconView} (member : view ∈ t.recon) : view ∈ s.recon ∨ Found sender s view := by
  cases a with
  | submit a => exact .inl ((submit_step_frame next).2.2.2 ▸ member)
  | venue a => exact .inl ((venue_step_frame next).2.2.2.2.2 ▸ member)
  | cancel a => exact .inl ((cancel_step_frame next).2.2.2.2 ▸ member)
  | engine a => exact .inl ((engine_step_frame next).2.2.2.2 ▸ member)
  | recon a =>
    obtain ⟨recon, new, rfl | ⟨event, _, rfl⟩⟩ := recon_step_cases next <;> exact new view member
  | tick n =>
    cases next
    exact .inl member

def jobReports : Option Job → List ExecutionReport
  | some (.booking reports _ _) => reports
  | _ => []

def jobRoute : Option Job → Option String
  | some (.routing routing) => some routing.externalOrderId
  | _ => none

def stageRoute : Stage → Option String
  | .persisting routing => some routing.externalOrderId
  | _ => none

@[simp]
theorem job_for_reports (reports : List ExecutionReport) :
    jobReports (jobFor reports) = reports := by
  cases reports <;> rfl

@[simp]
theorem job_for_route (reports : List ExecutionReport) : jobRoute (jobFor reports) = none := by
  cases reports <;> rfl

theorem book_once_reports (reports : List ExecutionReport) (report : ExecutionReport)
    (attempt : Nat) (snapshot : OrderRow) (metadata : EventMetadata) (db : OrderDb) :
    (jobReports (bookOnce reports report attempt snapshot metadata db).1 = reports ∨
      jobReports (bookOnce reports report attempt snapshot metadata db).1 = report :: reports) ∧
    jobRoute (bookOnce reports report attempt snapshot metadata db).1 = none := by
  unfold bookOnce
  split
  · simp
  · simp
  · split
    · simp
    · simp [jobReports, jobRoute]

theorem job_after_route_reports (venue externalOrderId : String) (attempt : Nat)
    (snapshot : OrderRow) (metadata : EventMetadata) (db : OrderDb) :
    jobReports (jobAfterRoute
      (routeOnce venue externalOrderId attempt snapshot metadata db).1) = [] := by
  unfold routeOnce
  split
  · rfl
  · rfl
  · split <;> rfl

theorem engine_step_job {sender : Sender} {s t : Life} {a : EngineAction}
    (next : engineStep sender s a = some t) :
    (∀ report ∈ jobReports t.job, report ∈ jobReports s.job ∨
      ∃ event ∈ s.queue, ∃ cum avg, report ∈ reportsFor event cum avg) ∧
    ∀ id ∈ jobRoute t.job, id ∈ jobRoute s.job ∨ ∃ event ∈ s.queue, event.kind = .ack id := by
  cases a with
  | take =>
    simp only [engineStep] at next
    split at next
    · rename_i event queue idle queued
      rw [queued]
      split at next
      · rename_i venueOrderId ack
        cases next
        refine ⟨by simp [jobReports], ?_⟩
        rintro id ⟨⟩
        exact .inr ⟨event, List.mem_cons_self, ack⟩
      · split at next
        · cases next
          simp [idle, jobReports, jobRoute]
        · rename_i cum avg _
          cases next
          simp only [job_for_reports, job_for_route]
          exact ⟨fun report member => .inr ⟨event, List.mem_cons_self, cum, avg, member⟩,
            by simp⟩
    · cases next
  | read =>
    simp only [engineStep] at next
    split at next
    · rename_i booking _
      cases next
      rw [booking]
      exact ⟨fun report member => .inl member, fun id isRoute => .inl isRoute⟩
    · rename_i booking _
      cases next
      simp only [booking, job_for_reports, job_for_route]
      exact ⟨fun report member => .inl (List.mem_of_mem_tail member), by simp⟩
    · rename_i routing _
      cases next
      rw [routing]
      exact ⟨fun report member => .inl member, fun id isRoute => .inl isRoute⟩
    · cases next
  | write metadata =>
    simp only [engineStep] at next
    split at next
    · rename_i report reports attempt snapshot booking
      cases next
      obtain ⟨left, noRoute⟩ := book_once_reports reports report attempt snapshot metadata s.db
      simp only [booking, noRoute]
      refine ⟨fun found member => .inl ?_, by simp⟩
      rcases left with same | same <;> rw [same] at member
      · exact List.mem_cons_of_mem _ member
      · exact member
    · rename_i externalOrderId attempt snapshot routing
      cases next
      simp only [routing, job_after_route_reports]
      refine ⟨by simp, fun id isRoute => .inl ?_⟩
      cases goesOn : jobAfterRoute
          (routeOnce sender.venue externalOrderId attempt snapshot metadata s.db).1 with
      | none =>
        rw [goesOn] at isRoute
        cases isRoute
      | some job =>
        rw [goesOn, job_after_route_unread goesOn] at isRoute
        exact isRoute
    · cases next
  | fail =>
    simp only [engineStep] at next
    split at next
    · rename_i booking
      cases next
      simp only [booking, job_for_reports, job_for_route]
      exact ⟨fun report member => .inl (List.mem_of_mem_tail member), by simp⟩
    · cases next
      simp [jobReports, jobRoute]
    · rename_i idle
      cases next
      simp [idle, jobReports, jobRoute]

theorem step_job {sender : Sender} {s t : Life} {a : Action} (next : step sender s a = some t) :
    (∀ report ∈ jobReports t.job, report ∈ jobReports s.job ∨
      ∃ event ∈ s.queue, ∃ cum avg, report ∈ reportsFor event cum avg) ∧
    ∀ id ∈ jobRoute t.job, id ∈ jobRoute s.job ∨ ∃ event ∈ s.queue, event.kind = .ack id := by
  by_cases same : t.job = s.job
  · rw [same]
    exact ⟨fun report member => .inl member, fun id isRoute => .inl isRoute⟩
  · cases a with
    | submit a => exact absurd (submit_step_frame next).2.2.1 same
    | venue a => exact absurd (venue_step_frame next).2.2.2.2.1 same
    | cancel a => exact absurd (cancel_step_frame next).2.2.2.1 same
    | engine a => exact engine_step_job next
    | recon a => exact absurd (recon_step_frame next).2.2.2.2.2 same
    | tick n =>
      cases next
      exact absurd rfl same

theorem stage_after_route_id {venue externalOrderId : String} {attempt : Nat}
    {snapshot : OrderRow} {metadata : EventMetadata} {db : OrderDb} {id : String}
    (goesOn : id ∈ stageRoute (stageAfterRoute externalOrderId
      (routeOnce venue externalOrderId attempt snapshot metadata db).1)) :
    id = externalOrderId := by
  unfold routeOnce at goesOn
  split at goesOn
  · rename_i result committed run
    cases result with
    | terminal status => cases status <;> simp [stageAfterRoute, stageRoute] at goesOn
    | _ => simp [stageAfterRoute, stageRoute] at goesOn
  · simp [stageAfterRoute, stageRoute] at goesOn
  · split at goesOn
    · simp [stageAfterRoute, stageRoute] at goesOn
    · simpa [stageAfterRoute, stageRoute, eq_comm] using goesOn

theorem step_stage_route {sender : Sender} {s t : Life} {a : Action}
    (next : step sender s a = some t) :
    ∀ id ∈ stageRoute t.stage, id ∈ stageRoute s.stage ∨ a = .submit (.answerOk id) := by
  intro id isRoute
  cases a with
  | submit a =>
    cases a with
    | answerOk externalOrderId =>
      simp only [step, submitStep] at next
      split at next
      · cases next
        cases isRoute
        exact .inr rfl
      · cases next
    | readRoute =>
      simp only [step, submitStep] at next
      split at next
      · rename_i persisting _
        cases next
        rw [persisting]
        exact .inl isRoute
      · cases next
    | writeRoute metadata =>
      simp only [step, submitStep] at next
      split at next
      · rename_i persisting
        cases next
        rw [persisting, stage_after_route_id isRoute]
        exact .inl rfl
      · cases next
    | _ =>
      simp only [step, submitStep] at next
      repeat' split at next
      all_goals
        cases next
        try cases isRoute
  | _ => exact .inl (step_stage next (by simp) ▸ isRoute)

theorem step_stage_reads {sender : Sender} {s t : Life} {a : Action} {name : String}
    {tried : Nat} {found : OrderRow} (next : step sender s a = some t)
    (persisting : t.stage = .persisting ⟨name, tried, some found⟩) :
    s.stage = .persisting ⟨name, tried, some found⟩ ∨ s.db.row = some found := by
  cases a with
  | submit a => exact .inr (submit_step_reads next persisting)
  | _ => exact .inl (step_stage next (by simp) ▸ persisting)

theorem step_job_reads {sender : Sender} {s t : Life} {a : Action} {job : Job}
    {found : OrderRow} (next : step sender s a = some t) (isOn : t.job = some job)
    (read : jobSnapshot job = some found) : s.job = some job ∨ s.db.row = some found := by
  cases a with
  | submit a => exact .inl ((submit_step_frame next).2.2.1 ▸ isOn)
  | venue a => exact .inl ((venue_step_frame next).2.2.2.2.1 ▸ isOn)
  | cancel a => exact .inl ((cancel_step_frame next).2.2.2.1 ▸ isOn)
  | engine a => exact engine_step_reads next isOn read
  | recon a => exact .inl ((recon_step_frame next).2.2.2.2.2 ▸ isOn)
  | tick n =>
    cases next
    exact .inl isOn

theorem step_cancel_reads {sender : Sender} {s t : Life} {a : Action} {found : OrderRow}
    (next : step sender s a = some t) (member : .locally found ∈ t.cancels) :
    .locally found ∈ s.cancels ∨ s.db.row = some found ∧ found.status.isTerminal = false := by
  cases a with
  | submit a => exact .inl ((submit_step_frame next).2.1 ▸ member)
  | venue a => exact .inl ((venue_step_frame next).2.2.2.1 ▸ member)
  | cancel a => exact cancel_step_reads next member
  | engine a => exact .inl ((engine_step_frame next).2.2.2.1 ▸ member)
  | recon a => exact .inl ((recon_step_frame next).2.2.2.2.1 ▸ member)
  | tick n =>
    cases next
    exact .inl member

/-- Every row in hand was read from the database as it was then, and a local
    cancel is only ever begun on an open one. -/
structure Wired (s : Life) : Prop where
  reached : Reached s.db
  route : ∀ name tried found, s.stage = .persisting ⟨name, tried, some found⟩ →
    SnapshotOf s.db found
  job : ∀ job found, s.job = some job → jobSnapshot job = some found → SnapshotOf s.db found
  cancels : ∀ found, .locally found ∈ s.cancels →
    SnapshotOf s.db found ∧ found.status.isTerminal = false

theorem start_wired (position : Option OmsPositions.PositionMath) : Wired (.start position) where
  reached := .start position
  route := by intro _ _ _ missing; cases missing
  job := by intro _ _ missing; cases missing
  cancels := by intro _ missing; cases missing

theorem writer_snapshot {sender : Sender} {s : Life} (wired : Wired s) {a : Action} {w : Writer}
    {snapshot : OrderRow} (runs : writer sender s a = some (w, snapshot)) :
    SnapshotOf s.db snapshot ∧
      ∀ reason metadata, w = .cancel reason metadata → snapshot.status.isTerminal = false := by
  unfold writer at runs
  split at runs
  · split at runs
    · rename_i persisting
      cases runs
      exact ⟨wired.route _ _ _ persisting, fun _ _ wrong => by cases wrong⟩
    · cases runs
  · split at runs
    · rename_i there
      cases runs
      obtain ⟨read, isOpen⟩ := wired.cancels _ (List.mem_of_getElem? there)
      exact ⟨read, fun _ _ _ => isOpen⟩
    · cases runs
  · split at runs
    · rename_i booking
      cases runs
      exact ⟨wired.job _ _ booking rfl, fun _ _ wrong => by cases wrong⟩
    · rename_i routing
      cases runs
      exact ⟨wired.job _ _ routing rfl, fun _ _ wrong => by cases wrong⟩
    · cases runs
  · cases runs

theorem writer_cancel {sender : Sender} {s : Life} {a : Action} {reason : Option String}
    {metadata : EventMetadata} {snapshot : OrderRow}
    (runs : writer sender s a = some (.cancel reason metadata, snapshot)) :
    ∃ i, a = .cancel (.write i reason metadata) ∧ s.cancels[i]? = some (.locally snapshot) := by
  unfold writer at runs
  split at runs
  · split at runs <;> cases runs
  · split at runs
    · rename_i there
      cases runs
      exact ⟨_, rfl, there⟩
    · cases runs
  · split at runs <;> cases runs
  · cases runs

theorem writer_report {sender : Sender} {s : Life} {a : Action} {report : ExecutionReport}
    {metadata : EventMetadata} {snapshot : OrderRow}
    (runs : writer sender s a = some (.report report metadata, snapshot)) :
    a = .engine (.write metadata) ∧ ∃ reports attempt,
      s.job = some (.booking (report :: reports) attempt (some snapshot)) := by
  unfold writer at runs
  split at runs
  · split at runs <;> cases runs
  · split at runs <;> cases runs
  · split at runs
    · rename_i booking
      cases runs
      exact ⟨rfl, _, _, booking⟩
    · cases runs
    · cases runs
  · cases runs

def CommitsReport (s : Life) (a : Action) (report : ExecutionReport) : Prop :=
  ∃ metadata reports attempt snapshot row, a = .engine (.write metadata) ∧
    s.job = some (.booking (report :: reports) attempt (some snapshot)) ∧
    s.db.row = some row ∧ row.version = snapshot.version ∧ row.status.isTerminal = false

theorem writer_commits {sender : Sender} {s : Life} {a : Action} {w : Writer}
    {snapshot : OrderRow} {report : ExecutionReport} {db : OrderDb}
    (runs : writer sender s a = some (w, snapshot)) (makes : Makes w snapshot s.db (.report report))
    (write : Write s.db (.report report) db) : CommitsReport s a report := by
  obtain ⟨metadata, rfl, row, stored, version⟩ := makes_report makes
  obtain ⟨rfl, reports, attempt, booking⟩ := writer_report runs
  refine ⟨metadata, reports, attempt, snapshot, row, rfl, booking, stored, version, ?_⟩
  cases write with
  | reported found report event there isOpen =>
    cases stored.symm.trans there
    exact isOpen

theorem step_writes {sender : Sender} {s t : Life} {a : Action} (wired : Wired s)
    (next : step sender s a = some t) :
    t.db = s.db ∨
    (∃ cmd metadata code, a = .submit (.store cmd metadata code) ∧
      submitTx cmd metadata code s.now s.db = .ok t.db ∧ Write s.db .submit t.db) ∨
    (∃ w snapshot kind, writer sender s a = some (w, snapshot) ∧
      Makes w snapshot s.db kind ∧ Write s.db kind t.db) := by
  have num := reached_numbered wired.reached
  rcases step_db next with ⟨cmd, metadata, code, rfl, inserted⟩ | ⟨w, snapshot, runs, same⟩ | same
  · exact .inr (.inl ⟨cmd, metadata, code, rfl, inserted, submit_tx_writes num inserted⟩)
  · obtain ⟨read, isOpen⟩ := writer_snapshot wired runs
    rw [same]
    rcases perform_writes num (reached_lively wired.reached) read isOpen with
      idle | ⟨kind, makes, write⟩
    · exact .inl idle
    · exact .inr (.inr ⟨w, snapshot, kind, runs, makes, write⟩)
  · exact .inl same

theorem step_commits {sender : Sender} {s t : Life} {a : Action} (wired : Wired s)
    (next : step sender s a = some t) : t.db = s.db ∨ ∃ kind, Write s.db kind t.db := by
  rcases step_writes wired next with same | ⟨_, _, _, _, _, write⟩ | ⟨_, _, kind, _, _, write⟩
  · exact .inl same
  · exact .inr ⟨_, write⟩
  · exact .inr ⟨kind, write⟩

theorem step_wired {sender : Sender} {s t : Life} {a : Action} (wired : Wired s)
    (next : step sender s a = some t) : Wired t := by
  have commits := step_commits wired next
  have reached : Reached t.db := by
    rcases commits with same | ⟨kind, write⟩
    · rw [same]
      exact wired.reached
    · exact .write wired.reached write
  have keeps : ∀ found, SnapshotOf s.db found → SnapshotOf t.db found := by
    intro found read
    rcases commits with same | ⟨kind, write⟩
    · rw [same]
      exact read
    · exact write_snapshot read write
  have fresh : ∀ found, s.db.row = some found → SnapshotOf t.db found := fun found stored =>
    keeps found ⟨found, stored, le_refl _, fun _ => rfl⟩
  refine ⟨reached, ?_, ?_, ?_⟩
  · intro name tried found persisting
    rcases step_stage_reads next persisting with held | stored
    · exact keeps found (wired.route name tried found held)
    · exact fresh found stored
  · intro job found isOn read
    rcases step_job_reads next isOn read with held | stored
    · exact keeps found (wired.job job found held read)
    · exact fresh found stored
  · intro found member
    rcases step_cancel_reads next member with held | ⟨stored, isOpen⟩
    · obtain ⟨read, isOpen⟩ := wired.cancels found held
      exact ⟨keeps found read, isOpen⟩
    · exact ⟨fresh found stored, isOpen⟩

end OmsLifeSteps
