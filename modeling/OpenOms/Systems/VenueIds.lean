import OpenOms.Systems.LifeSteps

/-!
The venue's id on an order's record: who puts it there, and that a submit that has
it gets it there, whatever moves the order on beside it.
-/
namespace OmsVenueIds
open OmsOrders OmsAggregate OmsOrderStore OmsExecution OmsOrderEntry OmsOrderWrites
open OmsOrderEngine OmsOrderLife OmsLifeSteps

def Recorded (id : String) (db : OrderDb) : Prop :=
  ∃ row, db.row = some row ∧
    (row.externalOrderId = some id ∨ row.status.isTerminal = true)

def OwnId (id : String) (db : OrderDb) : Prop :=
  ∀ row, db.row = some row → row.externalOrderId = none ∨ row.externalOrderId = some id

def Closed (db : OrderDb) : Prop := ∃ row, db.row = some row ∧ row.status.isTerminal = true

def PastSubmitted (db : OrderDb) : Prop := ∃ row, db.row = some row ∧ row.status ≠ .submitted

theorem report_past_submitted (s : OrderAggregateState) (report : ExecutionReport) :
    (reportState s report).status ≠ .submitted ∧
      (reportState s report).version = s.version + 1 := by
  cases report <;> simp only [reportState, fillState, closeState, cancelState, ne_eq, and_true]
  · split <;> simp
  · simp
  · simp

theorem reached_versions {db : OrderDb} (reached : Reached db) : ∀ row, db.row = some row →
    1 ≤ row.version ∧ (row.status = .submitted → row.version = 1) := by
  induction reached with
  | start position => intro row missing; cases missing
  | write before write ih =>
    intro row' there'
    cases write with
    | submitted =>
      cases there'
      simp [submitState]
    | reported row report event stored =>
      cases there'
      obtain ⟨past, version⟩ := report_past_submitted row.toOrderAggregateState report
      exact ⟨by simp [reportedRow, version], fun submitted => absurd submitted past⟩
    | routed row venue externalOrderId event stored =>
      cases there'
      simp [routedRow, closeState]
    | canceled row reason event stored =>
      cases there'
      simp [locallyCanceledRow, cancelState, closeState]
    | recorded externalOrderId =>
      obtain ⟨row, stored, rfl⟩ := Option.map_eq_some_iff.mp there'
      exact ih row stored

structure Grows (id : String) (db db' : OrderDb) : Prop where
  own : OwnId id db → OwnId id db'
  recorded : Recorded id db → Recorded id db'
  closed : Closed db → Closed db'
  past : PastSubmitted db → PastSubmitted db'

theorem grows_refl (id : String) (db : OrderDb) : Grows id db db :=
  ⟨fun h => h, fun h => h, fun h => h, fun h => h⟩

theorem write_grows {id : String} {db db' : OrderDb} {kind : WriteKind}
    (write : Write db kind db')
    (names : ∀ name, kind = .route name ∨ kind = .recordId name → name = id) :
    Grows id db db' := by
  cases write with
  | submitted cmd event code createdAt absent =>
    have none_ : ∀ row, db.row ≠ some row := fun row stored => by cases absent.symm.trans stored
    refine ⟨fun _ row stored => ?_, ?_, ?_, ?_⟩
    · cases stored
      exact .inl rfl
    all_goals
      rintro ⟨row, stored, _⟩
      exact absurd stored (none_ row)
  | reported row report event stored isOpen =>
    obtain ⟨past, _⟩ := report_past_submitted row.toOrderAggregateState report
    refine ⟨fun own found there => ?_, ?_, ?_, fun _ => ⟨_, rfl, past⟩⟩
    · cases there
      exact own row stored
    · rintro ⟨found, there, named | closed⟩
      · cases stored.symm.trans there
        exact ⟨_, rfl, .inl named⟩
      · cases stored.symm.trans there
        cases isOpen.symm.trans closed
    · rintro ⟨found, there, closed⟩
      cases stored.symm.trans there
      cases isOpen.symm.trans closed
  | routed row venue externalOrderId event stored submitted =>
    have same := names externalOrderId (.inl rfl)
    subst same
    refine ⟨fun _ found there => ?_, fun _ => ⟨_, rfl, .inl rfl⟩, ?_, ?_⟩
    · cases there
      exact .inr rfl
    · rintro ⟨found, there, closed⟩
      cases stored.symm.trans there
      simp [submitted, OrderStatus.isTerminal] at closed
    · exact fun _ => ⟨_, rfl, by simp [routedRow, closeState]⟩
  | canceled row reason event stored isOpen =>
    refine ⟨fun own found there => ?_, ?_, ?_, ?_⟩
    · cases there
      exact own row stored
    all_goals
      intro _
      refine ⟨_, rfl, ?_⟩
      simp [locallyCanceledRow, cancelState, closeState, OrderStatus.isTerminal]
  | recorded externalOrderId =>
    have same := names externalOrderId (.inr rfl)
    subst same
    refine ⟨fun own found there => ?_, ?_, ?_, ?_⟩
    · obtain ⟨row, stored, rfl⟩ := Option.map_eq_some_iff.mp there
      rcases own row stored with none_ | own'
      · simp [none_]
      · simp [own']
    all_goals
      rintro ⟨row, stored, held⟩
      refine ⟨{ row with externalOrderId := row.externalOrderId.or (some externalOrderId) }, ?_, ?_⟩
      · simp [recordExternalId, stored]
    · exact held.imp_left fun named => by simp [named]
    · exact held
    · exact held

variable {sender : Sender} {id : String} {l l' : Life} {a : Action}

theorem writer_routes {venue name : String} {metadata : EventMetadata} {snapshot : OrderRow}
    (runs : writer sender l a = some (.route venue name metadata, snapshot)) :
    name ∈ stageRoute l.stage ∨ name ∈ jobRoute l.job := by
  unfold writer at runs
  split at runs
  · split at runs
    · rename_i persisting
      cases runs
      simp [persisting, stageRoute]
    · cases runs
  · split at runs <;> cases runs
  · split at runs
    · cases runs
    · rename_i routing
      cases runs
      simp [routing, jobRoute]
    · cases runs
  · cases runs

theorem life_grows (wired : Wired l) (noRoute : jobRoute l.job = none)
    (route : ∀ name ∈ stageRoute l.stage, name = id)
    (next : step sender l a = some l') : Grows id l.db l'.db := by
  rcases step_writes wired next with
    same | ⟨_, _, _, _, _, write⟩ | ⟨w, snapshot, kind, runs, makes, write⟩
  · rw [same]
    exact grows_refl id l.db
  · exact write_grows write (by simp)
  · refine write_grows write fun name named => ?_
    obtain ⟨venue, metadata, rfl⟩ := makes_venue_id makes named
    rcases writer_routes runs with submits | engines
    · exact route name submits
    · rw [noRoute] at engines
      cases engines

theorem route_fails {snapshot : OrderRow} {venue : String} {metadata : EventMetadata}
    {db : OrderDb} {failure : RouteError} (num : Numbered db)
    (run : persistRoutedOnce snapshot venue id metadata db = .error failure) :
    snapshot.status = .submitted ∧ db.log.length ≠ snapshot.version ∧
      ∃ conflict, failure = .concurrency conflict := by
  by_cases submitted : snapshot.status = .submitted
  · obtain ⟨event, _, attempt⟩ := route_once_submitted submitted venue id metadata num
    rw [attempt] at run
    split at run
    · cases run
    · rename_i lost
      cases run
      exact ⟨submitted, lost, _, rfl⟩
  · unfold persistRoutedOnce at run
    split at run
    · cases run
    · cases run

/-- The submit that has the venue's id is on its way to put it on record: it loses at
    most one race, since an order leaves `submitted` for good. -/
def OnItsWay (id : String) (l : Life) : Prop :=
  Recorded id l.db ∨ ∃ attempt read, l.stage = .persisting ⟨id, attempt, read⟩ ∧
    (attempt = 0 ∨ attempt = 1 ∧ PastSubmitted l.db) ∧
    ∀ row ∈ read, 1 ≤ row.version ∧ (row.status.isTerminal = true → Closed l.db) ∧
      (attempt = 1 → row.status ≠ .submitted)

theorem routing_grows (grows : Grows id l.db l'.db)
    (same : l'.stage = l.stage) (routing : OnItsWay id l) : OnItsWay id l' := by
  rcases routing with recorded | ⟨attempt, read, persisting, left, rows⟩
  · exact .inl (grows.recorded recorded)
  · refine .inr ⟨attempt, read, same.trans persisting, ?_, fun row member => ?_⟩
    · exact left.imp_right (And.imp_right grows.past)
    · obtain ⟨version, closes, past⟩ := rows row member
      exact ⟨version, fun closed => grows.closed (closes closed), past⟩

theorem read_route_keeps (wired : Wired l)
    (next : submitStep sender l .readRoute = some l') (routing : OnItsWay id l) :
    OnItsWay id l' := by
  simp only [submitStep] at next
  split at next
  · rename_i name attempt row persisting stored
    cases next
    rcases routing with recorded | ⟨tried, read, at_, left, _⟩
    · exact .inl recorded
    · cases persisting.symm.trans at_
      refine .inr ⟨attempt, some row, rfl, left, ?_⟩
      rintro found ⟨⟩
      refine ⟨(reached_versions wired.reached row stored).1, fun closed => ⟨row, stored, closed⟩,
        fun second => ?_⟩
      rcases left with first | ⟨_, found, there, past⟩
      · omega
      · cases stored.symm.trans there
        exact past
  · cases next

/-- A route step that reads a closed order leaves it, one that reads an order past
    `submitted` records the id, and one that wins routes it; a lost race was lost to a
    write that took the order past `submitted`. -/
theorem write_route_keeps {metadata : EventMetadata} (wired : Wired l) (own : OwnId id l.db)
    (next : submitStep sender l (.writeRoute metadata) = some l') (routing : OnItsWay id l)
    (grows : Grows id l.db l'.db) : OnItsWay id l' := by
  rcases routing with recorded | ⟨tried, read, at_, left, rows⟩
  · exact .inl (grows.recorded recorded)
  · simp only [submitStep, at_] at next
    split at next
    · rename_i name attempt snapshot persisting
      cases persisting
      have num := reached_numbered wired.reached
      have snap := wired.route _ _ _ at_
      obtain ⟨version, closes, past⟩ := rows snapshot rfl
      obtain ⟨row, stored, newer, _⟩ := wired.route _ _ _ at_
      cases run : persistRoutedOnce snapshot sender.venue id metadata l.db with
      | ok outcome =>
        obtain ⟨result, committed⟩ := outcome
        simp only [routeOnce, run, Option.some.injEq] at next
        subst next
        refine .inl ?_
        show Recorded id committed
        rcases route_once_cases num snap (reached_lively wired.reached) run with
          ⟨closed, _, rfl⟩ | ⟨_, _, _, rfl⟩ | ⟨_, _, _, _, _, _, _, _, rfl⟩
        · obtain ⟨found, there, isClosed⟩ := closes closed
          exact ⟨found, there, .inr isClosed⟩
        · refine ⟨{ row with externalOrderId := row.externalOrderId.or (some id) }, ?_, .inl ?_⟩
          · simp [recordExternalId, stored]
          · rcases own row stored with none_ | its
            · simp [none_]
            · simp [its]
        · exact ⟨_, rfl, .inl rfl⟩
      | error failure =>
        obtain ⟨submitted, lost, conflict, rfl⟩ := route_fails num run
        rcases left with rfl | ⟨rfl, _⟩
        · simp only [routeOnce, run, maxRouteAttempts, Nat.zero_add, Nat.reduceEqDiff, if_false,
            Option.some.injEq] at next
          subst next
          refine .inr ⟨1, none, rfl, .inr ⟨rfl, row, stored, fun still => ?_⟩, ?_⟩
          · have first := (reached_versions wired.reached row stored).2 still
            have length := num.rowVersion row stored
            omega
          · intro row none_
            cases none_
        · exact absurd submitted (past rfl)
    · cases next

structure Record (id : String) (l : Life) : Prop where
  wired : Wired l
  noRecon : l.recon = []
  noAck : ∀ event ∈ l.queue, ∀ name, event.kind ≠ .ack name
  noRoute : jobRoute l.job = none
  route : ∀ name ∈ stageRoute l.stage, name = id
  own : OwnId id l.db

theorem record_grows (record : Record id l)
    (next : step sender l a = some l') : Grows id l.db l'.db :=
  life_grows record.wired record.noRoute record.route next

theorem record_life (record : Record id l)
    (noRecon : ∀ r, a ≠ .recon r) (named : ∀ name, a = .submit (.answerOk name) → name = id)
    (next : step sender l a = some l') : Record id l' := by
  refine ⟨step_wired record.wired next, ?_, ?_, ?_, ?_, (record_grows record next).own record.own⟩
  · cases a with
    | submit a => exact (submit_step_frame next).2.2.2.trans record.noRecon
    | venue a => exact (venue_step_frame next).2.2.2.2.2.trans record.noRecon
    | cancel a => exact (cancel_step_frame next).2.2.2.2.trans record.noRecon
    | engine a => exact (engine_step_frame next).2.2.2.2.trans record.noRecon
    | recon r => exact absurd rfl (noRecon r)
    | tick n =>
      cases next
      exact record.noRecon
  · intro event member name is
    rcases step_queue next member with old | found | said
    · exact record.noAck event old name is
    · rw [record.noRecon] at found
      cases found
    · cases said <;> cases is
  · refine Option.eq_none_iff_forall_not_mem.mpr fun name routes => ?_
    rcases (step_job next).2 name routes with old | ⟨event, queued, is⟩
    · rw [record.noRoute] at old
      cases old
    · exact record.noAck event queued name is
  · intro name routes
    rcases step_stage_route next name routes with old | answers
    · exact record.route name old
    · exact named name answers

def Past (stage : Stage) : Prop := ¬ Early stage ∧ stage ≠ .calling

/-- The steps of the life that are the submit's own, a cancel's or the engine's. -/
def Plain : Action → Prop
  | .submit (.store ..) | .submit .readRoute | .submit (.writeRoute _) | .submit .sendCancel
  | .cancel _ | .engine _ => True
  | _ => False

theorem route_past (externalOrderId : String) (next : Option RouteResult ⊕ Routing) :
    Past (stageAfterRoute externalOrderId next) := by
  refine ⟨route_not_early externalOrderId next, ?_⟩
  unfold stageAfterRoute
  split <;> simp

theorem plain_stage (plain : Plain a)
    (next : step sender l a = some l') :
    (l.stage = .calling → l'.stage = .calling) ∧ (Past l.stage → Past l'.stage) ∧
      l'.venue.status = l.venue.status := by
  cases a with
  | submit a =>
    cases a with
    | store cmd metadata code =>
      simp only [step, submitStep] at next
      split at next
      · rename_i fits
        have early : Early l.stage := .inl fits.1
        split at next
        · cases next
          exact ⟨by simp [fits.1], fun past => absurd early past.1, rfl⟩
        · cases next
          exact ⟨by simp [fits.1], fun past => absurd early past.1, rfl⟩
      · cases next
    | readRoute =>
      simp only [step, submitStep] at next
      split at next
      · rename_i at_ _
        cases next
        exact ⟨by simp [at_], fun _ => by simp [Past, Early], rfl⟩
      · cases next
    | writeRoute metadata =>
      simp only [step, submitStep] at next
      split at next
      · rename_i at_
        cases next
        exact ⟨by simp [at_], fun _ => route_past _ _, rfl⟩
      · cases next
    | sendCancel =>
      simp only [step, submitStep] at next
      split at next
      · rename_i at_
        cases next
        exact ⟨by simp [at_], fun _ => by simp [Past, Early], rfl⟩
      · cases next
    | noAdapter | send | answerOk | answerRejected | answerLost | stop => cases plain
  | cancel a =>
    obtain ⟨_, same, _⟩ := cancel_step_frame next
    exact ⟨fun at_ => same.trans at_, fun past => same ▸ past, (cancel_step_venue next).1⟩
  | engine a =>
    obtain ⟨_, same, venue, _⟩ := engine_step_frame next
    exact ⟨fun at_ => same.trans at_, fun past => same ▸ past, by rw [venue]⟩
  | venue | recon | tick => cases plain

theorem plain_on_its_way (record : Record id l) (plain : Plain a)
    (next : step sender l a = some l') (routing : OnItsWay id l) : OnItsWay id l' := by
  have grows := record_grows record next
  cases a with
  | submit a =>
    cases a with
    | readRoute => exact @read_route_keeps sender id l l' record.wired next routing
    | writeRoute metadata => exact write_route_keeps record.wired record.own next routing grows
    | store cmd metadata code =>
      rcases routing with recorded | ⟨_, _, persisting, _⟩
      · exact .inl (grows.recorded recorded)
      · simp [step, submitStep, persisting] at next
    | sendCancel =>
      rcases routing with recorded | ⟨_, _, persisting, _⟩
      · exact .inl (grows.recorded recorded)
      · simp [step, submitStep, persisting] at next
    | noAdapter | send | answerOk | answerRejected | answerLost | stop => cases plain
  | cancel a => exact routing_grows grows (cancel_step_frame next).2.1 routing
  | engine a => exact routing_grows grows (engine_step_frame next).2.1 routing
  | venue | recon | tick => cases plain

end OmsVenueIds
