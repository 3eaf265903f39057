import Mathlib
import OpenOms.Systems.LifeSteps

/-!
Which open orders a reconcile pass sees. An order that reached its venue and is
older than the grace period should be on exactly one of the two lists a pass
starts from. One that a fill overtook on its way through `persist_routed` is on
neither until that step has committed.
-/
namespace OmsCoverage
open OmsOrders OmsAggregate OmsOrderStore OmsOrderEntry OmsOrderWrites OmsGateway OmsReconOrders
open OmsReconQueries OmsOrderEngine OmsOrderLife OmsLifeSteps Runs

def isOld (now : Nat) (row : OrderRow) : Bool := decide (row.createdAt + STUCK_AFTER_SECS < now)

/-- An open order that was sent, is past the grace period and is mapped on a
    connection is on exactly one of that connection's two lists. -/
def Covered (s : Life) : Prop :=
  ∀ (tables : Tables) (brokerCode environment : String) (row : OrderRow),
    s.db ∈ tables.orders → s.db.row = some row → Mapped tables brokerCode environment row →
    row.status.isTerminal = false → s.venue.status ≠ .unsent → isOld s.now row →
    returned tables brokerCode environment s.now row.orderId = (1, 0) ∨
      returned tables brokerCode environment s.now row.orderId = (0, 1)

def Listed (db : OrderDb) (row : OrderRow) : Prop :=
  row.status = .submitted ∨ isAtVenue row.status ∧ (workingId db row).isSome

instance (db : OrderDb) (row : OrderRow) : Decidable (Listed db row) := by
  unfold Listed
  infer_instance

theorem listed_covers {s : Life} (listed : ∀ row, s.db.row = some row →
    row.status.isTerminal = false → isOld s.now row → Listed s.db row) : Covered s := by
  intro tables brokerCode environment row there stored mapped isOpen _ old
  rw [returned_counts there stored mapped]
  rcases listed row stored isOpen old with submitted | ⟨atVenue, asked⟩
  · right
    have stuck : isStuck s.now row = true := by simpa [isStuck, submitted, isOld] using old
    simp [stuck, isAtVenue, submitted]
  · left
    have settled : isStuck s.now row = false := by
      cases status : row.status <;> simp_all [isAtVenue, isStuck]
    simp [settled, atVenue, asked]

theorem covered_listed {s : Life} (covered : Covered s) {row : OrderRow}
    (stored : s.db.row = some row) {instrumentId : Int}
    (numeric : row.instrumentId = toString instrumentId)
    (isOpen : row.status.isTerminal = false) (sent : s.venue.status ≠ .unsent)
    (old : isOld s.now row) : Listed s.db row := by
  let tables : Tables :=
    { orders := [s.db]
      connections := [⟨row.brokerConnectionCode, "PAPER", "PAPER"⟩]
      instruments := [⟨instrumentId, "PAPER", "SYM"⟩]
      orderIds := List.pairwise_singleton _ _
      codes := List.pairwise_singleton _ _
      mappings := List.pairwise_singleton _ _ }
  have mapped : Mapped tables "PAPER" "PAPER" row := by
    refine ⟨⟨_, List.mem_singleton.mpr rfl, rfl, rfl, rfl⟩, _, List.mem_singleton.mpr rfl, ?_, rfl⟩
    rw [numeric]
    -- Of Mathlib's modules only the whole of it brings this lemma.
    exact Int.toInt?_repr instrumentId
  have counts := returned_counts (List.mem_singleton.mpr rfl : s.db ∈ tables.orders) stored mapped
    s.now
  rcases covered tables "PAPER" "PAPER" row (List.mem_singleton.mpr rfl) stored mapped isOpen sent
    old with working | stuck
  · rw [working] at counts
    by_cases listed : isAtVenue row.status ∧ (workingId s.db row).isSome
    · exact .inr listed
    · simp [listed] at counts
  · rw [stuck] at counts
    by_cases submitted : row.status = .submitted
    · exact .inl submitted
    · simp [isStuck, submitted] at counts

def answersUnnamed : Action → Bool
  | .submit (.answerOk externalOrderId) => externalOrderId = ""
  | _ => false

/-- `persist_routed` has committed: a venue id is in the log or in the column. -/
def Recorded (db : OrderDb) (row : OrderRow) : Prop :=
  (∃ event ∈ events db, event.payload.routedId.isSome) ∨ row.externalOrderId.isSome

instance (db : OrderDb) (row : OrderRow) : Decidable (Recorded db row) := by
  unfold Recorded
  infer_instance

/-- A fill was booked before `persist_routed` committed. -/
def Overtaken (db : OrderDb) (row : OrderRow) : Prop :=
  db.row = some row ∧ row.status = .partiallyFilled ∧ ¬ Recorded db row

def isRouting : Stage → Bool
  | .calling | .persisting _ => true
  | _ => false

/-- A fill that leaves the order open is booked before `persist_routed` has
    committed, and the submit is no longer on its way there or takes longer than
    the grace period. -/
def fillsUnrouted (s : Life) : Action → Bool
  | .engine (.write _) =>
    match s.job, s.db.row with
    | some (.booking (.fill _ qty price _ :: _) _ (some snapshot)), some row =>
      snapshot.version = row.version ∧ 0 < qty ∧ 0 < price ∧
        row.cumQty + qty < row.originalQty ∧ ¬ Recorded s.db row ∧
        (¬ isRouting s.stage ∨ isOld s.now row)
    | _, _ => false
  | _ => false

def givesUp (sender : Sender) (s : Life) : SubmitAction → Bool
  | .answerRejected _ | .answerLost | .stop => true
  | .writeRoute metadata =>
    match s.stage with
    | .persisting ⟨externalOrderId, attempt, some snapshot⟩ =>
      match (routeOnce sender.venue externalOrderId attempt snapshot metadata s.db).1 with
      | .inl (some .routed) | .inl (some .notSubmitted) | .inr _ => false
      | .inl none | .inl (some (.terminal _)) => true
    | _ => false
  | _ => false

def abandons (sender : Sender) (s : Life) : Action → Bool
  | .submit a =>
    givesUp sender s a &&
      s.db.row.any fun row => row.status = .partiallyFilled ∧ ¬ Recorded s.db row
  | _ => false

/-- The grace period passes while the submit of an order that a fill overtook is
    still on its way. -/
def takesTooLong (s : Life) : Action → Bool
  | .tick n =>
    isRouting s.stage && s.db.row.any fun row =>
      row.status = .partiallyFilled ∧ ¬ Recorded s.db row ∧ isOld (s.now + n) row
  | _ => false

def Uncovers (sender : Sender) (s : Life) (a : Action) : Prop :=
  answersUnnamed a ∨ fillsUnrouted s a ∨ abandons sender s a ∨ takesTooLong s a

instance (sender : Sender) (s : Life) (a : Action) : Decidable (Uncovers sender s a) := by
  unfold Uncovers
  infer_instance

structure NamedDb (db : OrderDb) : Prop where
  log : ∀ event ∈ events db, ∀ id ∈ event.payload.routedId, id ≠ ""
  column : ∀ row, db.row = some row → ∀ id ∈ row.externalOrderId, id ≠ ""

theorem working_id_recorded {db : OrderDb} {row : OrderRow} (named : NamedDb db)
    (stored : db.row = some row) : (workingId db row).isSome ↔ Recorded db row := by
  unfold workingId extId Recorded
  cases found : (events db).findSome? fun event => event.payload.routedId with
  | some id =>
    obtain ⟨event, member, routed⟩ := List.exists_of_findSome?_eq_some found
    have notEmpty := named.log event member id routed
    simp only [Option.some_or, Option.filter, notEmpty, ne_eq, not_false_eq_true, decide_true,
      if_true, Option.isSome_some, true_iff]
    exact .inl ⟨event, member, by rw [routed]; rfl⟩
  | none =>
    have none_routed := List.findSome?_eq_none_iff.mp found
    have noEvent : ¬ ∃ event ∈ events db, event.payload.routedId.isSome := by
      rintro ⟨event, member, routed⟩
      rw [none_routed event member] at routed
      cases routed
    simp only [Option.none_or, noEvent, false_or]
    cases column : row.externalOrderId with
    | none => simp
    | some id => simp [Option.filter, named.column row stored id column]

theorem logged_events {db db' : OrderDb} {event : OrderDomainEvent}
    (grown : db'.log = logged db event) : events db' = events db ++ [event] := by
  simp [events, grown, logged]

theorem logged_named {db db' : OrderDb} {row row' : OrderRow} {event : OrderDomainEvent}
    (named : NamedDb db) (stored : db.row = some row) (grown : db'.log = logged db event)
    (stored' : db'.row = some row') (kept : row'.externalOrderId = row.externalOrderId)
    (noRoute : event.payload.routedId = none) : NamedDb db' := by
  refine ⟨?_, ?_⟩
  · rw [logged_events grown]
    intro found member id routed
    rcases List.mem_append.mp member with old | new
    · exact named.log found old id routed
    · cases List.mem_singleton.mp new
      rw [noRoute] at routed
      cases routed
  · intro found isRow id column
    cases stored'.symm.trans isRow
    rw [kept] at column
    exact named.column row stored id column

theorem write_named {db db' : OrderDb} {kind : WriteKind} (named : NamedDb db)
    (write : Write db kind db')
    (given : ∀ id, kind = .route id ∨ kind = .recordId id → id ≠ "") : NamedDb db' := by
  cases write with
  | submitted cmd event code createdAt absent positive version noFill noRoute applies =>
    refine ⟨?_, ?_⟩
    · intro found member id routed
      cases List.mem_singleton.mp member
      rw [noRoute] at routed
      cases routed
    · intro found isRow id column
      cases isRow
      cases column
  | reported row report event stored isOpen fits yields =>
    exact logged_named named stored rfl rfl rfl yields.routedId
  | canceled row reason event stored isOpen yields =>
    exact logged_named named stored rfl rfl rfl yields.routedId
  | routed row venue externalOrderId event stored submitted yields =>
    have notEmpty := given externalOrderId (.inl rfl)
    refine ⟨?_, ?_⟩
    · rw [logged_events rfl]
      intro found member id routed
      rcases List.mem_append.mp member with old | new
      · exact named.log found old id routed
      · cases List.mem_singleton.mp new
        rw [yields.routedId] at routed
        cases routed
        exact notEmpty
    · intro found isRow id column
      cases isRow
      cases column
      exact notEmpty
  | recorded externalOrderId =>
    refine ⟨named.log, ?_⟩
    intro found isRow id column
    simp only [recordExternalId, Option.map_eq_some_iff] at isRow
    obtain ⟨row, stored, rfl⟩ := isRow
    cases known : row.externalOrderId with
    | some old =>
      rw [known] at column
      cases column
      exact named.column row stored id known
    | none =>
      rw [known] at column
      cases column
      exact given _ (.inr rfl)

/-- What every write leaves of the record: an order's venue id is never lost, and
    routing is what makes it `routed`. -/
theorem write_recorded {db db' : OrderDb} {kind : WriteKind} (write : Write db kind db')
    {row' : OrderRow} (stored' : db'.row = some row') :
    Recorded db' row' ∨ row'.status = .submitted ∨ row'.status.isTerminal = true ∨
      ∃ row id qty price venue, db.row = some row ∧ kind = .report (.fill id qty price venue) ∧
        0 < qty ∧ 0 < price ∧ row.cumQty + qty < row.originalQty ∧
        row'.status = .partiallyFilled ∧ row'.createdAt = row.createdAt ∧ ¬ Recorded db row := by
  have kept : ∀ {row : OrderRow} {event : OrderDomainEvent}, db'.log = logged db event →
      row'.externalOrderId = row.externalOrderId → Recorded db row → Recorded db' row' := by
    rintro row event grown same (⟨found, member, routed⟩ | column)
    · refine .inl ⟨found, ?_, routed⟩
      rw [logged_events grown]
      exact List.mem_append_left _ member
    · exact .inr (same ▸ column)
  cases write with
  | submitted cmd event code createdAt absent positive version noFill noRoute applies =>
    cases stored'
    exact .inr (.inl rfl)
  | reported row report event stored isOpen fits yields =>
    cases stored'
    by_cases known : Recorded db row
    · exact .inl (kept rfl rfl known)
    · cases report with
      | reject reason venue => exact .inr (.inr (.inl rfl))
      | canceled reason venue => exact .inr (.inr (.inl rfl))
      | fill id qty price venue =>
        by_cases left : row.originalQty - (row.cumQty + qty) > 0
        · refine .inr (.inr (.inr ⟨row, id, qty, price, venue, stored, rfl, fits.1, fits.2.1,
            by linarith, ?_, rfl, known⟩))
          simp [reportedRow, reportState, fillState, left]
        · refine .inr (.inr (.inl ?_))
          simp [reportedRow, reportState, fillState, left, OrderStatus.isTerminal]
  | canceled row reason event stored isOpen yields =>
    cases stored'
    exact .inr (.inr (.inl rfl))
  | routed row venue externalOrderId event stored submitted yields =>
    cases stored'
    exact .inl (.inr rfl)
  | recorded externalOrderId =>
    simp only [recordExternalId, Option.map_eq_some_iff] at stored'
    obtain ⟨row, stored, rfl⟩ := stored'
    refine .inl (.inr ?_)
    cases row.externalOrderId <;> rfl

structure Named (s : Life) : Prop where
  db : NamedDb s.db
  stage : ∀ id ∈ stageRoute s.stage, id ≠ ""
  job : ∀ id ∈ jobRoute s.job, id ≠ ""
  queue : ∀ event ∈ s.queue, ∀ id, event.kind = .ack id → id ≠ ""
  recon : ∀ event, .sends event ∈ s.recon → ∀ id, event.kind = .ack id → id ≠ ""

theorem writer_named {sender : Sender} {s : Life} {a : Action} (named : Named s)
    {venue externalOrderId : String} {metadata : EventMetadata} {snapshot : OrderRow}
    (runs : writer sender s a = some (.route venue externalOrderId metadata, snapshot)) :
    externalOrderId ≠ "" := by
  unfold writer at runs
  split at runs
  · split at runs
    · rename_i persisting
      cases runs
      exact named.stage _ (by rw [persisting]; rfl)
    · cases runs
  · split at runs <;> cases runs
  · split at runs
    · cases runs
    · rename_i routing
      cases runs
      exact named.job _ (by rw [routing]; rfl)
    · cases runs
  · cases runs

theorem step_named {sender : Sender} {s t : Life} {a : Action} (wired : Wired s) (named : Named s)
    (answered : ¬ answersUnnamed a) (next : step sender s a = some t) : Named t where
  db := by
    rcases step_writes wired next with
      same | ⟨_, _, _, _, _, write⟩ | ⟨w, snapshot, kind, runs, makes, write⟩
    · rw [same]
      exact named.db
    · refine write_named named.db write ?_
      rintro id (wrong | wrong) <;> cases wrong
    · refine write_named named.db write fun id names => ?_
      obtain ⟨venue, metadata, rfl⟩ := makes_venue_id makes names
      exact writer_named named runs
  stage := by
    intro id isRoute
    rcases step_stage_route next id isRoute with old | rfl
    · exact named.stage id old
    · simpa [answersUnnamed] using answered
  job := by
    intro id isRoute
    rcases (step_job next).2 id isRoute with old | ⟨event, queued, ack⟩
    · exact named.job id old
    · exact named.queue event queued id ack
  queue := by
    intro event member id ack
    rcases step_queue next member with old | held | said
    · exact named.queue event old id ack
    · exact named.recon event held id ack
    · cases said <;> cases ack
  recon := by
    intro event member id ack
    rcases step_recon next member with old | found
    · exact named.recon event old id ack
    · cases found with
      | ack venueOrderId notEmpty =>
        cases ack
        exact notEmpty
      | swept answer kind agrees outcome =>
        cases ack
        unfold stuckOutcome at outcome
        split at outcome
        · split at outcome <;> cases outcome
        · cases outcome
        · cases outcome
      | resolved state agrees => cases ack

/-- An order at its venue has an id on record, unless a fill overtook its submit,
    which is then still on its way and within the grace period. -/
structure Covering (s : Life) : Prop where
  wired : Wired s
  named : Named s
  routed : ∀ row, s.db.row = some row → row.status = .routed → Recorded s.db row
  overtaken : ∀ row, Overtaken s.db row → isRouting s.stage ∧ ¬ isOld s.now row

theorem start_covering (position : Option OmsPositions.PositionMath) :
    Covering (.start position) where
  wired := start_wired position
  named :=
    { db := ⟨(by intro _ missing; cases missing), by intro _ missing; cases missing⟩
      stage := by intro _ missing; cases missing
      job := by intro _ missing; cases missing
      queue := by intro _ missing; cases missing
      recon := by intro _ missing; cases missing }
  routed := by intro _ missing; cases missing
  overtaken := by rintro _ ⟨missing, _⟩; cases missing

theorem covering_covered {s : Life} (covering : Covering s) : Covered s := by
  refine listed_covers fun row stored isOpen old => ?_
  have notSuspended := (reached_lively covering.wired.reached row stored).notSuspended
  have recorded : isAtVenue row.status → Recorded s.db row → Listed s.db row :=
    fun atVenue recorded =>
      .inr ⟨atVenue, (working_id_recorded covering.named.db stored).mpr recorded⟩
  cases status : row.status with
  | submitted => exact .inl status
  | routed => exact recorded (by rw [status]; rfl) (covering.routed row stored status)
  | partiallyFilled =>
    refine recorded (by rw [status]; rfl) ?_
    by_contra missing
    exact (covering.overtaken row ⟨stored, status, missing⟩).2 old
  | suspended => exact absurd status notSuspended
  | _ =>
    rw [status] at isOpen
    cases isOpen

theorem step_now {sender : Sender} {s t : Life} {a : Action} (next : step sender s a = some t) :
    t.now = s.now ∨ ∃ n, a = .tick n ∧ t = { s with now := s.now + n } := by
  cases a with
  | submit a => exact .inl (submit_step_frame next).1
  | venue a => exact .inl (venue_step_frame next).2.1
  | cancel a => exact .inl (cancel_step_frame next).1
  | engine a => exact .inl (engine_step_frame next).1
  | recon a => exact .inl (recon_step_frame next).2.1
  | tick n =>
    cases next
    exact .inr ⟨n, rfl, rfl⟩

theorem submit_still_routing {sender : Sender} {s t : Life} {a : SubmitAction} (wired : Wired s)
    (next : submitStep sender s a = some t) (routing : isRouting s.stage)
    (goesOn : givesUp sender s a = false) :
    isRouting t.stage ∨ ∀ row, t.db.row = some row → Recorded t.db row := by
  cases a with
  | writeRoute metadata =>
    simp only [submitStep] at next
    split at next
    · rename_i externalOrderId attempt snapshot persisting
      cases next
      have num := reached_numbered wired.reached
      simp only [givesUp, persisting] at goesOn
      cases run : persistRoutedOnce snapshot sender.venue externalOrderId metadata s.db with
      | ok outcome =>
        obtain ⟨result, committed⟩ := outcome
        simp only [routeOnce, run] at goesOn ⊢
        right
        intro row stored
        rcases route_once_cases num (wired.route _ _ _ persisting) (reached_lively wired.reached)
          run with ⟨_, rfl, rfl⟩ | ⟨_, _, rfl, rfl⟩ | ⟨before, event, _, _, _, _, _, rfl, rfl⟩
        · cases goesOn
        · simp only [recordExternalId, Option.map_eq_some_iff] at stored
          obtain ⟨before, _, rfl⟩ := stored
          refine .inr ?_
          cases before.externalOrderId <;> rfl
        · cases stored
          exact .inr rfl
      | error failure =>
        cases failure with
        | api failure => simp [routeOnce, run] at goesOn
        | concurrency conflict =>
          by_cases last : attempt + 1 = maxRouteAttempts
          · simp [routeOnce, run, last] at goesOn
          · left
            simp [routeOnce, run, last, stageAfterRoute, isRouting]
    · cases next
  | answerOk externalOrderId =>
    simp only [submitStep] at next
    split at next <;> cases next
    exact .inl rfl
  | readRoute =>
    simp only [submitStep] at next
    split at next <;> cases next
    exact .inl rfl
  | answerRejected reason => cases goesOn
  | answerLost => cases goesOn
  | stop => cases goesOn
  | store cmd metadata code =>
    simp only [submitStep] at next
    split at next
    · rename_i idle
      rw [idle.1] at routing
      cases routing
    · cases next
  | noAdapter reason =>
    simp only [submitStep] at next
    split at next <;> rename_i stage <;> cases next
    rw [stage] at routing
    cases routing
  | send =>
    simp only [submitStep] at next
    split at next <;> rename_i stage <;> cases next
    rw [stage] at routing
    cases routing
  | sendCancel =>
    simp only [submitStep] at next
    split at next <;> rename_i stage <;> cases next
    rw [stage] at routing
    cases routing

theorem idle_overtaken {sender : Sender} {s t : Life} {a : Action} (covering : Covering s)
    (kept : ¬ Uncovers sender s a) (next : step sender s a = some t) (same : t.db = s.db)
    {row : OrderRow} (overtaken : Overtaken t.db row) : isRouting t.stage ∧ ¬ isOld t.now row := by
  obtain ⟨routing, young⟩ := covering.overtaken row (same ▸ overtaken)
  obtain ⟨stored, filled, missing⟩ := same ▸ overtaken
  rcases step_now next with now | ⟨n, rfl, rfl⟩
  · rw [now]
    refine ⟨?_, young⟩
    cases a with
    | submit a =>
      have goesOn : givesUp sender s a = false := by
        by_contra gone
        refine kept (.inr (.inr (.inl ?_)))
        simpa [abandons, stored, filled, missing] using gone
      rcases submit_still_routing covering.wired next routing goesOn with still | recorded
      · exact still
      · exact absurd (recorded row overtaken.1) overtaken.2.2
    | _ => exact step_stage next (by simp) ▸ routing
  · refine ⟨routing, fun old => kept (.inr (.inr (.inr ?_)))⟩
    simpa [takesTooLong, routing, stored, filled, missing] using old

theorem write_overtaken {sender : Sender} {s t : Life} {a : Action} {w : Writer}
    {snapshot : OrderRow} {kind : WriteKind} (kept : ¬ Uncovers sender s a)
    (next : step sender s a = some t) (runs : writer sender s a = some (w, snapshot))
    (makes : Makes w snapshot s.db kind) (write : Write s.db kind t.db) {row : OrderRow}
    (overtaken : Overtaken t.db row) : isRouting t.stage ∧ ¬ isOld t.now row := by
  obtain ⟨stored, filled, missing⟩ := overtaken
  rcases write_recorded write stored with
    recorded | submitted | closed |
      ⟨before, id, qty, price, venue, there, rfl, positive, priced, leaves, _, created, none⟩
  · exact absurd recorded missing
  · rw [submitted] at filled
    cases filled
  · rw [filled] at closed
    cases closed
  · obtain ⟨metadata, _, _, _, _, rfl, booking, there', version, _⟩ :=
      writer_commits runs makes write
    cases there.symm.trans there'
    have wrote : engineStep sender s (.write metadata) = some t := next
    obtain ⟨now, stage, _⟩ := engine_step_frame wrote
    rw [now, stage]
    by_contra late
    have late : isRouting s.stage = false ∨ isOld s.now before = true := by
      by_contra neither
      refine late ⟨by simpa using fun waits => neither (.inl waits), fun old => neither (.inr ?_)⟩
      simpa [isOld, created] using old
    refine kept (.inr (.inl ?_))
    simpa [fillsUnrouted, booking, there, version, positive, priced, leaves, none] using late

theorem write_routed {db db' : OrderDb} {kind : WriteKind} (write : Write db kind db')
    {row : OrderRow} (stored : db'.row = some row) (routed : row.status = .routed) :
    Recorded db' row := by
  rcases write_recorded write stored with
    recorded | submitted | closed | ⟨_, _, _, _, _, _, _, _, _, _, isPartial, _⟩
  · exact recorded
  · rw [submitted] at routed
    cases routed
  · rw [routed] at closed
    cases closed
  · rw [isPartial] at routed
    cases routed

theorem step_covering {sender : Sender} {s t : Life} {a : Action} (covering : Covering s)
    (kept : ¬ Uncovers sender s a) (next : step sender s a = some t) : Covering t := by
  have wired := step_wired covering.wired next
  have named := step_named covering.wired covering.named (fun wrong => kept (.inl wrong)) next
  rcases step_writes covering.wired next with
    same | ⟨cmd, metadata, code, rfl, _, write⟩ | ⟨w, snapshot, kind, runs, makes, write⟩
  · refine ⟨wired, named, ?_, fun row => idle_overtaken covering kept next same⟩
    rw [same]
    exact covering.routed
  · refine ⟨wired, named, fun row => write_routed write, ?_⟩
    rintro row ⟨stored, filled, missing⟩
    rcases write_recorded write stored with recorded | submitted | closed |
      ⟨_, _, _, _, _, _, wrong, _⟩
    · exact absurd recorded missing
    · rw [submitted] at filled
      cases filled
    · rw [filled] at closed
      cases closed
    · cases wrong
  · exact ⟨wired, named, fun row => write_routed write,
      fun row => write_overtaken kept next runs makes write⟩

/-- In every run in which `persist_routed` commits, within the grace period, for
    every order that a fill overtook, an order is on exactly one of the two lists. -/
theorem open_orders_covered (sender : Sender) (position : Option OmsPositions.PositionMath)
    {as : List Action}
    (kept : Along (step sender) (fun s a => ¬ Uncovers sender s a) (.start position) as) :
    Throughout (step sender) Covered (.start position) as :=
  throughout_mono (fun _ covering => covering_covered covering)
    (throughout_along (fun _ _ _ covering kept next => step_covering covering kept next)
      (start_covering position) kept)

/-- A stored buy whose venue answers, fills four and is then asked about. -/
def filledWhileRouting : List Action :=
  [.submit (.store buyTen stamp "paper"), .submit .send, .venue .accept,
    .submit (.answerOk "v1"), .submit .readRoute, .venue (.execute ⟨"x1", 4, 10⟩),
    .venue (.deliverFill 0), .engine .take, .engine .read, .engine (.write stamp)]

/-- The route step loses its race with the fill, retries and records the id. -/
theorem raced_route_covered : Throughout (step paper) Covered (.start none)
    (filledWhileRouting ++ [.submit (.writeRoute stamp), .submit .readRoute,
      .submit (.writeRoute stamp), .tick 61]) :=
  open_orders_covered paper none (by decide +kernel)

/-- The same, except that storage fails the route step after its read. -/
theorem failed_route_uncovered : ¬ ∀ as, Throughout (step paper) Covered (.start none) as := by
  intro always
  have last := throughout_end (always (filledWhileRouting ++ [.submit .stop, .tick 61]))
  have unlisted : ∃ t ∈ run (step paper) (.start none)
      (filledWhileRouting ++ [.submit .stop, .tick 61]), ∃ row ∈ t.db.row,
        row.instrumentId = toString (1 : Int) ∧ row.status.isTerminal = false ∧
          t.venue.status ≠ .unsent ∧ isOld t.now row ∧ ¬ Listed t.db row := by decide +kernel
  obtain ⟨t, ends, row, stored, numeric, isOpen, sent, old, missing⟩ := unlisted
  exact missing (covered_listed (last t ends) stored numeric isOpen sent old)

end OmsCoverage
