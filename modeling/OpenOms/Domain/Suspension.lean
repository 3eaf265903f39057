import OpenOms.Domain.Conservation

/-!
What a suspended order remembers: the status it was suspended from, exactly while
it is suspended. A fill taken in between makes the order active again and keeps
the remembered status.
-/
namespace OmsSuspension
open OmsOrders OmsLifecycle OmsAggregate OmsCourse OmsConservation Runs

def statusAfter (events : List OrderDomainEvent) : Option OrderStatus :=
  match OrderAggregate.rehydrate events with
  | .ok aggregate => aggregate.state.map (·.status)
  | .error _ => none

def SuspendedFrom (events : List OrderDomainEvent) (status : OrderStatus) : Prop :=
  ∃ early event late, events = early ++ event :: late ∧ event.eventType = .orderSuspended ∧
    (∀ other ∈ late, other.eventType ≠ .orderSuspended) ∧ statusAfter early = some status

/-- A status is remembered exactly while the order is suspended, and it is the
    active one the order was suspended from. -/
def Remembers (c : Course) : Prop :=
  ∀ s, c.aggregate.state = some s →
    (∀ resumed, s.resumeToStatus = some resumed → s.status = .suspended) ∧
      (s.status = .suspended → ∃ resumed, s.resumeToStatus = some resumed ∧
        resumed.isTerminal = false ∧ resumed ≠ .suspended ∧ SuspendedFrom c.events resumed)

/-- An event that takes the order out of suspension closes it or releases it to
    the status it was suspended from. -/
def LeavesProperly (events : List OrderDomainEvent) : Prop :=
  ∀ early event status, events = early ++ [event] → statusAfter early = some .suspended →
    statusAfter events = some status → status ≠ .suspended →
      status.isTerminal = true ∨
        (event.eventType = .orderReleased ∧ SuspendedFrom early status)

def FillsSuspended (c : Course) (offer : Offer) : Prop :=
  ∃ s orderId id qty price venue, c.aggregate = .fromState s ∧ s.status = .suspended ∧
    offer.command = .receiveExecutionReport orderId (.fill id qty price venue) ∧
    Accepts s offer.command

structure Remembering (c : Course) : Prop where
  folds : OrderAggregate.rehydrate c.events = .ok c.aggregate
  remembers : Remembers c
  leaves : LeavesProperly c.events

theorem suspended_from_snoc {events : List OrderDomainEvent} {event : OrderDomainEvent}
    {status : OrderStatus} (suspends : event.eventType = .orderSuspended)
    (before : statusAfter events = some status) : SuspendedFrom (events ++ [event]) status :=
  ⟨events, event, [], rfl, suspends, by simp, before⟩

theorem start_remembering : Remembering .start where
  folds := rfl
  remembers := by intro s missing; cases missing
  leaves := by
    intro early event status missing
    cases early <;> cases missing

theorem suspended_after {s : OrderAggregateState} {command : OrderCommand}
    (suspended : s.status = .suspended) (accepts : Accepts s command)
    (noFill : ∀ orderId id qty price venue,
      command ≠ .receiveExecutionReport orderId (.fill id qty price venue)) :
    (after s command).status.isTerminal = true ∨
      ∃ orderId, command = .releaseOrder orderId := by
  have listed := accepts.1
  rw [suspended] at listed
  cases command with
  | cancelOrder orderId reason => exact .inl rfl
  | releaseOrder orderId => exact .inr ⟨orderId, rfl⟩
  | receiveExecutionReport orderId report =>
    cases report with
    | fill id qty price venue => exact absurd rfl (noFill orderId id qty price venue)
    | reject reason venue => exact .inl rfl
    | canceled reason venue => exact .inl rfl
  | expireOrder orderId reason => exact .inl rfl
  | _ => simp [kind, allowedKindsForStatus] at listed

/-- A command that suspends nothing leaves nothing remembered, unless it is a
    fill of a suspended order. -/
theorem after_forgets {s : OrderAggregateState} {command : OrderCommand}
    (accepts : Accepts s command)
    (forgotten : ∀ resumed, s.resumeToStatus = some resumed → s.status = .suspended)
    (noFill : s.status = .suspended → ∀ orderId id qty price venue,
      command ≠ .receiveExecutionReport orderId (.fill id qty price venue))
    (noSuspend : ∀ orderId reason, command ≠ .suspendOrder orderId reason) :
    (after s command).resumeToStatus = none := by
  have listed := accepts.1
  have kept : s.status ≠ .suspended → s.resumeToStatus = none := by
    intro active
    cases stored : s.resumeToStatus with
    | none => rfl
    | some resumed => exact absurd (forgotten resumed stored) active
  cases command with
  | suspendOrder orderId reason => exact absurd rfl (noSuspend orderId reason)
  | submitOrder cmd =>
    cases status : s.status <;> simp [status, kind, allowedKindsForStatus] at listed
  | replaceOrder orderId newLimitPrice newQuantity =>
    refine kept fun suspended => ?_
    rw [suspended] at listed
    simp [kind, allowedKindsForStatus] at listed
  | receiveExecutionReport orderId report =>
    cases report with
    | fill id qty price venue =>
      exact kept fun suspended => noFill suspended orderId id qty price venue rfl
    | reject reason venue => rfl
    | canceled reason venue => rfl
  | _ => rfl

theorem after_status_suspended {s : OrderAggregateState} {command : OrderCommand}
    (accepts : Accepts s command)
    (active : ∀ resumed, s.resumeToStatus = some resumed → resumed ≠ .suspended)
    (suspended : (after s command).status = .suspended) :
    ∃ orderId reason, command = .suspendOrder orderId reason := by
  have listed := accepts.1
  cases command with
  | suspendOrder orderId reason => exact ⟨orderId, reason, rfl⟩
  | submitOrder cmd =>
    cases status : s.status <;> simp [status, kind, allowedKindsForStatus] at listed
  | replaceOrder orderId newLimitPrice newQuantity =>
    simp only [after] at suspended
    rw [suspended] at listed
    simp [kind, allowedKindsForStatus] at listed
  | releaseOrder orderId =>
    obtain ⟨resumed, stored⟩ := Option.isSome_iff_exists.mp accepts.2
    simp only [after, stored, Option.getD_some] at suspended
    exact absurd suspended (active resumed stored)
  | receiveExecutionReport orderId report =>
    cases report with
    | fill id qty price venue =>
      simp only [after, reportState, fillState] at suspended
      split at suspended <;> cases suspended
    | reject reason venue => cases suspended
    | canceled reason venue => cases suspended
  | routeOrder orderId venue externalOrderId => cases suspended
  | cancelOrder orderId reason => cases suspended
  | expireOrder orderId reason => cases suspended

theorem step_remembering {c next : Course} {offer : Offer} (remembering : Remembering c)
    (ok : ¬ FillsSuspended c offer) (taken : step c offer = some next) : Remembering next := by
  rcases step_cases taken with same | ⟨cmd, event, unborn, _, _, _, same, applies⟩ |
    ⟨s, event, running, accepts, decided, yields, same⟩
  · exact same ▸ remembering
  · subst same
    have folds := remembering.folds
    rw [unborn] at folds
    have grown := rehydrate_snoc folds applies
    refine ⟨grown, ?_, ?_⟩
    · intro s stored
      cases stored
      exact ⟨(by intro resumed wrong; cases wrong), (by intro wrong; cases wrong)⟩
    · intro early last status split before
      obtain ⟨rfl, same⟩ := List.append_inj' split rfl
      cases same
      rw [statusAfter, folds] at before
      cases before
  · subst same
    have folds := remembering.folds
    rw [running] at folds
    have grown := rehydrate_snoc folds yields.applies
    have before : statusAfter c.events = some s.status := by rw [statusAfter, folds]; rfl
    obtain ⟨forgotten, suspended⟩ := remembering.remembers s (by rw [running]; rfl)
    have noFill : s.status = .suspended → ∀ orderId id qty price venue,
        offer.command ≠ .receiveExecutionReport orderId (.fill id qty price venue) :=
      fun isSuspended orderId id qty price venue isFill =>
        ok ⟨s, orderId, id, qty, price, venue, running, isSuspended, isFill, accepts⟩
    have typed := (decided_typed decided event List.mem_cons_self).1
    refine ⟨grown, ?_, ?_⟩
    · intro found stored
      cases stored
      by_cases isSuspend : ∃ orderId reason, offer.command = .suspendOrder orderId reason
      · obtain ⟨orderId, reason, isSuspend⟩ := isSuspend
        obtain ⟨active, notTwice⟩ := suspendable_active (by
          have listed := accepts.1
          rwa [isSuspend] at listed)
        rw [isSuspend] at typed ⊢
        refine ⟨fun _ _ => rfl, fun _ => ⟨s.status, rfl, active, notTwice, ?_⟩⟩
        exact suspended_from_snoc (List.mem_singleton.mp typed) before
      · push Not at isSuspend
        have nothing := after_forgets accepts forgotten noFill isSuspend
        refine ⟨fun resumed stored => ?_, fun isSuspended => ?_⟩
        · rw [nothing] at stored
          cases stored
        · obtain ⟨orderId, reason, wrong⟩ := after_status_suspended accepts
            (fun resumed stored => by
              obtain ⟨found, stored', _, notTwice, _⟩ := suspended (forgotten resumed stored)
              cases stored.symm.trans stored'
              exact notTwice) isSuspended
          exact absurd wrong (isSuspend orderId reason)
    · intro early last status split wasSuspended isStatus leaves
      obtain ⟨rfl, same⟩ := List.append_inj' split rfl
      cases same
      rw [statusAfter, grown] at isStatus
      cases isStatus
      have isSuspended := Option.some.inj (before.symm.trans wasSuspended)
      rcases suspended_after isSuspended accepts (noFill isSuspended) with
        closes | ⟨orderId, releases⟩
      · exact .inl closes
      · obtain ⟨resumed, stored, _, _, from_status⟩ := suspended isSuspended
        rw [releases] at typed ⊢
        refine .inr ⟨List.mem_singleton.mp typed, ?_⟩
        simpa [after, stored] using from_status

theorem fill_keeps_resume {c : Course} {offer : Offer} (remembering : Remembering c)
    (fills : FillsSuspended c offer) :
    ∃ next, step c offer = some next ∧ ¬ (Remembers next ∧ LeavesProperly next.events) := by
  obtain ⟨s, orderId, id, qty, price, venue, running, suspended, isFill, accepts⟩ := fills
  obtain ⟨resumed, stored, _⟩ := (remembering.remembers s (by rw [running]; rfl)).2 suspended
  obtain ⟨event, taken⟩ := step_accepted running accepts
  refine ⟨_, taken, fun holds => ?_⟩
  rw [isFill] at holds
  have wrong := (holds.1 _ rfl).1 resumed (by simpa [after, reportState, fillState] using stored)
  simp only [after, reportState, fillState] at wrong
  split at wrong <;> cases wrong

/-- What was suspended is remembered, and left only by a release to it or a close,
    in every state of a course exactly when no fill in it meets a suspended order. -/
theorem suspension_remembered_iff_no_fill (offers : List Offer) :
    Throughout step (fun c => Remembers c ∧ LeavesProperly c.events) .start offers ↔
      Along step (fun c offer => ¬ FillsSuspended c offer) .start offers :=
  throughout_iff_along (fun _ _ _ remembering ok taken => step_remembering remembering ok taken)
    (fun _ remembering => ⟨remembering.remembers, remembering.leaves⟩)
    (fun _ _ remembering fills => fill_keeps_resume remembering (not_not.mp fills))
    start_remembering

def filledSuspended : List Offer :=
  [⟨.submitOrder ⟨"o1", "c1", "p1", "a1", "1", .buy, .market, .day, none, 10⟩, stamped⟩,
    ⟨.suspendOrder "o1" none, stamped⟩,
    ⟨.receiveExecutionReport "o1" (.fill "x" 4 100 "V"), stamped⟩]

/-- The order is partially filled and still remembers that it was submitted. -/
theorem filled_suspended_remembers :
    ¬ ∀ offers, Throughout step (fun c => Remembers c ∧ LeavesProperly c.events) .start offers := by
  intro always
  have last := throughout_end (always filledSuspended)
  have keeps : ∃ c ∈ run step .start filledSuspended, ∃ s ∈ c.aggregate.state,
      s.status = .partiallyFilled ∧ s.resumeToStatus = some .submitted := by
    decide +kernel
  obtain ⟨c, ends, s, stored, active, resumes⟩ := keeps
  have wrong := ((last c ends).1 s stored).1 .submitted resumes
  rw [active] at wrong
  cases wrong

end OmsSuspension
