import OpenOms.Domain.Course

/-!
What every order conserves, whatever commands it is offered: its quantities, its
booked notional and its version against the events. Only a replace down to what
is already filled leaves an active order with nothing to do.
-/
namespace OmsConservation
open OmsOrders OmsLifecycle OmsAggregate OmsCourse Runs

structure Conserves (events : List OrderDomainEvent) (s : OrderAggregateState) : Prop where
  version : s.version = events.length
  cumNonneg : 0 ≤ s.cumQty
  cumLe : s.cumQty ≤ s.originalQty
  positive : 0 < s.originalQty
  leaves : s.status.isTerminal = false → s.leavesQty = s.originalQty - s.cumQty
  filled : s.status = .filled → s.cumQty = s.originalQty ∧ s.leavesQty = 0
  canceled : s.status = .canceled → s.leavesQty = 0
  unfilled : s.avgPx = none ↔ s.cumQty = 0
  average : ∀ avg, s.avgPx = some avg → avg * s.cumQty = notional events
  limit : s.orderType = .limit → ∃ px, s.limitPrice = some px ∧ 0 < px

def ResumesActive (s : OrderAggregateState) : Prop :=
  ∀ resumed, s.resumeToStatus = some resumed → resumed.isTerminal = false ∧ resumed ≠ .suspended

/-- What the run rule carries: the order's state, if it has one, conserves, and
    without one nothing has happened. -/
structure Sound (c : Course) : Prop where
  unborn : c.aggregate = .empty → c.events = []
  conserves : ∀ s, c.aggregate = .fromState s → Conserves c.events s
  resumes : ∀ s, c.aggregate = .fromState s → ResumesActive s
  unbooked : ∀ s, c.aggregate = .fromState s → s.avgPx = none → notional c.events = 0

theorem suspendable_active {s : OrderAggregateState}
    (listed : .suspendOrder ∈ allowedKindsForStatus s.status) :
    s.status.isTerminal = false ∧ s.status ≠ .suspended := by
  cases status : s.status <;> simp_all [allowedKindsForStatus, OrderStatus.isTerminal]

theorem accepted_active {s : OrderAggregateState} {command : OrderCommand}
    (accepts : Accepts s command) : s.status.isTerminal = false := by
  have listed := accepts.1
  cases status : s.status <;> simp_all [allowedKindsForStatus, OrderStatus.isTerminal]

theorem quiet_conserves {events : List OrderDomainEvent} {s next : OrderAggregateState}
    {event : OrderDomainEvent} (conserves : Conserves events s)
    (noFill : event.payload.execution = none) (version : next.version = s.version + 1)
    (cum : next.cumQty = s.cumQty) (original : next.originalQty = s.originalQty)
    (avg : next.avgPx = s.avgPx) (kind : next.orderType = s.orderType)
    (limit : next.limitPrice = s.limitPrice) (notFilled : next.status ≠ .filled)
    (leaves : next.status.isTerminal = false → next.leavesQty = s.originalQty - s.cumQty)
    (canceled : next.status = .canceled → next.leavesQty = 0) :
    Conserves (events ++ [event]) next where
  version := by simp [version, conserves.version]
  cumNonneg := cum ▸ conserves.cumNonneg
  cumLe := by rw [cum, original]; exact conserves.cumLe
  positive := original ▸ conserves.positive
  leaves active := by rw [cum, original]; exact leaves active
  filled wrong := absurd wrong notFilled
  canceled := canceled
  unfilled := by rw [avg, cum]; exact conserves.unfilled
  average found stored := by
    rw [notional_append, noFill, cum]
    rw [avg] at stored
    simpa using conserves.average found stored
  limit isLimit := by rw [limit]; exact conserves.limit (kind ▸ isLimit)

theorem submit_conserves {cmd : SubmitOrder} {event : OrderDomainEvent}
    (valid : validateSubmit cmd.quantity cmd.orderType cmd.limitPrice = .ok ()) :
    Conserves [event] (submitState cmd) := by
  simp only [validateSubmit] at valid
  split at valid
  · cases valid
  · rename_i positive
    split at valid
    · cases valid
    · rename_i priced
      have quantity : 0 < cmd.quantity := not_not.mp positive
      refine ⟨rfl, le_refl _, quantity.le, quantity, fun _ => by simp [submitState], ?_, ?_,
        by simp [submitState], by simp [submitState], ?_⟩
      · intro wrong
        cases wrong
      · intro wrong
        cases wrong
      · intro isLimit
        simp only [submitState] at isLimit ⊢
        rw [not_and, not_not] at priced
        simpa [Option.any_eq_true] using priced isLimit

theorem fill_conserves {events : List OrderDomainEvent} {s : OrderAggregateState}
    {event : OrderDomainEvent} {id venue : String} {qty price : ℚ} (conserves : Conserves events s)
    (unbooked : s.avgPx = none → notional events = 0)
    (fits : ReportFits s (.fill id qty price venue))
    (fill : event.payload.execution = some ⟨id, qty, price⟩) :
    Conserves (events ++ [event]) (fillState s qty price) := by
  obtain ⟨positive, priced, room⟩ := fits
  have booked : 0 < s.cumQty + qty := by linarith [conserves.cumNonneg]
  have before : s.cumQty * s.avgPx.getD 0 = notional events := by
    cases stored : s.avgPx with
    | none => simp [unbooked stored]
    | some avg =>
      rw [Option.getD_some, mul_comm]
      exact conserves.average avg stored
  refine ⟨by simp [fillState, conserves.version], booked.le, room, conserves.positive,
    fun _ => rfl, ?_, ?_, ?_, ?_, conserves.limit⟩
  · intro done
    simp only [fillState] at done ⊢
    split at done
    · cases done
    · rename_i nothing
      constructor <;> linarith
  · intro wrong
    simp only [fillState] at wrong
    split at wrong <;> cases wrong
  · simp only [fillState, reduceCtorEq, false_iff]
    exact booked.ne'
  · intro avg stored
    cases stored
    rw [notional_append, fill, ← before]
    simp only [fillState, Option.map_some, Option.getD_some]
    field_simp

theorem replace_conserves {events : List OrderDomainEvent} {s : OrderAggregateState}
    {event : OrderDomainEvent} {orderId : String} {newLimitPrice newQuantity : Option ℚ}
    (conserves : Conserves events s) (active : s.status.isTerminal = false)
    (fits : Fits s (.replaceOrder orderId newLimitPrice newQuantity))
    (noFill : event.payload.execution = none) :
    Conserves (events ++ [event]) (after s (.replaceOrder orderId newLimitPrice newQuantity)) := by
  obtain ⟨positive, covers, priced⟩ := fits
  refine ⟨by simp [after, conserves.version], conserves.cumNonneg, covers, positive,
    fun _ => rfl, ?_, ?_, conserves.unfilled, ?_, ?_⟩
  · intro wrong
    simp only [after] at wrong
    simp [wrong, OrderStatus.isTerminal] at active
  · intro wrong
    simp only [after] at wrong
    simp [wrong, OrderStatus.isTerminal] at active
  · intro avg stored
    rw [notional_append, noFill]
    simpa [after] using conserves.average avg stored
  · intro isLimit
    obtain ⟨px, stored, above⟩ := conserves.limit isLimit
    cases given : newLimitPrice with
    | none => exact ⟨px, by simp [after, stored], above⟩
    | some newPx => exact ⟨newPx, by simp [after], priced newPx given⟩

theorem after_conserves {events : List OrderDomainEvent} {s : OrderAggregateState}
    {command : OrderCommand} {event : OrderDomainEvent} (conserves : Conserves events s)
    (resumes : ResumesActive s) (unbooked : s.avgPx = none → notional events = 0)
    (accepts : Accepts s command) (execution : event.payload.execution = command.execution) :
    Conserves (events ++ [event]) (after s command) := by
  have active := accepted_active accepts
  have leaves := conserves.leaves active
  cases command with
  | submitOrder cmd =>
    have listed := accepts.1
    cases status : s.status <;> simp [status, kind, allowedKindsForStatus] at listed
  | routeOrder orderId venue externalOrderId =>
    exact quiet_conserves conserves execution rfl rfl rfl rfl rfl rfl (by simp [after, closeState])
      (fun _ => leaves) (by simp [after, closeState])
  | replaceOrder orderId newLimitPrice newQuantity =>
    exact replace_conserves conserves active accepts.2 execution
  | cancelOrder orderId reason =>
    exact quiet_conserves conserves execution rfl rfl rfl rfl rfl rfl
      (by simp [after, cancelState, closeState])
      (by simp [after, cancelState, closeState, OrderStatus.isTerminal]) (fun _ => rfl)
  | suspendOrder orderId reason =>
    exact quiet_conserves conserves execution rfl rfl rfl rfl rfl rfl (by simp [after])
      (fun _ => leaves) (by simp [after])
  | releaseOrder orderId =>
    obtain ⟨resumed, stored⟩ := Option.isSome_iff_exists.mp accepts.2
    obtain ⟨stays, _⟩ := resumes resumed stored
    refine quiet_conserves conserves execution rfl rfl rfl rfl rfl rfl ?_ (fun _ => leaves) ?_
    · intro wrong
      simp only [after, stored, Option.getD_some] at wrong
      simp [wrong, OrderStatus.isTerminal] at stays
    · intro wrong
      simp only [after, stored, Option.getD_some] at wrong
      simp [wrong, OrderStatus.isTerminal] at stays
  | receiveExecutionReport orderId report =>
    cases report with
    | fill id qty price venue =>
      exact @fill_conserves _ _ _ _ venue _ _ conserves unbooked accepts.2 execution
    | reject reason venue =>
      exact quiet_conserves conserves execution rfl rfl rfl rfl rfl rfl
        (by simp [after, reportState, closeState])
        (by simp [after, reportState, closeState, OrderStatus.isTerminal])
        (by simp [after, reportState, closeState])
    | canceled reason venue =>
      exact quiet_conserves conserves execution rfl rfl rfl rfl rfl rfl
        (by simp [after, reportState, cancelState, closeState])
        (by simp [after, reportState, cancelState, closeState, OrderStatus.isTerminal])
        (fun _ => rfl)
  | expireOrder orderId reason =>
    exact quiet_conserves conserves execution rfl rfl rfl rfl rfl rfl
      (by simp [after, closeState]) (by simp [after, closeState, OrderStatus.isTerminal])
      (by simp [after, closeState])

theorem after_resumes {s : OrderAggregateState} {command : OrderCommand}
    (resumes : ResumesActive s) (accepts : Accepts s command) :
    ResumesActive (after s command) := by
  cases command with
  | submitOrder cmd => exact resumes
  | replaceOrder orderId newLimitPrice newQuantity => exact resumes
  | suspendOrder orderId reason =>
    intro resumed stored
    cases stored
    exact suspendable_active accepts.1
  | receiveExecutionReport orderId report =>
    cases report with
    | fill id qty price venue => exact resumes
    | _ =>
      intro resumed stored
      cases stored
  | _ =>
    intro resumed stored
    cases stored

theorem after_unbooked {events : List OrderDomainEvent} {s : OrderAggregateState}
    {command : OrderCommand} {event : OrderDomainEvent}
    (unbooked : s.avgPx = none → notional events = 0)
    (execution : event.payload.execution = command.execution)
    (noAverage : (after s command).avgPx = none) : notional (events ++ [event]) = 0 := by
  rw [notional_append, execution]
  cases command with
  | receiveExecutionReport orderId report =>
    cases report with
    | fill id qty price venue => cases noAverage
    | reject reason venue => simpa [OrderCommand.execution] using unbooked noAverage
    | canceled reason venue => simpa [OrderCommand.execution] using unbooked noAverage
  | _ => simpa [OrderCommand.execution] using unbooked noAverage

theorem start_sound : Sound .start where
  unborn := fun _ => rfl
  conserves := by intro s missing; cases missing
  resumes := by intro s missing; cases missing
  unbooked := by intro s missing; cases missing

theorem step_sound {c next : Course} {offer : Offer} (sound : Sound c)
    (taken : step c offer = some next) : Sound next := by
  rcases step_cases taken with same | ⟨cmd, event, unborn, _, valid, noFill, same, _⟩ |
    ⟨s, event, running, accepts, _, yields, same⟩
  · exact same ▸ sound
  · subst same
    rw [sound.unborn unborn]
    refine ⟨(by intro missing; cases missing), ?_, ?_, ?_⟩
    · intro s stored
      cases stored
      exact submit_conserves valid
    · intro s stored resumed isResumed
      cases stored
      cases isResumed
    · intro s stored _
      rw [notional_append, noFill]
      simp [notional]
  · subst same
    have conserves := sound.conserves s running
    have resumes := sound.resumes s running
    have unbooked := sound.unbooked s running
    refine ⟨(by intro missing; cases missing), ?_, ?_, ?_⟩
    · intro found stored
      cases stored
      exact after_conserves conserves resumes unbooked accepts yields.execution
    · intro found stored
      cases stored
      exact after_resumes resumes accepts
    · intro found stored
      cases stored
      exact after_unbooked unbooked yields.execution

/-- Every order conserves, whatever commands it is offered. -/
theorem orders_conserve (offers : List Offer) :
    Throughout step (fun c => ∀ s, c.aggregate.state = some s → Conserves c.events s) .start
      offers := by
  refine throughout_mono (fun c sound => ?_)
    (throughout_keeps (fun _ _ _ sound taken => step_sound sound taken) start_sound offers)
  intro s stored
  obtain ⟨⟨state⟩, events⟩ := c
  cases stored
  exact sound.conserves s rfl

/-- An active order has something left, so it is not filled, and the aggregate
    still takes some fill for it. -/
def ActiveHasLeaves (c : Course) : Prop :=
  ∀ s, c.aggregate.state = some s → s.status.isTerminal = false →
    0 < s.leavesQty ∧ s.cumQty ≠ s.originalQty ∧
      ∃ id qty price venue, ∀ metadata, ∃ events,
        c.aggregate.decide (.receiveExecutionReport s.orderId (.fill id qty price venue)) metadata =
          .ok events

def ReplacesToFilled (c : Course) (offer : Offer) : Prop :=
  ∃ s orderId newLimitPrice newQuantity, c.aggregate = .fromState s ∧
    offer.command = .replaceOrder orderId newLimitPrice newQuantity ∧
    Accepts s offer.command ∧ newQuantity.getD s.originalQty = s.cumQty

/-- What the run rule carries beside `Sound`: an active order has room. -/
structure Roomy (c : Course) : Prop where
  sound : Sound c
  room : ∀ s, c.aggregate = .fromState s → s.status.isTerminal = false → s.cumQty < s.originalQty

theorem start_roomy : Roomy .start where
  sound := start_sound
  room := by intro s missing; cases missing

theorem after_room {s : OrderAggregateState} {command : OrderCommand}
    (room : s.cumQty < s.originalQty) (accepts : Accepts s command)
    (more : ∀ orderId newLimitPrice newQuantity,
      command = .replaceOrder orderId newLimitPrice newQuantity →
        newQuantity.getD s.originalQty ≠ s.cumQty)
    (active : (after s command).status.isTerminal = false) :
    (after s command).cumQty < (after s command).originalQty := by
  cases command with
  | replaceOrder orderId newLimitPrice newQuantity =>
    exact lt_of_le_of_ne accepts.2.2.1 (more _ _ _ rfl).symm
  | receiveExecutionReport orderId report =>
    cases report with
    | fill id qty price venue =>
      simp only [after, reportState, fillState] at active ⊢
      split at active
      · linarith
      · cases active
    | reject reason venue => exact room
    | canceled reason venue => exact room
  | _ => exact room

theorem step_roomy {c next : Course} {offer : Offer} (roomy : Roomy c)
    (ok : ¬ ReplacesToFilled c offer) (taken : step c offer = some next) : Roomy next := by
  refine ⟨step_sound roomy.sound taken, ?_⟩
  rcases step_cases taken with same | ⟨cmd, event, _, _, valid, _, same, _⟩ |
    ⟨s, event, running, accepts, _, _, same⟩
  · exact same ▸ roomy.room
  · subst same
    intro s stored _
    cases stored
    exact (@submit_conserves cmd event valid).positive
  · subst same
    intro found stored active
    cases stored
    refine after_room (roomy.room s running (accepted_active accepts)) accepts ?_ active
    intro orderId newLimitPrice newQuantity isReplace filled
    exact ok ⟨s, orderId, newLimitPrice, newQuantity, running, isReplace, accepts, filled⟩

theorem roomy_has_leaves {c : Course} (roomy : Roomy c) : ActiveHasLeaves c := by
  intro s stored active
  obtain ⟨⟨state⟩, events⟩ := c
  cases stored
  have room := roomy.room s rfl active
  have leaves := (roomy.sound.conserves s rfl).leaves active
  refine ⟨by linarith, room.ne, "", s.originalQty - s.cumQty, 1, "", fun metadata => ?_⟩
  have listed : .receiveExecutionReport ∈ allowedKindsForStatus s.status :=
    (allowed_iff_listed _ _).mp (open_takes_report active)
  have accepts : Accepts s (.receiveExecutionReport s.orderId
      (.fill "" (s.originalQty - s.cumQty) 1 "")) :=
    ⟨listed, by linarith, by norm_num, by linarith⟩
  obtain ⟨event, decided, _⟩ := decide_accepts accepts metadata
  exact ⟨[event], decided⟩

theorem replace_to_filled_stalls {c : Course} {offer : Offer}
    (replaces : ReplacesToFilled c offer) :
    ∃ next, step c offer = some next ∧ ¬ ActiveHasLeaves next := by
  obtain ⟨s, orderId, newLimitPrice, newQuantity, running, isReplace, accepts, filled⟩ := replaces
  obtain ⟨event, taken⟩ := step_accepted running accepts
  refine ⟨_, taken, fun holds => ?_⟩
  have active := accepted_active accepts
  rw [isReplace] at holds
  have positive := (holds _ rfl active).1
  simp only [after] at positive
  linarith

/-- Every active order has something left in every state of a course exactly when
    no replace in it goes down to the filled quantity. -/
theorem active_leaves_iff_no_replace_to_filled (offers : List Offer) :
    Throughout step ActiveHasLeaves .start offers ↔
      Along step (fun c offer => ¬ ReplacesToFilled c offer) .start offers :=
  throughout_iff_along (fun _ _ _ roomy ok taken => step_roomy roomy ok taken)
    (fun _ roomy => roomy_has_leaves roomy)
    (fun _ _ _ replaces => replace_to_filled_stalls (not_not.mp replaces)) start_roomy

def stamped : EventMetadata := ⟨"e1", 0, "oms"⟩

def replacedToFilled : List Offer :=
  [⟨.submitOrder ⟨"o1", "c1", "p1", "a1", "1", .buy, .market, .day, none, 10⟩, stamped⟩,
    ⟨.receiveExecutionReport "o1" (.fill "x" 4 100 "V"), stamped⟩,
    ⟨.replaceOrder "o1" none (some 4), stamped⟩]

/-- The order is still partially filled, with nothing left to fill. -/
theorem replaced_order_stalls : ¬ ∀ offers, Throughout step ActiveHasLeaves .start offers := by
  intro always
  have last := throughout_end (always replacedToFilled)
  have stalls : ∃ c ∈ run step .start replacedToFilled, ∃ s ∈ c.aggregate.state,
      s.status.isTerminal = false ∧ s.leavesQty = 0 := by
    decide +kernel
  obtain ⟨c, ends, s, stored, active, nothing⟩ := stalls
  have positive := (last c ends s stored active).1
  rw [nothing] at positive
  exact lt_irrefl _ positive

end OmsConservation
