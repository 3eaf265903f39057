import OpenOms.Connectors.FixDialect
import OpenOms.Systems.VenueIds

/-!
One order sent over a venue's FIX session. The submit waits for the venue's answer
until a timeout, the session's callback resolves the wait and passes on what moves
the order, and the rest of the order's life goes on beside them.
-/
namespace OmsLateAcks
open OmsOrders OmsAggregate OmsOrderStore OmsExecution OmsOrderEntry OmsOrderWrites OmsGateway
open OmsOrderEngine OmsOrderLife OmsLifeSteps OmsVenueIds OmsFixDialect Runs

inductive Waiter where
  | idle
  | waiting
  -- it was looked at in vain, the deadline is looked at next
  | expiring
  | gone
  deriving DecidableEq, Repr

/-- `pending` is the order's entry in the map of waiting submits, `answer` what was
    sent on its oneshot and `taken` what the submit got. `wire` has the venue's reports
    on their way, `channel` those on theirs to the engine, `told` the events made of
    them. -/
structure FixOrder where
  life : Life
  waiter : Waiter
  pending : Bool
  answer : Option (Except String String)
  taken : Option (Except String String)
  wire : List Message
  received : List Message
  channel : List (String × VenueReport)
  told : List ExecEvent
  deriving DecidableEq, Repr

def FixOrder.start (position : Option OmsPositions.PositionMath) : FixOrder :=
  ⟨.start position, .idle, false, none, none, [], [], [], []⟩

inductive Action where
  | store (cmd : SubmitOrder) (metadata : EventMetadata) (brokerConnectionCode : String)
  | send (sent : Bool)
  | expire
  | giveUp
  | forget
  | answer
  | readRoute
  | writeRoute (metadata : EventMetadata)
  | sendCancel
  | venue (a : VenueAction) (msg : Message)
  | inbound
  | drain
  | cancel (a : CancelAction)
  | engine (a : EngineAction)
  deriving DecidableEq, Repr

def tells (uuid : String → Option String) (sender : Sender) (id : String) (a : VenueAction)
    (msg : Message) : Bool :=
  (parseStandardExecReport uuid msg sender.venue).any (·.orderId = sender.orderId) &&
    match a with
    | .accept => msg.execType = some "0" && msg.orderId = some id
    | .refuse => msg.execType = some "8"
    | .execute execution =>
      (msg.execType ∈ [some "1", some "2", some "F"]) && msg.lastQty = some execution.qty &&
        msg.lastPx = some execution.price && msg.execId = some execution.executionId
    | .close => msg.execType = some "4"
    | _ => false

def resolveAck (s : FixOrder) (result : Except String String) : FixOrder :=
  if s.pending then
    { s with
      pending := false
      answer := if s.waiter = .waiting ∨ s.waiter = .expiring then some result else s.answer }
  else s

def onMsgFromApp (uuid : String → Option String) (sender : Sender) (s : FixOrder) (msg : Message) :
    FixOrder :=
  if isOrderStatusReport msg then s
  else
    match parseStandardExecReport uuid msg sender.venue with
    | none => s
    | some parsed =>
      let resolved :=
        match ackResult parsed with
        | some result => if parsed.orderId = sender.orderId then resolveAck s result else s
        | none => s
      match parsed.report with
      | some report =>
        { resolved with channel := resolved.channel ++ [(parsed.orderId, report)] }
      | none => resolved

def lift (s : FixOrder) (next : Option Life) : Option FixOrder :=
  next.map fun life => { s with life }

def goesOn : Except String String → SubmitAction
  | .ok externalOrderId => .answerOk externalOrderId
  | .error reason => .answerRejected reason

def step (uuid : String → Option String) (sender : Sender) (id : String) (s : FixOrder) :
    Action → Option FixOrder
  | .store cmd metadata brokerConnectionCode =>
    lift s (submitStep sender s.life (.store cmd metadata brokerConnectionCode))
  | .send sent =>
    match s.life.stage with
    | .stored _ =>
      if sent then
        (submitStep sender s.life .send).map fun life =>
          { s with life, waiter := .waiting, pending := true }
      else lift s (submitStep sender s.life .stop)
    | _ => none
  | .expire =>
    if s.waiter = .waiting ∧ s.answer = none then some { s with waiter := .expiring } else none
  | .giveUp =>
    if s.waiter = .expiring then some { s with waiter := .gone, answer := none } else none
  | .forget =>
    if s.waiter = .gone then
      (submitStep sender s.life .answerLost).map fun life =>
        { s with life, waiter := .idle, pending := false }
    else none
  | .answer =>
    match s.waiter, s.answer with
    | .waiting, some result =>
      (submitStep sender s.life (goesOn result)).map fun life =>
        { s with life, waiter := .idle, answer := none, taken := some result }
    | _, _ => none
  | .readRoute => lift s (submitStep sender s.life .readRoute)
  | .writeRoute metadata => lift s (submitStep sender s.life (.writeRoute metadata))
  | .sendCancel => lift s (submitStep sender s.life .sendCancel)
  | .venue a msg =>
    if tells uuid sender id a msg then
      (venueStep sender s.life a).map fun life => { s with life, wire := s.wire ++ [msg] }
    else none
  | .inbound =>
    match s.wire with
    | [] => none
    | msg :: wire =>
      some { onMsgFromApp uuid sender s msg with wire, received := s.received ++ [msg] }
  | .drain =>
    match s.channel with
    | [] => none
    | (orderId, report) :: channel =>
      let event := ExecEvent.fromReport orderId sender.venue sender.actor report
      some { s with
        channel
        told := s.told ++ [event]
        life := { s.life with queue := s.life.queue ++ [event] } }
  | .cancel a => lift s (cancelStep s.life a)
  | .engine a => lift s (engineStep sender s.life a)

def ackOf (uuid : String → Option String) (sender : Sender) (msg : Message) :
    Option (Except String String) :=
  (parseStandardExecReport uuid msg sender.venue).bind ackResult

def reportOf (uuid : String → Option String) (sender : Sender) (msg : Message) :
    Option VenueReport :=
  (parseStandardExecReport uuid msg sender.venue).bind (·.report)

def Resolves (s : FixOrder) (result : Except String String) : Prop :=
  s.waiter = .waiting ∧ s.answer = some result ∨ s.taken = some result

def Reaches (sender : Sender) (s : FixOrder) (report : VenueReport) : Prop :=
  (sender.orderId, report) ∈ s.channel ∨
    .fromReport sender.orderId sender.venue sender.actor report ∈ s.told

def NoneLost (uuid : String → Option String) (sender : Sender) (s : FixOrder) : Prop :=
  ∀ msg ∈ s.received, (∃ result, ackOf uuid sender msg = some result ∧ Resolves s result) ∨
    ∃ report, reportOf uuid sender msg = some report ∧ Reaches sender s report

def Ended (s : FixOrder) : Prop :=
  s.life.stage = .returned ∧ s.wire = [] ∧ s.channel = [] ∧ s.life.queue = [] ∧ s.life.job = none

instance (s : FixOrder) : Decidable (Ended s) := by
  unfold Ended
  infer_instance

def Accepted (venue : Venue) : Prop := venue.status = .working ∨ venue.status = .closed

/-- In the end the venue's id of an order it took is on record, or the order closed. -/
def Kept (uuid : String → Option String) (sender : Sender) (id : String) (s : FixOrder) : Prop :=
  NoneLost uuid sender s ∧ (Ended s → Accepted s.life.venue → Recorded id s.life.db)

def isNew (msg : Message) : Bool := msg.execType = some "0"

def Late (s : FixOrder) : Action → Prop
  | .inbound => ∃ msg ∈ s.wire.head?, isNew msg = true ∧
      ¬ (s.waiter = .waiting ∧ s.pending = true)
  | _ => False

instance (s : FixOrder) (a : Action) : Decidable (Late s a) := by
  unfold Late
  split <;> infer_instance

def Genuine (uuid : String → Option String) (sender : Sender) (id : String) (msg : Message) :
    Prop :=
  ∃ parsed execType, parseStandardExecReport uuid msg sender.venue = some parsed ∧
    parsed.orderId = sender.orderId ∧ msg.execType = some execType ∧
    (execType = "0" ∧ msg.orderId = some id ∨ execType ∈ movingTypes)

variable {uuid : String → Option String} {sender : Sender} {id : String} {s t : FixOrder}

theorem tells_genuine {a : VenueAction} {msg : Message}
    (told : tells uuid sender id a msg = true) :
    Genuine uuid sender id msg ∧ (isNew msg = true ↔ a = .accept) := by
  simp only [tells, Bool.and_eq_true, Option.any_eq_true, decide_eq_true_eq] at told
  obtain ⟨⟨parsed, read, own⟩, typed⟩ := told
  cases a with
  | accept =>
    simp only [Bool.and_eq_true, decide_eq_true_eq] at typed
    exact ⟨⟨parsed, _, read, own, typed.1, .inl ⟨rfl, typed.2⟩⟩, by simp [isNew, typed.1]⟩
  | refuse =>
    simp only [decide_eq_true_eq] at typed
    exact ⟨⟨parsed, _, read, own, typed, .inr (by decide)⟩, by simp [isNew, typed]⟩
  | execute execution =>
    simp only [Bool.and_eq_true, decide_eq_true_eq, List.mem_cons, List.not_mem_nil,
      or_false] at typed
    rcases typed.1.1.1 with one | two | trade
    · exact ⟨⟨parsed, _, read, own, one, .inr (by decide)⟩, by simp [isNew, one]⟩
    · exact ⟨⟨parsed, _, read, own, two, .inr (by decide)⟩, by simp [isNew, two]⟩
    · exact ⟨⟨parsed, _, read, own, trade, .inr (by decide)⟩, by simp [isNew, trade]⟩
  | close =>
    simp only [decide_eq_true_eq] at typed
    exact ⟨⟨parsed, _, read, own, typed, .inr (by decide)⟩, by simp [isNew, typed]⟩
  | deliverFill | deliverCumulative | deliverCanceled | deliverRejected => cases typed

/-- A New only resolves the submit; any other message of the venue has a report for the
    engine, and at most a reject for the submit. -/
theorem callback_cases {msg : Message} (genuine : Genuine uuid sender id msg) (s : FixOrder) :
    (isNew msg = true ∧ ackOf uuid sender msg = some (.ok id) ∧
      reportOf uuid sender msg = none ∧
      onMsgFromApp uuid sender s msg = resolveAck s (.ok id)) ∨
    (isNew msg = false ∧ (∀ name, ackOf uuid sender msg ≠ some (.ok name)) ∧
      ∃ report resolved, reportOf uuid sender msg = some report ∧
        (resolved = s ∨ ∃ reason, resolved = resolveAck s (.error reason)) ∧
        onMsgFromApp uuid sender s msg =
          { resolved with channel := resolved.channel ++ [(sender.orderId, report)] }) := by
  obtain ⟨parsed, execType, read, own, typed, new | moves⟩ := genuine
  · obtain ⟨rfl, named⟩ := new
    obtain ⟨none_, ack⟩ := (parsed_moves read typed).2.1 rfl
    have name : (msg.orderId.filter (· ≠ "")).getD "" = id := by
      rw [named]
      by_cases empty : id = "" <;> simp [Option.filter, empty]
    rw [name] at ack
    refine .inl ⟨by simp [isNew, typed], by simp [ackOf, read, ack],
      by simp [reportOf, read, none_], ?_⟩
    simp [onMsgFromApp, isOrderStatusReport, typed, read, ack, none_, own]
  · have other : execType ≠ "0" := by
      rintro rfl
      exact absurd moves (by decide)
    have live : execType ≠ "I" := by
      rintro rfl
      exact absurd moves (by decide)
    obtain ⟨report, tells⟩ := Option.isSome_iff_exists.mp ((parsed_moves read typed).1 moves)
    have noName := (parsed_moves read typed).2.2 other
    refine .inr ⟨by simp [isNew, typed, other], by simpa [ackOf, read] using noName, report, ?_⟩
    cases ack : ackResult parsed with
    | none =>
      refine ⟨s, by simp [reportOf, read, tells], .inl rfl, ?_⟩
      simp [onMsgFromApp, isOrderStatusReport, typed, read, ack, tells, own, live]
    | some result =>
      cases result with
      | ok name => exact absurd ack (noName name)
      | error reason =>
        refine ⟨resolveAck s (.error reason), by simp [reportOf, read, tells], .inr ⟨_, rfl⟩, ?_⟩
        simp [onMsgFromApp, isOrderStatusReport, typed, read, ack, tells, own, live]

structure Exchange (uuid : String → Option String) (sender : Sender) (id : String)
    (s : FixOrder) : Prop where
  waits : s.waiter ≠ .idle → s.life.stage = .calling
  shut : s.waiter = .idle ∨ s.waiter = .gone → s.answer = none
  answered : s.answer ≠ none → s.pending = false
  taken : s.taken ≠ none → Past s.life.stage
  unsent : Early s.life.stage → s.life.venue.status = .unsent
  silent : s.life.venue.status = .unsent ∨ s.life.venue.status = .pending →
    s.received ++ s.wire = []
  once : ((s.received ++ s.wire).filter isNew).length ≤ 1
  accepted : Accepted s.life.venue → ∃ msg ∈ s.received ++ s.wire, isNew msg = true
  genuine : ∀ msg ∈ s.received ++ s.wire, Genuine uuid sender id msg
  news : ∀ msg ∈ s.received, isNew msg = true → Resolves s (.ok id)
  moves : ∀ msg ∈ s.received, ∀ report, reportOf uuid sender msg = some report →
    Reaches sender s report
  source : ∀ name, s.answer = some (.ok name) ∨ s.taken = some (.ok name) →
    name = id ∧ ∃ msg ∈ s.received, isNew msg = true

theorem exchange_life {l : Life} (ex : Exchange uuid sender id s)
    (calling : s.life.stage = .calling → l.stage = .calling)
    (past : Past s.life.stage → Past l.stage)
    (status : l.venue.status = s.life.venue.status)
    (unsent : Early l.stage → l.venue.status = .unsent) :
    Exchange uuid sender id { s with life := l } := by
  refine ⟨fun waits => calling (ex.waits waits), ex.shut, ex.answered,
    fun taken => past (ex.taken taken), unsent, ?_, ex.once, ?_, ex.genuine, ex.news, ex.moves,
    ex.source⟩
  · show l.venue.status = _ ∨ l.venue.status = _ → _
    rw [status]
    exact ex.silent
  · intro accepted
    refine ex.accepted ?_
    unfold Accepted at accepted ⊢
    rw [← status]
    exact accepted

theorem plain_exchange {l : Life} {a : OmsOrderLife.Action} (ex : Exchange uuid sender id s)
    (plain : Plain a) (next : OmsOrderLife.step sender s.life a = some l) :
    Exchange uuid sender id { s with life := l } := by
  obtain ⟨calling, past, status⟩ := plain_stage plain next
  exact exchange_life ex calling past status (step_unsent next ex.unsent)

theorem venue_acts {l l' : Life} {a : VenueAction} {msg : Message}
    (told : tells uuid sender id a msg = true) (acts : venueStep sender l a = some l') :
    (l.venue.status = .pending ∨ l.venue.status = .working) ∧
      (l'.venue.status ≠ .unsent ∧ l'.venue.status ≠ .pending) ∧
      (a = .accept → l.venue.status = .pending) ∧
      (Accepted l'.venue → a = .accept ∨ Accepted l.venue) := by
  cases a with
  | accept | refuse =>
    simp only [venueStep] at acts
    split at acts
    · rename_i pending
      cases acts
      simp [pending, Accepted]
    · cases acts
  | execute execution =>
    simp only [venueStep] at acts
    split at acts
    · rename_i fits
      cases acts
      simp [fits.1, Accepted]
    · cases acts
  | close =>
    simp only [venueStep] at acts
    split at acts
    · rename_i working
      cases acts
      simp [working, Accepted]
    · cases acts
  | deliverFill | deliverCumulative | deliverCanceled | deliverRejected => simp [tells] at told

theorem venue_exchange {a : VenueAction} {msg : Message} (ex : Exchange uuid sender id s)
    (next : step uuid sender id s (.venue a msg) = some t) : Exchange uuid sender id t := by
  simp only [step] at next
  split at next
  · rename_i told
    obtain ⟨life, acts, rfl⟩ := Option.map_eq_some_iff.mp next
    obtain ⟨genuine, new⟩ := tells_genuine told
    obtain ⟨_, _, stage, _⟩ := venue_step_frame acts
    obtain ⟨live, later, accepts, accepted⟩ := venue_acts told acts
    have all : s.received ++ (s.wire ++ [msg]) = (s.received ++ s.wire) ++ [msg] := by simp
    refine ⟨?_, ex.shut, ex.answered, ?_, ?_, ?_, ?_, ?_, ?_, ex.news, ex.moves, ex.source⟩
    · exact fun waits => stage.trans (ex.waits waits)
    · exact fun taken => stage ▸ ex.taken taken
    · intro early
      have unsent := ex.unsent (stage ▸ early)
      rw [unsent] at live
      simp at live
    · rintro (unsent | pending)
      · exact absurd unsent later.1
      · exact absurd pending later.2
    · show ((s.received ++ (s.wire ++ [msg])).filter isNew).length ≤ 1
      rw [all, List.filter_append, List.length_append]
      by_cases accept : a = .accept
      · have none_ := ex.silent (.inr (accepts accept))
        rw [none_]
        simpa using List.length_filter_le isNew [msg]
      · have other : isNew msg = false := by simpa using mt new.mp accept
        simpa [other] using ex.once
    · intro now
      show ∃ found ∈ s.received ++ (s.wire ++ [msg]), isNew found = true
      rw [all]
      rcases accepted now with accept | before
      · exact ⟨msg, by simp, new.mpr accept⟩
      · obtain ⟨found, member, is⟩ := ex.accepted before
        exact ⟨found, List.mem_append_left _ member, is⟩
    · intro found member
      show Genuine uuid sender id found
      rcases List.mem_append.mp (all ▸ member) with old | this
      · exact ex.genuine found old
      · cases List.mem_singleton.mp this
        exact genuine
  · cases next

theorem rejected_answer {resolved : FixOrder}
    (resolves : resolved = s ∨ ∃ reason, resolved = resolveAck s (.error reason)) :
    ∃ pending answer, resolved = { s with pending, answer } ∧
      (s.pending = false → pending = false) ∧
      (answer = s.answer ∨ s.pending = true ∧ pending = false ∧
        ¬ (s.waiter = .idle ∨ s.waiter = .gone) ∧ ∃ reason, answer = some (.error reason)) := by
  rcases resolves with rfl | ⟨reason, rfl⟩
  · exact ⟨_, _, rfl, fun gone => gone, .inl rfl⟩
  · unfold resolveAck
    split
    · rename_i pending
      refine ⟨_, _, rfl, fun _ => rfl, ?_⟩
      split
      · rename_i live
        refine .inr ⟨pending, rfl, ?_, reason, rfl⟩
        rcases live with waiting | expiring
        · simp [waiting]
        · simp [expiring]
      · exact .inl rfl
    · exact ⟨_, _, rfl, fun gone => gone, .inl rfl⟩

theorem new_exchange {msg : Message} {wire : List Message} (ex : Exchange uuid sender id s)
    (head : s.wire = msg :: wire) (waits : s.waiter = .waiting) (new : isNew msg = true)
    (none_ : reportOf uuid sender msg = none) :
    Exchange uuid sender id { s with
      pending := false, answer := some (.ok id), wire, received := s.received ++ [msg] } := by
  have all : (s.received ++ [msg]) ++ wire = s.received ++ s.wire := by simp [head]
  refine ⟨ex.waits, ?_, fun _ => rfl, ex.taken, ex.unsent, all ▸ ex.silent, all ▸ ex.once,
    all ▸ ex.accepted, all ▸ ex.genuine, ?_, ?_, ?_⟩
  · intro shut
    simp [waits] at shut
  · exact fun _ _ _ => .inl ⟨waits, rfl⟩
  · intro found member report its
    rcases List.mem_append.mp member with before | this
    · exact ex.moves found before report its
    · cases List.mem_singleton.mp this
      cases none_.symm.trans its
  · rintro name (⟨⟨⟩⟩ | took)
    · exact ⟨rfl, msg, by simp, new⟩
    · obtain ⟨same, found, member, is⟩ := ex.source name (.inr took)
      exact ⟨same, found, List.mem_append_left _ member, is⟩

theorem moving_exchange {msg : Message} {wire : List Message} {report : VenueReport}
    {resolved : FixOrder} (ex : Exchange uuid sender id s) (head : s.wire = msg :: wire)
    (old : isNew msg = false) (tells : reportOf uuid sender msg = some report)
    (resolves : resolved = s ∨ ∃ reason, resolved = resolveAck s (.error reason)) :
    Exchange uuid sender id { resolved with
      channel := resolved.channel ++ [(sender.orderId, report)]
      wire
      received := s.received ++ [msg] } := by
  have all : (s.received ++ [msg]) ++ wire = s.received ++ s.wire := by simp [head]
  obtain ⟨pending, answer, rfl, gone, kept⟩ := rejected_answer resolves
  refine ⟨ex.waits, fun shut => ?_, fun some_ => ?_, ex.taken,
    ex.unsent, all ▸ ex.silent, all ▸ ex.once, all ▸ ex.accepted, all ▸ ex.genuine, ?_, ?_, ?_⟩
  · rcases kept with same | ⟨_, _, live, _⟩
    · exact same.trans (ex.shut shut)
    · exact absurd shut live
  · rcases kept with same | ⟨_, dropped, _⟩
    · exact gone (ex.answered (same ▸ some_))
    · exact dropped
  · intro found member is
    rcases List.mem_append.mp member with before | this
    · refine (ex.news found before is).imp_left fun ⟨waiting, answered⟩ => ⟨waiting, ?_⟩
      rcases kept with same | ⟨there, _⟩
      · exact same.trans answered
      · cases (ex.answered (by simp [answered])).symm.trans there
    · cases List.mem_singleton.mp this
      cases old.symm.trans is
  · intro found member said its
    rcases List.mem_append.mp member with before | this
    · exact (ex.moves found before said its).imp_left (List.mem_append_left _)
    · cases List.mem_singleton.mp this
      cases tells.symm.trans its
      exact .inl (by simp)
  · intro name named
    have before : s.answer = some (.ok name) ∨ s.taken = some (.ok name) := by
      refine named.imp_left fun is => ?_
      rcases kept with same | ⟨_, _, _, reason, other⟩
      · exact same.symm.trans is
      · cases other.symm.trans is
    obtain ⟨same, found, member, is⟩ := ex.source name before
    exact ⟨same, found, List.mem_append_left _ member, is⟩

theorem inbound_exchange (ex : Exchange uuid sender id s) (ok : ¬ Late s .inbound)
    (next : step uuid sender id s .inbound = some t) : Exchange uuid sender id t := by
  simp only [step] at next
  split at next
  · cases next
  · rename_i msg wire head
    cases next
    rcases callback_cases (ex.genuine msg (by simp [head])) s with
      ⟨new, _, none_, calls⟩ | ⟨old, _, report, resolved, tells, resolves, calls⟩
    · have waits : s.waiter = .waiting ∧ s.pending = true := by
        by_contra late
        exact ok ⟨msg, by simp [head], new, late⟩
      have resolved : resolveAck s (.ok id) =
          { s with pending := false, answer := some (.ok id) } := by
        simp only [resolveAck, waits.2, if_true, if_pos (Or.inl waits.1)]
      rw [calls, resolved]
      exact @new_exchange uuid sender id s msg wire ex head waits.1 new none_
    · rw [calls]
      exact moving_exchange ex head old tells resolves

/-- The order leaves for the venue; nothing came from there before. -/
theorem send_exchange {sent : Bool} (ex : Exchange uuid sender id s)
    (next : step uuid sender id s (.send sent) = some t) : Exchange uuid sender id t := by
  simp only [step] at next
  split at next
  · rename_i quantity stored
    have early : Early s.life.stage := .inr ⟨quantity, stored⟩
    have unsent := ex.unsent early
    have none_ := ex.silent (.inl unsent)
    have idle : s.waiter = .idle := by
      by_contra live
      cases stored.symm.trans (ex.waits live)
    have fresh : s.taken = none := by
      by_contra took
      exact (ex.taken took).1 early
    split at next
    · simp only [submitStep, stored, Option.map_some, Option.some.injEq] at next
      subst next
      obtain ⟨noneReceived, _⟩ := List.append_eq_nil_iff.mp none_
      refine ⟨fun _ => rfl, ?_, fun some_ => absurd (ex.shut (.inl idle)) some_,
        fun some_ => absurd fresh some_, ?_, fun _ => none_, ex.once, ?_, ex.genuine, ?_, ex.moves,
        ex.source⟩
      · rintro (wrong | wrong) <;> cases wrong
      · intro early'
        simp [Early] at early'
      · rintro (wrong | wrong) <;> cases wrong
      · simp [noneReceived]
    · simp only [lift, submitStep, stored, reduceCtorEq, if_false, Option.map_some,
        Option.some.injEq] at next
      subst next
      refine exchange_life ex ?_ ?_ rfl ?_
      · simp [stored]
      · exact fun past => absurd early past.1
      · intro early'
        simp [Early] at early'
  · cases next

theorem no_new (ex : Exchange uuid sender id s) (noAnswer : s.waiter ≠ .waiting ∨ s.answer = none)
    (live : s.waiter ≠ .idle) : ∀ msg ∈ s.received, isNew msg = false := by
  intro msg member
  by_contra is
  rcases ex.news msg member (by simpa using is) with ⟨waiting, answered⟩ | took
  · rcases noAnswer with other | none_
    · exact other waiting
    · cases none_.symm.trans answered
  · exact (ex.taken (by simp [took])).2 (ex.waits live)

theorem give_up_exchange {waiter : Waiter} {answer : Option (Except String String)}
    (ex : Exchange uuid sender id s) (live : s.waiter ≠ .idle) (live' : waiter ≠ .idle)
    (noAnswer : s.waiter ≠ .waiting ∨ s.answer = none) (less : answer = s.answer ∨ answer = none)
    (gone : waiter = .gone → answer = none) :
    Exchange uuid sender id { s with waiter, answer } := by
  have none_ := no_new ex noAnswer live
  refine ⟨fun _ => ex.waits live, fun shut => gone (shut.resolve_left live'), fun some_ => ?_,
    ex.taken, ex.unsent, ex.silent, ex.once, ex.accepted, ex.genuine, ?_, ex.moves,
    fun name named => ?_⟩
  · rcases less with same | gone
    · exact ex.answered (same ▸ some_)
    · exact absurd gone some_
  · intro msg member is
    cases (none_ msg member).symm.trans is
  · refine ex.source name (named.imp_left fun is => ?_)
    rcases less with same | gone
    · exact same ▸ is
    · cases gone.symm.trans is

theorem forget_exchange (ex : Exchange uuid sender id s)
    (next : step uuid sender id s .forget = some t) : Exchange uuid sender id t := by
  simp only [step] at next
  split at next
  · rename_i gone
    have live : s.waiter ≠ .idle := by simp [gone]
    have calling := ex.waits live
    have none_ := no_new ex (.inl (by simp [gone])) live
    simp only [submitStep, calling, if_true, Option.map_some, Option.some.injEq] at next
    subst next
    refine ⟨fun live' => absurd rfl live', fun _ => ex.shut (.inr gone), fun _ => rfl,
      fun took => absurd calling (ex.taken took).2, ?_, ex.silent, ex.once, ex.accepted,
      ex.genuine, ?_, ex.moves, ex.source⟩
    · intro early
      simp [Early] at early
    · intro msg member is
      cases (none_ msg member).symm.trans is
  · cases next

theorem answer_exchange (ex : Exchange uuid sender id s)
    (next : step uuid sender id s .answer = some t) : Exchange uuid sender id t := by
  simp only [step] at next
  split at next
  · rename_i result waiting answered
    obtain ⟨life, goes, rfl⟩ := Option.map_eq_some_iff.mp next
    have calling := ex.waits (by simp [waiting])
    have past : Past life.stage ∧ life.venue = s.life.venue := by
      cases result with
      | ok name =>
        simp only [goesOn, submitStep, calling, true_and] at goes
        split at goes
        · cases goes
          simp [Past, Early]
        · cases goes
      | error reason =>
        simp only [goesOn, submitStep, calling, true_and] at goes
        split at goes
        · cases goes
          simp [Past, Early]
        · cases goes
    have pending : s.pending = false := ex.answered (by simp [answered])
    refine ⟨fun live => absurd rfl live, fun _ => rfl, fun _ => pending, fun _ => past.1,
      fun early => absurd early past.1.1, ?_, ex.once, ?_, ex.genuine, ?_, ex.moves, ?_⟩
    · show life.venue.status = _ ∨ life.venue.status = _ → _
      rw [past.2]
      exact ex.silent
    · show Accepted life.venue → _
      rw [past.2]
      exact ex.accepted
    · intro msg member is
      rcases ex.news msg member is with ⟨_, same⟩ | took
      · exact .inr (answered.symm.trans same)
      · exact absurd calling (ex.taken (by simp [took])).2
    · rintro name (wrong | took)
      · cases wrong
      · exact ex.source name (.inl (answered.trans took))
  · cases next

theorem drain_exchange (ex : Exchange uuid sender id s)
    (next : step uuid sender id s .drain = some t) : Exchange uuid sender id t := by
  simp only [step] at next
  split at next
  · cases next
  · rename_i orderId report channel head
    cases next
    refine ⟨ex.waits, ex.shut, ex.answered, ex.taken, ex.unsent, ex.silent, ex.once, ex.accepted,
      ex.genuine, ex.news, ?_, ex.source⟩
    intro msg member said its
    rcases ex.moves msg member said its with waits | told
    · rw [head] at waits
      rcases List.mem_cons.mp waits with first | later
      · cases first
        exact .inr (by simp)
      · exact .inl later
    · exact .inr (List.mem_append_left _ told)

theorem step_exchange {a : Action} (ex : Exchange uuid sender id s) (ok : ¬ Late s a)
    (next : step uuid sender id s a = some t) : Exchange uuid sender id t := by
  cases a with
  | store cmd metadata code =>
    obtain ⟨life, goes, rfl⟩ := Option.map_eq_some_iff.mp next
    exact plain_exchange (a := .submit (.store cmd metadata code)) ex trivial goes
  | send sent => exact send_exchange ex next
  | expire =>
    simp only [step] at next
    split at next
    · rename_i vain
      cases next
      exact give_up_exchange ex (by simp [vain.1]) (by simp) (.inr vain.2) (.inl rfl) (by simp)
    · cases next
  | giveUp =>
    simp only [step] at next
    split at next
    · rename_i expiring
      cases next
      exact give_up_exchange ex (by simp [expiring]) (by simp) (.inl (by simp [expiring]))
        (.inr rfl) (fun _ => rfl)
    · cases next
  | forget => exact forget_exchange ex next
  | answer => exact answer_exchange ex next
  | readRoute =>
    obtain ⟨life, goes, rfl⟩ := Option.map_eq_some_iff.mp next
    exact plain_exchange (a := .submit .readRoute) ex trivial goes
  | writeRoute metadata =>
    obtain ⟨life, goes, rfl⟩ := Option.map_eq_some_iff.mp next
    exact plain_exchange (a := .submit (.writeRoute metadata)) ex trivial goes
  | sendCancel =>
    obtain ⟨life, goes, rfl⟩ := Option.map_eq_some_iff.mp next
    exact plain_exchange (a := .submit .sendCancel) ex trivial goes
  | venue a msg => exact venue_exchange ex next
  | inbound => exact inbound_exchange ex ok next
  | drain => exact drain_exchange ex next
  | cancel a =>
    obtain ⟨life, goes, rfl⟩ := Option.map_eq_some_iff.mp next
    exact plain_exchange (a := .cancel a) ex trivial goes
  | engine a =>
    obtain ⟨life, goes, rfl⟩ := Option.map_eq_some_iff.mp next
    exact plain_exchange (a := .engine a) ex trivial goes

structure Inv (uuid : String → Option String) (sender : Sender) (id : String) (s : FixOrder) :
    Prop where
  exchange : Exchange uuid sender id s
  record : Record id s.life
  onItsWay : s.taken = some (.ok id) → OnItsWay id s.life

theorem start_inv (position : Option OmsPositions.PositionMath) :
    Inv uuid sender id (.start position) := by
  refine ⟨⟨?_, ?_, ?_, ?_, ?_, ?_, ?_, ?_, ?_, ?_, ?_, ?_⟩,
    ⟨start_wired position, rfl, ?_, rfl, ?_, ?_⟩, ?_⟩ <;>
    simp [FixOrder.start, Life.start, Accepted, OwnId, stageRoute]

theorem plain_record {l : Life} {a : OmsOrderLife.Action} (inv : Inv uuid sender id s)
    (plain : Plain a) (next : OmsOrderLife.step sender s.life a = some l) :
    Record id l ∧ (s.taken = some (.ok id) → OnItsWay id l) := by
  refine ⟨record_life inv.record ?_ ?_ next, fun took => ?_⟩
  · rintro r rfl
    cases plain
  · rintro name rfl
    cases plain
  · exact plain_on_its_way inv.record plain next (inv.onItsWay took)

theorem waiting_fresh (inv : Inv uuid sender id s)
    (early : Early s.life.stage ∨ s.life.stage = .calling) : s.taken = none := by
  by_contra took
  rcases early with stage | calling
  · exact (inv.exchange.taken took).1 stage
  · exact (inv.exchange.taken took).2 calling

theorem send_record {sent : Bool} (inv : Inv uuid sender id s)
    (next : step uuid sender id s (.send sent) = some t) :
    Record id t.life ∧ (t.taken = some (.ok id) → OnItsWay id t.life) := by
  simp only [step] at next
  split at next
  · rename_i quantity stored
    have fresh := waiting_fresh inv (.inl (.inr ⟨quantity, stored⟩))
    split at next
    · obtain ⟨life, goes, rfl⟩ := Option.map_eq_some_iff.mp next
      refine ⟨?_, fun took => absurd (fresh.symm.trans took) (by simp)⟩
      exact @record_life sender id s.life life (.submit .send) inv.record (by simp) (by simp) goes
    · obtain ⟨life, goes, rfl⟩ := Option.map_eq_some_iff.mp next
      refine ⟨?_, fun took => absurd (fresh.symm.trans took) (by simp)⟩
      exact @record_life sender id s.life life (.submit .stop) inv.record (by simp) (by simp) goes
  · cases next

theorem forget_record (inv : Inv uuid sender id s)
    (next : step uuid sender id s .forget = some t) :
    Record id t.life ∧ (t.taken = some (.ok id) → OnItsWay id t.life) := by
  simp only [step] at next
  split at next
  · rename_i gone
    have fresh := waiting_fresh inv (.inr (inv.exchange.waits (by simp [gone])))
    obtain ⟨life, goes, rfl⟩ := Option.map_eq_some_iff.mp next
    refine ⟨?_, fun took => absurd (fresh.symm.trans took) (by simp)⟩
    exact @record_life sender id s.life life (.submit .answerLost) inv.record (by simp) (by simp)
      goes
  · cases next

theorem answer_record (inv : Inv uuid sender id s)
    (next : step uuid sender id s .answer = some t) :
    Record id t.life ∧ (t.taken = some (.ok id) → OnItsWay id t.life) := by
  simp only [step] at next
  split at next
  · rename_i result waiting answered
    obtain ⟨life, goes, rfl⟩ := Option.map_eq_some_iff.mp next
    refine ⟨?_, ?_⟩
    · refine @record_life sender id s.life life (.submit (goesOn result)) inv.record (by simp) ?_
        goes
      intro name is
      cases result with
      | ok other =>
        cases is
        exact (inv.exchange.source name (.inl answered)).1
      | error reason => cases is
    · rintro ⟨⟩
      have calling := inv.exchange.waits (by simp [waiting])
      simp only [goesOn, submitStep, calling, true_and] at goes
      split at goes
      · cases goes
        exact .inr ⟨0, none, rfl, .inl rfl, fun row none_ => by cases none_⟩
      · cases goes
  · cases next

theorem venue_record {a : VenueAction} {msg : Message} (inv : Inv uuid sender id s)
    (next : step uuid sender id s (.venue a msg) = some t) :
    Record id t.life ∧ (t.taken = some (.ok id) → OnItsWay id t.life) := by
  simp only [step] at next
  split at next
  · obtain ⟨life, acts, rfl⟩ := Option.map_eq_some_iff.mp next
    obtain ⟨db, _, stage, _⟩ := venue_step_frame acts
    have grows := @record_grows sender id s.life life (.venue a) inv.record acts
    refine ⟨?_, fun took => routing_grows grows stage (inv.onItsWay took)⟩
    exact @record_life sender id s.life life (.venue a) inv.record (by simp) (by simp) acts
  · cases next

theorem inbound_record (inv : Inv uuid sender id s)
    (next : step uuid sender id s .inbound = some t) :
    Record id t.life ∧ (t.taken = some (.ok id) → OnItsWay id t.life) := by
  simp only [step] at next
  split at next
  · cases next
  · rename_i msg wire head
    cases next
    have genuine := inv.exchange.genuine msg (by simp [head])
    rcases callback_cases genuine s with
      ⟨_, _, _, calls⟩ | ⟨_, _, report, resolved, _, resolves, calls⟩
    · rw [calls]
      unfold resolveAck
      split <;> exact ⟨inv.record, inv.onItsWay⟩
    · obtain ⟨pending, answer, rfl, _⟩ := rejected_answer resolves
      rw [calls]
      exact ⟨inv.record, inv.onItsWay⟩

theorem drain_record (inv : Inv uuid sender id s)
    (next : step uuid sender id s .drain = some t) :
    Record id t.life ∧ (t.taken = some (.ok id) → OnItsWay id t.life) := by
  simp only [step] at next
  split at next
  · cases next
  · rename_i orderId report channel head
    cases next
    obtain ⟨wired, noRecon, noAck, noRoute, route, own⟩ := inv.record
    refine ⟨⟨⟨wired.reached, wired.route, wired.job, wired.cancels⟩, noRecon, ?_, noRoute, route,
      own⟩, inv.onItsWay⟩
    intro event member name
    rcases List.mem_append.mp member with old | new
    · exact noAck event old name
    · cases List.mem_singleton.mp new
      cases report <;> simp [ExecEvent.fromReport]

theorem step_record {a : Action} (inv : Inv uuid sender id s)
    (next : step uuid sender id s a = some t) :
    Record id t.life ∧ (t.taken = some (.ok id) → OnItsWay id t.life) := by
  cases a with
  | store cmd metadata code =>
    obtain ⟨life, goes, rfl⟩ := Option.map_eq_some_iff.mp next
    exact @plain_record uuid sender id s life (.submit (.store cmd metadata code)) inv trivial goes
  | send sent => exact send_record inv next
  | expire | giveUp =>
    simp only [step] at next
    split at next
    · cases next
      exact ⟨inv.record, inv.onItsWay⟩
    · cases next
  | forget => exact forget_record inv next
  | answer => exact answer_record inv next
  | readRoute =>
    obtain ⟨life, goes, rfl⟩ := Option.map_eq_some_iff.mp next
    exact @plain_record uuid sender id s life (.submit .readRoute) inv trivial goes
  | writeRoute metadata =>
    obtain ⟨life, goes, rfl⟩ := Option.map_eq_some_iff.mp next
    exact @plain_record uuid sender id s life (.submit (.writeRoute metadata)) inv trivial goes
  | sendCancel =>
    obtain ⟨life, goes, rfl⟩ := Option.map_eq_some_iff.mp next
    exact @plain_record uuid sender id s life (.submit .sendCancel) inv trivial goes
  | venue a msg => exact venue_record inv next
  | inbound => exact inbound_record inv next
  | drain => exact drain_record inv next
  | cancel a =>
    obtain ⟨life, goes, rfl⟩ := Option.map_eq_some_iff.mp next
    exact @plain_record uuid sender id s life (.cancel a) inv trivial goes
  | engine a =>
    obtain ⟨life, goes, rfl⟩ := Option.map_eq_some_iff.mp next
    exact @plain_record uuid sender id s life (.engine a) inv trivial goes

theorem step_keeps {a : Action} (inv : Inv uuid sender id s) (ok : ¬ Late s a)
    (next : step uuid sender id s a = some t) : Inv uuid sender id t :=
  have record := step_record inv next
  ⟨step_exchange inv.exchange ok next, record.1, record.2⟩

theorem inv_kept (inv : Inv uuid sender id s) : Kept uuid sender id s := by
  have ex := inv.exchange
  constructor
  · intro msg member
    rcases callback_cases (ex.genuine msg (List.mem_append_left _ member)) s with
      ⟨new, ack, _⟩ | ⟨_, _, report, _, its, _⟩
    · exact .inl ⟨_, ack, ex.news msg member new⟩
    · exact .inr ⟨report, its, ex.moves msg member report its⟩
  · rintro ⟨returned, noWire, _⟩ accepted
    obtain ⟨msg, member, new⟩ := ex.accepted accepted
    rw [noWire, List.append_nil] at member
    rcases ex.news msg member new with ⟨waiting, _⟩ | took
    · cases returned.symm.trans (ex.waits (by simp [waiting]))
    · rcases inv.onItsWay took with recorded | ⟨_, _, persisting, _⟩
      · exact recorded
      · cases returned.symm.trans persisting

theorem first_new (ex : Exchange uuid sender id s) {msg : Message} {wire : List Message}
    (head : s.wire = msg :: wire) (new : isNew msg = true) :
    ∀ found ∈ s.received, isNew found = false := by
  intro found member
  by_contra is
  have one : isNew found = true := by simpa using is
  have inside := List.length_pos_of_mem (List.mem_filter.mpr ⟨member, one⟩)
  have once := ex.once
  simp only [head, List.filter_append, List.filter_cons, new, if_true, List.length_append,
    List.length_cons] at once
  omega

theorem late_lost {a : Action} (inv : Inv uuid sender id s) (late : Late s a) :
    ∃ t, step uuid sender id s a = some t ∧ ¬ Kept uuid sender id t := by
  cases a with
  | inbound =>
    obtain ⟨msg, head, new, gone⟩ := late
    have ex := inv.exchange
    obtain ⟨wire, wired⟩ := List.head?_eq_some_iff.mp head
    have first := first_new ex wired new
    have noAnswer : s.answer ≠ some (.ok id) ∧ s.taken ≠ some (.ok id) := by
      constructor
      all_goals
        intro named
        obtain ⟨_, found, member, is⟩ := ex.source id (by simp [named])
        cases (first found member).symm.trans is
    rcases callback_cases (ex.genuine msg (by simp [wired])) s with
      ⟨_, ack, none_, calls⟩ | ⟨old, _⟩
    · refine ⟨_, by simp only [step, wired]; rfl, ?_⟩
      rintro ⟨noneLost, _⟩
      rcases noneLost msg (by simp) with ⟨result, its, resolves⟩ | ⟨report, its, _⟩
      · cases ack.symm.trans its
        rw [calls] at resolves
        unfold resolveAck at resolves
        split at resolves
        · rename_i pending
          rcases resolves with ⟨waiting, _⟩ | took
          · exact gone ⟨waiting, pending⟩
          · exact noAnswer.2 took
        · rcases resolves with ⟨_, answered⟩ | took
          · exact noAnswer.1 answered
          · exact noAnswer.2 took
      · cases none_.symm.trans its
    · cases old.symm.trans new
  | _ => cases late

/-- Every report of the venue's gets to the submit or to the engine, and an order it
    took ends with its id on record or closed, exactly as long as no New comes when the
    submit has stopped waiting. -/
theorem acks_kept_iff (uuid : String → Option String) (sender : Sender) (id : String)
    (position : Option OmsPositions.PositionMath) (as : List Action) :
    Throughout (step uuid sender id) (Kept uuid sender id) (.start position) as ↔
      Along (step uuid sender id) (fun s a => ¬ Late s a) (.start position) as :=
  throughout_iff_along (fun _ _ _ inv ok next => step_keeps inv ok next) (fun _ => inv_kept)
    (fun _ _ inv late => late_lost inv (not_not.mp late)) (start_inv position)

def said (execType : String) : Message :=
  ⟨some "8", some "o1", none, some "b1", some "x1", some execType, some 10, some 100, none, none⟩

def sent : List Action := [.store buyTen stamp "paper", .send true]

def ackThenFill : List Action :=
  sent ++ [.venue .accept (said "0"), .inbound, .venue (.execute ⟨"x1", 10, 100⟩) (said "2"),
    .answer, .inbound, .readRoute, .drain, .writeRoute stamp, .engine .take, .engine .read,
    .engine (.write stamp)]

example : Along (step some paper "b1") (fun s a => ¬ Late s a) (.start none) ackThenFill ∧
    ∃ t ∈ run (step some paper "b1") (.start none) ackThenFill,
      Ended t ∧ t.taken = some (.ok "b1") ∧ t.told.length = 1 := by
  decide +kernel

theorem not_kept {uuid : String → Option String} {sender : Sender} {id : String} {s : FixOrder}
    {as : List Action}
    (left : ∃ t ∈ run (step uuid sender id) s as, Ended t ∧ t.life.venue.status = .working ∧
      ∀ row ∈ t.life.db.row, row.externalOrderId = none ∧ row.status.isTerminal = false) :
    ¬ Throughout (step uuid sender id) (Kept uuid sender id) s as := by
  obtain ⟨t, ends, ended, working, bare⟩ := left
  refine not_throughout ⟨t, ends, fun kept => ?_⟩
  obtain ⟨row, stored, named | closed⟩ := kept.2 ended (.inl working)
  · cases (bare row stored).1.symm.trans named
  · cases (bare row stored).2.symm.trans closed

def timedOut : List Action :=
  sent ++ [.expire, .giveUp, .forget, .venue .accept (said "0"), .inbound]

/-- It comes between the timeout's last look and the end of the wait. -/
def timingOut : List Action :=
  sent ++ [.venue .accept (said "0"), .expire, .giveUp, .inbound, .forget]

theorem late_ack_is_lost :
    ¬ Throughout (step some paper "b1") (Kept some paper "b1") (.start none) timedOut ∧
      ¬ Throughout (step some paper "b1") (Kept some paper "b1") (.start none) timingOut :=
  ⟨not_kept (by decide +kernel), not_kept (by decide +kernel)⟩

end OmsLateAcks
