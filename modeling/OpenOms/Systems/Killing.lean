import OpenOms.Library.Lists
import OpenOms.Strategies.Admission
import OpenOms.Systems.SingleFills

/-!
A Kill of a strategy that trades through the OMS, among any number of its
submits. The strategy's row is locked through a submit's first transaction, by
the update that halts it and by the query that lists what is open. Each order
lives its own life beside them.
-/
namespace OmsKilling
open OmsOrders OmsAggregate OmsOrderStore OmsOrderEntry OmsOrderEngine OmsRisk OmsRiskEngine
open OmsGuard OmsAdmission OmsOrderLife OmsLifeSteps OmsKilledOrder OmsSingleFills OmsOrderWrites
open Lists Runs

/-- A submit's first transaction: `holding` has the strategy's row locked, as it
    was then, and `admitted` is past its checks. -/
inductive Tx1 where
  | waiting
  | holding (locked : Strategy)
  | refused (rejection : RiskRejection)
  | admitted
  | over
  deriving DecidableEq, Repr

/-- `afterHalt` notes a lock taken with HALTED committed, `refusal` is what a
    refused submit keeps on record. -/
structure Submit where
  sender : Sender
  cmd : SubmitOrder
  principalId : String
  origin : Origin
  tx1 : Tx1
  afterHalt : Bool
  life : Life
  refusal : OrderDb
  deriving DecidableEq, Repr

def Submit.new (sender : Sender) (cmd : SubmitOrder) (principalId : String) (origin : Origin) :
    Submit :=
  ⟨sender, cmd, principalId, origin, .waiting, false, .start none, .empty⟩

def Submit.row (submit : Submit) : Option OrderRow :=
  submit.life.db.row.or submit.refusal.row

def Submit.holds (submit : Submit) : Bool :=
  match submit.tx1 with
  | .holding _ => true
  | _ => false

def Submit.Returned (submit : Submit) : Prop :=
  submit.tx1 = .over ∨ submit.tx1 = .admitted ∧ submit.life.stage = .returned

instance (submit : Submit) : Decidable submit.Returned := by
  unfold Submit.Returned
  infer_instance

structure Failure where
  orderId : String
  message : String
  deriving DecidableEq, Repr

def Failure.text (failure : Failure) : String := s!"{failure.orderId}: {failure.message}"

structure ControlReport where
  cancelled : Nat
  cancelFailures : List Failure
  deriving DecidableEq, Repr

def ControlReport.note (self : ControlReport) (orderId : String) (failure : Option String) :
    ControlReport :=
  match failure with
  | none => { self with cancelled := self.cancelled + 1 }
  | some message =>
    { self with cancelFailures := self.cancelFailures ++ [⟨orderId, message⟩] }

/-- `asking` is between an order's row being read and its cancel being done. -/
inductive KillStage where
  | idle
  | halted
  | cancelling (orders : List Nat)
  | asking (i : Nat) (orders : List Nat)
  | returned
  deriving DecidableEq, Repr

def KillStage.left : KillStage → Option (List Nat)
  | .idle | .halted => none
  | .cancelling orders => some orders
  | .asking i orders => some (i :: orders)
  | .returned => some []

structure Killing where
  strategy : Strategy
  submits : List Submit
  stage : KillStage
  report : ControlReport
  deriving DecidableEq, Repr

def Killing.start (strategy : Strategy) : Killing := ⟨strategy, [], .idle, ⟨0, []⟩⟩

inductive Action where
  | begin (sender : Sender) (cmd : SubmitOrder) (principalId : String) (origin : Origin)
  | refuse (i : Nat) (rejection : Option RiskRejection)
  | lock (i : Nat)
  | check (i : Nat) (reads : Reads) (metadata : EventMetadata) (brokerConnectionCode : String)
  | record (i : Nat) (submitStamp rejectStamp : EventMetadata) (brokerConnectionCode : String)
  | order (i : Nat) (a : OmsOrderLife.Action)
  | halt
  | list (orders : List Nat)
  | readOrder
  | forbid (message : String)
  | sendCancel (rejected : Option String)
  | cannotSend (message : String)
  | cancelLocally (metadata : EventMetadata)
  | finish

def rowLocked (s : Killing) : Bool := s.submits.any (·.holds)

def orderTaken (s : Killing) (orderId : String) : Bool :=
  s.submits.any fun submit => submit.cmd.orderId = orderId && submit.row.isSome

def openStatuses : List OrderStatus := [.submitted, .routed, .partiallyFilled, .suspended]

def openOrders (keepFlatten : Bool) (submits : List Submit) : List Nat :=
  (List.range submits.length).filter fun i =>
    submits[i]?.any fun submit =>
      submit.row.any (fun row => openStatuses.contains row.status) &&
        !(keepFlatten && submit.origin = .flatten)

def killReason : Option String := some "strategy killed"

def setSubmit (s : Killing) (i : Nat) (submit : Submit) : Killing :=
  { s with submits := s.submits.set i submit }

def ownStep : OmsOrderLife.Action → Bool
  | .submit (.store ..) | .cancel _ => false
  | a => takesPart a

def answer (s : Killing) (i : Nat) (submit : Submit) (orders : List Nat)
    (a : CancelAction) (failure : Option String) : Option Killing :=
  (OmsOrderLife.step submit.sender submit.life (.cancel a)).map fun life =>
    { setSubmit s i { submit with life } with
      stage := .cancelling orders
      report := s.report.note submit.cmd.orderId failure }

def submitStep (s : Killing) (i : Nat) (submit : Submit) : Action → Option Killing
  | .refuse _ rejection =>
    if submit.tx1 = .waiting then
      some (setSubmit s i { submit with tx1 := rejection.elim .over .refused })
    else none
  | .lock _ =>
    if submit.tx1 = .waiting ∧ rowLocked s = false then
      some (setSubmit s i
        { submit with tx1 := .holding s.strategy, afterHalt := s.stage ≠ .idle })
    else none
  | .check _ reads metadata brokerConnectionCode =>
    match submit.tx1 with
    | .holding locked =>
      match admission locked submit.principalId submit.origin submit.cmd reads with
      | .error rejection => some (setSubmit s i { submit with tx1 := .refused rejection })
      | .ok () =>
        if orderTaken s submit.cmd.orderId then
          some (setSubmit s i { submit with tx1 := .over })
        else
          let stores := .store submit.cmd metadata brokerConnectionCode
          (OmsOrderLife.step submit.sender submit.life (.submit stores)).map fun life =>
            setSubmit s i { submit with tx1 := .admitted, life }
    | _ => none
  | .record _ submitStamp rejectStamp brokerConnectionCode =>
    match submit.tx1 with
    | .refused rejection =>
      let recorded := recordRejection submit.cmd rejection submitStamp rejectStamp
        brokerConnectionCode submit.life.now submit.refusal
      match orderTaken s submit.cmd.orderId, recorded with
      | false, .ok refusal => some (setSubmit s i { submit with tx1 := .over, refusal })
      | _, _ => some (setSubmit s i { submit with tx1 := .over })
    | _ => none
  | .order _ a =>
    if ownStep a then
      (OmsOrderLife.step submit.sender submit.life a).map fun life =>
        setSubmit s i { submit with life }
    else none
  | _ => none

def killStep (s : Killing) : Action → Option Killing
  | .halt =>
    if s.stage = .idle ∧ rowLocked s = false then
      some { s with strategy := { s.strategy with state := .halted }, stage := .halted }
    else none
  | .list orders =>
    if s.stage = .halted ∧ rowLocked s = false ∧ orders.Perm (openOrders false s.submits) then
      some { s with stage := .cancelling orders }
    else none
  | .readOrder =>
    match s.stage with
    | .cancelling (i :: orders) =>
      match s.submits[i]? with
      | some submit =>
        match cancelPath submit.life.db.row with
        | .ok _ =>
          (OmsOrderLife.step submit.sender submit.life (.cancel .read)).map fun life =>
            { setSubmit s i { submit with life } with stage := .asking i orders }
        | .error failure =>
          some { s with
            stage := .cancelling orders
            report := s.report.note submit.cmd.orderId (some failure.message) }
      | none => none
    | _ => none
  | .forbid message =>
    match s.stage with
    | .cancelling (i :: orders) =>
      match s.submits[i]? with
      | some submit =>
        some { s with
          stage := .cancelling orders
          report := s.report.note submit.cmd.orderId (some message) }
      | none => none
    | _ => none
  | .sendCancel rejected =>
    match s.stage with
    | .asking i orders =>
      match s.submits[i]? with
      | some submit =>
        match submit.life.cancels with
        | [.atBroker _] =>
          answer s i submit orders (.send 0)
            (rejected.map fun err => s!"broker rejected cancel: {err}")
        | _ => none
      | none => none
    | _ => none
  | .cannotSend message =>
    match s.stage with
    | .asking i orders =>
      match s.submits[i]? with
      | some submit =>
        match submit.life.cancels with
        | [.atBroker _] => answer s i submit orders (.drop 0) (some message)
        | _ => none
      | none => none
    | _ => none
  | .cancelLocally metadata =>
    match s.stage with
    | .asking i orders =>
      match s.submits[i]? with
      | some submit =>
        match submit.life.cancels with
        | [.locally snapshot] =>
          let failure :=
            match OmsOrderEntry.cancelLocally snapshot killReason metadata submit.life.db with
            | .ok _ => none
            | .error failure => some failure.message
          answer s i submit orders (.write 0 killReason metadata) failure
        | _ => none
      | none => none
    | _ => none
  | .finish => if s.stage = .cancelling [] then some { s with stage := .returned } else none
  | _ => none

def step (s : Killing) (a : Action) : Option Killing :=
  match a with
  | .begin sender cmd principalId origin =>
    if cmd.orderId = sender.orderId then
      some { s with submits := s.submits ++ [.new sender cmd principalId origin] }
    else none
  | .refuse i _ | .lock i | .check i .. | .record i .. | .order i _ =>
    match s.submits[i]? with
    | some submit => submitStep s i submit a
    | none => none
  | _ => killStep s a

/-- The Kill's local cancel commits after the order's route step has read it, the
    order partially filled then, and before the venue was asked to cancel. -/
def cancelsRouted (s : Killing) : Action → Bool
  | .cancelLocally metadata =>
    match s.stage with
    | .asking i _ => s.submits[i]?.any fun submit =>
      cancelsBehind submit.life (.cancel (.write 0 killReason metadata))
    | _ => false
  | _ => false

/-- The engine books a fill of some order beyond what the venue has executed of it. -/
def booksBeyond (s : Killing) : Action → Bool
  | .order i a => s.submits[i]?.any fun submit => overbooks submit.life a
  | _ => false

theorem step_cases {s t : Killing} {a : Action} (next : step s a = some t) :
    (∃ sender cmd principalId origin,
      t = { s with submits := s.submits ++ [.new sender cmd principalId origin] }) ∨
    (∃ i submit, s.submits[i]? = some submit ∧ (∀ j own, a = .order j own → j = i) ∧
      submitStep s i submit a = some t) ∨
    killStep s a = some t := by
  cases a with
  | begin sender cmd principalId origin =>
    simp only [step] at next
    split at next
    · exact .inl ⟨sender, cmd, principalId, origin, (Option.some.inj next).symm⟩
    · cases next
  | order i own =>
    simp only [step] at next
    split at next
    · rename_i submit there
      refine .inr (.inl ⟨i, submit, there, ?_, next⟩)
      intro j other same
      cases same
      rfl
    · cases next
  | refuse i _ | lock i | check i | record i =>
    simp only [step] at next
    split at next
    · rename_i submit there
      refine .inr (.inl ⟨i, submit, there, ?_, next⟩)
      intro j other same
      cases same
    · cases next
  | _ => exact .inr (.inr next)

theorem submit_step_lives {s t : Killing} {i : Nat} {submit : Submit} {a : Action}
    (next : submitStep s i submit a = some t) :
    ∃ now, t.submits = s.submits.set i now ∧ (now.life = submit.life ∨ ∃ own,
      ((∃ j, a = .order j own) ∨ ∃ cmd metadata code, own = .submit (.store cmd metadata code)) ∧
        OmsOrderLife.step submit.sender submit.life own = some now.life) := by
  cases a with
  | check j reads metadata code =>
    simp only [submitStep] at next
    split at next
    · split at next
      · cases next
        exact ⟨_, rfl, .inl rfl⟩
      · split at next
        · cases next
          exact ⟨_, rfl, .inl rfl⟩
        · obtain ⟨life, stored, rfl⟩ := Option.map_eq_some_iff.mp next
          exact ⟨_, rfl, .inr ⟨_, .inr ⟨_, _, _, rfl⟩, stored⟩⟩
    · cases next
  | order j own =>
    simp only [submitStep] at next
    split at next
    · obtain ⟨life, moved, rfl⟩ := Option.map_eq_some_iff.mp next
      exact ⟨_, rfl, .inr ⟨own, .inl ⟨j, rfl⟩, moved⟩⟩
    · cases next
  | _ =>
    simp only [submitStep] at next
    repeat' split at next
    all_goals
      cases next
      try exact ⟨_, rfl, .inl rfl⟩

def CancelMoves (s t : Killing) : Prop :=
  ∃ i submit life c, s.submits[i]? = some submit ∧
    OmsOrderLife.step submit.sender submit.life (.cancel c) = some life ∧
    t.submits = s.submits.set i { submit with life }

theorem answer_moves {s t : Killing} {i : Nat} {submit : Submit} {orders : List Nat}
    {a : CancelAction} {failure : Option String} (there : s.submits[i]? = some submit)
    (next : answer s i submit orders a failure = some t) : CancelMoves s t := by
  obtain ⟨life, moved, rfl⟩ := Option.map_eq_some_iff.mp next
  exact ⟨i, submit, life, a, there, moved, rfl⟩

theorem kill_step_moves {s t : Killing} {a : Action} (next : killStep s a = some t) :
    t.submits = s.submits ∨ CancelMoves s t := by
  cases a with
  | readOrder =>
    simp only [killStep] at next
    split at next
    · split at next
      · rename_i submit there
        split at next
        · obtain ⟨life, moved, rfl⟩ := Option.map_eq_some_iff.mp next
          exact .inr ⟨_, submit, life, .read, there, moved, rfl⟩
        · cases next
          exact .inl rfl
      · cases next
    · cases next
  | sendCancel | cannotSend | cancelLocally =>
    simp only [killStep] at next
    split at next
    · split at next
      · rename_i submit there
        split at next
        · exact .inr (answer_moves there next)
        · cases next
      · cases next
    · cases next
  | _ =>
    simp only [killStep] at next
    repeat' split at next
    all_goals
      cases next
      try exact .inl rfl

/-- The venue's events about every order are about single fills and come once each. -/
def SinglyEach (s : Killing) : Action → Prop
  | .order i a => ∀ submit ∈ s.submits[i]?, Singly submit.life a
  | _ => True

structure Fits (submit : Submit) : Prop where
  wired : Wired submit.life
  flowing : Flowing submit.life

theorem fits_life {submit now : Submit} (fits : Fits submit) {a : OmsOrderLife.Action}
    (once : Singly submit.life a)
    (next : OmsOrderLife.step submit.sender submit.life a = some now.life) : Fits now :=
  ⟨step_wired fits.wired next, step_flows fits.wired fits.flowing once next⟩

theorem step_fits {s t : Killing} {a : Action} (fits : ∀ submit ∈ s.submits, Fits submit)
    (once : SinglyEach s a) (next : step s a = some t) : ∀ submit ∈ t.submits, Fits submit := by
  rcases step_cases next with ⟨_, _, _, _, rfl⟩ | ⟨i, submit, there, place, own⟩ | own
  · intro submit member
    rcases List.mem_append.mp member with old | new
    · exact fits submit old
    · cases List.mem_singleton.mp new
      exact ⟨start_wired none, start_flowing none⟩
  · have was := fits submit (List.mem_of_getElem? there)
    obtain ⟨now, same, lives⟩ := submit_step_lives own
    rw [same]
    refine forall_mem_set fits ?_
    rcases lives with still | ⟨a', ⟨j, rfl⟩ | ⟨_, _, _, rfl⟩, moved⟩
    · exact ⟨by rw [still]; exact was.wired, by rw [still]; exact was.flowing⟩
    · cases place j a' rfl
      exact fits_life was (once submit there) moved
    · exact fits_life was ⟨rfl, rfl⟩ moved
  · rcases kill_step_moves own with same | ⟨i, submit, life, c, there, moved, same⟩
    · rw [same]
      exact fits
    · rw [same]
      have was := fits submit (List.mem_of_getElem? there)
      exact forall_mem_set fits (fits_life was ⟨rfl, rfl⟩ moved)

theorem single_fills_fit (strategy : Strategy) {as : List Action}
    (once : Along step SinglyEach (.start strategy) as) :
    Along step (fun s a => booksBeyond s a = false) (.start strategy) as := by
  refine along_of_along (fun _ _ _ fits once next => step_fits fits once next) ?_ ?_ once
  · intro s a fits _
    cases a with
    | order i own =>
      simp only [booksBeyond, Option.any_eq_false]
      intro submit there
      have fit := fits submit (List.mem_of_getElem? there)
      simpa using flowing_within fit.flowing own
    | _ => rfl
  · intro _ missing
    cases missing

end OmsKilling
