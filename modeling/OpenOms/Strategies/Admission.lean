import OpenOms.Strategies.Guard
import OpenOms.OrderEntry

/-!
What the first transaction of a strategy's submit asks before it inserts the
order, and the refused order it keeps on record otherwise.
-/
namespace OmsAdmission
open OmsOrders OmsLifecycle OmsAggregate OmsOrderStore OmsOrderEntry OmsRisk OmsRiskEngine OmsGuard

inductive Origin where
  | api
  | fix (clOrdId : String)
  | flatten
  | external
  deriving DecidableEq, Repr

def sessionGate (origin : Origin) (live : Bool) : Except RiskRejection Unit :=
  match origin with
  | .fix _ => if live then .ok () else .error ⟨"fix_session_ended", "FIX session ended"⟩
  | _ => .ok ()

/-- What the transaction goes by beside the strategy's row: whether the registry
    knew the portfolio's strategy, the session, and the order's scope. -/
structure Reads where
  registered : Bool
  live : Bool
  row : Option RiskConfig
  exposure : Exposure
  quoteCurrency : String
  mark : Option Mark
  contractSize : ℚ
  deriving DecidableEq, Repr

def admission (locked : Strategy) (principalId : String) (origin : Origin) (cmd : SubmitOrder)
    (reads : Reads) : Except RiskRejection Unit := do
  if !reads.registered then
    .error ⟨"strategy_registry", "the strategy registry is not loaded; retry"⟩
  mayTrade locked principalId
  sessionGate origin reads.live
  check locked reads.row reads.exposure cmd reads.quoteCurrency reads.mark reads.contractSize

def recordRejection (cmd : SubmitOrder) (rejection : RiskRejection)
    (submitStamp rejectStamp : EventMetadata) (brokerConnectionCode : String) (createdAt : Nat)
    (db : OrderDb) : Except ApiError OrderDb := do
  let report := ExecutionReport.reject s!"{rejection.code}: {rejection.message}" none
  match OrderAggregate.empty.decide (.submitOrder cmd) submitStamp with
  | .error refusal => .error (mapRejectionToApiError refusal)
  | .ok submitted =>
    let state ← foldEvents .empty submitted "no state"
    let aggregate := OrderAggregate.fromState state
    match aggregate.decide (.receiveExecutionReport cmd.orderId report) rejectStamp with
    | .error refusal => .error (mapRejectionToApiError refusal)
    | .ok rejected =>
      let final ← foldEvents aggregate rejected "no state"
      appendOr500 (insertOrderState db final brokerConnectionCode createdAt) 0
        (submitted ++ rejected)

theorem admission_not_halted {locked : Strategy} {principalId : String} {origin : Origin}
    {cmd : SubmitOrder} {reads : Reads}
    (passes : admission locked principalId origin cmd reads = .ok ()) :
    locked.state ≠ .halted := by
  intro halted
  simp only [admission, bind, Except.bind] at passes
  split at passes
  · cases passes
  split at passes
  · cases passes
  split at passes
  · cases passes
  have own := (check_state_passes passes).1
  rw [halted] at own
  cases own

theorem append_row {db db' : OrderDb} {expectedVersion : Nat} {events : List OrderDomainEvent}
    (appended : appendOr500 db expectedVersion events = .ok db') : db'.row = db.row := by
  simp only [appendOr500] at appended
  split at appended
  · cases appended
  · rename_i committed inTx
    cases appended
    simp only [appendEventsInTx] at inTx
    split at inTx
    · cases inTx
      rfl
    · split at inTx
      · cases inTx
      · rw [← Except.ok.inj inTx]

theorem record_rejection_rejected {cmd : SubmitOrder} {rejection : RiskRejection}
    {submitStamp rejectStamp : EventMetadata} {code : String} {createdAt : Nat}
    {db db' : OrderDb}
    (recorded : recordRejection cmd rejection submitStamp rejectStamp code createdAt db = .ok db') :
    ∃ row, db'.row = some row ∧ row.status = .rejected := by
  simp only [recordRejection] at recorded
  split at recorded
  · cases recorded
  rename_i submitted decided
  obtain ⟨_, event, rfl, _, _, _, applies⟩ := submit_decided decided
  have folded : foldEvents .empty [event] "no state" = .ok (submitState cmd) := by
    rw [foldEvents, OrderAggregate.applyAll, applies]
    rfl
  have allowed : kind (.receiveExecutionReport cmd.orderId
      (.reject s!"{rejection.code}: {rejection.message}" none)) ∈
      allowedKindsForStatus (submitState cmd).status :=
    (allowed_iff_listed _ _).mp (open_takes_report rfl)
  obtain ⟨last, reported, yields⟩ := decide_accepts ⟨allowed, trivial⟩ rejectStamp
  have left : foldEvents (.fromState (submitState cmd)) [last] "no state" =
      .ok (closeState (submitState cmd) .rejected) := by
    rw [foldEvents, OrderAggregate.applyAll, yields.applies]
    rfl
  simp only [folded, bind, Except.bind, reported, left] at recorded
  exact ⟨_, append_row recorded, rfl⟩

end OmsAdmission
