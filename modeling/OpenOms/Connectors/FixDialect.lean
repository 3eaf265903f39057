import OpenOms.Gateway
import Mathlib.Data.List.Basic

/-!
What a venue's FIX execution report says: the order it is about, whether it answers
the submit that waits for it, and the report it has for the engine.
-/
namespace OmsFixDialect
open OmsGateway

/-- The fields read of an inbound message, quantities and prices where they parse. -/
structure Message where
  msgType : Option String
  clOrdId : Option String
  origClOrdId : Option String
  orderId : Option String
  execId : Option String
  execType : Option String
  lastQty : Option ℚ
  lastPx : Option ℚ
  text : Option String
  ordRejReason : Option String
  deriving DecidableEq, Repr

structure ParsedExecReport where
  orderId : String
  externalOrderId : Option String
  isAck : Bool
  report : Option VenueReport
  rejectReason : Option String
  deriving DecidableEq, Repr

def isOrderStatusReport (msg : Message) : Bool :=
  msg.msgType = some "8" && msg.execType = some "I"

/-- `uuid` reads an order's id. A cancel's report names the order it cancels as the
    original one. -/
def parseStandardExecReport (uuid : String → Option String) (msg : Message) (venue : String) :
    Option ParsedExecReport := do
  if msg.msgType ≠ some "8" then none
  else
    let cl ← (msg.origClOrdId.filter (· ≠ "")).or msg.clOrdId
    let orderId ← uuid cl
    let execType := msg.execType.getD ""
    let out : ParsedExecReport :=
      { orderId, externalOrderId := msg.orderId.filter (· ≠ ""), isAck := false
        report := none, rejectReason := none }
    if execType = "0" then some { out with isAck := true }
    else if execType ∈ ["1", "2", "F"] then
      let executionId := (msg.execId.filter (· ≠ "")).getD cl
      some { out with
        report := some (.fill executionId (msg.lastQty.getD 0) (msg.lastPx.getD 0) venue) }
    else if execType = "4" then
      some { out with report := some (.canceled msg.text (some venue)) }
    else if execType = "8" then
      let reason := (msg.text.or msg.ordRejReason).getD "rejected"
      some { out with rejectReason := some reason, report := some (.reject reason (some venue)) }
    else some out

def ackResult (parsed : ParsedExecReport) : Option (Except String String) :=
  match parsed.rejectReason with
  | some reason => some (.error reason)
  | none => if parsed.isAck then some (.ok (parsed.externalOrderId.getD "")) else none

def movingTypes : List String := ["1", "2", "F", "4", "8"]

variable {uuid : String → Option String} {msg : Message} {venue : String}
  {parsed : ParsedExecReport}

/-- A report that fills or closes its order has something for the engine, and only a
    New takes the venue's id to the submit. -/
theorem parsed_moves (read : parseStandardExecReport uuid msg venue = some parsed)
    {execType : String} (typed : msg.execType = some execType) :
    (execType ∈ movingTypes → parsed.report.isSome) ∧
      (execType = "0" → parsed.report = none ∧
        ackResult parsed = some (.ok ((msg.orderId.filter (· ≠ "")).getD ""))) ∧
      (execType ≠ "0" → ∀ id, ackResult parsed ≠ some (.ok id)) := by
  simp only [parseStandardExecReport, typed, Option.getD_some, Option.bind_eq_bind] at read
  split at read
  · cases read
  · obtain ⟨cl, _, read⟩ := Option.bind_eq_some_iff.mp read
    obtain ⟨orderId, _, read⟩ := Option.bind_eq_some_iff.mp read
    split at read
    · rename_i new
      cases read
      simp [new, movingTypes, ackResult]
    · split at read
      · rename_i other fills
        cases read
        simp [other, ackResult]
      · split at read
        · rename_i other _ _
          cases read
          simp [other, ackResult]
        · split at read
          · rename_i other _ _ _
            cases read
            simp [other, ackResult]
          · rename_i new fills canceled rejected
            cases read
            simp_all [movingTypes, ackResult]

end OmsFixDialect
