import OpenOms.Gateway
import Mathlib.Algebra.Order.Ring.Unbundled.Rat
import Mathlib.Data.List.Basic

/-!
Bybit's private stream: what the entries of its two topics tell the engine.
Fills come from the executions only; the order updates supply the closes.
-/
namespace OmsBybit
open OmsGateway

def VENUE : String := "BYBIT"

/-- An entry of a pushed message, its numbers where they parse and the order's
    own id where the link id is one. -/
structure Entry where
  orderLinkId : Option String
  execType : Option String
  execId : Option String
  execQty : Option ℚ
  execPrice : Option ℚ
  orderStatus : Option String
  cumExecQty : Option ℚ
  avgPrice : Option ℚ
  rejectReason : Option String
  deriving DecidableEq, Repr

structure Message where
  topic : Option String
  data : List Entry
  deriving DecidableEq, Repr

def topicIs (topic : Option String) (name : String) : Bool :=
  topic.any fun t => t == name || (name ++ ".").toList.isPrefixOf t.toList

inductive Update where
  | report (report : VenueReport)
  | terminal (state : BrokerOrderState)
  deriving DecidableEq, Repr

def orderOutcome (status : String) : BrokerOrderOutcome :=
  if status = "Filled" then .filled
  else if status ∈ ["Cancelled", "PartiallyFilledCanceled", "Deactivated"] then .canceled
  else if status = "Rejected" then .rejected
  else .working

def parseOrderState (d : Entry) : BrokerOrderState :=
  { outcome := orderOutcome (d.orderStatus.getD "")
    executedQty := d.cumExecQty.getD 0
    avgPx := d.avgPrice.getD 0 }

def terminalStatuses : List String :=
  ["Cancelled", "PartiallyFilledCanceled", "Deactivated", "Rejected"]

def executionUpdate (d : Entry) : Option Update := do
  if d.execType ≠ some "Trade" then none
  else
    let executionId ← d.execId
    let fillQty ← d.execQty
    let fillPrice ← d.execPrice
    some (.report (.fill executionId fillQty fillPrice VENUE))

def orderUpdate (d : Entry) : Option Update := do
  let status ← d.orderStatus
  if status ∈ terminalStatuses ∧ d.cumExecQty.getD 0 > 0 then some (.terminal (parseOrderState d))
  else
    let reason := d.rejectReason.filter fun r => r ≠ "" ∧ r ≠ "EC_NoError"
    if status ∈ ["Cancelled", "PartiallyFilledCanceled", "Deactivated"] then
      some (.report (.canceled reason (some VENUE)))
    else if status = "Rejected" then
      some (.report (.reject (reason.getD "Rejected") (some VENUE)))
    -- the rest is still live, or its fills are told as executions
    else none

def entryUpdate (topic : Option String) (d : Entry) : Option Update :=
  if topicIs topic "execution" then executionUpdate d
  else if topicIs topic "order" then orderUpdate d
  else none

def reports (msg : Message) : List (String × Update) :=
  msg.data.filterMap fun d => do
    let id ← d.orderLinkId
    let update ← entryUpdate msg.topic d
    some (id, update)

def execEvent (orderId : String) (update : Update) : ExecEvent :=
  match update with
  | .report report => .fromReport orderId VENUE "bybit" report
  | .terminal st => { orderId, venue := VENUE, actor := "bybit", source := .session
                      kind := .terminal st }

theorem topic_is_head {topic : Option String} {name : String} (is : topicIs topic name = true)
    {c : Char} (starts : name.toList.head? = some c) :
    ∃ t ∈ topic, t.toList.head? = some c := by
  simp only [topicIs, Option.any_eq_true, Bool.or_eq_true, beq_iff_eq] at is
  obtain ⟨t, isTopic, rfl | longer⟩ := is
  · exact ⟨t, isTopic, starts⟩
  · obtain ⟨rest, same⟩ := List.isPrefixOf_iff_prefix.mp longer
    refine ⟨t, isTopic, ?_⟩
    rw [← same, String.toList_append, List.append_assoc, List.head?_append, starts]
    rfl

theorem topics_apart {topic : Option String} (executes : topicIs topic "execution" = true) :
    topicIs topic "order" = false := by
  by_contra orders
  rw [Bool.not_eq_false] at orders
  obtain ⟨t, isTopic, first⟩ := topic_is_head executes (show _ = some 'e' from rfl)
  obtain ⟨_, isTopic', second⟩ := topic_is_head orders (show _ = some 'o' from rfl)
  cases isTopic.symm.trans isTopic'
  cases first.symm.trans second

theorem terminal_outcome {status : String} (closes : status ∈ terminalStatuses) :
    orderOutcome status = .canceled ∨ orderOutcome status = .rejected := by
  simp only [terminalStatuses, List.mem_cons, List.not_mem_nil, or_false] at closes
  rcases closes with rfl | rfl | rfl | rfl <;> decide

end OmsBybit
