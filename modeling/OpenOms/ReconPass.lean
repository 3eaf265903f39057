import OpenOms.Library.Keyed
import OpenOms.Library.Lists
import OpenOms.ReconOrders

/-!
One reconcile pass over the orders loaded: what it does about each order of the OMS and
each order the broker lists, and what it sends the engine.
-/
namespace OmsReconPass
open OmsGateway OmsReconOrders Keyed

structure BrokerAdapter where
  openOrders : Except BrokerError (List BrokerOpenOrder)
  orderStatus : String → String → String → Except BrokerError BrokerOrderState

inductive PassAction where
  | stuck (action : StuckAction)
  | recon (action : ReconAction)
  deriving DecidableEq, Repr

def PassAction.orderId : PassAction → String
  | .stuck (.route orderId _) => orderId
  | .stuck (.askStatus orderId _) => orderId
  | .recon (.resolveTerminal orderId _ _ _) => orderId
  | .recon (.partialDrift orderId _ _) => orderId
  | .recon (.orphanAtBroker clientOrderId _) => clientOrderId

def unstuck (stuck : List StuckOrder) (brokerOpen : List BrokerOpenOrder) : List BrokerOpenOrder :=
  brokerOpen.filter fun b => !stuck.any (·.orderId = b.clientOrderId)

def plan (oms : List OmsWorkingOrder) (stuck : List StuckOrder)
    (brokerOpen : List BrokerOpenOrder) : List PassAction :=
  if oms.isEmpty && brokerOpen.isEmpty && stuck.isEmpty then []
  else
    (planStuck stuck brokerOpen).map .stuck ++
      (planOrderRecon oms (unstuck stuck brokerOpen)).map .recon

def outcome (adapter : BrokerAdapter) : PassAction → Option ExecKind
  | .stuck (.route _ venueOrderId) => some (.ack venueOrderId)
  | .stuck (.askStatus orderId symbol) => stuckOutcome (adapter.orderStatus orderId "" symbol)
  | .recon (.resolveTerminal orderId symbol extId _) =>
    match adapter.orderStatus orderId extId symbol with
    | .ok state => some (.terminal state)
    | .error _ => none
  | .recon (.partialDrift ..) => none
  | .recon (.orphanAtBroker ..) => none

def send (adapter : BrokerAdapter) (brokerCode actor : String) (action : PassAction) :
    Option ExecEvent :=
  (outcome adapter action).map fun kind =>
    { orderId := action.orderId, venue := brokerCode, actor, source := .snapshot, kind }

def reconcileWith (oms : List OmsWorkingOrder) (stuck : List StuckOrder) (adapter : BrokerAdapter)
    (brokerCode actor : String) : List (PassAction × Option ExecEvent) :=
  match adapter.openOrders with
  | .error _ => []
  | .ok brokerOpen =>
    (plan oms stuck brokerOpen).map fun a => (a, send adapter brokerCode actor a)

/-- Every order of either side is accounted for, and none twice. -/
structure AccountsOnce (oms : List OmsWorkingOrder) (stuck : List StuckOrder)
    (brokerOpen : List BrokerOpenOrder) (actions : List PassAction) : Prop where
  once : (actions.map PassAction.orderId).Nodup
  gone : ∀ o ∈ oms,
    .recon (.resolveTerminal o.orderId o.symbol o.extId o.cumQty) ∈ actions ↔
      ∀ b ∈ brokerOpen, b.clientOrderId ≠ o.orderId
  drifted : ∀ o ∈ oms, ∀ executed,
    .recon (.partialDrift o.orderId o.cumQty executed) ∈ actions ↔
      ∃ b ∈ brokerOpen, b.clientOrderId = o.orderId ∧ b.executedQty = executed ∧
        executed - o.cumQty > EPS
  even : ∀ o ∈ oms,
    (∀ a ∈ actions, a.orderId ≠ o.orderId) ↔
      ∃ b ∈ brokerOpen, b.clientOrderId = o.orderId ∧ b.executedQty - o.cumQty ≤ EPS
  routed : ∀ s ∈ stuck, ∀ venueOrderId,
    .stuck (.route s.orderId venueOrderId) ∈ actions ↔
      ∃ b ∈ brokerOpen, b.clientOrderId = s.orderId ∧ b.venueOrderId = venueOrderId ∧
        venueOrderId ≠ ""
  asked : ∀ s ∈ stuck,
    .stuck (.askStatus s.orderId s.symbol) ∈ actions ↔
      ∀ b ∈ brokerOpen, b.clientOrderId = s.orderId → b.venueOrderId = ""
  orphaned : ∀ b ∈ brokerOpen,
    .recon (.orphanAtBroker b.clientOrderId b.symbol) ∈ actions ↔
      b.clientOrderId ∉ oms.map (·.orderId) ∧ b.clientOrderId ∉ stuck.map (·.orderId)
  owned : ∀ a ∈ actions, a.orderId ∈ oms.map (·.orderId) ∨ a.orderId ∈ stuck.map (·.orderId) ∨
    a.orderId ∈ brokerOpen.map (·.clientOrderId)

@[simp] theorem stuck_about_order (brokerOpen : List BrokerOpenOrder) (s : StuckOrder) :
    (PassAction.stuck (planStuckOrder brokerOpen s)).orderId = s.orderId := by
  unfold planStuckOrder
  split <;> rfl

theorem working_about_order {brokerOpen : List BrokerOpenOrder} {o : OmsWorkingOrder}
    {action : ReconAction} (planned : planWorking brokerOpen o = some action) :
    (PassAction.recon action).orderId = o.orderId := by
  unfold planWorking at planned
  split at planned
  · cases planned
    rfl
  · split at planned
    · cases planned
      rfl
    · cases planned

theorem stuck_cases {brokerOpen : List BrokerOpenOrder}
    (listed : (brokerOpen.map (·.clientOrderId)).Nodup) (s : StuckOrder) :
    (∀ b ∈ brokerOpen, b.clientOrderId = s.orderId → b.venueOrderId = "") ∧
        planStuckOrder brokerOpen s = .askStatus s.orderId s.symbol ∨
      ∃ b ∈ brokerOpen, b.clientOrderId = s.orderId ∧ b.venueOrderId ≠ "" ∧
        (∀ other ∈ brokerOpen, other.clientOrderId = s.orderId → other = b) ∧
        planStuckOrder brokerOpen s = .route s.orderId b.venueOrderId := by
  let table : Table String BrokerOpenOrder (·.clientOrderId) := ⟨brokerOpen, listed⟩
  unfold planStuckOrder
  split
  · rename_i b found
    have there := List.mem_of_find?_eq_some found
    have its := List.find?_some found
    rw [decide_eq_true_eq] at its
    refine Or.inr ⟨b, there, its.1, its.2, fun other also named => ?_, rfl⟩
    exact row_unique table also there (named.trans its.1.symm)
  · rename_i none_
    refine Or.inl ⟨fun b there same => ?_, rfl⟩
    by_contra identified
    exact absurd (by simpa using ⟨same, identified⟩) (List.find?_eq_none.mp none_ b there)

theorem mem_unstuck {stuck : List StuckOrder} {brokerOpen : List BrokerOpenOrder}
    {b : BrokerOpenOrder} : b ∈ unstuck stuck brokerOpen ↔
      b ∈ brokerOpen ∧ b.clientOrderId ∉ stuck.map (·.orderId) := by
  simp only [unstuck, List.mem_filter, Bool.not_eq_true', List.any_eq_false, decide_eq_true_eq,
    List.mem_map, not_exists, not_and]

theorem plan_parts (oms : List OmsWorkingOrder) (stuck : List StuckOrder)
    (brokerOpen : List BrokerOpenOrder) : plan oms stuck brokerOpen =
      (planStuck stuck brokerOpen).map .stuck ++
        (planOrderRecon oms (unstuck stuck brokerOpen)).map .recon := by
  unfold plan
  split
  · rename_i nothing
    simp only [Bool.and_eq_true, List.isEmpty_iff] at nothing
    obtain ⟨⟨rfl, rfl⟩, rfl⟩ := nothing
    rfl
  · rfl

theorem mem_plan {oms : List OmsWorkingOrder} {stuck : List StuckOrder}
    {brokerOpen : List BrokerOpenOrder} {a : PassAction} : a ∈ plan oms stuck brokerOpen ↔
      (∃ s ∈ stuck, a = .stuck (planStuckOrder brokerOpen s)) ∨
        (∃ o ∈ oms, ∃ r, planWorking (unstuck stuck brokerOpen) o = some r ∧ a = .recon r) ∨
          ∃ b ∈ brokerOpen, (b.clientOrderId ∉ oms.map (·.orderId) ∧
            b.clientOrderId ∉ stuck.map (·.orderId)) ∧
              a = .recon (.orphanAtBroker b.clientOrderId b.symbol) := by
  rw [plan_parts, List.mem_append, List.mem_map, List.mem_map]
  refine or_congr ?_ ?_
  · simp only [planStuck, List.mem_map, exists_exists_and_eq_and]
    exact exists_congr fun s => and_congr_right fun _ => eq_comm
  · simp only [planOrderRecon, List.mem_append, List.mem_filterMap, List.mem_map, List.mem_filter,
      mem_unstuck, decide_eq_true_eq]
    constructor
    · rintro ⟨r, ⟨o, member, planned⟩ | ⟨b, ⟨⟨member, unheld⟩, unknown⟩, rfl⟩, rfl⟩
      · exact Or.inl ⟨o, member, r, planned, rfl⟩
      · exact Or.inr ⟨b, member, ⟨by simpa using unknown, unheld⟩, rfl⟩
    · rintro (⟨o, member, r, planned, rfl⟩ | ⟨b, member, ⟨unknown, unheld⟩, rfl⟩)
      · exact ⟨r, Or.inl ⟨o, member, planned⟩, rfl⟩
      · exact ⟨_, Or.inr ⟨b, ⟨⟨member, unheld⟩, by simpa using unknown⟩, rfl⟩, rfl⟩

theorem orphan_accounts {oms : List OmsWorkingOrder} {stuck : List StuckOrder}
    {brokerOpen : List BrokerOpenOrder} {b : BrokerOpenOrder} (there : b ∈ brokerOpen) :
    .recon (.orphanAtBroker b.clientOrderId b.symbol) ∈ plan oms stuck brokerOpen ↔
      b.clientOrderId ∉ oms.map (·.orderId) ∧ b.clientOrderId ∉ stuck.map (·.orderId) := by
  rw [mem_plan]
  constructor
  · rintro (⟨s, -, is⟩ | ⟨o, -, r, planned, is⟩ | ⟨other, -, unknown, is⟩)
    · cases is
    · cases is
      unfold planWorking at planned
      split at planned
      · cases planned
      · split at planned <;> cases planned
    · injection is with is
      injection is with same
      rwa [same]
  · intro unknown
    exact Or.inr (Or.inr ⟨b, there, unknown, rfl⟩)

section Plan
variable {oms : List OmsWorkingOrder} {stuck : List StuckOrder} {brokerOpen : List BrokerOpenOrder}
  (ids : (oms.map (·.orderId) ++ stuck.map (·.orderId)).Nodup)
include ids

theorem plan_working {o : OmsWorkingOrder} (member : o ∈ oms) {r : ReconAction}
    (its : (PassAction.recon r).orderId = o.orderId) :
    .recon r ∈ plan oms stuck brokerOpen ↔ planWorking (unstuck stuck brokerOpen) o = some r := by
  let table : Table String OmsWorkingOrder (·.orderId) := ⟨oms, (List.nodup_append.mp ids).1⟩
  rw [mem_plan]
  constructor
  · rintro (⟨s, -, is⟩ | ⟨other, there, r', planned, is⟩ | ⟨b, -, ⟨unknown, -⟩, is⟩)
    · cases is
    · cases is
      have same : other.orderId = o.orderId := (working_about_order planned).symm.trans its
      rwa [row_unique table there member same] at planned
    · cases is
      exact absurd (List.mem_map.mpr ⟨o, member, its.symm⟩) unknown
  · intro planned
    exact Or.inr (Or.inl ⟨o, member, r, planned, rfl⟩)

theorem plan_stuck {s : StuckOrder} (member : s ∈ stuck) {a : StuckAction}
    (its : (PassAction.stuck a).orderId = s.orderId) :
    .stuck a ∈ plan oms stuck brokerOpen ↔ planStuckOrder brokerOpen s = a := by
  let table : Table String StuckOrder (·.orderId) := ⟨stuck, (List.nodup_append.mp ids).2.1⟩
  rw [mem_plan]
  constructor
  · rintro (⟨other, there, is⟩ | ⟨o, -, r, -, is⟩ | ⟨b, -, -, is⟩)
    · cases is
      have same : other.orderId = s.orderId := (stuck_about_order brokerOpen other).symm.trans its
      rw [row_unique table there member same]
    · cases is
    · cases is
  · intro planned
    exact Or.inl ⟨s, member, by rw [planned]⟩

theorem plan_silent {o : OmsWorkingOrder} (member : o ∈ oms) :
    (∀ a ∈ plan oms stuck brokerOpen, a.orderId ≠ o.orderId) ↔
      planWorking (unstuck stuck brokerOpen) o = none := by
  constructor
  · intro silent
    cases planned : planWorking (unstuck stuck brokerOpen) o with
    | none => rfl
    | some r =>
      have its := working_about_order planned
      exact absurd its (silent _ ((plan_working ids member its).mpr planned))
  · intro none_ a there same
    rcases mem_plan.mp there with ⟨s, held, rfl⟩ | ⟨other, also, r, planned, rfl⟩ |
      ⟨b, -, ⟨unknown, -⟩, rfl⟩
    · rw [stuck_about_order] at same
      exact (List.nodup_append.mp ids).2.2 _ (List.mem_map_of_mem member) _
        (List.mem_map_of_mem held) same.symm
    · cases none_.symm.trans ((plan_working ids member same).mp there)
    · exact unknown (List.mem_map.mpr ⟨o, member, same.symm⟩)

variable (listed : (brokerOpen.map (·.clientOrderId)).Nodup)
include listed

theorem plan_once : ((plan oms stuck brokerOpen).map PassAction.orderId).Nodup := by
  obtain ⟨working, held, apart⟩ := List.nodup_append.mp ids
  have stuckIds : ((planStuck stuck brokerOpen).map .stuck).map PassAction.orderId =
      stuck.map (·.orderId) := by
    simp [planStuck, Function.comp_def]
  have workingIds : ((oms.filterMap (planWorking (unstuck stuck brokerOpen))).map
      (PassAction.orderId ∘ .recon)).Sublist (oms.map (·.orderId)) :=
    Lists.filter_map_keys (fun _ _ planned => working_about_order planned) oms
  have orphanIds : (((unstuck stuck brokerOpen).filter fun b =>
      b.clientOrderId ∉ oms.map (·.orderId)).map (·.clientOrderId)).Nodup :=
    listed.sublist ((List.filter_sublist.trans List.filter_sublist).map _)
  rw [plan_parts, List.map_append, stuckIds, planOrderRecon, List.map_map, List.map_append,
    List.map_map]
  refine List.nodup_append.mpr ⟨held, List.nodup_append.mpr ⟨?_, ?_, ?_⟩, ?_⟩
  · exact working.sublist workingIds
  · exact orphanIds
  · intro id inWorking id' inOrphans same
    obtain ⟨b, there, rfl⟩ := List.mem_map.mp inOrphans
    have unknown := (List.mem_filter.mp there).2
    rw [decide_eq_true_eq] at unknown
    have known : id = b.clientOrderId := same
    exact unknown (known ▸ workingIds.subset inWorking)
  · intro id inStuck id' later same
    subst same
    rcases List.mem_append.mp later with inWorking | inOrphans
    · exact apart id (workingIds.subset inWorking) id inStuck rfl
    · obtain ⟨b, there, rfl⟩ := List.mem_map.mp inOrphans
      exact (mem_unstuck.mp (List.mem_filter.mp there).1).2 inStuck

theorem open_under_iff {o : OmsWorkingOrder} (member : o ∈ oms) {b : BrokerOpenOrder} :
    openUnder (unstuck stuck brokerOpen) o.orderId = some b ↔
      b ∈ brokerOpen ∧ b.clientOrderId = o.orderId := by
  have unheld : o.orderId ∉ stuck.map (·.orderId) := fun held =>
    (List.nodup_append.mp ids).2.2 _ (List.mem_map_of_mem member) _ held rfl
  let table : Table String BrokerOpenOrder (·.clientOrderId) := ⟨brokerOpen, listed⟩
  unfold openUnder
  constructor
  · intro found
    have there := mem_unstuck.mp (List.mem_reverse.mp (List.mem_of_find?_eq_some found))
    exact ⟨there.1, by simpa using List.find?_some found⟩
  · intro here
    obtain ⟨there, same⟩ := here
    have left : b ∈ (unstuck stuck brokerOpen).reverse :=
      List.mem_reverse.mpr (mem_unstuck.mpr ⟨there, same ▸ unheld⟩)
    cases found : (unstuck stuck brokerOpen).reverse.find? (·.clientOrderId = o.orderId) with
    | none => exact absurd (by simpa using same) (List.find?_eq_none.mp found b left)
    | some other =>
      have also := mem_unstuck.mp (List.mem_reverse.mp (List.mem_of_find?_eq_some found))
      have named : other.clientOrderId = o.orderId := by simpa using List.find?_some found
      rw [row_unique table also.1 there (named.trans same.symm)]

theorem working_cases {o : OmsWorkingOrder} (member : o ∈ oms) :
    (∀ b ∈ brokerOpen, b.clientOrderId ≠ o.orderId) ∧
        planWorking (unstuck stuck brokerOpen) o =
          some (.resolveTerminal o.orderId o.symbol o.extId o.cumQty) ∨
      ∃ b ∈ brokerOpen, b.clientOrderId = o.orderId ∧
        (∀ other ∈ brokerOpen, other.clientOrderId = o.orderId → other = b) ∧
        planWorking (unstuck stuck brokerOpen) o =
          if b.executedQty - o.cumQty > EPS then
            some (.partialDrift o.orderId o.cumQty b.executedQty)
          else none := by
  have under := fun b => open_under_iff ids listed (b := b) member
  unfold planWorking
  cases found : openUnder (unstuck stuck brokerOpen) o.orderId with
  | none =>
    refine Or.inl ⟨fun b there same => ?_, rfl⟩
    cases found.symm.trans ((under b).mpr ⟨there, same⟩)
  | some b =>
    obtain ⟨there, same⟩ := (under b).mp found
    refine Or.inr ⟨b, there, same, fun other also named => ?_, rfl⟩
    exact Option.some.inj (((under other).mpr ⟨also, named⟩).symm.trans found)

theorem working_accounts {o : OmsWorkingOrder} (member : o ∈ oms) :
    (.recon (.resolveTerminal o.orderId o.symbol o.extId o.cumQty) ∈ plan oms stuck brokerOpen ↔
        ∀ b ∈ brokerOpen, b.clientOrderId ≠ o.orderId) ∧
      (∀ executed, .recon (.partialDrift o.orderId o.cumQty executed) ∈ plan oms stuck brokerOpen ↔
        ∃ b ∈ brokerOpen, b.clientOrderId = o.orderId ∧ b.executedQty = executed ∧
          executed - o.cumQty > EPS) ∧
      ((∀ a ∈ plan oms stuck brokerOpen, a.orderId ≠ o.orderId) ↔
        ∃ b ∈ brokerOpen, b.clientOrderId = o.orderId ∧ b.executedQty - o.cumQty ≤ EPS) := by
  rw [plan_working ids member rfl, plan_silent ids member]
  simp only [plan_working ids member (r := .partialDrift _ _ _) rfl]
  rcases working_cases ids listed member with ⟨absent, planned⟩ | ⟨b, there, same, only, planned⟩
  · rw [planned]
    refine ⟨by simpa using absent, fun executed => ?_, ?_⟩
    · refine iff_of_false (by simp) ?_
      rintro ⟨b, there, same, -⟩
      exact absent b there same
    · refine iff_of_false (by simp) ?_
      rintro ⟨b, there, same, -⟩
      exact absent b there same
  · have present : ¬ ∀ other ∈ brokerOpen, other.clientOrderId ≠ o.orderId :=
      fun absent => absent b there same
    rw [planned]
    split
    · rename_i ahead
      refine ⟨iff_of_false (by simp) present, fun executed => ?_, ?_⟩
      · constructor
        · intro is
          cases is
          exact ⟨b, there, same, rfl, ahead⟩
        · rintro ⟨other, also, named, rfl, -⟩
          rw [only other also named]
      · refine iff_of_false (by simp) ?_
        rintro ⟨other, also, named, even⟩
        rw [only other also named] at even
        exact absurd ahead (not_lt.mpr even)
    · rename_i even
      refine ⟨iff_of_false (by simp) present, fun executed => ?_, ?_⟩
      · refine iff_of_false (by simp) ?_
        rintro ⟨other, also, named, rfl, ahead⟩
        rw [only other also named] at ahead
        exact even ahead
      · exact iff_of_true rfl ⟨b, there, same, not_lt.mp even⟩

theorem stuck_accounts {s : StuckOrder} (member : s ∈ stuck) :
    (∀ venueOrderId, .stuck (.route s.orderId venueOrderId) ∈ plan oms stuck brokerOpen ↔
        ∃ b ∈ brokerOpen, b.clientOrderId = s.orderId ∧ b.venueOrderId = venueOrderId ∧
          venueOrderId ≠ "") ∧
      (.stuck (.askStatus s.orderId s.symbol) ∈ plan oms stuck brokerOpen ↔
        ∀ b ∈ brokerOpen, b.clientOrderId = s.orderId → b.venueOrderId = "") := by
  rw [plan_stuck ids member rfl]
  simp only [plan_stuck ids member (a := .route _ _) rfl]
  rcases stuck_cases listed s with ⟨unnamed, planned⟩ | ⟨b, there, same, named, only, planned⟩
  · rw [planned]
    refine ⟨fun venueOrderId => ?_, iff_of_true rfl unnamed⟩
    refine iff_of_false (by simp) ?_
    rintro ⟨b, there, same, rfl, named⟩
    exact named (unnamed b there same)
  · rw [planned]
    refine ⟨fun venueOrderId => ?_, iff_of_false (by simp) fun unnamed => ?_⟩
    · constructor
      · intro is
        cases is
        exact ⟨b, there, same, rfl, named⟩
      · rintro ⟨other, also, its, rfl, -⟩
        rw [only other also its]
    · exact named (unnamed b there same)

end Plan

theorem pass_plans {adapter : BrokerAdapter} {brokerOpen : List BrokerOpenOrder}
    (snapshot : adapter.openOrders = .ok brokerOpen) (oms : List OmsWorkingOrder)
    (stuck : List StuckOrder) (brokerCode actor : String) :
    reconcileWith oms stuck adapter brokerCode actor =
      (plan oms stuck brokerOpen).map fun a => (a, send adapter brokerCode actor a) := by
  rw [reconcileWith, snapshot]

theorem pass_sends_once {oms : List OmsWorkingOrder} {stuck : List StuckOrder}
    {brokerOpen : List BrokerOpenOrder} {adapter : BrokerAdapter}
    (ids : (oms.map (·.orderId) ++ stuck.map (·.orderId)).Nodup)
    (listed : (brokerOpen.map (·.clientOrderId)).Nodup)
    (snapshot : adapter.openOrders = .ok brokerOpen) (brokerCode actor : String) :
    (((reconcileWith oms stuck adapter brokerCode actor).filterMap Prod.snd).map
        (·.orderId)).Nodup ∧
      ∀ event ∈ (reconcileWith oms stuck adapter brokerCode actor).filterMap Prod.snd,
        event.orderId ∈ oms.map (·.orderId) ∨ event.orderId ∈ stuck.map (·.orderId) := by
  have sent : (reconcileWith oms stuck adapter brokerCode actor).filterMap Prod.snd =
      (plan oms stuck brokerOpen).filterMap (send adapter brokerCode actor) := by
    rw [pass_plans snapshot, List.filterMap_map]
    rfl
  have names : ∀ a event, send adapter brokerCode actor a = some event → event.orderId = a.orderId := by
    intro a event sends
    obtain ⟨kind, -, rfl⟩ := Option.map_eq_some_iff.mp sends
    rfl
  rw [sent]
  constructor
  · exact (plan_once ids listed).sublist (Lists.filter_map_keys names _)
  · intro event told
    obtain ⟨a, there, sends⟩ := List.mem_filterMap.mp told
    rw [names a event sends]
    rcases mem_plan.mp there with ⟨s, held, rfl⟩ | ⟨o, member, r, made, rfl⟩ | ⟨b, -, -, rfl⟩
    · rw [stuck_about_order]
      exact Or.inr (List.mem_map_of_mem held)
    · rw [working_about_order made]
      exact Or.inl (List.mem_map_of_mem member)
    · cases sends

/-- Whatever the broker answers about single orders. -/
theorem pass_accounts_once (oms : List OmsWorkingOrder) (stuck : List StuckOrder)
    (brokerOpen : List BrokerOpenOrder) (adapter : BrokerAdapter) (brokerCode actor : String)
    (ids : (oms.map (·.orderId) ++ stuck.map (·.orderId)).Nodup)
    (listed : (brokerOpen.map (·.clientOrderId)).Nodup)
    (snapshot : adapter.openOrders = .ok brokerOpen) :
    AccountsOnce oms stuck brokerOpen
      ((reconcileWith oms stuck adapter brokerCode actor).map Prod.fst) := by
  have planned : (reconcileWith oms stuck adapter brokerCode actor).map Prod.fst =
      plan oms stuck brokerOpen := by
    rw [pass_plans snapshot, List.map_map]
    exact List.map_id _
  rw [planned]
  refine ⟨plan_once ids listed, ?_, ?_, ?_, ?_, ?_, ?_, ?_⟩
  · exact fun o member => (working_accounts ids listed member).1
  · exact fun o member => (working_accounts ids listed member).2.1
  · exact fun o member => (working_accounts ids listed member).2.2
  · exact fun s member => (stuck_accounts ids listed member).1
  · exact fun s member => (stuck_accounts ids listed member).2
  · exact fun b there => orphan_accounts there
  · intro a there
    rcases mem_plan.mp there with ⟨s, held, rfl⟩ | ⟨o, member, r, made, rfl⟩ | ⟨b, also, -, rfl⟩
    · rw [stuck_about_order]
      exact Or.inr (Or.inl (List.mem_map_of_mem held))
    · rw [working_about_order made]
      exact Or.inl (List.mem_map_of_mem member)
    · exact Or.inr (Or.inr (List.mem_map_of_mem also))

def working (orderId : String) (cumQty : ℚ) : OmsWorkingOrder :=
  ⟨orderId, "BTCUSDT", "v-" ++ orderId, cumQty, none⟩

def listing (clientOrderId venueOrderId : String) (executedQty : ℚ) : BrokerOpenOrder :=
  ⟨clientOrderId, venueOrderId, "BTCUSDT", executedQty⟩

/-- One order gone, one ahead at the broker and one not; a stuck order listed with an id,
    one without and one not at all; an order placed by hand. -/
def snapshot : List BrokerOpenOrder :=
  [listing "o2" "v-o2" 3, listing "o3" "v-o3" 1, listing "s1" "v-s1" 0, listing "s2" "" 0,
    listing "hand" "v-9" 0]

def workingOrders : List OmsWorkingOrder := [working "o1" 0, working "o2" 1, working "o3" 1]

def stuckOrders : List StuckOrder := [⟨"s1", "BTCUSDT"⟩, ⟨"s2", "BTCUSDT"⟩, ⟨"s3", "BTCUSDT"⟩]

def broker : BrokerAdapter := ⟨.ok snapshot, fun _ _ _ => .error (.network "timeout")⟩

theorem mixed_pass_accounts : AccountsOnce workingOrders stuckOrders snapshot
    ((reconcileWith workingOrders stuckOrders broker "BINANCE" "binance").map Prod.fst) :=
  pass_accounts_once workingOrders stuckOrders snapshot broker "BINANCE" "binance" (by decide)
    (by decide) rfl

example : plan workingOrders stuckOrders snapshot =
    [.stuck (.route "s1" "v-s1"), .stuck (.askStatus "s2" "BTCUSDT"),
      .stuck (.askStatus "s3" "BTCUSDT"), .recon (.resolveTerminal "o1" "BTCUSDT" "v-o1" 0),
      .recon (.partialDrift "o2" 1 3), .recon (.orphanAtBroker "hand" "BTCUSDT")] := by
  decide +kernel

end OmsReconPass
