import OpenOms.OrderEntry
import OpenOms.Strategies.Reports
import OpenOms.Systems.FixSessions
import OpenOms.Systems.OrderOutbox

/-!
The execution reports owed to strategies over FIX. An event's own transaction queues
its report; a logon and the report loop each start a replay of the strategy's queue,
which hands the reports to the acceptor one by one while the strategy is live.
-/
namespace OmsReportDelivery
open OmsOrders OmsOrderStore OmsKafkaOutbox OmsReports Lists Runs
open OmsFixSessions (Registry FixSessions LoggedOn)
open OmsOrderOutbox (OrderOutbox orderId version)
variable {K S : Type}

/-- What never changes of a FIX order's row: the strategy of its portfolio, the
    ClOrdID and its broker's symbol. -/
structure FixColumns (S : Type) where
  code : S
  clOrdId : String
  symbol : String

inductive Stage where
  | waiting
  | sending (left : List StoredEvent)
  | checked (row : StoredEvent) (left : List StoredEvent)
  | built (row : StoredEvent) (report : ClientReport) (left : List StoredEvent)
  | sent (row : StoredEvent) (left : List StoredEvent)
  | done
  deriving DecidableEq, Repr

structure Replay (S : Type) where
  code : S
  stage : Stage
  deriving DecidableEq, Repr

/-- A report handed to the acceptor: whether its session was logged on, and the
    acceptor's answer. -/
structure Handing where
  globalPosition : Nat
  report : ClientReport
  on : Bool
  taken : Bool
  deriving DecidableEq, Repr

/-- `rows` are the orders' rows, `loop` the replay the report loop waits for. -/
structure ReportDelivery (K S : Type) where
  store : OrderOutbox
  rows : String → Option OrderRow
  queue : List (S × Nat)
  sessions : FixSessions K S
  replays : List (Replay S)
  loop : Option Nat
  handings : List Handing

def ReportDelivery.start : ReportDelivery K S :=
  ⟨.start, fun _ => none, [], .start, [], none, []⟩

inductive Action (K S : Type) where
  | write (a : OmsOrderOutbox.Action) (written : String → OrderRow)
  | session (a : OmsFixSessions.Action K)
  | wake (code : S)
  | fetch (i : Nat)
  | fail (i : Nat)
  | check (i : Nat)
  | build (i : Nat)
  | send (i : Nat) (taken : Bool)
  | delete (i : Nat) (answered : Bool)

def owed (columns : String → Option (FixColumns S)) (x : StoredEvent) : Option S :=
  if isReported x.record.event.eventType.asStr then (columns (orderId x)).map (·.code) else none

def enqueued (columns : String → Option (FixColumns S)) (committed : List StoredEvent) :
    List (S × Nat) :=
  committed.filterMap fun x =>
    if x.record.event.eventType.asStr ∈ queuedTypes then
      (columns (orderId x)).map fun order => (order.code, x.globalPosition)
    else none

def reportNow (columns : String → Option (FixColumns S)) (rows : String → Option OrderRow)
    (x : StoredEvent) : Option ClientReport :=
  (columns (orderId x)).bind fun columns =>
    let order := ⟨columns.clOrdId, columns.symbol, { OrderDb.empty with row := rows (orderId x) }⟩
    reportForEvent order x.globalPosition x.record.event

def handledLogon (sessions : FixSessions K S) : OmsFixSessions.Action K → Option S
  | .finish i =>
    match sessions.tasks[i]? with
    | some ⟨(_, .loggedOn) :: _, half⟩ => half
    | _ => none
  | _ => none

def Stage.holdsLock : Stage → Bool
  | .waiting | .done => false
  | _ => true

def loopFree (s : ReportDelivery K S) : Bool :=
  s.loop.all fun i => s.replays[i]?.all (·.stage = .done)

def setStage (s : ReportDelivery K S) (i : Nat) (code : S) (stage : Stage) :
    ReportDelivery K S :=
  { s with replays := s.replays.set i ⟨code, stage⟩ }

def queuedFor [DecidableEq S] (s : ReportDelivery K S) (code : S) : List StoredEvent :=
  queuedEvents ((s.queue.filter (·.1 = code)).map (·.2)) s.store.events

def step [DecidableEq K] [DecidableEq S] (topics : OutboxTopics)
    (columns : String → Option (FixColumns S)) (registry : Registry K S)
    (s : ReportDelivery K S) : Action K S → Option (ReportDelivery K S)
  | .write a written =>
    (OmsOrderOutbox.step topics s.store a).map fun store =>
      let committed := store.events.drop s.store.events.length
      { s with
        store
        rows := fun order =>
          if order ∈ committed.map orderId then some (written order) else s.rows order
        queue := s.queue ++ enqueued columns committed }
  | .session a =>
    (OmsFixSessions.step registry s.sessions a).map fun sessions =>
      let logon := (handledLogon s.sessions a).toList.map fun code => ⟨code, .waiting⟩
      { s with sessions, replays := s.replays ++ logon }
  | .wake code =>
    if s.sessions.live code ∧ loopFree s then
      some { s with replays := s.replays ++ [⟨code, .waiting⟩], loop := some s.replays.length }
    else none
  | .fetch i =>
    match s.replays[i]? with
    | some ⟨code, .waiting⟩ =>
      if s.replays.any fun other => other.code = code ∧ other.stage.holdsLock then none
      else some (setStage s i code (.sending (queuedFor s code)))
    | _ => none
  | .fail i =>
    match s.replays[i]? with
    | some ⟨code, stage⟩ => if stage.holdsLock then some (setStage s i code .done) else none
    | none => none
  | .check i =>
    match s.replays[i]? with
    | some ⟨code, .sending (x :: left)⟩ =>
      some (setStage s i code (if s.sessions.live code then .checked x left else .done))
    | some ⟨code, .sending []⟩ => some (setStage s i code .done)
    | _ => none
  | .build i =>
    match s.replays[i]? with
    | some ⟨code, .checked x left⟩ =>
      match reportNow columns s.rows x with
      | some report => some (setStage s i code (.built x report left))
      | none => some (setStage s i code (.sent x left))
    | _ => none
  | .send i taken =>
    match s.replays[i]? with
    | some ⟨code, .built x report left⟩ =>
      match s.sessions.acceptor with
      | none => if taken then none else some (setStage s i code .done)
      | some _ =>
        let on := decide (LoggedOn s.sessions (registry.sessionKey code))
        some { setStage s i code (if taken then .sent x left else .done) with
          handings := s.handings ++ [⟨x.globalPosition, report, on, taken⟩] }
    | _ => none
  | .delete i answered =>
    match s.replays[i]? with
    | some ⟨code, .sent x left⟩ =>
      some { setStage s i code (if answered then .sending left else .done) with
        queue := s.queue.filter (· ≠ (code, x.globalPosition)) }
    | _ => none

def Handed (columns : String → Option (FixColumns S)) (handings : List Handing)
    (x : StoredEvent) : Prop :=
  ∃ rows report, reportNow columns rows x = some report ∧
    ⟨x.globalPosition, report, true, true⟩ ∈ handings

def Complete (columns : String → Option (FixColumns S)) (s : ReportDelivery K S) : Prop :=
  ∀ x ∈ s.store.events, ∀ code, owed columns x = some code →
    (code, x.globalPosition) ∈ s.queue ∨ Handed columns s.handings x

def FirstHandedInOrder (columns : String → Option (FixColumns S)) (s : ReportDelivery K S) :
    Prop :=
  ∀ (n : Nat) (handing : Handing), s.handings[n]? = some handing →
    ∀ y ∈ s.store.events, y.globalPosition = handing.globalPosition →
      ∀ x ∈ s.store.events, (owed columns x).isSome → orderId x = orderId y →
        version x < version y → Handed columns (s.handings.take n) x

def Reported (columns : String → Option (FixColumns S)) (s : ReportDelivery K S) : Prop :=
  Complete columns s ∧ FirstHandedInOrder columns s

def Adrift (registry : Registry K S) (s : ReportDelivery K S) : Action K S → Prop
  | .send i true => ∃ replay ∈ s.replays[i]?,
      ¬ LoggedOn s.sessions (registry.sessionKey replay.code)
  | _ => False

instance [DecidableEq K] (registry : Registry K S) (s : ReportDelivery K S) (a : Action K S) :
    Decidable (Adrift registry s a) := by
  unfold Adrift
  split <;> infer_instance

def Stage.left : Stage → List StoredEvent
  | .waiting | .done => []
  | .sending left | .sent _ left => left
  | .checked row left | .built row _ left => row :: left

def Led (columns : String → Option (FixColumns S)) (events : List StoredEvent)
    (handings : List Handing) (left : List StoredEvent) : Prop :=
  ∀ before y after, left = before ++ y :: after →
    ∀ x ∈ events, (owed columns x).isSome → orderId x = orderId y → version x < version y →
      x ∈ before ∨ Handed columns handings x

structure Sound (columns : String → Option (FixColumns S)) (events : List StoredEvent)
    (handings : List Handing) (replay : Replay S) : Prop where
  fetched : ∀ x ∈ replay.stage.left, x ∈ events ∧ owed columns x = some replay.code
  led : Led columns events handings replay.stage.left
  built : ∀ x report left, replay.stage = .built x report left →
    ∃ rows, reportNow columns rows x = some report
  sent : ∀ x left, replay.stage = .sent x left → x ∈ events ∧ Handed columns handings x

structure Inv (topics : OutboxTopics) (columns : String → Option (FixColumns S))
    (s : ReportDelivery K S) : Prop where
  store : OmsOrderOutbox.Inv topics s.store
  stored : ∀ x ∈ s.store.events, (s.rows (orderId x)).isSome
  known : ∀ handing ∈ s.handings, ∃ x ∈ s.store.events,
    x.globalPosition = handing.globalPosition
  queued : ∀ code position, (code, position) ∈ s.queue → ∃ x ∈ s.store.events,
    owed columns x = some code ∧ x.globalPosition = position
  complete : Complete columns s
  inOrder : FirstHandedInOrder columns s
  replays : ∀ replay ∈ s.replays, Sound columns s.store.events s.handings replay

variable {topics : OutboxTopics} {columns : String → Option (FixColumns S)}
  {registry : Registry K S} {s t : ReportDelivery K S}

theorem owed_makes_report {rows : String → Option OrderRow} {x : StoredEvent} {code : S}
    (owes : owed columns x = some code) (stored : (rows (orderId x)).isSome) :
    ∃ report, reportNow columns rows x = some report := by
  unfold owed at owes
  split at owes
  · rename_i told
    obtain ⟨found, there, _⟩ := Option.map_eq_some_iff.mp owes
    obtain ⟨row, at_⟩ := Option.isSome_iff_exists.mp stored
    rw [reportNow, there]
    exact queued_makes_report (by simpa using at_) x.globalPosition
      ((queued_iff_reported _).mpr told)
  · cases owes

theorem owed_same {x y : StoredEvent} {a b : S} (one : owed columns x = some a)
    (other : owed columns y = some b) (same : orderId x = orderId y) : a = b := by
  unfold owed at one other
  split at one <;> split at other
  · rw [same] at one
    exact Option.some.inj (one.symm.trans other)
  all_goals simp_all

theorem handed_mono {handings more : List Handing} (grown : handings ⊆ more) {x : StoredEvent}
    (handed : Handed columns handings x) : Handed columns more x := by
  obtain ⟨rows, report, made, member⟩ := handed
  exact ⟨rows, report, made, grown member⟩

theorem rest_sound {events : List StoredEvent} {handings : List Handing} {replay : Replay S}
    (rest : replay.stage = .waiting ∨ replay.stage = .done) :
    Sound columns events handings replay := by
  have none_ : replay.stage.left = [] := by
    rcases rest with here | here <;> simp [here, Stage.left]
  refine ⟨by simp [none_], ?_, ?_, ?_⟩
  · intro before y after split_
    simp [none_] at split_
  · intro x report left at_
    rcases rest with here | here <;> cases here.symm.trans at_
  · intro x left at_
    rcases rest with here | here <;> cases here.symm.trans at_

theorem sending_sound {events : List StoredEvent} {handings : List Handing} {code : S}
    {left : List StoredEvent} (fetched : ∀ x ∈ left, x ∈ events ∧ owed columns x = some code)
    (led : Led columns events handings left) :
    Sound columns events handings ⟨code, .sending left⟩ := by
  refine ⟨fetched, led, ?_, ?_⟩
  · intro x report left at_
    cases at_
  · intro x left at_
    cases at_

theorem led_rest {events : List StoredEvent} {handings : List Handing} {x : StoredEvent}
    {left : List StoredEvent} (led : Led columns events handings (x :: left))
    (handed : Handed columns handings x) : Led columns events handings left := by
  intro before y after split_ earlier fromX owes same less
  rcases led (x :: before) y after (by simp [split_]) earlier fromX owes same less with
    first | done
  · rcases List.mem_cons.mp first with rfl | between
    · exact .inr handed
    · exact .inl between
  · exact .inr done

theorem sound_mono {events : List StoredEvent} {handings : List Handing} {replay : Replay S}
    {more : List StoredEvent} {further : List Handing}
    (later : ∀ y ∈ events, ∀ x ∈ more, orderId y = orderId x → version y < version x)
    (sound : Sound columns events handings replay) :
    Sound columns (events ++ more) (handings ++ further) replay := by
  have grown : handings ⊆ handings ++ further := List.subset_append_left _ _
  refine ⟨fun x left => ?_, fun before y after split_ x fromX owes same less => ?_, sound.built,
    fun x left stage => ?_⟩
  · exact (sound.fetched x left).imp_left (List.mem_append_left _)
  · have fromY : y ∈ events := (sound.fetched y (by simp [split_])).1
    rcases List.mem_append.mp fromX with old | new
    · exact (sound.led before y after split_ x old owes same less).imp_right (handed_mono grown)
    · have := later y fromY x new same.symm
      omega
  · exact (sound.sent x left stage).imp (List.mem_append_left _) (handed_mono grown)

theorem start_inv : Inv topics columns (.start : ReportDelivery K S) := by
  refine ⟨OmsOrderOutbox.start_inv, ?_, ?_, ?_, ?_, ?_, ?_⟩ <;>
    simp [ReportDelivery.start, OmsOrderOutbox.OrderOutbox.start, Complete, FirstHandedInOrder]

theorem stage_keeps (inv : Inv topics columns s) {i : Nat} {code : S} {stage : Stage}
    (sound : Sound columns s.store.events s.handings ⟨code, stage⟩) :
    Inv topics columns (setStage s i code stage) :=
  ⟨inv.store, inv.stored, inv.known, inv.queued, inv.complete, inv.inOrder,
    forall_mem_set inv.replays sound⟩

theorem start_replays_keep (inv : Inv topics columns s) {sessions : FixSessions K S}
    {loop : Option Nat} {more : List (Replay S)} (waiting : ∀ replay ∈ more,
      replay.stage = .waiting) :
    Inv topics columns { s with sessions, loop, replays := s.replays ++ more } := by
  refine ⟨inv.store, inv.stored, inv.known, inv.queued, inv.complete, inv.inOrder,
    fun replay member => ?_⟩
  rcases List.mem_append.mp member with old | new
  · exact inv.replays replay old
  · exact rest_sound (.inl (waiting replay new))

theorem mem_enqueued {committed : List StoredEvent} {code : S} {position : Nat} :
    (code, position) ∈ enqueued columns committed ↔
      ∃ x ∈ committed, owed columns x = some code ∧ x.globalPosition = position := by
  rw [enqueued, List.mem_filterMap]
  refine exists_congr fun x => and_congr_right fun _ => ?_
  by_cases told : isReported x.record.event.eventType.asStr = true
  · rw [if_pos ((queued_iff_reported _).mpr told)]
    simp only [owed, told, if_true, Option.map_eq_some_iff, Prod.mk.injEq]
    constructor
    · rintro ⟨order, found, same, at_⟩
      exact ⟨⟨order, found, same⟩, at_⟩
    · rintro ⟨⟨order, found, same⟩, at_⟩
      exact ⟨order, found, same, at_⟩
  · rw [if_neg fun queued => told ((queued_iff_reported _).mp queued)]
    simp [owed, told]

theorem queued_owed (inv : Inv topics columns s) {code : S} {x : StoredEvent}
    (fromX : x ∈ s.store.events) (queued : (code, x.globalPosition) ∈ s.queue) :
    owed columns x = some code := by
  obtain ⟨y, fromY, owes, at_⟩ := inv.queued code x.globalPosition queued
  cases OmsOrderOutbox.same_position inv.store.rows fromY fromX at_
  exact owes

theorem send_keeps {i : Nat} {code : S} {x : StoredEvent} {report : ClientReport}
    {left : List StoredEvent} {on taken : Bool} (inv : Inv topics columns s)
    (there : s.replays[i]? = some ⟨code, .built x report left⟩) (met : taken = true → on = true) :
    Inv topics columns { setStage s i code (if taken then .sent x left else .done) with
      handings := s.handings ++ [⟨x.globalPosition, report, on, taken⟩] } := by
  obtain ⟨fetched, led, built, _⟩ := inv.replays _ (List.mem_of_getElem? there)
  obtain ⟨fromX, owes⟩ := fetched x List.mem_cons_self
  obtain ⟨rows, made⟩ := built x report left rfl
  have grown : s.handings ⊆ s.handings ++ [⟨x.globalPosition, report, on, taken⟩] :=
    List.subset_append_left _ _
  have sound_still : ∀ replay, Sound columns s.store.events s.handings replay →
      Sound columns s.store.events (s.handings ++ [⟨x.globalPosition, report, on, taken⟩])
        replay := by
    intro replay sound
    have mono : Sound columns (s.store.events ++ [])
        (s.handings ++ [⟨x.globalPosition, report, on, taken⟩]) replay := sound_mono (by simp) sound
    rwa [List.append_nil] at mono
  refine ⟨inv.store, inv.stored, ?_, inv.queued, ?_, ?_, ?_⟩
  · intro handing member
    rcases List.mem_append.mp member with old | new
    · exact inv.known handing old
    · cases List.mem_singleton.mp new
      exact ⟨x, fromX, rfl⟩
  · intro y fromY other owes'
    exact (inv.complete y fromY other owes').imp_right (handed_mono grown)
  · intro n handing found y fromY at_ earlier fromE owes' same less
    rcases at_append found with ⟨within, old⟩ | ⟨rfl, rfl⟩
    · show Handed columns ((s.handings ++ _).take n) earlier
      rw [List.take_append_of_le_length (by omega)]
      exact inv.inOrder n handing old y fromY at_ earlier fromE owes' same less
    · cases OmsOrderOutbox.same_position inv.store.rows fromY fromX at_
      show Handed columns ((s.handings ++ _).take s.handings.length) earlier
      refine handed_mono ?_
        ((led [] x left rfl earlier fromE owes' same less).resolve_left List.not_mem_nil)
      rw [List.take_append, List.take_of_length_le (by omega)]
      exact List.subset_append_left _ _
  · refine forall_mem_set (fun replay member => sound_still replay (inv.replays replay member)) ?_
    split
    · rename_i accepted
      have handed : Handed columns
          (s.handings ++ [⟨x.globalPosition, report, on, taken⟩]) x := by
        refine ⟨rows, report, made, List.mem_append_right _ ?_⟩
        simp [accepted, met accepted]
      have whole := sound_still _ (inv.replays _ (List.mem_of_getElem? there))
      refine ⟨fun y member => whole.fetched y (List.mem_cons_of_mem x member),
        led_rest whole.led handed, ?_, ?_⟩
      · rintro _ _ _ ⟨⟩
      · rintro _ _ ⟨⟩
        exact ⟨fromX, handed⟩
    · exact rest_sound (.inr rfl)

theorem check_keeps {i : Nat} {code : S} {x : StoredEvent} {left : List StoredEvent}
    (inv : Inv topics columns s) (there : s.replays[i]? = some ⟨code, .sending (x :: left)⟩) :
    Inv topics columns (setStage s i code (if s.sessions.live code then .checked x left
      else .done)) := by
  obtain ⟨fetched, led, _, _⟩ := inv.replays _ (List.mem_of_getElem? there)
  refine stage_keeps inv ?_
  split
  · refine ⟨fetched, led, ?_, ?_⟩
    · rintro _ _ _ ⟨⟩
    · rintro _ _ ⟨⟩
  · exact rest_sound (.inr rfl)

variable [DecidableEq K] [DecidableEq S]

/-- Committed events bring their orders' rows and their reports' places in the queue,
    and come after what was handed over of their orders. -/
theorem write_keeps {a : OmsOrderOutbox.Action} {written : String → OrderRow}
    (inv : Inv topics columns s)
    (next : step topics columns registry s (.write a written) = some t) :
    Inv topics columns t := by
  simp only [step, Option.map_eq_some_iff] at next
  obtain ⟨store, writes, rfl⟩ := next
  obtain ⟨more, grown, later⟩ := OmsOrderOutbox.events_grow inv.store.rows writes
  have storeInv := OmsOrderOutbox.step_keeps inv.store writes
  have committed : store.events.drop s.store.events.length = more := by simp [grown]
  have stays : ∀ x ∈ s.store.events, x ∈ store.events := by
    intro x member
    rw [grown]
    exact List.mem_append_left _ member
  refine ⟨storeInv, fun x member => ?_, fun handing member => ?_,
    fun code position queued => ?_, fun x member code owes => ?_,
    fun n handing found y fromY at_ x fromX owes same less => ?_, fun replay member => ?_⟩
  · simp only [committed]
    split
    · rfl
    · rename_i old
      rcases List.mem_append.mp (grown ▸ member) with before | new
      · exact inv.stored x before
      · exact absurd (List.mem_map_of_mem new) old
  · obtain ⟨x, old, at_⟩ := inv.known handing member
    exact ⟨x, stays x old, at_⟩
  · rw [committed] at queued
    rcases List.mem_append.mp queued with before | new
    · obtain ⟨x, old, rest⟩ := inv.queued code position before
      exact ⟨x, stays x old, rest⟩
    · obtain ⟨x, new, rest⟩ := mem_enqueued.mp new
      exact ⟨x, grown ▸ List.mem_append_right _ new, rest⟩
  · rcases List.mem_append.mp (grown ▸ member) with old | new
    · exact (inv.complete x old code owes).imp_left (List.mem_append_left _)
    · refine .inl (List.mem_append_right _ ?_)
      rw [committed]
      exact mem_enqueued.mpr ⟨x, new, owes, rfl⟩
  · obtain ⟨z, old, there⟩ := inv.known handing (List.mem_of_getElem? found)
    cases OmsOrderOutbox.same_position storeInv.rows fromY (stays z old) (at_.trans there.symm)
    rcases List.mem_append.mp (grown ▸ fromX) with before | new
    · exact inv.inOrder n handing found y old at_ x before owes same less
    · have := later y old x new same.symm
      omega
  · have sound : Sound columns _ (_ ++ []) replay := sound_mono later (inv.replays replay member)
    rw [← grown, List.append_nil] at sound
    exact sound

omit [DecidableEq K] in
/-- The batch has all that is queued for the strategy, oldest first; what is no longer
    queued has been handed over. -/
theorem fetch_keeps {i : Nat} {code : S} (inv : Inv topics columns s) :
    Inv topics columns (setStage s i code (.sending (queuedFor s code))) := by
  have queued : ∀ x, x ∈ queuedFor s code ↔
      x ∈ s.store.events ∧ (code, x.globalPosition) ∈ s.queue := by
    intro x
    simp [queuedFor, mem_queued]
  refine stage_keeps inv (sending_sound ?_ ?_)
  · intro x member
    obtain ⟨fromX, inside⟩ := (queued x).mp member
    exact ⟨fromX, queued_owed inv fromX inside⟩
  · intro before y after split_ x fromX owes same less
    obtain ⟨fromY, inside⟩ := (queued y).mp (by simp [split_])
    obtain ⟨other, its⟩ := Option.isSome_iff_exists.mp owes
    cases owed_same its (queued_owed inv fromY inside) same
    rcases inv.complete x fromX code its with waits | handed
    · have lower := inv.store.rows.inStep x fromX y fromY same less
      have sorted := queued_sorted ((s.queue.filter (·.1 = code)).map (·.2)) s.store.events
      have there := (queued x).mpr ⟨fromX, waits⟩
      unfold queuedFor at split_ there
      rw [split_] at sorted there
      refine .inl ((List.mem_append.mp there).resolve_right fun beyond => ?_)
      rcases List.mem_cons.mp beyond with rfl | later
      · omega
      · have := (List.pairwise_cons.mp (List.pairwise_append.mp sorted).2.1).1 x later
        omega
    · exact .inr handed

theorem build_keeps {i : Nat} {code : S} {x : StoredEvent} {left : List StoredEvent}
    (inv : Inv topics columns s) (there : s.replays[i]? = some ⟨code, .checked x left⟩)
    (next : step topics columns registry s (.build i) = some t) : Inv topics columns t := by
  obtain ⟨fetched, led, _, _⟩ := inv.replays _ (List.mem_of_getElem? there)
  obtain ⟨fromX, owes⟩ := fetched x List.mem_cons_self
  obtain ⟨report, made⟩ := owed_makes_report owes (inv.stored x fromX)
  simp only [step, there, made, Option.some.injEq] at next
  subst next
  refine stage_keeps inv ⟨fetched, led, ?_, ?_⟩
  · rintro _ _ _ ⟨⟩
    exact ⟨s.rows, made⟩
  · rintro _ _ ⟨⟩

omit [DecidableEq K] in
theorem delete_keeps {i : Nat} {code : S} {x : StoredEvent} {left : List StoredEvent}
    {answered : Bool} (inv : Inv topics columns s)
    (there : s.replays[i]? = some ⟨code, .sent x left⟩) :
    Inv topics columns { setStage s i code (if answered then .sending left else .done) with
      queue := s.queue.filter (· ≠ (code, x.globalPosition)) } := by
  obtain ⟨fetched, led, _, sent⟩ := inv.replays _ (List.mem_of_getElem? there)
  obtain ⟨fromX, handed⟩ := sent x left rfl
  refine ⟨inv.store, inv.stored, inv.known, fun other position queued => ?_,
    fun y fromY other owes => ?_, inv.inOrder, forall_mem_set inv.replays ?_⟩
  · exact inv.queued other position (List.mem_filter.mp queued).1
  · rcases inv.complete y fromY other owes with queued | already
    · by_cases gone : (other, y.globalPosition) = (code, x.globalPosition)
      · cases OmsOrderOutbox.same_position inv.store.rows fromY fromX (Prod.mk.inj gone).2
        exact .inr handed
      · exact .inl (List.mem_filter.mpr ⟨queued, decide_eq_true gone⟩)
    · exact .inr already
  · split
    · exact sending_sound fetched led
    · exact rest_sound (.inr rfl)

theorem step_keeps {a : Action K S} (inv : Inv topics columns s) (ok : ¬ Adrift registry s a)
    (next : step topics columns registry s a = some t) : Inv topics columns t := by
  cases a with
  | write a written => exact write_keeps inv next
  | session a =>
    simp only [step, Option.map_eq_some_iff] at next
    obtain ⟨sessions, _, rfl⟩ := next
    refine start_replays_keep inv fun replay new => ?_
    obtain ⟨_, _, rfl⟩ := List.mem_map.mp new
    rfl
  | wake code =>
    simp only [step] at next
    split at next
    · cases next
      refine start_replays_keep inv fun replay new => ?_
      cases List.mem_singleton.mp new
      rfl
    · cases next
  | fetch i =>
    simp only [step] at next
    split at next
    · split at next
      · cases next
      · cases next
        exact fetch_keeps inv
    · cases next
  | fail i =>
    simp only [step] at next
    split at next
    · split at next
      · cases next
        exact stage_keeps inv (rest_sound (.inr rfl))
      · cases next
    · cases next
  | check i =>
    simp only [step] at next
    split at next
    · rename_i there
      cases next
      exact check_keeps inv there
    · cases next
      exact stage_keeps inv (rest_sound (.inr rfl))
    · cases next
  | build i =>
    cases found : s.replays[i]? with
    | none => simp [step, found] at next
    | some replay =>
      obtain ⟨code, stage⟩ := replay
      cases stage with
      | checked x left => exact build_keeps inv found next
      | waiting | sending | built | sent | done => simp [step, found] at next
  | send i taken =>
    simp only [step] at next
    split at next
    · rename_i there
      split at next
      · split at next
        · cases next
        · cases next
          exact stage_keeps inv (rest_sound (.inr rfl))
      · cases next
        refine send_keeps inv there ?_
        rintro rfl
        by_contra off
        exact ok ⟨_, there, by simpa using off⟩
    · cases next
  | delete i answered =>
    simp only [step] at next
    split at next
    · rename_i there
      cases next
      exact delete_keeps inv there
    · cases next

/-- As long as the acceptor takes no report for a session that is not logged on, no
    report leaves the queue before it was handed over, and the first of each come in
    their order. -/
theorem reports_complete_in_order (topics : OutboxTopics)
    (columns : String → Option (FixColumns S)) (registry : Registry K S)
    (as : List (Action K S))
    (steps : Along (step topics columns registry) (fun s a => ¬ Adrift registry s a) .start as) :
    Throughout (step topics columns registry) (Reported columns) .start as :=
  throughout_mono (fun _ inv => ⟨inv.complete, inv.inOrder⟩)
    (throughout_along (fun _ _ _ inv ok next => step_keeps inv ok next) start_inv steps)

/-- The strategy's one order, and its row once it is routed. -/
def xarbOrder (order : String) : Option (FixColumns String) :=
  if order = "o1" then some ⟨"xarb", "c1", "BTCUSDT"⟩ else none

def routedOrder (_ : String) : OrderRow :=
  { OmsAggregate.submitState OmsOrderEntry.buyTen with
    status := .routed, version := 2, externalOrderId := some "b1"
    brokerConnectionCode := "paper", createdAt := 0 }

def event (eventType : OrderEventType) (payload : OrderEventPayload) (status : OrderStatus)
    (version : Nat) : OrderDomainEvent :=
  ⟨"e", eventType, "o1", 0, "oms", payload, version, status⟩

def append (event : OrderDomainEvent) : List (Action String String) :=
  [.begin, .lock 0 "o1", .insert 0 event, .commit 0].map fun a => .write a routedOrder

def routing : List (Action String String) :=
  append (event .orderRouted (.orderRouted "BINANCE" "b1") .routed 2)

def canceling : List (Action String String) :=
  append (event .orderCanceled (.orderCanceled none) .canceled 3)

def logon : List (Action String String) :=
  [.check "XARB1", .logon "XARB1", .take 0, .finish 0].map .session

def replayOne (i : Nat) (taken : Bool) : List (Action String String) :=
  [.fetch i, .check i, .build i, .send i taken]

/-- The routing is reported live; the cancel waits for the next logon, since the report
    loop's replay finds the session dropped and the acceptor refuses the report. -/
def reconnected : List (Action String String) :=
  .session .start :: logon ++ [.fetch 0, .check 0] ++ routing ++ [.wake "xarb"] ++
    replayOne 1 true ++ [.delete 1 true, .check 1] ++ [.session (.disconnect "XARB1")] ++
    canceling ++ [.wake "xarb"] ++ replayOne 2 false ++
    [.session (.take 0), .session (.finish 0)] ++
    logon ++ replayOne 3 true ++ [.delete 3 true, .check 3]

theorem reconnected_reports :
    (∃ t ∈ run (step ⟨"orders", "fills", "positions"⟩ xarbOrder OmsFixSessions.xarb) .start
      reconnected, t.queue = [] ∧
        t.handings.map (fun h => (h.globalPosition, h.on, h.taken)) =
          [(1, true, true), (2, false, false), (2, true, true)]) ∧
      Throughout (step ⟨"orders", "fills", "positions"⟩ xarbOrder OmsFixSessions.xarb)
        (Reported xarbOrder) .start reconnected :=
  ⟨by decide +kernel, reports_complete_in_order _ xarbOrder OmsFixSessions.xarb reconnected
    (by decide +kernel)⟩

/-- The session drops while its strategy is still taken for live, and the acceptor
    takes the report for it. -/
def dropped : List (Action String String) :=
  .session .start :: logon ++ routing ++ [.session (.disconnect "XARB1")] ++
    replayOne 0 true ++ [.delete 0 true]

theorem dropped_report_lost :
    ¬ Throughout (step ⟨"orders", "fills", "positions"⟩ xarbOrder OmsFixSessions.xarb)
      (Reported xarbOrder) .start dropped := by
  intro reported
  obtain ⟨t, ends, off, x, fromX, owes, gone⟩ : ∃ t ∈ run
      (step ⟨"orders", "fills", "positions"⟩ xarbOrder OmsFixSessions.xarb) .start dropped,
      (∀ handing ∈ t.handings, handing.on = false) ∧ ∃ x ∈ t.store.events,
        owed xarbOrder x = some "xarb" ∧ ("xarb", x.globalPosition) ∉ t.queue := by
    decide +kernel
  rcases (throughout_end reported t ends).1 x fromX "xarb" owes with waits | handed
  · exact gone waits
  · obtain ⟨_, _, _, member⟩ := handed
    cases off _ member

end OmsReportDelivery
