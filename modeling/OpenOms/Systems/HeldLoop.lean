import OpenOms.Library.Broadcast
import OpenOms.Library.Lists
import OpenOms.Library.Runs
import OpenOms.MarketData.Interests

/-!
What is held, told to the market data gateway: read at the start, after a position's
change is heard of and once a minute, while positions change, their changes are announced
after they are committed, and strategies want instruments of their own.
-/
namespace OmsHeldLoop
open OmsMarketData OmsInterests Broadcast Lists Runs

def HELD : String := "held"

def mdOwner (strategyCode : String) : String := "strategy:" ++ strategyCode

def ORDER_LANE_CAPACITY : Nat := 1024

inductive OrderLaneEvent where
  | appended
  | positionChanged (commit : Nat)
  deriving DecidableEq, Repr

inductive Recheck where
  | yes
  | no
  | closed
  deriving DecidableEq, Repr

def needsRecheck : Except RecvError OrderLaneEvent → Recheck
  | .ok (.positionChanged _) => .yes
  | .ok .appended => .no
  | .error (.lagged _) => .yes
  | .error .closed => .closed

def diff (sent : List Int) (held : List InstrumentRef) : List InstrumentRef × List Int :=
  (held.filter (·.id ∉ sent), sent.filter (· ∉ held.map InstrumentRef.id))

structure Commit where
  held : List InstrumentRef
  announced : Bool
  deriving DecidableEq, Repr

inductive Stage where
  | reading
  | read (commit : Nat)
  | subscribed (commit : Nat) (unsubscribe : List Int)
  | waiting
  | draining
  | parked
  deriving DecidableEq, Repr

/-- `pending` are the commits still to be announced, `readAt` the one after which the held
    set was last read, and `failed` is set by a read that failed since. -/
structure Desk where
  commits : List Commit
  pending : List Nat
  lane : Receiver OrderLaneEvent
  closed : Bool
  gateway : Interests
  sent : List Int
  stage : Stage
  readAt : Option Nat
  failed : Bool

def Desk.start (held : List InstrumentRef) : Desk :=
  ⟨[⟨held, false⟩], [], .subscribe, false, .new, [], .reading, none, false⟩

inductive Action where
  | trade (held : List InstrumentRef)
  | amend (held : List InstrumentRef)
  | announce (i : Nat)
  | append
  | close
  | watch (strategyCode : String) (instruments : List InstrumentRef)
  | unwatch (strategyCode : String)
  | read
  | readFails
  | subscribe
  | unsubscribe
  | recv
  | tryRecv
  | idle
  deriving DecidableEq, Repr

def tell (gateway : Interests) (none_ : Bool) (op : Op) : Interests :=
  if none_ then gateway else update gateway op

def step (s : Desk) : Action → Option Desk
  | .trade held =>
    some { s with commits := s.commits ++ [⟨held, true⟩], pending := s.pending ++ [s.commits.length] }
  | .amend held => some { s with commits := s.commits ++ [⟨held, false⟩] }
  | .announce i => s.pending[i]?.map fun commit =>
    { s with pending := s.pending.eraseIdx i, lane := s.lane.send (.positionChanged commit) }
  | .append => some { s with lane := s.lane.send .appended }
  | .close => some { s with closed := true }
  | .watch strategyCode instruments =>
    some { s with gateway := update s.gateway (.subscribe (mdOwner strategyCode) instruments) }
  | .unwatch strategyCode =>
    some { s with gateway := update s.gateway (.unsubscribeOwner (mdOwner strategyCode)) }
  | .read =>
    match s.stage with
    | .reading => some { s with stage := .read (s.commits.length - 1) }
    | _ => none
  | .readFails =>
    match s.stage with
    | .reading => some { s with stage := .waiting, failed := true }
    | _ => none
  | .subscribe =>
    match s.stage with
    | .read commit =>
      s.commits[commit]?.map fun of_ =>
        let (subscribe, unsubscribe) := diff s.sent of_.held
        { s with
          gateway := tell s.gateway subscribe.isEmpty (.subscribe HELD subscribe)
          sent := s.sent ++ subscribe.map InstrumentRef.id
          stage := .subscribed commit unsubscribe }
    | _ => none
  | .unsubscribe =>
    match s.stage with
    | .subscribed commit unsubscribe =>
      some { s with
        gateway := tell s.gateway unsubscribe.isEmpty (.unsubscribe HELD unsubscribe)
        sent := s.sent.filter (· ∉ unsubscribe)
        stage := .waiting, readAt := some commit, failed := false }
    | _ => none
  | .recv =>
    match s.stage with
    | .waiting => (s.lane.recv ORDER_LANE_CAPACITY s.closed).map fun (got, lane) =>
      match needsRecheck got with
      | .yes => { s with lane, stage := .draining }
      | .no => { s with lane }
      | .closed => { s with lane, stage := .parked }
    | _ => none
  | .tryRecv =>
    match s.stage with
    | .draining =>
      match s.lane.recv ORDER_LANE_CAPACITY s.closed with
      | none => some { s with stage := .reading }
      | some (.error .closed, lane) => some { s with lane, stage := .reading }
      | some (_, lane) => some { s with lane }
    | _ => none
  | .idle =>
    match s.stage with
    | .waiting | .parked => some { s with stage := .reading }
    | _ => none

def heldAt (commits : List Commit) (at_ : Option Nat) : List Int :=
  ((at_.bind (commits[·]?)).elim [] Commit.held).map InstrumentRef.id

/-- Between two readings: what was read is told in full. -/
def Stage.settled : Stage → Bool
  | .subscribed .. => false
  | _ => true

def Ahead (s : Desk) (commit : Nat) : Prop :=
  commit ∈ s.pending ∨
    OrderLaneEvent.positionChanged commit ∈ s.lane.log.drop s.lane.next ∧
      (step s .recv).isSome = true

/-- The gateway holds for this owner what was last read, and unless the last reading failed
    whoever waits has yet to hear of each position changed since. -/
structure Followed (s : Desk) : Prop where
  owned : ∀ id, holds s.gateway.owners HELD id = true ↔ id ∈ s.sent
  priced : ∀ id ∈ s.sent, id ∈ s.gateway.held
  told : s.stage.settled = true → ∀ id, id ∈ s.sent ↔ id ∈ heldAt s.commits s.readAt
  ahead : s.stage = .waiting → s.failed = false → ∀ commit of_, s.commits[commit]? = some of_ →
    of_.announced = true → (∀ at_ ∈ s.readAt, at_ < commit) → Ahead s commit
  -- with all heard of, only what nobody announces can be missed
  current : s.stage = .waiting → s.failed = false → s.pending = [] → ¬ s.lane.Behind →
    (∀ commit of_, s.commits[commit]? = some of_ → (∀ at_ ∈ s.readAt, at_ < commit) →
      of_.announced = true) →
    ∀ id, holds s.gateway.owners HELD id = true ↔ id ∈ heldAt s.commits (some (s.commits.length - 1))
  backstop : s.stage = .waiting ∨ s.stage = .parked →
    ∃ t, run step s [.idle, .read, .subscribe, .unsubscribe] = some t ∧ t.commits = s.commits ∧
      ∀ id, holds t.gateway.owners HELD id = true ↔
        id ∈ heldAt s.commits (some (s.commits.length - 1))

def Stage.telling : Stage → Option Nat
  | .read commit => some commit
  | .subscribed commit _ => some commit
  | _ => none

def Covered (s : Desk) (commit : Nat) : Prop :=
  match s.stage with
  | .reading | .draining => True
  | .read at_ | .subscribed at_ _ => commit ≤ at_
  | .waiting | .parked => s.failed = true ∨ ∃ at_ ∈ s.readAt, commit ≤ at_

structure Inv (s : Desk) : Prop where
  union_ : s.gateway.held = union s.gateway.owners
  owned : ∀ id, holds s.gateway.owners HELD id = true ↔ id ∈ s.sent
  told : s.stage.settled = true → ∀ id, id ∈ s.sent ↔ id ∈ heldAt s.commits s.readAt
  between : ∀ commit unsubscribe, s.stage = .subscribed commit unsubscribe →
    ∀ id, id ∈ s.sent ∧ id ∉ unsubscribe ↔ id ∈ heldAt s.commits (some commit)
  begun : s.commits ≠ []
  readKnown : ∀ at_ ∈ s.readAt, at_ < s.commits.length
  tellingKnown : ∀ at_ ∈ s.stage.telling, at_ < s.commits.length
  sentKnown : ∀ commit, OrderLaneEvent.positionChanged commit ∈ s.lane.log →
    commit < s.commits.length
  pendingKnown : ∀ commit ∈ s.pending, commit < s.commits.length
  announced : ∀ commit of_, s.commits[commit]? = some of_ → of_.announced = true →
    commit ∈ s.pending ∨ OrderLaneEvent.positionChanged commit ∈ s.lane.log
  place : s.lane.next ≤ s.lane.log.length
  heard : ∀ commit, OrderLaneEvent.positionChanged commit ∈ s.lane.log.take s.lane.next →
    Covered s commit
  hasRead : s.stage = .waiting → s.failed = false → s.readAt.isSome = true

theorem held_at_snoc (commits : List Commit) (last : Commit) {at_ : Option Nat}
    (known : ∀ k ∈ at_, k < commits.length) : heldAt (commits ++ [last]) at_ = heldAt commits at_ := by
  cases at_ with
  | none => rfl
  | some k =>
    have there := known k rfl
    simp only [heldAt, Option.bind_some, List.getElem?_append_left there]

theorem held_at_some {commits : List Commit} {k : Nat} {of_ : Commit} (there : commits[k]? = some of_) :
    heldAt commits (some k) = of_.held.map InstrumentRef.id := by
  rw [heldAt, Option.bind_some, there, Option.elim_some]

theorem md_owner_other (strategyCode : String) : mdOwner strategyCode ≠ HELD := by
  intro same
  have chars := congrArg String.toList same
  simp [mdOwner, HELD] at chars

theorem holds_update (gateway : Interests) (op : Op) (id : Int) :
    holds (update gateway op).owners HELD id = wishes HELD id (holds gateway.owners HELD id) op := by
  rw [update_owners, holds_retain, holds_change]

theorem update_union (gateway : Interests) (op : Op) :
    (update gateway op).held = union (update gateway op).owners := by
  rw [update_held, update_owners]

theorem holds_tell_subscribe (gateway : Interests) (instruments : List InstrumentRef) (id : Int) :
    holds (tell gateway instruments.isEmpty (.subscribe HELD instruments)).owners HELD id =
      (holds gateway.owners HELD id || decide (id ∈ instruments.map InstrumentRef.id)) := by
  unfold tell
  split
  · rename_i none_
    rw [List.isEmpty_iff.mp none_]
    simp
  · simp [holds_update, wishes]

theorem holds_tell_unsubscribe (gateway : Interests) (instrumentIds : List Int) (id : Int) :
    holds (tell gateway instrumentIds.isEmpty (.unsubscribe HELD instrumentIds)).owners HELD id =
      (holds gateway.owners HELD id && !decide (id ∈ instrumentIds)) := by
  unfold tell
  split
  · rename_i none_
    rw [List.isEmpty_iff.mp none_]
    simp
  · simp [holds_update, wishes]

theorem tell_union {gateway : Interests} (union_ : gateway.held = union gateway.owners)
    (none_ : Bool) (op : Op) :
    (tell gateway none_ op).held = union (tell gateway none_ op).owners := by
  unfold tell
  split
  · exact union_
  · exact update_union gateway op

theorem mem_heard {lane : Receiver OrderLaneEvent} {e : OrderLaneEvent} (there : e ∈ lane.log) :
    e ∈ lane.log.take lane.next ∨ e ∈ lane.log.drop lane.next := by
  rw [← List.take_append_drop lane.next lane.log] at there
  exact List.mem_append.mp there

theorem start_inv (held : List InstrumentRef) : Inv (.start held) := by
  constructor
  case union_ =>
    refine Std.ExtTreeMap.ext_getElem? ?_
    intro id
    simp [Desk.start, Interests.new, union]
  case announced =>
    intro commit of_ there flagged
    obtain rfl := List.mem_singleton.mp (List.mem_of_getElem? there)
    cases flagged
  all_goals simp [Desk.start, Interests.new, holds, heldAt, Receiver.subscribe, Stage.telling]

theorem commit_inv {s : Desk} (inv : Inv s) (last : Commit) (pending : List Nat)
    (queued : pending = s.pending ++ if last.announced then [s.commits.length] else []) :
    Inv { s with commits := s.commits ++ [last], pending } := by
  have more : s.commits.length < (s.commits ++ [last]).length := by simp
  constructor
  case union_ => exact inv.union_
  case owned => exact inv.owned
  case told =>
    intro settled id
    rw [held_at_snoc s.commits last inv.readKnown]
    exact inv.told settled id
  case between =>
    intro commit unsubscribe at_ id
    have known : ∀ k ∈ some commit, k < s.commits.length := by
      have telling := inv.tellingKnown
      rw [show s.stage = _ from at_] at telling
      exact telling
    rw [held_at_snoc s.commits last known]
    exact inv.between commit unsubscribe at_ id
  case begun => simp
  case readKnown => exact fun at_ there => (inv.readKnown at_ there).trans more
  case tellingKnown => exact fun at_ there => (inv.tellingKnown at_ there).trans more
  case sentKnown => exact fun commit there => (inv.sentKnown commit there).trans more
  case pendingKnown =>
    intro commit member
    rw [queued] at member
    rcases List.mem_append.mp member with before | new
    · exact (inv.pendingKnown commit before).trans more
    · split at new
      · rw [List.mem_singleton.mp new]
        exact more
      · cases new
  case announced =>
    intro commit of_ there flagged
    rw [queued]
    by_cases before : commit < s.commits.length
    · rw [List.getElem?_append_left before] at there
      rcases inv.announced commit of_ there flagged with waits | sent
      · exact Or.inl (List.mem_append_left _ waits)
      · exact Or.inr sent
    · obtain rfl : commit = s.commits.length := by
        have below := (List.getElem?_eq_some_iff.mp there).1
        rw [List.length_append, List.length_singleton] at below
        omega
      rw [List.getElem?_concat_length] at there
      cases there
      rw [if_pos flagged]
      exact Or.inl (List.mem_append_right _ List.mem_cons_self)
  case place => exact inv.place
  case heard => exact inv.heard
  case hasRead => exact inv.hasRead

theorem send_inv {s : Desk} (inv : Inv s) (e : OrderLaneEvent) (pending : List Nat)
    (subset : ∀ commit ∈ pending, commit ∈ s.pending)
    (gone : ∀ commit ∈ s.pending, commit ∈ pending ∨ e = .positionChanged commit)
    (known : ∀ commit, e = .positionChanged commit → commit < s.commits.length) :
    Inv { s with pending, lane := s.lane.send e } := by
  constructor
  case union_ => exact inv.union_
  case owned => exact inv.owned
  case told => exact inv.told
  case between => exact inv.between
  case begun => exact inv.begun
  case readKnown => exact inv.readKnown
  case tellingKnown => exact inv.tellingKnown
  case sentKnown =>
    intro commit there
    rcases List.mem_append.mp there with before | new
    · exact inv.sentKnown commit before
    · exact known commit (List.mem_singleton.mp new).symm
  case pendingKnown => exact fun commit member => inv.pendingKnown commit (subset commit member)
  case announced =>
    intro commit of_ there flagged
    rcases inv.announced commit of_ there flagged with waits | sent
    · rcases gone commit waits with still | now
      · exact Or.inl still
      · exact Or.inr (List.mem_append_right _ (List.mem_singleton.mpr now.symm))
    · exact Or.inr (List.mem_append_left _ sent)
  case place =>
    have place := inv.place
    simp only [Receiver.send, List.length_append, List.length_singleton]
    omega
  case heard =>
    intro commit there
    simp only [Receiver.send, List.take_append_of_le_length inv.place] at there
    exact inv.heard commit there
  case hasRead => exact inv.hasRead

theorem strategy_inv {s : Desk} (inv : Inv s) (op : Op) (other : op.owner ≠ HELD) :
    Inv { s with gateway := update s.gateway op } := by
  have owned : ∀ id, holds (update s.gateway op).owners HELD id = true ↔ id ∈ s.sent := by
    intro id
    rw [holds_update, wishes_other other]
    exact inv.owned id
  exact { inv with union_ := update_union s.gateway op, owned }

theorem read_inv {s : Desk} (inv : Inv s) (at_ : s.stage = .reading) :
    Inv { s with stage := .read (s.commits.length - 1) } := by
  have begun := List.length_pos_iff.mpr inv.begun
  have told : ∀ id, id ∈ s.sent ↔ id ∈ heldAt s.commits s.readAt := inv.told (by rw [at_]; rfl)
  have tellingKnown : ∀ k ∈ some (s.commits.length - 1), k < s.commits.length := by
    intro k there
    cases there
    omega
  have heard : ∀ commit, OrderLaneEvent.positionChanged commit ∈ s.lane.log.take s.lane.next →
      commit ≤ s.commits.length - 1 := by
    intro commit there
    have known := inv.sentKnown commit (List.mem_of_mem_take there)
    omega
  exact { inv with
    told := fun _ => told, tellingKnown, heard
    between := by simp
    hasRead := by simp }

theorem read_fails_inv {s : Desk} (inv : Inv s) (at_ : s.stage = .reading) :
    Inv { s with stage := .waiting, failed := true } := by
  have told : ∀ id, id ∈ s.sent ↔ id ∈ heldAt s.commits s.readAt := inv.told (by rw [at_]; rfl)
  exact { inv with
    told := fun _ => told
    between := by simp
    tellingKnown := by simp [Stage.telling]
    heard := fun _ _ => Or.inl rfl
    hasRead := by simp }

/-- Once the new ones are subscribed, leaving the others out leaves what was read. -/
theorem subscribe_inv {s : Desk} (inv : Inv s) {commit : Nat} {of_ : Commit}
    (at_ : s.stage = .read commit) (there : s.commits[commit]? = some of_) :
    Inv { s with
      gateway := tell s.gateway (diff s.sent of_.held).1.isEmpty (.subscribe HELD (diff s.sent of_.held).1)
      sent := s.sent ++ (diff s.sent of_.held).1.map InstrumentRef.id
      stage := .subscribed commit (diff s.sent of_.held).2 } := by
  have heard := inv.heard
  have tellingKnown := inv.tellingKnown
  simp only [Covered, at_, Stage.telling] at heard tellingKnown
  have owned : ∀ id, holds (tell s.gateway (diff s.sent of_.held).1.isEmpty
      (.subscribe HELD (diff s.sent of_.held).1)).owners HELD id = true ↔
        id ∈ s.sent ++ (diff s.sent of_.held).1.map InstrumentRef.id := by
    intro id
    rw [holds_tell_subscribe, Bool.or_eq_true, inv.owned, decide_eq_true_eq, List.mem_append]
  have between : ∀ id, id ∈ s.sent ++ (diff s.sent of_.held).1.map InstrumentRef.id ∧
      id ∉ (diff s.sent of_.held).2 ↔ id ∈ heldAt s.commits (some commit) := by
    intro id
    rw [held_at_some there]
    simp only [diff, List.mem_append, List.mem_map, List.mem_filter, decide_eq_true_eq, not_and,
      not_not]
    constructor
    · rintro ⟨here | ⟨i, ⟨member, -⟩, rfl⟩, kept⟩
      · exact kept here
      · exact ⟨i, member, rfl⟩
    · rintro ⟨i, member, rfl⟩
      refine ⟨?_, fun _ => ⟨i, member, rfl⟩⟩
      by_cases here : i.id ∈ s.sent
      · exact Or.inl here
      · exact Or.inr ⟨i, ⟨member, here⟩, rfl⟩
  exact { inv with
    union_ := tell_union inv.union_ _ _
    owned, tellingKnown, heard
    told := by simp [Stage.settled]
    between := by
      intro k unsubscribe same
      cases same
      exact between
    hasRead := by simp }

theorem unsubscribe_inv {s : Desk} (inv : Inv s) {commit : Nat} {unsubscribe : List Int}
    (at_ : s.stage = .subscribed commit unsubscribe) :
    Inv { s with
      gateway := tell s.gateway unsubscribe.isEmpty (.unsubscribe HELD unsubscribe)
      sent := s.sent.filter (· ∉ unsubscribe)
      stage := .waiting, readAt := some commit, failed := false } := by
  have heard := inv.heard
  have tellingKnown := inv.tellingKnown
  simp only [Covered, at_, Stage.telling] at heard tellingKnown
  have owned : ∀ id, holds (tell s.gateway unsubscribe.isEmpty
      (.unsubscribe HELD unsubscribe)).owners HELD id = true ↔
        id ∈ s.sent.filter (· ∉ unsubscribe) := by
    intro id
    rw [holds_tell_unsubscribe, Bool.and_eq_true, inv.owned, List.mem_filter]
    simp
  have told : ∀ id, id ∈ s.sent.filter (· ∉ unsubscribe) ↔ id ∈ heldAt s.commits (some commit) := by
    intro id
    rw [← inv.between commit unsubscribe at_ id, List.mem_filter, decide_eq_true_eq]
  exact { inv with
    union_ := tell_union inv.union_ _ _
    owned
    told := fun _ => told
    between := by simp
    readKnown := tellingKnown
    tellingKnown := by simp [Stage.telling]
    heard := fun v there => Or.inr ⟨commit, rfl, heard v there⟩
    hasRead := fun _ _ => rfl }

theorem recv_place {r r' : Receiver OrderLaneEvent} {closed : Bool}
    {got : Except RecvError OrderLaneEvent}
    (received : r.recv ORDER_LANE_CAPACITY closed = some (got, r'))
    (place : r.next ≤ r.log.length) : r'.next ≤ r'.log.length := by
  rcases recv_cases received with ⟨-, -, rfl⟩ | ⟨-, ⟨a, at_, -⟩, rfl⟩ | ⟨-, -, -, rfl⟩
  · exact Nat.sub_le _ _
  · exact (List.getElem?_eq_some_iff.mp at_).1
  · exact place

theorem received_inv {s : Desk} (inv : Inv s) {got : Except RecvError OrderLaneEvent}
    {lane : Receiver OrderLaneEvent} (received : s.lane.recv ORDER_LANE_CAPACITY s.closed = some (got, lane))
    {stage : Stage} (settled : s.stage.settled = true) (none_ : stage.telling = none)
    (later : stage.settled = true)
    (heard : ∀ commit, OrderLaneEvent.positionChanged commit ∈ lane.log.take lane.next →
      Covered { s with lane, stage } commit)
    (hasRead : stage = .waiting → s.failed = false → s.readAt.isSome = true) :
    Inv { s with lane, stage } := by
  have same := recv_log received
  have sentKnown : ∀ commit, OrderLaneEvent.positionChanged commit ∈ lane.log →
      commit < s.commits.length := by
    rw [same]
    exact inv.sentKnown
  have announced : ∀ commit of_, s.commits[commit]? = some of_ → of_.announced = true →
      commit ∈ s.pending ∨ OrderLaneEvent.positionChanged commit ∈ lane.log := by
    rw [same]
    exact inv.announced
  have between : ∀ commit unsubscribe, stage = .subscribed commit unsubscribe →
      ∀ id, id ∈ s.sent ∧ id ∉ unsubscribe ↔ id ∈ heldAt s.commits (some commit) := by
    intro commit unsubscribe at_
    rw [at_] at later
    cases later
  exact { inv with
    sentKnown, announced, between, heard, hasRead
    told := fun _ => inv.told settled
    tellingKnown := by simp [none_]
    place := recv_place received inv.place }

def afterRecv : Recheck → Stage
  | .yes => .draining
  | .no => .waiting
  | .closed => .parked

theorem waiting_inv {s : Desk} (inv : Inv s) (at_ : s.stage = .waiting)
    {got : Except RecvError OrderLaneEvent} {lane : Receiver OrderLaneEvent}
    (received : s.lane.recv ORDER_LANE_CAPACITY s.closed = some (got, lane)) :
    Inv { s with lane, stage := afterRecv (needsRecheck got) } := by
  have heard := inv.heard
  simp only [Covered, at_] at heard
  refine received_inv inv received (by rw [at_]; rfl) ?_ ?_ ?_ ?_
  · cases needsRecheck got <;> rfl
  · cases needsRecheck got <;> rfl
  · intro commit there
    rcases recv_cases received with ⟨-, rfl, rfl⟩ | ⟨-, ⟨a, next, rfl⟩, rfl⟩ | ⟨-, -, rfl, rfl⟩
    · trivial
    · cases a with
      | positionChanged _ => trivial
      | appended =>
        rw [List.take_add_one, next] at there
        rcases List.mem_append.mp there with before | new
        · exact heard commit before
        · simp at new
    · exact heard commit there
  · intro _ read
    exact inv.hasRead at_ read

theorem draining_inv {s : Desk} (inv : Inv s) (at_ : s.stage = .draining)
    {got : Except RecvError OrderLaneEvent} {lane : Receiver OrderLaneEvent}
    (received : s.lane.recv ORDER_LANE_CAPACITY s.closed = some (got, lane)) {stage : Stage}
    (next : stage = .draining ∨ stage = .reading) : Inv { s with lane, stage } := by
  rcases next with rfl | rfl
  all_goals
    refine received_inv inv received (by rw [at_]; rfl) rfl rfl ?_ (by simp)
    intro _ _
    trivial

theorem rest_inv {s : Desk} (inv : Inv s) (settled : s.stage.settled = true) :
    Inv { s with stage := .reading } := by
  exact { inv with
    told := fun _ => inv.told settled
    between := by simp
    tellingKnown := by simp [Stage.telling]
    heard := fun _ _ => trivial
    hasRead := by simp }

theorem step_inv {s t : Desk} {a : Action} (inv : Inv s) (stepped : step s a = some t) : Inv t := by
  cases a with
  | trade held =>
    cases stepped
    exact commit_inv inv ⟨held, true⟩ _ rfl
  | amend held =>
    cases stepped
    exact commit_inv inv ⟨held, false⟩ s.pending (List.append_nil _).symm
  | announce i =>
    obtain ⟨commit, at_, rfl⟩ := Option.map_eq_some_iff.mp stepped
    refine send_inv inv (.positionChanged commit) _ ?_ ?_ ?_
    · exact fun v member => List.mem_of_mem_eraseIdx member
    · intro v member
      by_cases same : v = commit
      · exact Or.inr (congrArg _ same.symm)
      · refine Or.inl (List.mem_eraseIdx_iff_getElem?.mpr ?_)
        obtain ⟨j, there⟩ := List.mem_iff_getElem?.mp member
        refine ⟨j, ?_, there⟩
        rintro rfl
        exact same (Option.some.inj (there.symm.trans at_))
    · intro v same
      cases same
      exact inv.pendingKnown _ (List.mem_of_getElem? at_)
  | append =>
    cases stepped
    exact send_inv inv .appended s.pending (fun _ member => member) (fun _ => Or.inl)
      (fun _ same => by cases same)
  | close =>
    cases stepped
    exact { inv with }
  | watch strategyCode instruments =>
    cases stepped
    exact strategy_inv inv _ (md_owner_other strategyCode)
  | unwatch strategyCode =>
    cases stepped
    exact strategy_inv inv _ (md_owner_other strategyCode)
  | read =>
    simp only [step] at stepped
    split at stepped
    · rename_i at_
      cases stepped
      exact read_inv inv at_
    · cases stepped
  | readFails =>
    simp only [step] at stepped
    split at stepped
    · rename_i at_
      cases stepped
      exact read_fails_inv inv at_
    · cases stepped
  | subscribe =>
    simp only [step] at stepped
    split at stepped
    · rename_i commit at_
      obtain ⟨of_, there, rfl⟩ := Option.map_eq_some_iff.mp stepped
      exact subscribe_inv inv at_ there
    · cases stepped
  | unsubscribe =>
    simp only [step] at stepped
    split at stepped
    · rename_i commit unsubscribe at_
      cases stepped
      exact unsubscribe_inv inv at_
    · cases stepped
  | recv =>
    simp only [step] at stepped
    split at stepped
    · rename_i at_
      obtain ⟨⟨got, lane⟩, received, rfl⟩ := Option.map_eq_some_iff.mp stepped
      have next := waiting_inv inv at_ received
      cases means : needsRecheck got with
      | yes => simpa only [means, afterRecv] using next
      | no => simpa only [means, afterRecv, ← at_] using next
      | closed => simpa only [means, afterRecv] using next
    · cases stepped
  | tryRecv =>
    simp only [step] at stepped
    split at stepped
    · rename_i at_
      split at stepped
      · cases stepped
        exact rest_inv inv (by rw [at_]; rfl)
      · rename_i lane received
        cases stepped
        exact draining_inv inv at_ received (Or.inr rfl)
      · rename_i got lane _ received
        cases stepped
        have next := draining_inv inv at_ received (Or.inl rfl)
        simpa only [← at_] using next
    · cases stepped
  | idle =>
    simp only [step] at stepped
    split at stepped
    · rename_i at_
      cases stepped
      exact rest_inv inv (by rw [at_]; rfl)
    · rename_i at_
      cases stepped
      exact rest_inv inv (by rw [at_]; rfl)
    · cases stepped

theorem priced {s : Desk} (inv : Inv s) {id : Int} (sent : id ∈ s.sent) : id ∈ s.gateway.held := by
  obtain ⟨entry, there, -⟩ := (Option.any_eq_true _ _).mp ((inv.owned id).mpr sent)
  rw [inv.union_, Std.ExtTreeMap.mem_iff_isSome_getElem?, union_get, described, there]
  rfl

theorem ahead {s : Desk} (inv : Inv s) (at_ : s.stage = .waiting) (read : s.failed = false)
    {commit : Nat} {of_ : Commit} (there : s.commits[commit]? = some of_)
    (flagged : of_.announced = true) (since : ∀ k ∈ s.readAt, k < commit) : Ahead s commit := by
  rcases inv.announced commit of_ there flagged with waits | sent
  · exact Or.inl waits
  · rcases mem_heard sent with passed | later
    · have covered := inv.heard commit passed
      simp only [Covered, at_, read] at covered
      rcases covered with failed | ⟨k, known, le⟩
      · cases failed
      · exact absurd (since k known) (Nat.not_lt.mpr le)
    · refine Or.inr ⟨later, ?_⟩
      have behind : s.lane.Behind := by
        have some_ := List.length_pos_of_mem later
        rw [List.length_drop] at some_
        exact Nat.lt_of_sub_pos some_
      simp only [step, at_, Option.isSome_map]
      exact recv_behind behind

theorem read_last {s : Desk} (inv : Inv s) (at_ : s.stage = .waiting) (read : s.failed = false)
    (told : s.pending = []) (drained : ¬ s.lane.Behind)
    (flagged : ∀ commit of_, s.commits[commit]? = some of_ → (∀ k ∈ s.readAt, k < commit) →
      of_.announced = true) : s.readAt = some (s.commits.length - 1) := by
  obtain ⟨k, known⟩ := Option.isSome_iff_exists.mp (inv.hasRead at_ read)
  have below := inv.readKnown k known
  by_cases last : k = s.commits.length - 1
  · rw [known, last]
  · have within : s.commits.length - 1 < s.commits.length := by omega
    have since : ∀ j ∈ s.readAt, j < s.commits.length - 1 := by
      intro j there
      obtain rfl := Option.some.inj (known.symm.trans there)
      omega
    have there := List.getElem?_eq_getElem within
    rcases ahead inv at_ read there (flagged _ _ there since) since with waits | ⟨later, -⟩
    · rw [told] at waits
      cases waits
    · rw [List.drop_eq_nil_of_le (Nat.not_lt.mp drained)] at later
      cases later

theorem reading_run {s : Desk} (inv : Inv s) (at_ : s.stage = .waiting ∨ s.stage = .parked) :
    ∃ t, run step s [.idle, .read, .subscribe, .unsubscribe] = some t ∧ t.commits = s.commits ∧
      t.stage = .waiting ∧ t.readAt = some (s.commits.length - 1) := by
  have begun := List.length_pos_iff.mpr inv.begun
  have there := List.getElem?_eq_getElem (show s.commits.length - 1 < s.commits.length by omega)
  have idle : step s .idle = some { s with stage := .reading } := by
    rcases at_ with at_ | at_ <;> simp only [step, at_]
  have subscribe : ∃ m unsubscribe,
      step { s with stage := .read (s.commits.length - 1) } .subscribe = some m ∧
        m.commits = s.commits ∧ m.stage = .subscribed (s.commits.length - 1) unsubscribe := by
    simp only [step, there, Option.map_some]
    exact ⟨_, _, rfl, rfl, rfl⟩
  obtain ⟨m, unsubscribe, subscribed, commits, stage⟩ := subscribe
  have unsubscribed : ∃ t, step m .unsubscribe = some t ∧ t.commits = s.commits ∧
      t.stage = .waiting ∧ t.readAt = some (s.commits.length - 1) := by
    simp only [step, stage]
    exact ⟨_, rfl, commits, rfl, rfl⟩
  obtain ⟨t, last, left⟩ := unsubscribed
  refine ⟨t, ?_, left⟩
  exact run_cons.mpr ⟨_, idle, run_cons.mpr ⟨_, rfl,
    run_cons.mpr ⟨m, subscribed, run_cons.mpr ⟨t, last, rfl⟩⟩⟩⟩

theorem run_inv {s t : Desk} {acts : List Action} (inv : Inv s) (ran : run step s acts = some t) :
    Inv t := by
  have all : Throughout step Inv s acts :=
    throughout_keeps (fun _ _ _ before stepped => step_inv before stepped) inv acts
  exact throughout_end all t ran

theorem owned_told {s : Desk} (inv : Inv s) (settled : s.stage.settled = true) {k : Nat}
    (read : s.readAt = some k) (id : Int) :
    holds s.gateway.owners HELD id = true ↔ id ∈ heldAt s.commits (some k) := by
  rw [inv.owned id, inv.told settled id, read]

theorem followed {s : Desk} (inv : Inv s) : Followed s := by
  constructor
  · exact inv.owned
  · exact fun id => priced inv
  · exact inv.told
  · exact fun at_ read commit of_ there flagged since => ahead inv at_ read there flagged since
  · intro at_ read told drained flagged
    exact owned_told inv (by rw [at_]; rfl) (read_last inv at_ read told drained flagged)
  · intro at_
    obtain ⟨t, ran, commits, stage, read⟩ := reading_run inv at_
    refine ⟨t, ran, commits, ?_⟩
    rw [← commits]
    rw [← commits] at read
    exact owned_told (run_inv inv ran) (by rw [stage]; rfl) read

/-- However trades, their announcements, strategies and the loop's own readings fall, the
    gateway is told what is held: all that was last read, and soon what came since. -/
theorem held_followed (held : List InstrumentRef) (acts : List Action) :
    Throughout step Followed (.start held) acts := by
  have all : Throughout step Inv (.start held) acts :=
    throughout_keeps (fun _ _ _ before stepped => step_inv before stepped) (start_inv held) acts
  exact throughout_mono (fun _ => followed) all

end OmsHeldLoop
