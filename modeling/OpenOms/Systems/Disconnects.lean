import OpenOms.Systems.Killing

/-!
The sessions of one strategy that trades through the OMS, the new orders
requested on them and the cancels that follow each session's end. Checks ask only
whether some session is live, and the cancels run on tasks of their own. Sessions
are numbered as they log on.
-/
namespace OmsDisconnects
open OmsOrders OmsRisk OmsAdmission OmsKilling Lists Runs

inductive Stage where
  | requested
  | locked
  | done
  deriving DecidableEq, Repr

structure Submit where
  session : Nat
  clOrdId : String
  stage : Stage
  deriving DecidableEq, Repr

/-- `session` is the one a FIX order was requested on, `cancels` the sessions
    whose end tried to cancel the order while it was open. -/
structure Order where
  session : Option Nat
  origin : Origin
  status : OrderStatus
  cancels : List Nat
  deriving DecidableEq, Repr

/-- The task a session's end has started, with what it has left to cancel; `none`
    until it has listed the open orders. -/
structure SessionEnd where
  session : Nat
  todo : Option (List Nat)
  deriving DecidableEq, Repr

/-- `current` is the session that is live, as the events have been handled. -/
structure Disconnects where
  logons : Nat
  current : Option Nat
  submits : List Submit
  orders : List Order
  ends : List SessionEnd
  deriving DecidableEq, Repr

def Disconnects.start : Disconnects := ⟨0, none, [], [], []⟩

inductive Action where
  | logon
  | logout
  | request (clOrdId : String)
  -- lock the row and ask for the session; a refused order is recorded or not
  | check (i : Nat) (recorded : Bool)
  | refuse (i : Nat) (recorded : Bool)
  | insert (i : Nat)
  | place (origin : Origin)
  | move (j : Nat) (status : OrderStatus)
  | list (k : Nat)
  | cancel (k : Nat) (status : OrderStatus)
  deriving DecidableEq, Repr

def rowLocked (s : Disconnects) : Bool := s.submits.any (·.stage = .locked)

def isOpen (o : Order) : Bool := openStatuses.contains o.status

/-- The orders `cancel_open` lists, Flatten's own left out. -/
def openOrders (orders : List Order) : List Nat :=
  (List.range orders.length).filter fun j =>
    orders[j]?.any fun o => isOpen o && !(o.origin = .flatten)

def setStage (s : Disconnects) (i : Nat) (submit : Submit) (stage : Stage) : Disconnects :=
  { s with submits := s.submits.set i { submit with stage } }

def store (s : Disconnects) (submit : Submit) (status : OrderStatus) : Disconnects :=
  { s with orders := s.orders ++ [⟨some submit.session, .fix submit.clOrdId, status, []⟩] }

def refused (s : Disconnects) (i : Nat) (submit : Submit) (recorded : Bool) : Disconnects :=
  let ended := setStage s i submit .done
  if recorded then store ended submit .rejected else ended

def tryCancel (session : Nat) (status : OrderStatus) (o : Order) : Order :=
  if isOpen o then { o with status, cancels := o.cancels ++ [session] } else o

def step (s : Disconnects) : Action → Option Disconnects
  | .logon =>
    match s.current with
    | some _ => none
    | none => some { s with logons := s.logons + 1, current := some s.logons }
  | .logout =>
    s.current.map fun session =>
      { s with current := none, ends := s.ends ++ [⟨session, none⟩] }
  | .request clOrdId =>
    s.current.map fun session =>
      { s with submits := s.submits ++ [⟨session, clOrdId, .requested⟩] }
  | .check i recorded =>
    match s.submits[i]? with
    | some ⟨session, clOrdId, .requested⟩ =>
      if rowLocked s then none
      else
        match sessionGate (.fix clOrdId) s.current.isSome with
        | .ok () => some (setStage s i ⟨session, clOrdId, .requested⟩ .locked)
        | .error _ => some (refused s i ⟨session, clOrdId, .requested⟩ recorded)
    | _ => none
  | .refuse i recorded =>
    match s.submits[i]? with
    | some ⟨session, clOrdId, .locked⟩ => some (refused s i ⟨session, clOrdId, .locked⟩ recorded)
    | _ => none
  | .insert i =>
    match s.submits[i]? with
    | some ⟨session, clOrdId, .locked⟩ =>
      let submit : Submit := ⟨session, clOrdId, .locked⟩
      some (store (setStage s i submit .done) submit .submitted)
    | _ => none
  | .place origin =>
    match origin with
    | .fix _ => none
    | _ =>
      if rowLocked s then none
      else some { s with orders := s.orders ++ [⟨none, origin, .submitted, []⟩] }
  | .move j status =>
    match s.orders[j]? with
    | none => none
    | some o =>
      if isOpen o then some { s with orders := s.orders.set j { o with status } } else none
  | .list k =>
    match s.ends[k]? with
    | some ⟨session, none⟩ =>
      if rowLocked s then none
      else some { s with ends := s.ends.set k ⟨session, some (openOrders s.orders)⟩ }
    | _ => none
  | .cancel k status =>
    match s.ends[k]? with
    | some ⟨session, some (j :: rest)⟩ =>
      some { s with
        ends := s.ends.set k ⟨session, some rest⟩
        orders := s.orders.modify j (tryCancel session status) }
    | _ => none

/-- Every submit has returned and every session's end is through with its orders. -/
def Quiet (s : Disconnects) : Prop :=
  (∀ submit ∈ s.submits, submit.stage = .done) ∧ ∀ e ∈ s.ends, e.todo = some []

instance (s : Disconnects) : Decidable (Quiet s) := by
  unfold Quiet
  infer_instance

def Settled (o : Order) : Prop := o.status.isTerminal = true ∨ o.cancels ≠ []

instance (o : Order) : Decidable (Settled o) := by
  unfold Settled
  infer_instance

/-- Once everything has run, the orders of ended sessions are terminal or had a
    cancel tried; and no session's end cancels an order of the session that is
    logged on. -/
def Disconnected (s : Disconnects) : Prop :=
  (Quiet s → ∀ o ∈ s.orders, o.session ≠ none → o.session ≠ s.current → Settled o) ∧
    ∀ o ∈ s.orders, o.session ≠ none → o.session = s.current → o.cancels = []

instance (s : Disconnects) : Decidable (Disconnected s) := by
  unfold Disconnected
  infer_instance

/-- An order is stored whose session has ended, with every session's end through
    its listing; or a listing has an open order of the session that is logged on. -/
def Strays (s : Disconnects) : Action → Prop
  | .insert i =>
    match s.submits[i]? with
    | some ⟨session, _, .locked⟩ => some session ≠ s.current ∧ ∀ e ∈ s.ends, e.todo ≠ none
    | _ => False
  | .list _ => ∃ o ∈ s.orders, o.session ≠ none ∧ o.session = s.current ∧ isOpen o = true
  | _ => False

instance (s : Disconnects) (a : Action) : Decidable (Strays s a) := by
  unfold Strays
  split
  · split <;> infer_instance
  · infer_instance
  · infer_instance

def Awaits (ends : List SessionEnd) (j : Nat) : Prop :=
  ∃ e ∈ ends, ∀ todo ∈ e.todo, j ∈ todo

/-- An order of an ended session is settled or will be; what the ends have listed
    is not the session's that is logged on; and sessions are known by number. -/
structure Inv (s : Disconnects) : Prop where
  ended : ∀ j o, s.orders[j]? = some o → o.session ≠ none → o.session ≠ s.current →
    Settled o ∨ Awaits s.ends j
  spared : ∀ o ∈ s.orders, o.session ≠ none → o.session = s.current → o.cancels = []
  listed : ∀ e ∈ s.ends, ∀ todo ∈ e.todo, ∀ j ∈ todo, j < s.orders.length ∧
    ∀ o, s.orders[j]? = some o → o.session ≠ none → o.session ≠ s.current
  known : ∀ o ∈ s.orders, ∀ n ∈ o.session, n < s.logons
  requested : ∀ submit ∈ s.submits, submit.session < s.logons
  live : ∀ n ∈ s.current, n < s.logons
  origins : ∀ o ∈ s.orders, o.session ≠ none → o.origin ≠ .flatten

theorem open_iff (o : Order) : isOpen o = true ↔ ¬ o.status.isTerminal = true := by
  cases status : o.status <;> simp [isOpen, openStatuses, OrderStatus.isTerminal, status]

theorem start_inv : Inv .start := by
  refine ⟨?_, ?_, ?_, ?_, ?_, ?_, ?_⟩ <;> simp [Disconnects.start]

theorem inv_disconnected {s : Disconnects} (inv : Inv s) : Disconnected s := by
  refine ⟨?_, inv.spared⟩
  rintro ⟨_, through⟩ o member own gone
  obtain ⟨j, there⟩ := List.mem_iff_getElem?.mp member
  rcases inv.ended j o there own gone with settled | ⟨e, waits, todo⟩
  · exact settled
  · have left := todo [] (through e waits)
    cases left

theorem append_keeps {s : Disconnects} (inv : Inv s) (submits : List Submit)
    (requested : ∀ submit ∈ submits, submit.session < s.logons) (new : Order)
    (fresh : new.cancels = []) (known : ∀ n ∈ new.session, n < s.logons)
    (origin : new.session ≠ none → new.origin ≠ .flatten)
    (covered : new.session ≠ none → new.session ≠ s.current →
      Settled new ∨ Awaits s.ends s.orders.length) :
    Inv { s with submits, orders := s.orders ++ [new] } := by
  refine ⟨fun j o there own gone => ?_, fun o member own here => ?_,
    fun e member todo has j inside => ⟨?_, fun o there own => ?_⟩, fun o member n named => ?_,
    requested, inv.live, fun o member own => ?_⟩
  · rcases at_append there with ⟨_, old⟩ | ⟨rfl, rfl⟩
    · exact inv.ended j o old own gone
    · exact covered own gone
  · rcases List.mem_append.mp member with old | only
    · exact inv.spared o old own here
    · cases List.mem_singleton.mp only
      exact fresh
  · have bound := (inv.listed e member todo has j inside).1
    simp only [List.length_append, List.length_cons, List.length_nil]
    omega
  · have bound := (inv.listed e member todo has j inside).1
    rw [List.getElem?_append_left bound] at there
    exact (inv.listed e member todo has j inside).2 o there own
  · rcases List.mem_append.mp member with old | only
    · exact inv.known o old n named
    · cases List.mem_singleton.mp only
      exact known n named
  · rcases List.mem_append.mp member with old | only
    · exact inv.origins o old own
    · cases List.mem_singleton.mp only
      exact origin own

theorem set_requested {s : Disconnects} (inv : Inv s) {i : Nat} {submit : Submit}
    (there : s.submits[i]? = some submit) (stage : Stage) :
    ∀ other ∈ s.submits.set i { submit with stage }, other.session < s.logons :=
  forall_mem_set inv.requested (inv.requested submit (List.mem_of_getElem? there))

theorem stage_keeps {s : Disconnects} (inv : Inv s) {i : Nat} {submit : Submit}
    (there : s.submits[i]? = some submit) (stage : Stage) : Inv (setStage s i submit stage) :=
  ⟨inv.ended, inv.spared, inv.listed, inv.known, set_requested inv there stage, inv.live,
    inv.origins⟩

theorem refused_keeps {s : Disconnects} (inv : Inv s) {i : Nat} {submit : Submit}
    (there : s.submits[i]? = some submit) (recorded : Bool) :
    Inv (refused s i submit recorded) := by
  cases recorded with
  | false => exact stage_keeps inv there .done
  | true =>
    refine append_keeps inv _ (set_requested inv there .done) _ rfl ?_ nofun fun _ _ => ?_
    · rintro n ⟨⟩
      exact inv.requested submit (List.mem_of_getElem? there)
    · exact .inl (.inl rfl)

/-- One session's end moves on: an order it had to cancel is listed still. -/
theorem awaits_set {ends : List SessionEnd} {k : Nat} {e next : SessionEnd} {j : Nat}
    (there : ends[k]? = some e) (awaits : Awaits ends j)
    (keeps : (∀ todo ∈ e.todo, j ∈ todo) → ∀ todo ∈ next.todo, j ∈ todo) :
    Awaits (ends.set k next) j :=
  exists_mem_set there keeps awaits

theorem logon_keeps {s : Disconnects} (inv : Inv s) (none_ : s.current = none) :
    Inv { s with logons := s.logons + 1, current := some s.logons } := by
  have earlier : ∀ o ∈ s.orders, o.session ≠ some s.logons := by
    intro o member named
    exact absurd (inv.known o member s.logons named) (lt_irrefl _)
  refine ⟨fun j o there own _ => inv.ended j o there own (by rwa [none_]),
    fun o member _ here => ?_, fun e member todo has j inside => ?_, fun o member n named => ?_,
    fun submit member => ?_, fun n named => ?_, inv.origins⟩
  · exact absurd here (earlier o member)
  · obtain ⟨bound, _⟩ := inv.listed e member todo has j inside
    exact ⟨bound, fun o there _ => earlier o (List.mem_of_getElem? there)⟩
  · exact Nat.lt_succ_of_lt (inv.known o member n named)
  · exact Nat.lt_succ_of_lt (inv.requested submit member)
  · cases named
    exact Nat.lt_succ_self _

theorem logout_keeps {s : Disconnects} (inv : Inv s) (session : Nat) :
    Inv { s with current := none, ends := s.ends ++ [⟨session, none⟩] } := by
  refine ⟨fun j o _ _ _ => .inr ⟨⟨session, none⟩, by simp, nofun⟩,
    fun o _ own here => absurd here own, fun e member todo has j inside => ?_, inv.known,
    inv.requested, nofun, inv.origins⟩
  rcases List.mem_append.mp member with old | new
  · exact ⟨(inv.listed e old todo has j inside).1, fun o _ own => own⟩
  · cases List.mem_singleton.mp new
    cases has

theorem mem_open_orders {orders : List Order} {j : Nat} : j ∈ openOrders orders ↔
    ∃ o, orders[j]? = some o ∧ isOpen o = true ∧ o.origin ≠ .flatten := by
  simp only [openOrders, List.mem_filter, List.mem_range, Option.any_eq_true, Bool.and_eq_true,
    Bool.not_eq_true', decide_eq_false_iff_not]
  constructor
  · rintro ⟨_, o, there, open_, other⟩
    exact ⟨o, there, open_, other⟩
  · rintro ⟨o, there, open_, other⟩
    exact ⟨(List.getElem?_eq_some_iff.mp there).1, o, there, open_, other⟩

theorem list_keeps {s : Disconnects} (inv : Inv s) {k session : Nat}
    (there : s.ends[k]? = some ⟨session, none⟩) (ok : ¬ Strays s (.list k)) :
    Inv { s with ends := s.ends.set k ⟨session, some (openOrders s.orders)⟩ } := by
  refine ⟨fun j o here own gone => ?_, inv.spared, ?_, inv.known, inv.requested, inv.live,
    inv.origins⟩
  · -- An order that is not settled is open, so it is on the new list.
    by_cases settled : Settled o
    · exact .inl settled
    · obtain ⟨inside, _⟩ := List.getElem?_eq_some_iff.mp there
      have member := List.mem_of_getElem? here
      refine .inr ⟨_, List.mem_set inside _, ?_⟩
      rintro todo ⟨⟩
      refine mem_open_orders.mpr ⟨o, here, ?_, inv.origins o member own⟩
      exact (open_iff o).mpr fun terminal => settled (.inl terminal)
  · refine forall_mem_set inv.listed ?_
    rintro todo ⟨⟩ j inside
    obtain ⟨o, here, open_, _⟩ := mem_open_orders.mp inside
    refine ⟨(List.getElem?_eq_some_iff.mp here).1, fun found at_ own live => ?_⟩
    cases here.symm.trans at_
    exact ok ⟨o, List.mem_of_getElem? here, own, live, open_⟩

@[simp] theorem try_cancel_session (session : Nat) (status : OrderStatus) (o : Order) :
    (tryCancel session status o).session = o.session := by
  unfold tryCancel
  split <;> rfl

@[simp] theorem try_cancel_origin (session : Nat) (status : OrderStatus) (o : Order) :
    (tryCancel session status o).origin = o.origin := by
  unfold tryCancel
  split <;> rfl

theorem try_cancel_settled (session : Nat) (status : OrderStatus) (o : Order) :
    Settled (tryCancel session status o) := by
  by_cases open_ : isOpen o = true
  · exact .inr (by simp [tryCancel, open_])
  · have terminal : o.status.isTerminal = true := by
      by_contra not_
      exact open_ ((open_iff o).mpr not_)
    exact .inl (by simpa [tryCancel, open_] using terminal)

theorem cancel_keeps {s : Disconnects} (inv : Inv s) {k session j : Nat} {rest : List Nat}
    (there : s.ends[k]? = some ⟨session, some (j :: rest)⟩) (status : OrderStatus) :
    Inv { s with
      ends := s.ends.set k ⟨session, some rest⟩
      orders := s.orders.modify j (tryCancel session status) } := by
  have member := List.mem_of_getElem? there
  have same : ∀ old i, (if j = i then tryCancel session status old else old).session =
      old.session := by
    intro old i
    split <;> simp
  refine ⟨fun i o here own gone => ?_, fun o found own live => ?_, ?_, fun o found n named => ?_,
    inv.requested, inv.live, fun o found own => ?_⟩
  · obtain ⟨old, before, rfl⟩ := at_modify here
    rw [same] at own gone
    by_cases this_ : j = i
    · rw [if_pos this_]
      exact .inl (try_cancel_settled session status old)
    · rw [if_neg this_]
      refine (inv.ended i old before own gone).imp_right fun awaits => awaits_set there awaits ?_
      rintro waits todo ⟨⟩
      exact (List.mem_cons.mp (waits _ rfl)).resolve_left (Ne.symm this_)
  · obtain ⟨i, old, before, rfl⟩ := mem_modify found
    rw [same] at own live
    by_cases this_ : j = i
    · -- Nothing of the live session's is on the list.
      subst this_
      exact absurd live ((inv.listed _ member _ rfl j (by simp)).2 old before own)
    · rw [if_neg this_]
      exact inv.spared old (List.mem_of_getElem? before) own live
  · have kept : ∀ e ∈ s.ends, ∀ todo ∈ e.todo, ∀ i ∈ todo,
        i < (s.orders.modify j (tryCancel session status)).length ∧
          ∀ o, (s.orders.modify j (tryCancel session status))[i]? = some o → o.session ≠ none →
            o.session ≠ s.current := by
      intro e inside todo has i listed
      obtain ⟨bound, spared⟩ := inv.listed e inside todo has i listed
      refine ⟨by simpa using bound, fun o here own => ?_⟩
      obtain ⟨old, before, rfl⟩ := at_modify here
      rw [same] at own ⊢
      exact spared old before own
    refine forall_mem_set kept ?_
    rintro todo ⟨⟩ i listed
    exact kept _ member _ rfl i (List.mem_cons_of_mem j listed)
  · obtain ⟨i, old, before, rfl⟩ := mem_modify found
    rw [same] at named
    exact inv.known old (List.mem_of_getElem? before) n named
  · obtain ⟨i, old, before, rfl⟩ := mem_modify found
    rw [same] at own
    have origin := inv.origins old (List.mem_of_getElem? before) own
    split <;> simpa using origin

theorem move_keeps {s : Disconnects} (inv : Inv s) {j : Nat} {o : Order}
    (there : s.orders[j]? = some o) (open_ : isOpen o = true) (status : OrderStatus) :
    Inv { s with orders := s.orders.set j { o with status } } := by
  have member := List.mem_of_getElem? there
  refine ⟨fun i found here own gone => ?_, forall_mem_set inv.spared (inv.spared o member),
    fun e inside todo has i listed => ?_, forall_mem_set inv.known (inv.known o member),
    inv.requested, inv.live, forall_mem_set inv.origins (inv.origins o member)⟩
  · rcases at_set here with ⟨rfl, rfl⟩ | ⟨_, old⟩
    · refine (inv.ended i o there own gone).imp_left fun settled => .inr ?_
      exact settled.resolve_left ((open_iff o).mp open_)
    · exact inv.ended i found old own gone
  · obtain ⟨bound, spared⟩ := inv.listed e inside todo has i listed
    refine ⟨by simpa using bound, fun found here own => ?_⟩
    rcases at_set here with ⟨rfl, rfl⟩ | ⟨_, old⟩
    · exact spared o there own
    · exact spared found old own

theorem step_keeps {s t : Disconnects} {a : Action} (inv : Inv s) (ok : ¬ Strays s a)
    (next : step s a = some t) : Inv t := by
  cases a with
  | logon =>
    simp only [step] at next
    split at next
    · cases next
    · rename_i none_
      cases next
      exact logon_keeps inv none_
  | logout =>
    simp only [step, Option.map_eq_some_iff] at next
    obtain ⟨session, _, rfl⟩ := next
    exact logout_keeps inv session
  | request clOrdId =>
    simp only [step, Option.map_eq_some_iff] at next
    obtain ⟨session, live, rfl⟩ := next
    refine ⟨inv.ended, inv.spared, inv.listed, inv.known, fun submit member => ?_, inv.live,
      inv.origins⟩
    rcases List.mem_append.mp member with old | new
    · exact inv.requested submit old
    · cases List.mem_singleton.mp new
      exact inv.live session live
  | check i recorded =>
    simp only [step] at next
    split at next
    · rename_i session clOrdId there
      split at next
      · cases next
      · split at next
        · cases next
          exact stage_keeps inv there .locked
        · cases next
          exact refused_keeps inv there recorded
    · cases next
  | refuse i recorded =>
    simp only [step] at next
    split at next
    · rename_i session clOrdId there
      cases next
      exact refused_keeps inv there recorded
    · cases next
  | insert i =>
    simp only [step] at next
    split at next
    · rename_i session clOrdId there
      cases next
      refine append_keeps inv _ (set_requested inv there .done) _ rfl ?_ nofun fun _ gone => .inr ?_
      · rintro n ⟨⟩
        exact inv.requested _ (List.mem_of_getElem? there)
      · simp only [Strays, there, not_and, not_forall, not_not] at ok
        obtain ⟨e, member, waiting⟩ := ok gone
        refine ⟨e, member, fun todo has => ?_⟩
        rw [waiting] at has
        cases has
    · cases next
  | place origin =>
    have placed : ∀ origin, Inv { s with orders := s.orders ++ [⟨none, origin, .submitted, []⟩] } :=
      fun origin => append_keeps inv s.submits inv.requested _ rfl nofun
        (fun own => absurd rfl own) fun own => absurd rfl own
    simp only [step] at next
    split at next
    · cases next
    · split at next
      · cases next
      · cases next
        exact placed origin
  | move j status =>
    simp only [step] at next
    split at next
    · cases next
    · rename_i o there
      split at next
      · rename_i open_
        cases next
        exact move_keeps inv there open_ status
      · cases next
  | list k =>
    simp only [step] at next
    split at next
    · rename_i session there
      split at next
      · cases next
      · cases next
        exact list_keeps inv there ok
    · cases next
  | cancel k status =>
    simp only [step] at next
    split at next
    · rename_i session j rest there
      cases next
      exact cancel_keeps inv there status
    · cases next

/-- As long as no step strays, each session's end cancels the orders of the ended
    sessions and none of the session's that is logged on. -/
theorem session_ends_cancel_their_own (as : List Action)
    (steps : Along step (fun s a => ¬ Strays s a) .start as) :
    Throughout step Disconnected .start as :=
  throughout_mono (fun _ => inv_disconnected)
    (throughout_along (fun _ _ _ inv ok next => step_keeps inv ok next) start_inv steps)

/-- An order rests and another is being stored when the session ends; its end
    lists both, and the strategy logs on again and trades. -/
def endThenReconnect : List Action :=
  [.logon, .request "c1", .check 0 true, .insert 0, .request "c2", .check 1 true, .logout,
    .insert 1, .list 0, .logon, .request "c3", .check 2 true, .insert 2, .cancel 0 .canceled,
    .cancel 0 .submitted]

theorem end_then_reconnect_cancels :
    (∃ t ∈ run step .start endThenReconnect, Quiet t ∧
      t.orders.map (·.cancels) = [[0], [0], []] ∧ t.current = some 1) ∧
      Throughout step Disconnected .start endThenReconnect :=
  ⟨by decide +kernel, session_ends_cancel_their_own endThenReconnect (by decide +kernel)⟩

/-- The request of the first session is checked once the second is live and the
    first one's end has listed. -/
def lateCheck : List Action :=
  [.logon, .request "c1", .logout, .list 0, .logon, .check 0 true, .insert 0]

def lateListing : List Action :=
  [.logon, .logout, .logon, .request "c2", .check 0 true, .insert 0, .list 0, .cancel 0 .canceled]

/-- A quick reconnect leaves an order of the ended session working, or has one of
    the new session's cancelled. -/
theorem quick_reconnect_strays :
    ¬ Throughout step Disconnected .start lateCheck ∧
      ¬ Throughout step Disconnected .start lateListing :=
  ⟨not_throughout (by decide +kernel), not_throughout (by decide +kernel)⟩

end OmsDisconnects
