import OpenOms.Systems.Reducing

/-!
Flatten: a strategy is set to reducing, its open orders are asked to cancel, its
positions are read and each is sent one closing order. Any number of calls run at
once; the venue confirms a cancel, or fills the order after all, when it likes.
-/
namespace OmsFlatten
open OmsOrders OmsAggregate OmsPositions OmsOrderStore OmsExecution OmsOrderEntry OmsOrderWrites
open OmsOrderEngine OmsRisk OmsRiskEngine OmsGuard OmsScope OmsReducing Lists Runs

structure Holding where
  instrumentId : String
  symbol : String
  scope : Scope
  deriving DecidableEq, Repr

structure ControlReport where
  cancelled : Nat
  cancelFailures : List String
  flattenOrders : Nat
  skipped : List String
  deriving DecidableEq, Repr

def ControlReport.empty : ControlReport := ⟨0, [], 0, []⟩

def ControlReport.skip (self : ControlReport) (symbol reason : String) : ControlReport :=
  { self with skipped := self.skipped ++ [s!"{symbol}: {reason}"] }

inductive CallStage where
  | listing
  | cancelling (left : List (Nat × Nat))
  | closing (left : List (Nat × ℚ))
  -- past its checks, not inserted, with the position it was sized by
  | submitting (k : Nat) (netQty : ℚ) (cmd : SubmitOrder) (left : List (Nat × ℚ))
  | sending (k : Nat) (left : List (Nat × ℚ))
  | over
  deriving DecidableEq, Repr

structure Call where
  strategy : Strategy
  stage : CallStage
  report : ControlReport
  deriving DecidableEq, Repr

inductive Phase where
  | trading
  | flattening
  | closing
  deriving DecidableEq, Repr

structure Flatten where
  portfolioId : String
  holdings : List Holding
  calls : List Call
  phase : Phase
  deriving DecidableEq, Repr

def Flatten.start (portfolioId : String)
    (positions : List (String × String × Option PositionMath)) : Flatten where
  portfolioId := portfolioId
  holdings := positions.map fun (instrumentId, symbol, position) =>
    ⟨instrumentId, symbol, ⟨[], position⟩⟩
  calls := []
  phase := .trading

inductive CancelAnswer where
  | requested
  | canceled (metadata : EventMetadata)
  | failed (message : String)
  deriving DecidableEq, Repr

/-- What one closing order's submit reads beside the position. -/
structure Quoted where
  mark : Option Mark
  account : Option String
  row : Option RiskConfig
  quoteCurrency : String
  contractSize : ℚ
  deriving DecidableEq, Repr

inductive Action where
  | work (k : Nat) (cmd : SubmitOrder) (metadata : EventMetadata) (brokerConnectionCode : String)
      (createdAt : Nat)
  | report (k i : Nat) (fates : List AttemptFate) (report : ExecutionReport)
      (metadata : EventMetadata)
  | route (k i : Nat) (venue externalOrderId : String) (metadata : EventMetadata)
  | flatten (strategy : Strategy)
  | list (c : Nat) (failure : Option String)
  | cancel (c : Nat) (answer : CancelAnswer)
  | read (c : Nat)
  | check (c : Nat) (orderId : String) (quoted : Quoted)
  | insert (c : Nat) (metadata : EventMetadata) (brokerConnectionCode : String) (createdAt : Nat)
  | answered (c : Nat) (failure : Option String)
  | stop (c : Nat)
  deriving DecidableEq, Repr

/-- The opposite side, the whole size, priced at the band's edge on the aggressive side. -/
def flattenOrder (netQty mid bandPct : ℚ) : OrderSide × ℚ × ℚ :=
  if netQty > 0 then (.sell, netQty, mid * (100 - bandPct) / 100)
  else (.buy, -netQty, mid * (100 + bandPct) / 100)

def closingOrder (strategy : Strategy) (portfolioId orderId account instrumentId : String)
    (netQty mid bandPct : ℚ) : SubmitOrder :=
  let (side, quantity, limit) := flattenOrder netQty mid bandPct
  { orderId := orderId
    clientOrderId := s!"flatten-{strategy.code}"
    portfolioId := portfolioId
    accountId := account
    instrumentId := instrumentId
    side := side
    orderType := .limit
    timeInForce := .gtc
    limitPrice := some limit
    quantity := quantity }

def isOpen (order : StoredOrder) : Bool :=
  match order.row.status with
  | .submitted | .routed | .partiallyFilled | .suspended => true
  | _ => false

/-- Every instrument's open orders, `cancel_open`'s query. -/
def openOrders (holdings : List Holding) : List (Nat × Nat) :=
  holdings.zipIdx.flatMap fun (h, k) =>
    (h.scope.orders.zipIdx.filter (isOpen ·.1)).map fun (_, i) => (k, i)

def readPositions (holdings : List Holding) : List (Nat × ℚ) :=
  (holdings.zipIdx.map fun (h, k) => (k, positionQty h.scope.position)).filter (·.2 ≠ 0)

def transactOn (s : Flatten) (k i : Nat) (tx : OrderDb → OrderDb) : Option Flatten :=
  match s.holdings[k]? with
  | none => none
  | some h =>
    (h.scope.transact i tx).map fun scope => { s with holdings := s.holdings.set k { h with scope } }

def addOrder (s : Flatten) (k : Nat) (h : Holding) (order : StoredOrder) : Flatten :=
  { s with
    holdings := s.holdings.set k { h with
      scope := { h.scope with orders := h.scope.orders ++ [order] } } }

def setCall (s : Flatten) (c : Nat) (call : Call) : Flatten :=
  { s with calls := s.calls.set c call }

def checkClosing (strategy : Strategy) (portfolioId : String) (h : Holding) (netQty : ℚ)
    (orderId : String) (quoted : Quoted) : Except String SubmitOrder :=
  match strategy.priceBandPct, quoted.mark, quoted.account with
  | none, _, _ => .error "no price band set"
  | some _, none, _ => .error "no reference price"
  | some _, some _, none => .error "no account has traded it"
  | some band, some mark, some account =>
    let cmd := closingOrder strategy portfolioId orderId account h.instrumentId netQty mark.mid band
    match OmsGuard.check strategy quoted.row h.scope.exposure cmd quoted.quoteCurrency
        (some mark) quoted.contractSize with
    | .error rejection => .error rejection.message
    | .ok () => .ok cmd

def stepCall (s : Flatten) (c : Nat) (call : Call) : Action → Option Flatten
  | .list _ failure =>
    match call.stage, failure with
    | .listing, none =>
      some (setCall s c { call with stage := .cancelling (openOrders s.holdings) })
    | .listing, some message =>
      some (setCall s c { call with
        stage := .cancelling []
        report := { call.report with
          cancelFailures := [s!"could not list open orders: {message}"] } })
    | _, _ => none
  | .cancel _ answer =>
    match call.stage with
    | .cancelling ((k, i) :: left) =>
      let done : Call := { call with
        stage := .cancelling left
        report := { call.report with cancelled := call.report.cancelled + 1 } }
      match answer with
      | .requested => some (setCall s c done)
      | .canceled metadata =>
        (transactOn s k i (commitNow (.cancel (some "strategy flattened") metadata))).map
          (setCall · c done)
      | .failed message =>
        some (setCall s c { call with
          stage := .cancelling left
          report := { call.report with
            cancelFailures := call.report.cancelFailures ++ [message] } })
    | _ => none
  | .read _ =>
    match call.stage with
    | .cancelling [] =>
      some (setCall s c { call with stage := .closing (readPositions s.holdings) })
    | _ => none
  | .check _ orderId quoted =>
    match call.stage with
    | .closing ((k, netQty) :: left) =>
      match s.holdings[k]? with
      | none => none
      | some h =>
        match checkClosing call.strategy s.portfolioId h netQty orderId quoted with
        | .error reason =>
          some (setCall s c { call with
            stage := .closing left
            report := call.report.skip h.symbol reason })
        | .ok cmd => some (setCall s c { call with stage := .submitting k netQty cmd left })
    | _ => none
  | .insert _ metadata brokerConnectionCode createdAt =>
    match call.stage with
    | .submitting k _ cmd left =>
      match s.holdings[k]? with
      | none => none
      | some h =>
        match submitOrder cmd metadata brokerConnectionCode createdAt with
        | none =>
          some (setCall s c { call with
            stage := .closing left
            report := call.report.skip h.symbol "refused" })
        | some order =>
          some { setCall (addOrder s k h order) c { call with stage := .sending k left } with
            phase := .closing }
    | _ => none
  | .answered _ failure =>
    match call.stage with
    | .sending k left =>
      let report := match failure with
        | none => { call.report with flattenOrders := call.report.flattenOrders + 1 }
        | some message => call.report.skip ((s.holdings[k]?).elim "" (·.symbol)) message
      some (setCall s c { call with stage := .closing left, report := report })
    | _ => none
  | .stop _ => some (setCall s c { call with stage := .over })
  | _ => none

def Action.call : Action → Option Nat
  | .list c _ | .cancel c _ | .read c | .check c _ _ | .insert c _ _ _ | .answered c _ | .stop c =>
    some c
  | _ => none

def step (s : Flatten) (a : Action) : Option Flatten :=
  match a with
  | .work k cmd metadata brokerConnectionCode createdAt =>
    match s.phase, s.holdings[k]? with
    | .trading, some h =>
      (submitOrder cmd metadata brokerConnectionCode createdAt).map (addOrder s k h)
    | _, _ => none
  | .report k i fates report metadata => transactOn s k i (bookReport fates report metadata)
  | .route k i venue externalOrderId metadata =>
    transactOn s k i (commitNow (.route venue externalOrderId metadata))
  | .flatten strategy =>
    some { s with
      calls := s.calls ++ [⟨{ strategy with state := .reducing }, .listing, .empty⟩]
      phase := if s.phase = .trading then .flattening else s.phase }
  | a =>
    match a.call with
    | none => none
    | some c =>
      match s.calls[c]? with
      | none => none
      | some call => stepCall s c call a

def Holding.net (h : Holding) : ℚ := positionQty h.scope.position

/-- Once a closing order has gone in, the step takes every position toward zero, or
    leaves it. -/
def Flattens (s : Flatten) (a : Action) : Prop :=
  ∀ t ∈ step s a, s.phase = .closing →
    List.Forall₂ (fun before after => TowardZero before.net after.net) s.holdings t.holdings

instance (s : Flatten) (a : Action) : Decidable (Flattens s a) := by
  unfold Flattens
  infer_instance

def Room (h : Holding) : Prop :=
  ∀ side ∈ [OrderSide.buy, .sell], openQty side h.scope.orders ≤ max 0 (-side.signed h.net)

instance (h : Holding) : Decidable (Room h) := inferInstanceAs (Decidable (∀ side ∈ _, _))

/-- The instrument has no open order, and its position is no nearer to zero than
    it was read. -/
def Settled (h : Holding) (netQty : ℚ) : Prop :=
  (∀ order ∈ h.scope.orders, isOpen order = false) ∧ TowardZero h.net netQty

instance (h : Holding) (netQty : ℚ) : Decidable (Settled h netQty) := by
  unfold Settled
  infer_instance

/-- The call's closing order goes in while its instrument is not settled, or as the
    first one while what is open on another instrument has no room. -/
def CrowdsIn (s : Flatten) (call : Call) (goesIn : SubmitOrder → Bool) : Prop :=
  match call.stage with
  | .submitting k netQty cmd _ =>
    goesIn cmd ∧ ∃ k' ∈ List.range s.holdings.length, ∃ h ∈ s.holdings[k']?,
      if k' = k then ¬ Settled h netQty else s.phase ≠ .closing ∧ ¬ Room h
  | _ => False

instance (s : Flatten) (call : Call) (goesIn : SubmitOrder → Bool) :
    Decidable (CrowdsIn s call goesIn) := by
  unfold CrowdsIn
  split <;> infer_instance

def Crowds (s : Flatten) (a : Action) : Prop :=
  match a with
  | .insert c metadata brokerConnectionCode createdAt =>
    ∃ call ∈ s.calls[c]?, CrowdsIn s call fun cmd =>
      (submitOrder cmd metadata brokerConnectionCode createdAt).isSome
  | _ => False

instance (s : Flatten) (a : Action) : Decidable (Crowds s a) := by
  unfold Crowds
  split <;> infer_instance

def Closes (netQty : ℚ) (cmd : SubmitOrder) : Prop :=
  ∃ mid band, cmd.side = (flattenOrder netQty mid band).1 ∧
    cmd.quantity = (flattenOrder netQty mid band).2.1

def Asked (call : Call) : Prop :=
  ∀ k netQty cmd left, call.stage = .submitting k netQty cmd left → Closes netQty cmd

theorem check_closing_closes {strategy : Strategy} {portfolioId : String} {h : Holding}
    {netQty : ℚ} {orderId : String} {quoted : Quoted} {cmd : SubmitOrder}
    (checked : checkClosing strategy portfolioId h netQty orderId quoted = .ok cmd) :
    Closes netQty cmd := by
  unfold checkClosing at checked
  split at checked
  · cases checked
  · cases checked
  · cases checked
  · rename_i band mark account _ _ _
    simp only at checked
    split at checked
    · cases checked
    · cases checked
      exact ⟨mark.mid, band, rfl, rfl⟩

theorem closes_room {h : Holding} {netQty : ℚ} {cmd : SubmitOrder} (closes : Closes netQty cmd)
    (toward : TowardZero h.net netQty) (side : OrderSide) :
    (if cmd.side = side then cmd.quantity else 0) ≤ max 0 (-side.signed h.net) := by
  obtain ⟨mid, band, isSide, isQuantity⟩ := closes
  obtain ⟨long, short⟩ := toward
  rw [isSide, isQuantity]
  unfold flattenOrder
  split <;> rename_i held
  · -- Long as read, so long still: a sell of no more than what is held.
    have still : 0 < h.net := by
      by_contra gone
      linarith [(short (not_lt.mp gone)).2]
    cases side with
    | buy => simp
    | sell =>
      refine le_max_of_le_right ?_
      simpa [OrderSide.signed] using (long still.le).2
  · cases side with
    | sell => simp
    | buy =>
      simp only [if_true, OrderSide.signed]
      rcases le_total 0 h.net with above | below
      · exact le_max_of_le_left (by linarith [(long above).1])
      · exact le_max_of_le_right (by linarith [(short below).1])

theorem open_qty_closed {orders : List StoredOrder}
    (closed : ∀ order ∈ orders, isOpen order = false) (side : OrderSide) :
    openQty side orders = 0 := by
  refine List.sum_eq_zero fun leaves member => ?_
  obtain ⟨order, there, rfl⟩ := List.mem_map.mp member
  have status := closed order there
  unfold openLeaves
  split
  · rename_i working
    cases here : order.row.status <;> simp_all [isOpen, isWorking]
  · rfl

structure Inv (s : Flatten) : Prop where
  asked : ∀ call ∈ s.calls, Asked call
  sound : ∀ h ∈ s.holdings, ∀ order ∈ h.scope.orders, Sound order
  reducing : s.phase = .closing → ∀ h ∈ s.holdings, OmsReducing.Inv ⟨h.scope, []⟩

def NoneGrows (before after : List Holding) : Prop :=
  List.Forall₂ (fun h h' => TowardZero h.net h'.net) before after

theorem none_grows_refl (holdings : List Holding) : NoneGrows holdings holdings :=
  List.forall₂_same.mpr fun _ _ => toward_zero_refl _

theorem none_grows_set {holdings : List Holding} {k : Nat} {h h' : Holding}
    (there : holdings[k]? = some h) (toward : TowardZero h.net h'.net) :
    NoneGrows holdings (holdings.set k h') := by
  refine paired_set_right (none_grows_refl holdings) k fun before found => ?_
  cases there.symm.trans found
  exact toward

theorem start_inv (portfolioId : String)
    (positions : List (String × String × Option PositionMath)) :
    Inv (.start portfolioId positions) := by
  refine ⟨?_, ?_, ?_⟩
  · intro call there
    cases there
  · intro h member order there
    obtain ⟨_, _, rfl⟩ := List.mem_map.mp member
    cases there
  · intro closing
    cases closing

def Keeps (s t : Flatten) : Prop :=
  Inv t ∧ (s.phase = .closing → NoneGrows s.holdings t.holdings)

theorem asked_elsewhere {call : Call}
    (elsewhere : ∀ k netQty cmd left, call.stage ≠ .submitting k netQty cmd left) : Asked call :=
  fun k netQty cmd left stage => absurd stage (elsewhere k netQty cmd left)

theorem set_call_keeps {s : Flatten} (inv : Inv s) (c : Nat) {call : Call} (asked : Asked call) :
    Keeps s (setCall s c call) :=
  ⟨⟨forall_mem_set inv.asked asked, inv.sound, inv.reducing⟩, fun _ => none_grows_refl _⟩

theorem transact_on_keeps {s t : Flatten} (inv : Inv s) {k i : Nat} {tx : OrderDb → OrderDb}
    (moves : ∀ position order, Sound order → Moves order position (tx (order.db position)))
    (next : transactOn s k i tx = some t) : Keeps s t := by
  unfold transactOn at next
  split at next
  · cases next
  rename_i h there
  obtain ⟨scope, moved, rfl⟩ := Option.map_eq_some_iff.mp next
  have member := List.mem_of_getElem? there
  have reduced : transact ⟨h.scope, []⟩ i tx = some ⟨scope, []⟩ := by
    rw [transact, moved]
    rfl
  refine ⟨⟨inv.asked, forall_mem_set inv.sound ?_, fun closing => ?_⟩, fun closing => ?_⟩
  · obtain ⟨_, _, effect⟩ := transact_moves (inv.sound h member) (moves h.scope.position) moved
    exact effect.sound
  · have kept := (transact_keeps (inv.reducing closing h member) (moves h.scope.position) reduced).1
    exact forall_mem_set (inv.reducing closing) ⟨kept.sound, kept.fits, List.forall_mem_nil _⟩
  · have toward := (transact_keeps (inv.reducing closing h member) (moves h.scope.position) reduced).2
    exact none_grows_set there toward

theorem settled_reducing {h : Holding} {netQty : ℚ} {cmd : SubmitOrder}
    {metadata : EventMetadata} {code : String} {createdAt : Nat} {order : StoredOrder}
    (sound : ∀ order ∈ h.scope.orders, Sound order)
    (inserted : submitOrder cmd metadata code createdAt = some order)
    (closes : Closes netQty cmd) (settled : Settled h netQty) :
    OmsReducing.Inv ⟨{ h.scope with orders := h.scope.orders ++ [order] }, []⟩ := by
  obtain ⟨new, _, opens⟩ := submit_order_opens inserted
  refine ⟨?_, fun side => ?_, List.forall_mem_nil _⟩
  · intro found member
    rcases List.mem_append.mp member with old | last
    · exact sound found old
    · exact List.mem_singleton.mp last ▸ new
  · have alone : openQty side (h.scope.orders ++ [order]) =
        if cmd.side = side then cmd.quantity else 0 := by
      rw [open_qty_append, open_qty_closed settled.1]
      simp [openQty, opens]
    rw [alone]
    exact closes_room closes settled.2 side

theorem room_reducing {h : Holding} (sound : ∀ order ∈ h.scope.orders, Sound order)
    (room : Room h) : OmsReducing.Inv ⟨h.scope, []⟩ :=
  ⟨sound, fun side => room side (by cases side <;> simp), List.forall_mem_nil _⟩

theorem insert_keeps {s : Flatten} (inv : Inv s) {c k : Nat} {h : Holding}
    (there : s.holdings[k]? = some h) {netQty : ℚ} {cmd : SubmitOrder} {metadata : EventMetadata}
    {code : String} {createdAt : Nat} {order : StoredOrder}
    (inserted : submitOrder cmd metadata code createdAt = some order) (closes : Closes netQty cmd)
    (settled : Settled h netQty)
    (others : ∀ k' h', s.holdings[k']? = some h' → k' ≠ k → s.phase = .closing ∨ Room h')
    {call : Call} (asked : Asked call) :
    Keeps s { setCall (addOrder s k h order) c call with phase := .closing } := by
  have member := List.mem_of_getElem? there
  have new := settled_reducing (inv.sound h member) inserted closes settled
  refine ⟨⟨forall_mem_set inv.asked asked, forall_mem_set inv.sound new.sound, fun _ => ?_⟩, ?_⟩
  · intro h' among
    obtain ⟨k', found⟩ := List.mem_iff_getElem?.mp among
    have found : (s.holdings.set k { h with
        scope := { h.scope with orders := h.scope.orders ++ [order] } })[k']? = some h' := found
    by_cases same : k = k'
    · subst same
      rw [List.getElem?_set_self (List.getElem?_eq_some_iff.mp there).1] at found
      cases found
      exact new
    · rw [List.getElem?_set_ne same] at found
      have among := List.mem_of_getElem? found
      rcases others k' h' found (Ne.symm same) with closing | room
      · exact inv.reducing closing h' among
      · exact room_reducing (inv.sound h' among) room
  · exact fun _ => none_grows_set there (toward_zero_refl _)

theorem cancel_keeps {s t : Flatten} (inv : Inv s) {c : Nat} {call : Call} {answer : CancelAnswer}
    (next : stepCall s c call (.cancel c answer) = some t) : Keeps s t := by
  simp only [stepCall] at next
  split at next
  · split at next
    · cases next
      exact set_call_keeps inv _ (asked_elsewhere (by simp))
    · obtain ⟨m, moved, rfl⟩ := Option.map_eq_some_iff.mp next
      have kept : Keeps s m := by
        refine transact_on_keeps inv ?_ moved
        exact fun _ order sound => quiet_moves (commit_quiet sound _ trivial)
      refine ⟨⟨forall_mem_set kept.1.asked ?_, kept.1.sound, kept.1.reducing⟩, kept.2⟩
      exact asked_elsewhere (by simp)
    · cases next
      exact set_call_keeps inv _ (asked_elsewhere (by simp))
  · cases next

theorem check_keeps {s t : Flatten} (inv : Inv s) {c : Nat} {call : Call} {orderId : String}
    {quoted : Quoted} (next : stepCall s c call (.check c orderId quoted) = some t) :
    Keeps s t := by
  simp only [stepCall] at next
  split at next
  · split at next
    · cases next
    · split at next
      · cases next
        exact set_call_keeps inv c (asked_elsewhere (by simp))
      · rename_i checked
        cases next
        refine set_call_keeps inv c fun k' netQty' cmd' left' stage => ?_
        cases stage
        exact check_closing_closes checked
  · cases next

theorem insert_call_keeps {s t : Flatten} (inv : Inv s) {c : Nat} {call : Call}
    (called : s.calls[c]? = some call) {metadata : EventMetadata} {code : String} {createdAt : Nat}
    (ok : ¬ Crowds s (.insert c metadata code createdAt))
    (next : stepCall s c call (.insert c metadata code createdAt) = some t) : Keeps s t := by
  simp only [stepCall] at next
  split at next
  · rename_i k netQty cmd left stage
    split at next
    · cases next
    · rename_i h there
      split at next
      · cases next
        exact set_call_keeps inv _ (asked_elsewhere (by simp))
      · rename_i order inserted
        cases next
        have closes := inv.asked call (List.mem_of_getElem? called) k netQty cmd left stage
        have calm : ∀ k' h', s.holdings[k']? = some h' →
            ¬ (if k' = k then ¬ Settled h' netQty else s.phase ≠ .closing ∧ ¬ Room h') := by
          intro k' h' found crowded
          refine ok ⟨call, called, ?_⟩
          rw [CrowdsIn, stage]
          refine ⟨by simp [inserted], k', ?_, h', found, crowded⟩
          exact List.mem_range.mpr (List.getElem?_eq_some_iff.mp found).1
        refine insert_keeps inv there inserted closes ?_ ?_ (asked_elsewhere (by simp))
        · simpa using calm k h there
        · intro k' h' found apart
          have other := calm k' h' found
          rw [if_neg apart] at other
          by_contra neither
          exact other ⟨fun closing => neither (.inl closing), fun room => neither (.inr room)⟩
  · cases next

theorem step_call_keeps {s t : Flatten} (inv : Inv s) {a : Action} (ok : ¬ Crowds s a) {c : Nat}
    {call : Call} (called : s.calls[c]? = some call) (own : a.call = some c)
    (next : stepCall s c call a = some t) : Keeps s t := by
  cases a with
  | work | report | route | flatten => cases own
  | list c' failure =>
    simp only [stepCall] at next
    split at next
    · cases next
      exact set_call_keeps inv _ (asked_elsewhere (by simp))
    · cases next
      exact set_call_keeps inv _ (asked_elsewhere (by simp))
    · cases next
  | cancel c' answer =>
    cases own
    exact cancel_keeps inv next
  | read c' =>
    simp only [stepCall] at next
    split at next
    · cases next
      exact set_call_keeps inv _ (asked_elsewhere (by simp))
    · cases next
  | check c' orderId quoted =>
    cases own
    exact check_keeps inv next
  | insert c' metadata code createdAt =>
    cases own
    exact insert_call_keeps inv called ok next
  | answered c' failure =>
    simp only [stepCall] at next
    split at next
    · cases next
      exact set_call_keeps inv _ (asked_elsewhere (by simp))
    · cases next
  | stop c' =>
    cases next
    exact set_call_keeps inv _ (asked_elsewhere (by simp))

theorem work_keeps {s t : Flatten} (inv : Inv s) {k : Nat} {cmd : SubmitOrder}
    {metadata : EventMetadata} {code : String} {createdAt : Nat}
    (next : step s (.work k cmd metadata code createdAt) = some t) : Keeps s t := by
  simp only [step] at next
  split at next
  · rename_i h trading there
    obtain ⟨order, inserted, rfl⟩ := Option.map_eq_some_iff.mp next
    obtain ⟨new, _, _⟩ := submit_order_opens inserted
    refine ⟨⟨inv.asked, forall_mem_set inv.sound ?_, fun closing => ?_⟩, fun closing => ?_⟩
    · intro found member
      rcases List.mem_append.mp member with old | last
      · exact inv.sound h (List.mem_of_getElem? there) found old
      · exact List.mem_singleton.mp last ▸ new
    · cases trading.symm.trans closing
    · cases trading.symm.trans closing
  · cases next

theorem flatten_keeps {s t : Flatten} (inv : Inv s) {strategy : Strategy}
    (next : step s (.flatten strategy) = some t) : Keeps s t := by
  cases next
  refine ⟨⟨?_, inv.sound, fun closing => inv.reducing ?_⟩, fun _ => none_grows_refl _⟩
  · intro call member
    rcases List.mem_append.mp member with old | new
    · exact inv.asked call old
    · cases List.mem_singleton.mp new
      exact asked_elsewhere (by simp)
  have phase : (if s.phase = .trading then Phase.flattening else s.phase) = .closing := closing
  split at phase
  · cases phase
  · exact phase

theorem step_keeps {s t : Flatten} {a : Action} (inv : Inv s) (ok : ¬ Crowds s a)
    (next : step s a = some t) : Keeps s t := by
  unfold step at next
  split at next
  · exact work_keeps inv next
  · exact transact_on_keeps inv (fun _ order sound => book_moves sound _ _ _ _) next
  · refine transact_on_keeps inv ?_ next
    exact fun _ order sound => quiet_moves (commit_quiet sound _ trivial)
  · exact flatten_keeps inv next
  · split at next
    · cases next
    · rename_i c own
      split at next
      · cases next
      · rename_i call called
        exact step_call_keeps inv ok called own next

/-- As long as every closing order goes in with no other order open on its
    instrument and the position no smaller than it was read, nothing takes a position
    away from zero or through it once the first is in. -/
theorem flatten_never_overshoots (portfolioId : String)
    (positions : List (String × String × Option PositionMath)) (as : List Action)
    (steps : Along step (fun s a => ¬ Crowds s a) (.start portfolioId positions) as) :
    Along step Flattens (.start portfolioId positions) as :=
  along_of_along (fun _ _ _ inv ok next => (step_keeps inv ok next).1)
    (fun _ _ inv ok _ next => (step_keeps inv ok next).2) (start_inv portfolioId positions) steps

def owner : Strategy := ⟨"s", "u1", .active, noLimits, some 5⟩

def quoted : Quoted := ⟨some ⟨99, 101⟩, some "a1", none, "USD", 1⟩

def fillOf (i : Nat) (qty : ℚ) : Action := .report 0 i [] (.fill "x" qty 100 "V") stamp

def long : Flatten := .start "p1" [("1", "BTCUSD", longFive)]

/-- A working order of its own, routed; then one call as far as its closing order. -/
def flattenOver (own : SubmitOrder) : List Action :=
  [.work 0 own stamp "paper" 0, .route 0 0 "V" "v1" stamp, .flatten owner, .list 0 none,
    .cancel 0 .requested, .read 0, .check 0 "o9" quoted, .insert 0 stamp "paper" 0,
    .answered 0 none]

def confirmedFirst : List Action :=
  [.work 0 (sell "o2" 5) stamp "paper" 0, .route 0 0 "V" "v1" stamp, fillOf 0 1, .flatten owner,
    .list 0 none, .cancel 0 .requested, .report 0 0 [] (.canceled none (some "V")) stamp, .read 0,
    .check 0 "o9" quoted, .insert 0 stamp "paper" 0, .answered 0 none, fillOf 1 3, fillOf 1 1]

theorem confirmed_first_flattens : Along step Flattens long confirmedFirst :=
  flatten_never_overshoots "p1" [("1", "BTCUSD", longFive)] confirmedFirst (by decide +kernel)

/-- A cancel that is only asked for: the old sell and the closing order both fill, or
    an old buy fills after it. A second call closes the same position again. -/
theorem flatten_overshoots :
    ¬ Along step Flattens long (flattenOver (sell "o2" 5) ++ [fillOf 0 5, fillOf 1 5]) ∧
      ¬ Along step Flattens long (flattenOver buyTen ++ [fillOf 0 1]) ∧
      ¬ Along step Flattens long ([.flatten owner, .flatten owner, .list 0 none, .list 1 none,
        .read 0, .read 1, .check 0 "o8" quoted, .insert 0 stamp "paper" 0, .answered 0 none,
        .check 1 "o9" quoted, .insert 1 stamp "paper" 0, fillOf 0 5, fillOf 1 5]) := by
  decide +kernel

end OmsFlatten
