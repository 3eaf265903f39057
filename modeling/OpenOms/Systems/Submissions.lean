import OpenOms.Library.Runs
import OpenOms.Routing
import OpenOms.Systems.NewOrders

/-!
Any number of submits at once, each a statement at a time, while admins edit the tables
they read, the registry of strategies and the set of adapters. What one statement has
found is gone by when the next one asks.
-/
namespace OmsSubmissions
open OmsOrders OmsAggregate OmsOrderStore OmsOrderEntry OmsRisk OmsAdmission OmsRouting Keyed Runs
open OmsNewOrders (riskApiError)

/-- The uuid crate's parser, the database's order of venues and how a quantity prints. -/
structure Env where
  parseUuid : String → Option String
  collate : String → String → Bool
  show_ : ℚ → String

/-- What others may change between two statements. -/
structure World where
  db : Db
  strategies : List OmsRouting.Strategy
  adapters : List (String × String)

def World.byPortfolioId (w : World) (portfolioId : String) : Option OmsRouting.Strategy :=
  w.strategies.find? (·.portfolioId = portfolioId)

structure Begun where
  orderId : String
  portfolioId : String
  strategy : Option OmsRouting.Strategy
  deriving DecidableEq, Repr

structure Routed extends Begun where
  route : Option (String × Int)
  deriving DecidableEq, Repr

structure Picked extends Routed where
  accountId : String
  explicit : Bool
  deriving DecidableEq, Repr

structure Resolved extends Picked where
  instrumentId : Int
  deriving DecidableEq, Repr

structure Connected extends Resolved where
  account : AccountRoute
  deriving DecidableEq, Repr

structure Listing extends Connected where
  instrument : Instrument
  deriving DecidableEq, Repr

structure Placed extends Listing where
  mapping : BrokerInstrument
  deriving DecidableEq, Repr

inductive Stage where
  | received
  | begun (known : Begun)
  | routed (known : Routed)
  | picked (known : Picked)
  | resolved (known : Resolved)
  | connected (known : Connected)
  | listed (known : Listing)
  | placed (known : Placed)
  | admitted (known : Placed)
  | stored (known : Placed) (state : OrderAggregateState)
  | done (outcome : Except ApiError Unit)

/-- `since` is how many edits there had been when the request came. -/
structure Submission where
  principalId : String
  req : SubmitOrderRequest
  since : Nat
  stage : Stage

structure StoredOrder where
  orderId : String
  request : Nat
  principalId : String
  db : OrderDb

structure Sent where
  request : Nat
  brokerCode : String
  environment : String
  order : BrokerOrderRequest
  deriving DecidableEq, Repr

/-- `past` has every version of the world there was, the last one now. -/
structure Desk where
  past : List World
  world : World
  requests : List Submission
  orders : Table String StoredOrder StoredOrder.orderId
  sent : List Sent

def Desk.start (w : World) (orders : Table String StoredOrder StoredOrder.orderId) : Desk :=
  ⟨[w], w, [], orders, []⟩

def begin_ (env : Env) (w : World) (principalId : String) (req : SubmitOrderRequest) :
    Except ApiError Begun :=
  match env.parseUuid req.orderId, env.parseUuid req.portfolioId with
  | none, _ => .error (badRequest "order_id must be a UUID")
  | _, none => .error (badRequest "portfolio_id must be a UUID")
  | some orderId, some portfolioId =>
    let strategy := w.byPortfolioId portfolioId
    match strategy.elim (.ok ()) fun s => OmsGuard.mayTrade s.toStrategy principalId with
    | .error rejection => .error (riskApiError rejection)
    | .ok _ => .ok ⟨orderId, portfolioId, strategy⟩

def pickAccount (env : Env) (db : Db) (req : SubmitOrderRequest) (known : Routed) :
    Except ApiError (String × Bool) :=
  match known.route, req.accountId with
  | some (account, _), _ => .ok (account, true)
  | none, some a =>
    match env.parseUuid a with
    | some account => .ok (account, true)
    | none => .error (badRequest "account_id must be a UUID")
  | none, none => (defaultAccount db known.portfolioId).map fun account => (account, false)

def pickInstrument (env : Env) (db : Db) (req : SubmitOrderRequest) (known : Routed) :
    Except ApiError Int :=
  match known.route with
  | some (_, instrumentId) => .ok instrumentId
  | none => resolveInstrumentRef env.collate db req

def read (env : Env) (w : World) (r : Submission) : Option (Except ApiError Stage) :=
  match r.stage with
  | .received => some ((begin_ env w r.principalId r.req).map .begun)
  | .begun known =>
    let route := known.strategy.elim (.ok none) fun s => strategyRoute w.db s r.req
    some (route.map fun route => .routed { known with route })
  | .routed known =>
    some ((pickAccount env w.db r.req known).map fun (accountId, explicit) =>
      .picked { known with accountId, explicit })
  | .picked known =>
    some ((pickInstrument env w.db r.req known.toRouted).map fun instrumentId =>
      .resolved { known with instrumentId })
  | .resolved known =>
    some ((loadAccount w.db known.portfolioId known.accountId known.explicit).map fun account =>
      .connected { known with account })
  | .connected known =>
    some ((loadInstrument w.db known.instrumentId r.req.timeInForce).map fun instrument =>
      .listed { known with instrument })
  | .listed known =>
    some ((loadMapping env.show_ w.db known.instrumentId known.account.brokerCode
      r.req.quantity).map fun mapping => .placed { known with mapping })
  | _ => none

structure Stamps where
  submitted : EventMetadata
  rejected : EventMetadata
  createdAt : Nat
  deriving DecidableEq, Repr

inductive Action where
  | edit (w : World)
  | receive (principalId : String) (req : SubmitOrderRequest)
  | read (i : Nat)
  | fail (i : Nat) (message : String)
  | refuse (i : Nat) (rejection : RiskRejection) (stamps : Stamps)
  | accept (i : Nat)
  -- a commit, `acknowledged` unless its answer is lost
  | store (i : Nat) (stamps : Stamps) (acknowledged : Bool)
  | send (i : Nat) (outcome : Except ApiError Unit)

def setStage (s : Desk) (i : Nat) (r : Submission) (stage : Stage) : Desk :=
  { s with requests := s.requests.set i { r with stage } }

def command (r : Submission) (known : Placed) : SubmitOrder :=
  r.req.intoCommand known.accountId known.instrumentId

def insertOrder (s : Desk) (i : Nat) (r : Submission) (known : Placed)
    (stored : Except ApiError OrderDb) (after : OrderAggregateState → Stage) : Desk :=
  match stored with
  | .error error => setStage s i r (.done (.error error))
  | .ok db =>
    match s.orders.find known.orderId, db.row with
    | none, some row =>
      { setStage s i r (after row.toOrderAggregateState) with
        orders := s.orders.insert ⟨known.orderId, i, r.principalId, db⟩ }
    | _, _ => setStage s i r (.done (.error ⟨500, "failed to insert order state"⟩))

def refused (s : Desk) (i : Nat) (r : Submission) (known : Placed) (rejection : RiskRejection)
    (stamps : Stamps) : Desk :=
  insertOrder s i r known
    (recordRejection (command r known) rejection stamps.submitted stamps.rejected
      known.account.brokerConnectionCode stamps.createdAt .empty)
    fun _ => .done (.error (riskApiError rejection))

def brokerRequest (known : Placed) (state : OrderAggregateState) : BrokerOrderRequest :=
  { orderId := known.orderId, symbol := known.mapping.brokerSymbol
    nativeId := known.mapping.nativeId, quantity := state.originalQty, side := state.side
    orderType := state.orderType, timeInForce := state.timeInForce
    limitPrice := state.limitPrice, externalAccountRef := known.account.externalAccountRef }

def step (env : Env) (s : Desk) : Action → Option Desk
  | .edit w => some { s with past := s.past ++ [w], world := w }
  | .receive principalId req =>
    some { s with requests := s.requests ++ [⟨principalId, req, s.past.length - 1, .received⟩] }
  | .read i => s.requests[i]?.bind fun r => (read env s.world r).map fun
    | .ok stage => setStage s i r stage
    | .error error => setStage s i r (.done (.error error))
  | .fail i message => s.requests[i]?.bind fun r =>
    match r.stage with
    | .done _ => none
    | _ => some (setStage s i r (.done (.error ⟨500, message⟩)))
  | .refuse i rejection stamps => s.requests[i]?.bind fun r =>
    match r.stage with
    | .placed known => some (refused s i r known rejection stamps)
    | .admitted known => some (refused s i r known rejection stamps)
    | _ => none
  | .accept i => s.requests[i]?.bind fun r =>
    match r.stage with
    | .placed known =>
      if (s.orders.find known.orderId).isSome then
        some (setStage s i r (.done (.error ⟨409, "order already exists"⟩)))
      else if !hasGrant s.world.db r.principalId known.portfolioId then
        some (setStage s i r (.done (.error ⟨403, "unauthorized"⟩)))
      else some (setStage s i r (.admitted known))
    | _ => none
  | .store i stamps acknowledged => s.requests[i]?.bind fun r =>
    match r.stage with
    | .admitted known =>
      let stored := submitTx (command r known) stamps.submitted
        known.account.brokerConnectionCode stamps.createdAt .empty
      some (insertOrder s i r known stored fun state =>
        if acknowledged then .stored known state
        else .done (.error ⟨500, "failed to commit transaction"⟩))
    | _ => none
  | .send i outcome => s.requests[i]?.bind fun r =>
    match r.stage with
    | .stored known state =>
      if (known.account.brokerCode, known.account.environment) ∈ s.world.adapters then
        some { setStage s i r (.done outcome) with
          sent := s.sent ++ [⟨i, known.account.brokerCode, known.account.environment,
            brokerRequest known state⟩] }
      else
        let missing := s!"no adapter configured for {known.account.brokerCode}/{known.account.environment}"
        some (setStage s i r (.done (.error ⟨503, missing⟩)))
    | _ => none

def Sometime (s : Desk) (since : Nat) (P : World → Prop) : Prop := ∃ w ∈ s.past.drop since, P w

def ByBroker (s : Desk) (r : Submission) (portfolioId accountId : String) (instrumentId : Int) :
    Prop :=
  ∃ symbol venue strategy, r.req.instrumentId = none ∧ r.req.symbol = some symbol ∧
    r.req.venue = some venue ∧ strategy.connections.lookup venue = some accountId ∧
    (Sometime s r.since fun w => w.byPortfolioId portfolioId = some strategy) ∧
    Sometime s r.since fun w => ∃ m ∈ w.db.mappings.rows, m.instrumentId = instrumentId ∧
      m.brokerSymbol = symbol ∧ m.brokerCode = venue ∧ m.isTradeable = true

def ByAccount (env : Env) (s : Desk) (r : Submission) (portfolioId accountId : String) : Prop :=
  match r.req.accountId with
  | some text => env.parseUuid text = some accountId
  | none => Sometime s r.since fun w => ∃ p ∈ w.db.portfolios.rows, p.id = portfolioId ∧
      p.defaultAccountId = some accountId

/-- An order that goes to a broker is for whom, on what and in what terms it was asked for,
    and each check passed at some moment between the request and now. -/
structure Justified (env : Env) (s : Desk) (b : Sent) (r : Submission)
    (portfolioId accountId : String) (instrumentId : Int) : Prop where
  ids : env.parseUuid r.req.orderId = some b.order.orderId ∧
    env.parseUuid r.req.portfolioId = some portfolioId
  terms : b.order.quantity = r.req.quantity ∧ b.order.side = r.req.side ∧
    b.order.orderType = r.req.orderType ∧ b.order.timeInForce = r.req.timeInForce ∧
    b.order.limitPrice = r.req.limitPrice
  named : ByBroker s r portfolioId accountId instrumentId ∨
    ByAccount env s r portfolioId accountId ∧
      Sometime s r.since fun w => Refers w.db r.req instrumentId
  trader : Sometime s r.since fun w => ∀ strategy ∈ w.byPortfolioId portfolioId,
    r.principalId = strategy.principalId
  granted : Sometime s r.since fun w => ∃ g ∈ w.db.grants.rows, g.principalId = r.principalId ∧
    g.portfolioId = portfolioId ∧ g.canTrade = true
  account : Sometime s r.since fun w => ∃ a ∈ w.db.accounts.rows, ∃ bc ∈ w.db.connections.rows,
    a.id = accountId ∧ a.brokerConnectionCode = bc.code ∧ bc.status = "ACTIVE" ∧
      (a.portfolioId = some portfolioId ∨ a.portfolioId = none ∧ r.req.accountId = none) ∧
      b.brokerCode = bc.brokerCode ∧ b.environment = bc.environment ∧
      b.order.externalAccountRef = a.externalAccountRef
  instrument : Sometime s r.since fun w => ∃ i ∈ w.db.instruments.rows, i.id = instrumentId ∧
    i.status = "ACTIVE" ∧ (i.instrumentClass = "OPTION" → r.req.timeInForce = .day)
  mapping : Sometime s r.since fun w => ∃ m ∈ w.db.mappings.rows, m.instrumentId = instrumentId ∧
    m.brokerCode = b.brokerCode ∧ m.isTradeable = true ∧
    (∀ min ∈ m.minQuantity, min ≤ r.req.quantity) ∧ b.order.symbol = m.brokerSymbol ∧
    b.order.nativeId = m.nativeId
  stored : ∃ o ∈ s.orders.rows, o.orderId = b.order.orderId ∧ o.request = b.request ∧
    o.principalId = r.principalId ∧ o.db.row.map OrderRow.toOrderAggregateState =
      some (submitState (r.req.intoCommand accountId instrumentId))

/-- No order goes out twice or unjustified, and whoever is told that it went is told so
    truly. -/
structure Orderly (env : Env) (s : Desk) : Prop where
  once : (s.sent.map (·.order.orderId)).Nodup
  justified : ∀ b ∈ s.sent, ∃ r portfolioId accountId instrumentId,
    s.requests[b.request]? = some r ∧ Justified env s b r portfolioId accountId instrumentId
  told : ∀ i r, s.requests[i]? = some r → r.stage = .done (.ok ()) → ∃ b ∈ s.sent, b.request = i

def Begun.trail (env : Env) (r : Submission) (k : Begun) : List (World → Prop) :=
  [fun w => begin_ env w r.principalId r.req = .ok k]

def Routed.trail (env : Env) (r : Submission) (k : Routed) : List (World → Prop) :=
  k.toBegun.trail env r ++
    [fun w => (k.strategy.elim (.ok none) fun st => strategyRoute w.db st r.req) = .ok k.route]

def Picked.trail (env : Env) (r : Submission) (k : Picked) : List (World → Prop) :=
  k.toRouted.trail env r ++
    [fun w => pickAccount env w.db r.req k.toRouted = .ok (k.accountId, k.explicit)]

def Resolved.trail (env : Env) (r : Submission) (k : Resolved) : List (World → Prop) :=
  k.toPicked.trail env r ++
    [fun w => pickInstrument env w.db r.req k.toRouted = .ok k.instrumentId]

def Connected.trail (env : Env) (r : Submission) (k : Connected) : List (World → Prop) :=
  k.toResolved.trail env r ++
    [fun w => loadAccount w.db k.portfolioId k.accountId k.explicit = .ok k.account]

def Listing.trail (env : Env) (r : Submission) (k : Listing) : List (World → Prop) :=
  k.toConnected.trail env r ++
    [fun w => loadInstrument w.db k.instrumentId r.req.timeInForce = .ok k.instrument]

def Placed.trail (env : Env) (r : Submission) (k : Placed) : List (World → Prop) :=
  k.toListing.trail env r ++
    [fun w => loadMapping env.show_ w.db k.instrumentId k.account.brokerCode r.req.quantity =
      .ok k.mapping]

def admittedTrail (env : Env) (r : Submission) (k : Placed) : List (World → Prop) :=
  k.trail env r ++ [fun w => hasGrant w.db r.principalId k.portfolioId = true]

def Stage.trail (env : Env) (r : Submission) : Stage → List (World → Prop)
  | .begun k => k.trail env r
  | .routed k => k.trail env r
  | .picked k => k.trail env r
  | .resolved k => k.trail env r
  | .connected k => k.trail env r
  | .listed k => k.trail env r
  | .placed k => k.trail env r
  | .admitted k => admittedTrail env r k
  | .stored k _ => admittedTrail env r k
  | _ => []

def Seen (s : Desk) (since : Nat) (trail : List (World → Prop)) : Prop :=
  ∀ P ∈ trail, Sometime s since P

def Kept (s : Desk) (i : Nat) (r : Submission) : Stage → Prop
  | .stored k state => state = submitState (command r k) ∧
      ∃ o ∈ s.orders.rows, o.orderId = k.orderId ∧ o.request = i ∧ o.principalId = r.principalId ∧
        o.db.row.map OrderRow.toOrderAggregateState = some state
  | _ => True

structure Inv (env : Env) (s : Desk) : Prop where
  last : s.past.drop (s.past.length - 1) = [s.world]
  now : ∀ r ∈ s.requests, s.world ∈ s.past.drop r.since
  seen : ∀ r ∈ s.requests, Seen s r.since (r.stage.trail env r)
  kept : ∀ i r, s.requests[i]? = some r → Kept s i r r.stage
  over_ : ∀ b ∈ s.sent, ∃ r outcome, s.requests[b.request]? = some r ∧ r.stage = .done outcome
  orderly : Orderly env s

structure Later (s t : Desk) : Prop where
  past : ∀ since, s.past.drop since ⊆ t.past.drop since
  orders : s.orders.rows ⊆ t.orders.rows

theorem sometime_later {s t : Desk} (later : Later s t) {since : Nat} {P : World → Prop}
    (seen : Sometime s since P) : Sometime t since P := by
  obtain ⟨w, member, true_⟩ := seen
  exact ⟨w, later.past since member, true_⟩

theorem seen_later {s t : Desk} (later : Later s t) {since : Nat} {trail : List (World → Prop)}
    (seen : Seen s since trail) : Seen t since trail :=
  fun P member => sometime_later later (seen P member)

theorem seen_snoc {s : Desk} {since : Nat} {trail : List (World → Prop)} {P : World → Prop}
    (seen : Seen s since trail) (now : s.world ∈ s.past.drop since) (true_ : P s.world) :
    Seen s since (trail ++ [P]) := by
  intro Q member
  rcases List.mem_append.mp member with before | new
  · exact seen Q before
  · rw [List.mem_singleton.mp new]
    exact ⟨s.world, now, true_⟩

theorem kept_later {s t : Desk} (later : Later s t) {i : Nat} {r : Submission} {stage : Stage}
    (kept : Kept s i r stage) : Kept t i r stage := by
  cases stage with
  | stored k state =>
    obtain ⟨terms, o, member, own⟩ := kept
    exact ⟨terms, o, later.orders member, own⟩
  | _ => trivial

theorem justified_later {env : Env} {s t : Desk} (later : Later s t) {b : Sent} {r : Submission}
    {portfolioId accountId : String} {instrumentId : Int}
    (here : Justified env s b r portfolioId accountId instrumentId) :
    Justified env t b r portfolioId accountId instrumentId := by
  have byBroker : ByBroker s r portfolioId accountId instrumentId →
      ByBroker t r portfolioId accountId instrumentId := by
    rintro ⟨symbol, venue, strategy, noId, byName, byVenue, looked, known, mapped⟩
    exact ⟨symbol, venue, strategy, noId, byName, byVenue, looked, sometime_later later known,
      sometime_later later mapped⟩
  have byAccount : ByAccount env s r portfolioId accountId →
      ByAccount env t r portfolioId accountId := by
    unfold ByAccount
    split
    · exact id
    · exact sometime_later later
  obtain ⟨o, member, own⟩ := here.stored
  exact
    { ids := here.ids
      terms := here.terms
      named := here.named.imp byBroker fun named =>
        ⟨byAccount named.1, sometime_later later named.2⟩
      trader := sometime_later later here.trader
      granted := sometime_later later here.granted
      account := sometime_later later here.account
      instrument := sometime_later later here.instrument
      mapping := sometime_later later here.mapping
      stored := ⟨o, later.orders member, own⟩ }

@[simp] theorem trail_stage (env : Env) (r : Submission) (stage stage' : Stage) :
    stage'.trail env { r with stage } = stage'.trail env r := by
  cases stage' <;> rfl

theorem later_same {s t : Desk} (past : t.past = s.past) (orders : t.orders = s.orders) :
    Later s t := by
  constructor
  · intro since
    rw [past]
    exact List.Subset.refl _
  · rw [orders]
    exact List.Subset.refl _

theorem justified_stage {env : Env} {s : Desk} {b : Sent} {r : Submission}
    {portfolioId accountId : String} {instrumentId : Int}
    (just : Justified env s b r portfolioId accountId instrumentId) (stage : Stage) :
    Justified env s b { r with stage } portfolioId accountId instrumentId :=
  { just with }

theorem sent_ended {env : Env} {s : Desk} (inv : Inv env s) {i : Nat} {r : Submission}
    (there : s.requests[i]? = some r) (open_ : ∀ outcome, r.stage ≠ .done outcome) {b : Sent}
    (sent : b ∈ s.sent) : b.request ≠ i := by
  rintro rfl
  obtain ⟨r', outcome, here, ended⟩ := inv.over_ b sent
  cases there.symm.trans here
  exact open_ outcome ended

theorem set_request {s : Desk} {i j : Nat} {r : Submission} {stage : Stage} (away : j ≠ i) :
    (setStage s i r stage).requests[j]? = s.requests[j]? :=
  List.getElem?_set_ne (Ne.symm away)

theorem set_own {s : Desk} {i : Nat} {r : Submission} (there : s.requests[i]? = some r)
    (stage : Stage) : (setStage s i r stage).requests[i]? = some { r with stage } :=
  List.getElem?_set_self (List.getElem?_eq_some_iff.mp there).1

theorem mem_set {s : Desk} {i : Nat} {r r' : Submission} {stage : Stage}
    (member : r' ∈ (setStage s i r stage).requests) :
    r' ∈ s.requests ∨ r' = { r with stage } := by
  exact List.mem_or_eq_of_mem_set member

theorem move_inv {env : Env} {s : Desk} (inv : Inv env s) {i : Nat} {r : Submission}
    (there : s.requests[i]? = some r) (open_ : ∀ outcome, r.stage ≠ .done outcome) {stage : Stage}
    (orders : Table String StoredOrder StoredOrder.orderId) (more : s.orders.rows ⊆ orders.rows)
    (seen : Seen s r.since (stage.trail env r))
    (kept : Kept { setStage s i r stage with orders } i r stage)
    (untold : stage ≠ .done (.ok ())) : Inv env { setStage s i r stage with orders } := by
  have later : Later s { setStage s i r stage with orders } := ⟨fun _ => List.Subset.refl _, more⟩
  have away : ∀ b ∈ s.sent, b.request ≠ i := fun b => sent_ended inv there open_
  constructor
  · exact inv.last
  · intro r' member
    rcases mem_set member with old | rfl
    · exact inv.now r' old
    · exact inv.now r (List.mem_of_getElem? there)
  · intro r' member
    rcases mem_set member with old | rfl
    · exact seen_later later (inv.seen r' old)
    · rw [trail_stage]
      exact seen_later later seen
  · intro j r' here
    by_cases same : j = i
    · subst same
      cases (set_own there stage).symm.trans here
      exact kept
    · exact kept_later later (inv.kept j r' ((set_request same).symm.trans here))
  · intro b sent
    obtain ⟨r', outcome, here, ended⟩ := inv.over_ b sent
    exact ⟨r', outcome, (set_request (away b sent)).trans here, ended⟩
  · constructor
    · exact inv.orderly.once
    · intro b sent
      obtain ⟨r', portfolioId, accountId, instrumentId, here, just⟩ := inv.orderly.justified b sent
      exact ⟨r', portfolioId, accountId, instrumentId, (set_request (away b sent)).trans here,
        justified_later later just⟩
    · intro j r' here ended
      by_cases same : j = i
      · subst same
        cases (set_own there stage).symm.trans here
        exact absurd ended untold
      · exact inv.orderly.told j r' ((set_request same).symm.trans here) ended

theorem ends_inv {env : Env} {s : Desk} (inv : Inv env s) {i : Nat} {r : Submission}
    (there : s.requests[i]? = some r) (open_ : ∀ outcome, r.stage ≠ .done outcome)
    (error : ApiError) : Inv env (setStage s i r (.done (.error error))) :=
  move_inv inv there open_ s.orders (List.Subset.refl _) (fun _ member => nomatch member) trivial
    (by simp)

theorem map_ok {A B : Type} {x : Except ApiError A} {f : A → B} {b : B}
    (mapped : x.map f = .ok b) : ∃ a, x = .ok a ∧ b = f a := by
  cases x with
  | error e => cases mapped
  | ok a =>
    cases mapped
    exact ⟨a, rfl, rfl⟩

theorem read_seen {env : Env} {s : Desk} (inv : Inv env s) {r : Submission}
    (member : r ∈ s.requests) {stage : Stage} (found : read env s.world r = some (.ok stage)) :
    Seen s r.since (stage.trail env r) ∧ (∀ t i, Kept t i r stage) ∧
      (∀ outcome, r.stage ≠ .done outcome) ∧ ∀ outcome, stage ≠ .done outcome := by
  have now := inv.now r member
  have seen := inv.seen r member
  unfold read at found
  split at found
  case h_8 => cases found
  all_goals
    rename_i here
    rw [here] at seen ⊢
    obtain ⟨a, read, rfl⟩ := map_ok (Option.some.inj found)
    refine ⟨?_, fun _ _ => trivial, by simp, by simp⟩
  · intro P only
    rw [List.mem_singleton.mp only]
    exact ⟨s.world, now, read⟩
  all_goals exact seen_snoc seen now read

theorem begin_ok {env : Env} {w : World} {principalId : String} {req : SubmitOrderRequest}
    {k : Begun} (began : begin_ env w principalId req = .ok k) :
    env.parseUuid req.orderId = some k.orderId ∧ env.parseUuid req.portfolioId = some k.portfolioId ∧
      k.strategy = w.byPortfolioId k.portfolioId ∧
      ∀ strategy ∈ k.strategy, principalId = strategy.principalId := by
  unfold begin_ at began
  split at began
  · cases began
  · cases began
  · rename_i orderId portfolioId order portfolio
    dsimp only at began
    split at began
    · cases began
    · rename_i trades
      cases began
      refine ⟨order, portfolio, rfl, ?_⟩
      intro strategy here
      rw [Option.mem_def] at here
      dsimp only at here
      rw [here, Option.elim_some, OmsGuard.mayTrade] at trades
      split at trades
      · assumption
      · cases trades

theorem route_some {db : Db} {strategy : OmsRouting.Strategy} {req : SubmitOrderRequest}
    {account : String} {instrumentId : Int}
    (routed : strategyRoute db strategy req = .ok (some (account, instrumentId))) :
    ∃ symbol venue, req.instrumentId = none ∧ req.symbol = some symbol ∧ req.venue = some venue ∧
      strategy.connections.lookup venue = some account ∧
      ∃ m ∈ db.mappings.rows, m.instrumentId = instrumentId ∧ m.brokerSymbol = symbol ∧
        m.brokerCode = venue ∧ m.isTradeable = true := by
  unfold strategyRoute at routed
  split at routed
  · rename_i symbol venue noId byName byVenue
    split at routed
    · cases routed
    · rename_i account' looked
      split at routed
      · cases routed
      · rename_i m found
        cases routed
        have matches_ := List.find?_some found
        simp only [decide_eq_true_eq] at matches_
        exact ⟨symbol, venue, noId, byName, byVenue, looked, m, List.mem_of_find?_eq_some found, rfl,
          matches_.1, matches_.2.1, matches_.2.2⟩
  · cases routed

theorem pick_unrouted {env : Env} {db : Db} {req : SubmitOrderRequest} {k : Routed}
    {accountId : String} {explicit : Bool} (none_ : k.route = none)
    (picked : pickAccount env db req k = .ok (accountId, explicit)) :
    (∃ text, req.accountId = some text ∧ env.parseUuid text = some accountId ∧ explicit = true) ∨
      req.accountId = none ∧ explicit = false ∧
        ∃ p ∈ db.portfolios.rows, p.id = k.portfolioId ∧ p.defaultAccountId = some accountId := by
  unfold pickAccount at picked
  rw [none_] at picked
  split at picked
  · rename_i some_
    cases some_
  · rename_i text _ named
    split at picked
    · rename_i account parsed
      cases picked
      exact Or.inl ⟨text, named, parsed, rfl⟩
    · cases picked
  · rename_i _ unnamed
    obtain ⟨account, defaulted, same⟩ := map_ok picked
    cases same
    refine Or.inr ⟨unnamed, rfl, ?_⟩
    unfold defaultAccount at defaulted
    split at defaulted
    · rename_i found
      cases defaulted
      obtain ⟨p, here, is_⟩ := Option.bind_eq_some_iff.mp found
      obtain ⟨member, own⟩ := find_some.mp here
      exact ⟨p, member, own, is_⟩
    · cases defaulted

theorem pick_routed {env : Env} {db : Db} {req : SubmitOrderRequest} {k : Routed}
    {accountId account : String} {explicit : Bool} {instrumentId : Int}
    (routed : k.route = some (account, instrumentId))
    (picked : pickAccount env db req k = .ok (accountId, explicit)) :
    accountId = account ∧ explicit = true := by
  unfold pickAccount at picked
  rw [routed] at picked
  cases picked
  exact ⟨rfl, rfl⟩

structure Found (env : Env) (s : Desk) (r : Submission) (k : Placed) : Prop where
  began : Sometime s r.since fun w => begin_ env w r.principalId r.req = .ok k.toBegun
  routed : Sometime s r.since fun w =>
    (k.strategy.elim (.ok none) fun st => strategyRoute w.db st r.req) = .ok k.route
  picked : Sometime s r.since fun w =>
    pickAccount env w.db r.req k.toRouted = .ok (k.accountId, k.explicit)
  resolved : Sometime s r.since fun w =>
    pickInstrument env w.db r.req k.toRouted = .ok k.instrumentId
  connected : Sometime s r.since fun w =>
    loadAccount w.db k.portfolioId k.accountId k.explicit = .ok k.account
  listed : Sometime s r.since fun w =>
    loadInstrument w.db k.instrumentId r.req.timeInForce = .ok k.instrument
  placed : Sometime s r.since fun w =>
    loadMapping env.show_ w.db k.instrumentId k.account.brokerCode r.req.quantity = .ok k.mapping
  granted : Sometime s r.since fun w => hasGrant w.db r.principalId k.portfolioId = true

theorem found {env : Env} {s : Desk} {r : Submission} {k : Placed}
    (seen : Seen s r.since (admittedTrail env r k)) : Found env s r k := by
  simp only [Seen, admittedTrail, Placed.trail, Listing.trail, Connected.trail, Resolved.trail,
    Picked.trail, Routed.trail, Begun.trail, List.mem_append, List.mem_singleton, or_imp,
    forall_and, forall_eq] at seen
  obtain ⟨⟨⟨⟨⟨⟨⟨began, routed⟩, picked⟩, resolved⟩, connected⟩, listed⟩, placed⟩, granted⟩ := seen
  exact ⟨began, routed, picked, resolved, connected, listed, placed, granted⟩

theorem found_named {env : Env} {s : Desk} {r : Submission} {k : Placed}
    (found : Found env s r k) :
    (ByBroker s r k.portfolioId k.accountId k.instrumentId ∨
      ByAccount env s r k.portfolioId k.accountId ∧
        Sometime s r.since fun w => Refers w.db r.req k.instrumentId) ∧
      (k.explicit = false → r.req.accountId = none) := by
  obtain ⟨began, beganIn, start⟩ := found.began
  obtain ⟨-, -, registered, -⟩ := begin_ok start
  obtain ⟨routedAt, routedIn, routed⟩ := found.routed
  obtain ⟨pickedAt, pickedIn, picked⟩ := found.picked
  obtain ⟨resolvedAt, resolvedIn, resolved⟩ := found.resolved
  cases route : k.route with
  | some pair =>
    obtain ⟨account, instrumentId⟩ := pair
    obtain ⟨own, explicit⟩ := pick_routed route picked
    simp only [pickInstrument, route, Except.ok.injEq] at resolved
    subst own resolved
    refine ⟨Or.inl ?_, by simp [explicit]⟩
    cases known : k.strategy with
    | none =>
      rw [known, route] at routed
      cases routed
    | some strategy =>
      rw [known, route, Option.elim_some] at routed
      obtain ⟨symbol, venue, noId, byName, byVenue, looked, mapped⟩ := route_some routed
      exact ⟨symbol, venue, strategy, noId, byName, byVenue, looked,
        ⟨began, beganIn, registered.symm.trans known⟩, ⟨routedAt, routedIn, mapped⟩⟩
  | none =>
    simp only [pickInstrument, route] at resolved
    have refers : Sometime s r.since fun w => Refers w.db r.req k.instrumentId :=
      ⟨resolvedAt, resolvedIn, resolve_refers.mp resolved⟩
    rcases pick_unrouted route picked with ⟨text, named, parsed, explicit⟩ | ⟨unnamed, -, there⟩
    · refine ⟨Or.inr ⟨?_, refers⟩, by simp [explicit]⟩
      unfold ByAccount
      rw [named]
      exact parsed
    · refine ⟨Or.inr ⟨?_, refers⟩, fun _ => unnamed⟩
      unfold ByAccount
      rw [unnamed]
      exact ⟨pickedAt, pickedIn, there⟩

theorem found_justified {env : Env} {s : Desk} {i : Nat} {r : Submission} {k : Placed}
    {state : OrderAggregateState} (found : Found env s r k) (kept : Kept s i r (.stored k state)) :
    Justified env s ⟨i, k.account.brokerCode, k.account.environment, brokerRequest k state⟩ r
      k.portfolioId k.accountId k.instrumentId := by
  obtain ⟨rfl, o, member, own, for_, by_, row⟩ := kept
  obtain ⟨began, beganIn, start⟩ := found.began
  obtain ⟨order, portfolio, registered, trades⟩ := begin_ok start
  obtain ⟨named, unnamed⟩ := found_named found
  constructor
  case ids => exact ⟨order, portfolio⟩
  case terms => exact ⟨rfl, rfl, rfl, rfl, rfl⟩
  case named => exact named
  case trader =>
    rw [registered] at trades
    exact ⟨began, beganIn, trades⟩
  case granted =>
    obtain ⟨w, member, granted⟩ := found.granted
    obtain ⟨g, there, trades⟩ := (Option.any_eq_true _ _).mp granted
    obtain ⟨row, key⟩ := find_some.mp there
    obtain ⟨who, which⟩ := Prod.mk.inj key
    exact ⟨w, member, g, row, who, which, trades⟩
  case account =>
    obtain ⟨w, seen, loaded⟩ := found.connected
    obtain ⟨a, here, bc, there, id, code, open_, owner, same⟩ := load_account_ok.mp loaded
    refine ⟨w, seen, a, here, bc, there, id, code, open_, ?_, ?_⟩
    · exact owner.imp_right fun nobody => ⟨nobody.1, unnamed nobody.2⟩
    · simp [same, brokerRequest]
  case instrument =>
    obtain ⟨w, seen, loaded⟩ := found.listed
    obtain ⟨here, id, open_, dated⟩ := load_instrument_ok.mp loaded
    exact ⟨w, seen, k.instrument, here, id, open_, dated⟩
  case mapping =>
    obtain ⟨w, seen, loaded⟩ := found.placed
    obtain ⟨here, id, broker, trades, enough⟩ := load_mapping_ok.mp loaded
    exact ⟨w, seen, k.mapping, here, id, broker, trades, enough, rfl, rfl⟩
  case stored => exact ⟨o, member, own, for_, by_, row⟩

theorem start_inv (env : Env) (w : World) (orders : Table String StoredOrder StoredOrder.orderId) :
    Inv env (.start w orders) := by
  constructor
  case last => rfl
  case orderly => constructor <;> simp [Desk.start]
  all_goals simp [Desk.start]

theorem edit_inv {env : Env} {s : Desk} (inv : Inv env s) (w : World) :
    Inv env { s with past := s.past ++ [w], world := w } := by
  have later : Later s { s with past := s.past ++ [w], world := w } := by
    refine ⟨?_, List.Subset.refl _⟩
    intro since v seen
    rw [List.drop_append]
    exact List.mem_append_left _ seen
  have behind : ∀ r ∈ s.requests, r.since ≤ s.past.length := by
    intro r member
    have some_ := List.length_pos_of_mem (inv.now r member)
    rw [List.length_drop] at some_
    omega
  constructor
  · simp
  · intro r member
    rw [List.drop_append_of_le_length (behind r member)]
    exact List.mem_append_right _ List.mem_cons_self
  · exact fun r member => seen_later later (inv.seen r member)
  · exact fun i r here => kept_later later (inv.kept i r here)
  · exact inv.over_
  · refine ⟨inv.orderly.once, ?_, inv.orderly.told⟩
    intro b sent
    obtain ⟨r, portfolioId, accountId, instrumentId, here, just⟩ := inv.orderly.justified b sent
    exact ⟨r, portfolioId, accountId, instrumentId, here, justified_later later just⟩

theorem snoc_some {A : Type} {l : List A} {a x : A} {i : Nat} (there : (l ++ [a])[i]? = some x) :
    l[i]? = some x ∨ x = a := by
  by_cases before : i < l.length
  · rw [List.getElem?_append_left before] at there
    exact Or.inl there
  · rw [List.getElem?_append_right (Nat.not_lt.mp before)] at there
    exact Or.inr (List.mem_singleton.mp (List.mem_of_getElem? there))

theorem receive_inv {env : Env} {s : Desk} (inv : Inv env s) (principalId : String)
    (req : SubmitOrderRequest) :
    Inv env { s with requests := s.requests ++ [⟨principalId, req, s.past.length - 1, .received⟩] } := by
  have kept : ∀ {i : Nat} {r : Submission}, s.requests[i]? = some r →
      (s.requests ++ [⟨principalId, req, s.past.length - 1, .received⟩])[i]? = some r := by
    intro i r here
    rwa [List.getElem?_append_left (List.getElem?_eq_some_iff.mp here).1]
  constructor
  · exact inv.last
  · intro r member
    rcases List.mem_append.mp member with old | new
    · exact inv.now r old
    · rw [List.mem_singleton.mp new, inv.last]
      exact List.mem_cons_self
  · intro r member
    rcases List.mem_append.mp member with old | new
    · exact inv.seen r old
    · rw [List.mem_singleton.mp new]
      exact fun _ none_ => nomatch none_
  · intro i r here
    rcases snoc_some here with old | rfl
    · exact inv.kept i r old
    · trivial
  · intro b sent
    obtain ⟨r, outcome, here, ended⟩ := inv.over_ b sent
    exact ⟨r, outcome, kept here, ended⟩
  · refine ⟨inv.orderly.once, ?_, ?_⟩
    · intro b sent
      obtain ⟨r, portfolioId, accountId, instrumentId, here, just⟩ := inv.orderly.justified b sent
      refine ⟨r, portfolioId, accountId, instrumentId, kept here, justified_later ?_ just⟩
      exact later_same rfl rfl
    · intro i r here ended
      rcases snoc_some here with old | rfl
      · exact inv.orderly.told i r old ended
      · cases ended

theorem insert_inv {env : Env} {s : Desk} (inv : Inv env s) {i : Nat} {r : Submission}
    (there : s.requests[i]? = some r) (open_ : ∀ outcome, r.stage ≠ .done outcome) (known : Placed)
    (stored : Except ApiError OrderDb) (after : OrderAggregateState → Stage)
    (seen : ∀ state, Seen s r.since ((after state).trail env r))
    (untold : ∀ state, after state ≠ .done (.ok ()))
    (own : ∀ db row state k, stored = .ok db → db.row = some row →
      after row.toOrderAggregateState = .stored k state →
        k = known ∧ state = submitState (command r known) ∧ row.toOrderAggregateState = state) :
    Inv env (insertOrder s i r known stored after) := by
  unfold insertOrder
  split
  · exact ends_inv inv there open_ _
  · rename_i db
    split
    · rename_i row free at_
      have fresh : known.orderId ∉ s.orders.rows.map StoredOrder.orderId := by
        intro taken
        obtain ⟨o, member, same⟩ := List.mem_map.mp taken
        exact find_none.mp free o member same
      refine move_inv inv there open_ _ ?_ (seen _) ?_ (untold _)
      · exact fun o member => mem_insert.mpr (Or.inl member)
      · cases leads : after row.toOrderAggregateState with
        | stored k state =>
          obtain ⟨rfl, terms, same⟩ := own db row state k rfl at_ leads
          refine ⟨terms, _, mem_insert.mpr (Or.inr ⟨rfl, fresh⟩), rfl, rfl, rfl, ?_⟩
          rw [at_, Option.map_some, same]
        | _ => trivial
    · exact ends_inv inv there open_ _

theorem send_inv {env : Env} {s : Desk} (inv : Inv env s) {i : Nat} {r : Submission}
    (there : s.requests[i]? = some r) {k : Placed} {state : OrderAggregateState}
    (at_ : r.stage = .stored k state) (outcome : Except ApiError Unit) :
    Inv env { setStage s i r (.done outcome) with
      sent := s.sent ++ [⟨i, k.account.brokerCode, k.account.environment, brokerRequest k state⟩] } := by
  have open_ : ∀ outcome, r.stage ≠ .done outcome := by simp [at_]
  have away : ∀ b ∈ s.sent, b.request ≠ i := fun b => sent_ended inv there open_
  have seen := inv.seen r (List.mem_of_getElem? there)
  have kept := inv.kept i r there
  rw [at_] at seen kept
  have just := found_justified (found seen) kept
  constructor
  · exact inv.last
  · intro r' member
    rcases mem_set member with old | rfl
    · exact inv.now r' old
    · exact inv.now r (List.mem_of_getElem? there)
  · intro r' member
    rcases mem_set member with old | rfl
    · exact inv.seen r' old
    · exact fun _ none_ => nomatch none_
  · intro j r' here
    by_cases same : j = i
    · subst same
      cases (set_own there (.done outcome)).symm.trans here
      trivial
    · exact inv.kept j r' ((set_request same).symm.trans here)
  · intro b sent
    rcases List.mem_append.mp sent with old | new
    · obtain ⟨r', outcome', here, ended⟩ := inv.over_ b old
      exact ⟨r', outcome', (set_request (away b old)).trans here, ended⟩
    · rw [List.mem_singleton.mp new]
      exact ⟨_, outcome, set_own there _, rfl⟩
  · constructor
    · rw [List.map_append]
      refine List.nodup_append.mpr ⟨inv.orderly.once, List.nodup_singleton _, ?_⟩
      intro id before id' new same
      obtain ⟨b, old, rfl⟩ := List.mem_map.mp before
      rw [List.map_singleton, List.mem_singleton] at new
      subst new
      obtain ⟨_, _, _, _, _, earlier⟩ := inv.orderly.justified b old
      obtain ⟨o, member, own, for_, -⟩ := earlier.stored
      obtain ⟨o', member', own', for_', -⟩ := just.stored
      have one : o = o' := row_unique s.orders member member' (own.trans (same.trans own'.symm))
      exact away b old (for_.symm.trans (one ▸ for_'))
    · intro b sent
      rcases List.mem_append.mp sent with old | new
      · obtain ⟨r', portfolioId, accountId, instrumentId, here, just'⟩ :=
          inv.orderly.justified b old
        refine ⟨r', portfolioId, accountId, instrumentId, (set_request (away b old)).trans here,
          justified_later ?_ just'⟩
        exact later_same rfl rfl
      · rw [List.mem_singleton.mp new]
        refine ⟨_, _, _, _, set_own there _,
          justified_later ?_ (justified_stage just (.done outcome))⟩
        exact later_same rfl rfl
    · intro j r' here ended
      by_cases same : j = i
      · subst same
        exact ⟨_, List.mem_append_right _ List.mem_cons_self, rfl⟩
      · obtain ⟨b, old, for_⟩ := inv.orderly.told j r' ((set_request same).symm.trans here) ended
        exact ⟨b, List.mem_append_left _ old, for_⟩

theorem stored_placed {cmd : SubmitOrder} {metadata : EventMetadata} {code : String}
    {createdAt : Nat} {db : OrderDb} {row : OrderRow}
    (inserted : submitTx cmd metadata code createdAt .empty = .ok db) (at_ : db.row = some row) :
    row.toOrderAggregateState = submitState cmd := by
  have empty : Numbered .empty := ⟨rfl, by simp [OrderDb.empty], fun _ => rfl⟩
  obtain ⟨-, -, event, -, -, -, -, rfl⟩ := submit_tx_inserts empty inserted
  cases at_
  rfl

theorem refused_inv {env : Env} {s : Desk} (inv : Inv env s) {i : Nat} {r : Submission}
    (there : s.requests[i]? = some r) (open_ : ∀ outcome, r.stage ≠ .done outcome) (known : Placed)
    (rejection : RiskRejection) (stamps : Stamps) :
    Inv env (refused s i r known rejection stamps) := by
  refine insert_inv inv there open_ known _ _ ?_ (by simp) ?_
  · exact fun _ _ none_ => nomatch none_
  · intro db row state k _ _ wrong
    cases wrong

theorem step_inv {env : Env} {s t : Desk} {a : Action} (inv : Inv env s)
    (stepped : step env s a = some t) : Inv env t := by
  cases a with
  | edit w =>
    cases stepped
    exact edit_inv inv w
  | receive principalId req =>
    cases stepped
    exact receive_inv inv principalId req
  | read i =>
    obtain ⟨r, there, taken⟩ := Option.bind_eq_some_iff.mp stepped
    obtain ⟨result, found, moved⟩ := Option.map_eq_some_iff.mp taken
    have member := List.mem_of_getElem? there
    cases result with
    | ok stage =>
      cases moved
      obtain ⟨seen, kept, open_, later⟩ := read_seen inv member found
      exact move_inv inv there open_ s.orders (List.Subset.refl _) seen (kept _ _) (later _)
    | error error =>
      cases moved
      refine ends_inv inv there ?_ error
      intro outcome ended
      simp [read, ended] at found
  | fail i message =>
    obtain ⟨r, there, taken⟩ := Option.bind_eq_some_iff.mp stepped
    split at taken
    · cases taken
    · rename_i open_
      cases taken
      exact ends_inv inv there open_ _
  | refuse i rejection stamps =>
    obtain ⟨r, there, taken⟩ := Option.bind_eq_some_iff.mp stepped
    split at taken
    · rename_i known at_
      cases taken
      exact refused_inv inv there (by simp [at_]) known rejection stamps
    · rename_i known at_
      cases taken
      exact refused_inv inv there (by simp [at_]) known rejection stamps
    · cases taken
  | accept i =>
    obtain ⟨r, there, taken⟩ := Option.bind_eq_some_iff.mp stepped
    split at taken
    · rename_i known at_
      have open_ : ∀ outcome, r.stage ≠ .done outcome := by simp [at_]
      have member := List.mem_of_getElem? there
      split at taken
      · cases taken
        exact ends_inv inv there open_ _
      · split at taken
        · cases taken
          exact ends_inv inv there open_ _
        · rename_i granted
          cases taken
          have seen := inv.seen r member
          rw [at_] at seen
          have grants : hasGrant s.world.db r.principalId known.portfolioId = true := by
            simpa using granted
          exact move_inv inv there open_ s.orders (List.Subset.refl _)
            (seen_snoc seen (inv.now r member) grants) trivial (by simp)
    · cases taken
  | store i stamps acknowledged =>
    obtain ⟨r, there, taken⟩ := Option.bind_eq_some_iff.mp stepped
    split at taken
    · rename_i known at_
      cases taken
      have seen := inv.seen r (List.mem_of_getElem? there)
      rw [at_] at seen
      refine insert_inv inv there (by simp [at_]) known _ _ ?_ ?_ ?_
      · intro state
        cases acknowledged with
        | true => exact seen
        | false =>
          intro _ none_
          cases none_
      · intro state
        cases acknowledged <;> simp
      · intro db row state k inserted here leads
        cases acknowledged with
        | true =>
          cases leads
          have terms := stored_placed inserted here
          exact ⟨rfl, terms, rfl⟩
        | false => cases leads
    · cases taken
  | send i outcome =>
    obtain ⟨r, there, taken⟩ := Option.bind_eq_some_iff.mp stepped
    split at taken
    · rename_i known state at_
      split at taken
      · cases taken
        exact send_inv inv there at_ outcome
      · cases taken
        exact ends_inv inv there (by simp [at_]) _
    · cases taken

/-- However admins' edits fall between the statements of however many submits, no order goes
    out twice, each that does had every check passed since it was asked for, and whoever is
    told that it went is told so truly. -/
theorem sent_justified (env : Env) (w : World) (orders : Table String StoredOrder StoredOrder.orderId)
    (acts : List Action) : Throughout (step env) (Orderly env) (.start w orders) acts := by
  have all : Throughout (step env) (Inv env) (.start w orders) acts :=
    throughout_keeps (fun _ _ _ before stepped => step_inv before stepped) (start_inv env w orders)
      acts
  exact throughout_mono (fun _ inv => inv.orderly) all

end OmsSubmissions
