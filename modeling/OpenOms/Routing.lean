import OpenOms.Library.Keyed
import OpenOms.Library.Lists
import OpenOms.OrderEntry
import OpenOms.Strategies.Guard

/-!
What `submit` reads before it stores an order: the account and the instrument its request
names, and where that account's broker takes that instrument. Each function is one
statement and what is checked of its row.
-/
namespace OmsRouting
open OmsOrders OmsOrderEntry Keyed Lists

structure Portfolio where
  id : String
  defaultAccountId : Option String
  deriving DecidableEq, Repr

structure Account where
  id : String
  portfolioId : Option String
  brokerConnectionCode : String
  externalAccountRef : String
  deriving DecidableEq, Repr

structure BrokerConnection where
  code : String
  brokerCode : String
  environment : String
  status : String
  deriving DecidableEq, Repr

structure Instrument where
  id : Int
  symbol : String
  venue : String
  instrumentClass : String
  status : String
  deriving DecidableEq, Repr

structure BrokerInstrument where
  instrumentId : Int
  brokerCode : String
  brokerSymbol : String
  nativeId : Option String
  isTradeable : Bool
  minQuantity : Option ℚ
  deriving DecidableEq, Repr

structure Grant where
  principalId : String
  portfolioId : String
  canTrade : Bool
  canView : Bool
  deriving DecidableEq, Repr

/-- The tables an order is routed by, each under its unique keys. -/
structure Db where
  portfolios : Table String Portfolio Portfolio.id
  accounts : Table String Account Account.id
  connections : Table String BrokerConnection BrokerConnection.code
  instruments : Table Int Instrument Instrument.id
  listings : (instruments.rows.map fun i => (i.symbol, i.venue)).Nodup
  mappings : Table (Int × String) BrokerInstrument fun m => (m.instrumentId, m.brokerCode)
  grants : Table (String × String) Grant fun g => (g.principalId, g.portfolioId)

/-- A strategy of the registry, with the account it trades each broker's orders in. -/
structure Strategy extends OmsGuard.Strategy where
  portfolioId : String
  connections : List (String × String)
  deriving DecidableEq, Repr

structure SubmitOrderRequest where
  orderId : String
  clientOrderId : String
  portfolioId : String
  accountId : Option String
  instrumentId : Option String
  symbol : Option String
  venue : Option String
  side : OrderSide
  orderType : OmsOrders.OrderType
  timeInForce : TimeInForce
  limitPrice : Option ℚ
  quantity : ℚ
  deriving DecidableEq, Repr

def SubmitOrderRequest.intoCommand (self : SubmitOrderRequest) (accountId : String)
    (instrumentId : Int) : SubmitOrder :=
  { orderId := self.orderId, clientOrderId := self.clientOrderId
    portfolioId := self.portfolioId, accountId, instrumentId := toString instrumentId
    side := self.side, orderType := self.orderType, timeInForce := self.timeInForce
    limitPrice := self.limitPrice, quantity := self.quantity }

def badRequest (message : String) : ApiError := ⟨400, message⟩

def unprocessable (message : String) : ApiError := ⟨422, message⟩

def parseI64 (text : String) : Option Int :=
  let (sign, digits) :=
    match text.toList with
    | '-' :: rest => (-1, rest)
    | '+' :: rest => (1, rest)
    | chars => ((1 : Int), chars)
  let value := sign * digits.foldl (fun n c => 10 * n + (c.toNat - '0'.toNat)) 0
  if digits ≠ [] ∧ digits.all Char.isDigit ∧ -2 ^ 63 ≤ value ∧ value < 2 ^ 63 then some value
  else none

def rsplitOnce (at_ : Char) (chars : List Char) : Option (List Char × List Char) :=
  let last := (chars.reverse.takeWhile (· ≠ at_)).reverse
  if at_ ∈ chars then some (chars.take (chars.length - last.length - 1), last) else none

def splitSymbolAtVenue (symbol : String) : Option (String × String) :=
  (rsplitOnce '@' symbol.toList).bind fun (sym, venue) =>
    if sym ≠ [] ∧ venue ≠ [] then some (String.ofList sym, String.ofList venue) else none

def given (field : Option String) : Option String := field.filter (· ≠ "")

def active (i : Instrument) : Bool := i.status = "ACTIVE"

def strategyRoute (db : Db) (strategy : Strategy) (req : SubmitOrderRequest) :
    Except ApiError (Option (String × Int)) :=
  match req.instrumentId, req.symbol, req.venue with
  | none, some symbol, some venue =>
    match strategy.connections.lookup venue with
    | none => .error (unprocessable s!"strategy has no connection for {venue}")
    | some account =>
      match db.mappings.rows.find? fun m =>
        m.brokerSymbol = symbol ∧ m.brokerCode = venue ∧ m.isTradeable with
      | none => .error (unprocessable s!"{symbol} is not tradeable on {venue}")
      | some m => .ok (some (account, m.instrumentId))
  | _, _, _ => .ok none

def ambiguous (symbol : String) (candidates : List Instrument) : ApiError :=
  let venues := ", ".intercalate (candidates.map Instrument.venue)
  unprocessable
    s!"symbol {symbol} is ambiguous across venues: [{venues}] — qualify it as {symbol}@VENUE"

def resolveListing (collate : String → String → Bool) (db : Db) (symbol : String)
    (venue : Option String) : Except ApiError Int :=
  match venue with
  | some venue =>
    match db.instruments.rows.find? fun i => i.symbol = symbol ∧ i.venue = venue ∧ active i with
    | some i => .ok i.id
    | none => .error (unprocessable "instrument not found")
  | none =>
    match (db.instruments.rows.filter fun i => i.symbol = symbol ∧ active i).mergeSort
      fun i j => collate i.venue j.venue with
    | [i] => .ok i.id
    | [] => .error (unprocessable "instrument not found")
    | many => .error (ambiguous symbol many)

def resolveInstrumentRef (collate : String → String → Bool) (db : Db) (req : SubmitOrderRequest) :
    Except ApiError Int :=
  match given req.instrumentId with
  | some id =>
    match parseI64 id with
    | some id => .ok id
    | none => .error (badRequest "instrument_id must be a BIGINT")
  | none =>
    match given req.symbol with
    | none => .error (badRequest "one of instrument_id or symbol is required")
    | some symbol =>
      match splitSymbolAtVenue symbol, given req.venue with
      | some _, some _ =>
        .error (badRequest "venue given both in symbol (SYMBOL@VENUE) and in the venue field")
      | some (symbol, venue), none => resolveListing collate db symbol (some venue)
      | none, venue => resolveListing collate db symbol venue

def defaultAccount (db : Db) (portfolioId : String) : Except ApiError String :=
  match (db.portfolios.find portfolioId).bind Portfolio.defaultAccountId with
  | some account => .ok account
  | none => .error (badRequest "no account_id given and portfolio has no default account")

structure AccountRoute where
  accountId : String
  brokerCode : String
  environment : String
  brokerConnectionCode : String
  externalAccountRef : String
  deriving DecidableEq, Repr

def checkOwner (explicit : Bool) (owner : Option String) (portfolioId : String) :
    Except ApiError Unit :=
  if explicit then
    if owner = some portfolioId then .ok ()
    else .error (badRequest "account does not belong to this portfolio")
  else
    match owner with
    | some other =>
      if other = portfolioId then .ok ()
      else .error (badRequest "portfolio's default account belongs to a different portfolio")
    | none => .ok ()

def loadAccount (db : Db) (portfolioId accountId : String) (explicit : Bool) :
    Except ApiError AccountRoute :=
  match (db.accounts.find accountId).bind fun a =>
    ((db.connections.find a.brokerConnectionCode).filter (·.status = "ACTIVE")).map (a, ·) with
  | none => .error (badRequest "account not found or its broker connection is not active")
  | some (a, bc) => (checkOwner explicit a.portfolioId portfolioId).map fun _ =>
    ⟨a.id, bc.brokerCode, bc.environment, bc.code, a.externalAccountRef⟩

def loadInstrument (db : Db) (instrumentId : Int) (timeInForce : TimeInForce) :
    Except ApiError Instrument :=
  match db.instruments.find instrumentId with
  | none => .error (unprocessable "instrument not found")
  | some i =>
    if !active i then .error (unprocessable "instrument not active")
    else if i.instrumentClass = "OPTION" ∧ timeInForce ≠ .day then
      .error (unprocessable "option orders require time_in_force=day")
    else .ok i

def loadMapping (show_ : ℚ → String) (db : Db) (instrumentId : Int) (brokerCode : String)
    (quantity : ℚ) : Except ApiError BrokerInstrument :=
  match (db.mappings.find (instrumentId, brokerCode)).filter (·.isTradeable) with
  | none => .error (unprocessable s!"no tradeable mapping for instrument on broker {brokerCode}")
  | some m =>
    match m.minQuantity.filter (quantity < ·) with
    | some min => .error (unprocessable s!"quantity {show_ quantity} below broker minimum {show_ min}")
    | none => .ok m

def hasGrant (db : Db) (principalId portfolioId : String) : Bool :=
  (db.grants.find (principalId, portfolioId)).any Grant.canTrade

structure BrokerOrderRequest where
  orderId : String
  symbol : String
  nativeId : Option String
  quantity : ℚ
  side : OrderSide
  orderType : OmsOrders.OrderType
  timeInForce : TimeInForce
  limitPrice : Option ℚ
  externalAccountRef : String
  deriving DecidableEq, Repr

structure VenueOption where
  brokerCode : String
  environment : Option String
  brokerConnectionCode : Option String
  accountId : Option String
  eligible : Bool
  reason : Option String
  deriving DecidableEq, Repr

def classifyVenue (isTradeable : Bool) (connectionStatus : Option String) (hasAccount : Bool) :
    Bool × Option String :=
  if !isTradeable then (false, some "not tradeable on this broker")
  else if connectionStatus ≠ some "ACTIVE" then (false, some "broker connection is not active")
  else if !hasAccount then (false, some "no account on this connection for this portfolio")
  else (true, none)

def leftJoin {A B : Type} (partners : A → List B) (rows : List A) : List (A × Option B) :=
  rows.flatMap fun a =>
    match partners a with
    | [] => [(a, none)]
    | found => found.map fun b => (a, some b)

def venueRows (db : Db) (portfolioId : String) (instrumentId : Int) :
    List ((BrokerInstrument × Option BrokerConnection) × Option Account) :=
  let mapped := db.mappings.rows.filter (·.instrumentId = instrumentId)
  let connected := leftJoin (fun m => db.connections.rows.filter (·.brokerCode = m.brokerCode)) mapped
  leftJoin (fun (_, bc) => db.accounts.rows.filter fun a =>
    bc.any (a.brokerConnectionCode = ·.code) ∧ a.portfolioId = some portfolioId) connected

def venueOption (row : (BrokerInstrument × Option BrokerConnection) × Option Account) :
    VenueOption :=
  let ((m, bc), a) := row
  let (eligible, reason) := classifyVenue m.isTradeable (bc.map BrokerConnection.status) a.isSome
  { brokerCode := m.brokerCode, environment := bc.map BrokerConnection.environment
    brokerConnectionCode := bc.map BrokerConnection.code, accountId := a.map Account.id
    eligible, reason }

def getPortfolioVenues (db : Db) (principalId portfolioId instrumentId : String) :
    Except ApiError (List VenueOption) :=
  if !(db.grants.find (principalId, portfolioId)).any Grant.canView then
    .error ⟨403, "unauthorized"⟩
  else
    match parseI64 instrumentId with
    | none => .ok []
    | some instrumentId => .ok ((venueRows db portfolioId instrumentId).map venueOption)

/-- The account is on an active connection and is the portfolio's, or nobody's where it
    is the portfolio's default. -/
theorem load_account_ok {db : Db} {portfolioId accountId : String} {explicit : Bool}
    {account : AccountRoute} :
    loadAccount db portfolioId accountId explicit = .ok account ↔
      ∃ a ∈ db.accounts.rows, ∃ bc ∈ db.connections.rows, a.id = accountId ∧
        a.brokerConnectionCode = bc.code ∧ bc.status = "ACTIVE" ∧
        (a.portfolioId = some portfolioId ∨ a.portfolioId = none ∧ explicit = false) ∧
        account = ⟨a.id, bc.brokerCode, bc.environment, bc.code, a.externalAccountRef⟩ := by
  have owner : ∀ a : Account, checkOwner explicit a.portfolioId portfolioId = .ok () ↔
      (a.portfolioId = some portfolioId ∨ a.portfolioId = none ∧ explicit = false) := by
    intro a
    cases explicit <;> cases named : a.portfolioId <;> simp [checkOwner]
  constructor
  · intro loaded
    unfold loadAccount at loaded
    split at loaded
    · cases loaded
    · rename_i a bc found
      obtain ⟨a', here, joined⟩ := Option.bind_eq_some_iff.mp found
      obtain ⟨bc', filtered, pair⟩ := Option.map_eq_some_iff.mp joined
      cases pair
      obtain ⟨there, open_⟩ := Option.filter_eq_some_iff.mp filtered
      obtain ⟨member, rfl⟩ := find_some.mp here
      obtain ⟨connected, code⟩ := find_some.mp there
      cases owned : checkOwner explicit a.portfolioId portfolioId with
      | error e =>
        rw [owned] at loaded
        cases loaded
      | ok _ =>
        rw [owned] at loaded
        cases loaded
        exact ⟨a, member, bc, connected, rfl, code.symm, of_decide_eq_true open_,
          (owner a).mp owned, rfl⟩
  · rintro ⟨a, member, bc, connected, rfl, code, open_, owned, rfl⟩
    have here : db.accounts.find a.id = some a := find_some.mpr ⟨member, rfl⟩
    have there : db.connections.find a.brokerConnectionCode = some bc :=
      find_some.mpr ⟨connected, code.symm⟩
    have kept : (some bc).filter (·.status = "ACTIVE") = some bc := by
      rw [Option.filter_some, if_pos (decide_eq_true open_)]
    simp only [loadAccount, here, Option.bind_some, there, kept, Option.map_some,
      (owner a).mpr owned]
    rfl

theorem load_instrument_ok {db : Db} {instrumentId : Int} {timeInForce : TimeInForce}
    {i : Instrument} :
    loadInstrument db instrumentId timeInForce = .ok i ↔
      i ∈ db.instruments.rows ∧ i.id = instrumentId ∧ i.status = "ACTIVE" ∧
        (i.instrumentClass = "OPTION" → timeInForce = .day) := by
  unfold loadInstrument
  rw [← and_assoc, ← find_some]
  cases found : db.instruments.find instrumentId with
  | none => simp
  | some j =>
    simp only [Option.some.injEq]
    split
    · rename_i closed
      constructor
      · intro refused
        cases refused
      · rintro ⟨rfl, open_, -⟩
        simp [active, open_] at closed
    · rename_i open_
      split
      · rename_i dated
        constructor
        · intro refused
          cases refused
        · rintro ⟨rfl, -, day⟩
          exact absurd (day dated.1) dated.2
      · rename_i undated
        constructor
        · intro same
          cases same
          exact ⟨rfl, by simpa [active] using open_, by simpa using undated⟩
        · rintro ⟨rfl, -⟩
          rfl

theorem load_mapping_ok {show_ : ℚ → String} {db : Db} {instrumentId : Int} {brokerCode : String}
    {quantity : ℚ} {m : BrokerInstrument} :
    loadMapping show_ db instrumentId brokerCode quantity = .ok m ↔
      m ∈ db.mappings.rows ∧ m.instrumentId = instrumentId ∧ m.brokerCode = brokerCode ∧
        m.isTradeable = true ∧ ∀ min ∈ m.minQuantity, min ≤ quantity := by
  have found : (db.mappings.find (instrumentId, brokerCode)).filter (·.isTradeable) = some m ↔
      m ∈ db.mappings.rows ∧ m.instrumentId = instrumentId ∧ m.brokerCode = brokerCode ∧
        m.isTradeable = true := by
    rw [Option.filter_eq_some_iff, find_some, Prod.mk.injEq, and_assoc, and_assoc]
  have enough : ∀ n : BrokerInstrument, n.minQuantity.filter (quantity < ·) = none ↔
      ∀ min ∈ n.minQuantity, min ≤ quantity := by
    intro n
    rw [Option.filter_eq_none_iff]
    simp
  unfold loadMapping
  rw [← and_assoc, ← and_assoc, ← and_assoc, and_assoc (a := m ∈ db.mappings.rows),
    and_assoc (a := m ∈ db.mappings.rows), and_assoc (b := m.brokerCode = brokerCode), ← found]
  split
  · rename_i none_
    simp [none_]
  · rename_i n some_
    rw [some_]
    split
    · rename_i min short
      constructor
      · intro refused
        cases refused
      · rintro ⟨same, least⟩
        cases same
        rw [(enough m).mpr least] at short
        cases short
    · rename_i above
      constructor
      · intro same
        cases same
        exact ⟨rfl, (enough m).mp above⟩
      · rintro ⟨same, -⟩
        cases same
        rfl

theorem classify_eligible {isTradeable : Bool} {status : Option String} {hasAccount : Bool} :
    (classifyVenue isTradeable status hasAccount).1 = true ↔
      isTradeable = true ∧ status = some "ACTIVE" ∧ hasAccount = true := by
  unfold classifyVenue
  cases isTradeable <;> cases hasAccount <;> by_cases open_ : status = some "ACTIVE" <;> simp [open_]

theorem mem_left_join {A B : Type} {partners : A → List B} {rows : List A} {a : A} {b : B} :
    (a, some b) ∈ leftJoin partners rows ↔ a ∈ rows ∧ b ∈ partners a := by
  simp only [leftJoin, List.mem_flatMap]
  constructor
  · rintro ⟨a', member, there⟩
    split at there
    · simp at there
    · rename_i found _
      obtain ⟨b', partner, same⟩ := List.mem_map.mp there
      cases same
      exact ⟨member, partner⟩
  · rintro ⟨member, partner⟩
    refine ⟨a, member, ?_⟩
    split
    · rename_i none_
      rw [none_] at partner
      cases partner
    · exact List.mem_map.mpr ⟨b, partner, rfl⟩

theorem rsplit_once_iff {c : Char} {chars a b : List Char} :
    rsplitOnce c chars = some (a, b) ↔ chars = a ++ c :: b ∧ c ∉ b := by
  have last : ∀ a b : List Char, c ∉ b → (a ++ c :: b).reverse.takeWhile (· ≠ c) = b.reverse := by
    intro a b away
    have passes : ∀ x ∈ b.reverse, decide (x ≠ c) = true := by
      intro x member
      refine decide_eq_true ?_
      rintro rfl
      exact away (List.mem_reverse.mp member)
    rw [List.reverse_append, List.reverse_cons, List.append_assoc,
      List.takeWhile_append_of_pos passes]
    simp
  have split : ∀ a b : List Char, c ∉ b → rsplitOnce c (a ++ c :: b) = some (a, b) := by
    intro a b away
    have before : (a ++ c :: b).length - b.length - 1 = a.length := by
      rw [List.length_append, List.length_cons]
      omega
    rw [rsplitOnce, if_pos (by simp), last a b away, List.reverse_reverse, before,
      List.take_left]
  constructor
  · intro found
    have member : c ∈ chars := by
      by_contra absent
      simp [rsplitOnce, absent] at found
    obtain ⟨after, before, reversed, away⟩ :=
      List.eq_append_cons_of_mem (List.mem_reverse.mpr member)
    obtain rfl : chars = before.reverse ++ c :: after.reverse := by
      have same := congrArg List.reverse reversed
      simpa using same
    rw [split _ _ (by simpa using away)] at found
    cases found
    exact ⟨rfl, by simpa using away⟩
  · rintro ⟨rfl, away⟩
    exact split a b away

theorem split_symbol_iff {text symbol venue : String} :
    splitSymbolAtVenue text = some (symbol, venue) ↔
      text = symbol ++ "@" ++ venue ∧ symbol ≠ "" ∧ venue ≠ "" ∧ '@' ∉ venue.toList := by
  have chars : text = symbol ++ "@" ++ venue ↔
      text.toList = symbol.toList ++ '@' :: venue.toList := by
    rw [← String.toList_inj]
    simp
  unfold splitSymbolAtVenue
  rw [Option.bind_eq_some_iff, chars]
  constructor
  · rintro ⟨⟨sym, ven⟩, found, kept⟩
    obtain ⟨there, away⟩ := rsplit_once_iff.mp found
    dsimp only at kept
    by_cases filled : sym ≠ [] ∧ ven ≠ []
    · rw [if_pos filled] at kept
      cases kept
      exact ⟨by simpa using there, by simpa using filled.1, by simpa using filled.2,
        by simpa using away⟩
    · rw [if_neg filled] at kept
      cases kept
  · rintro ⟨there, some_, named, away⟩
    refine ⟨(symbol.toList, venue.toList), rsplit_once_iff.mpr ⟨there, away⟩, ?_⟩
    simp [some_, named]

theorem rows_nodup (db : Db) : db.instruments.rows.Nodup :=
  List.Nodup.of_map Instrument.id db.instruments.distinct

theorem sorted_single {rows : List Instrument} (nodup : rows.Nodup)
    (before : Instrument → Instrument → Bool) {i : Instrument} :
    rows.mergeSort before = [i] ↔ i ∈ rows ∧ ∀ j ∈ rows, j = i := by
  have perm := List.mergeSort_perm rows before
  constructor
  · intro sorted
    rw [sorted] at perm
    refine ⟨perm.subset List.mem_cons_self, fun j member => ?_⟩
    exact List.mem_singleton.mp (perm.symm.subset member)
  · rintro ⟨member, alone⟩
    have one : rows = [i] := by
      cases rows with
      | nil => cases member
      | cons first rest =>
        obtain rfl := alone first List.mem_cons_self
        cases rest with
        | nil => rfl
        | cons second _ =>
          have same := alone second (List.mem_cons_of_mem _ List.mem_cons_self)
          exact absurd (same ▸ List.mem_cons_self) (List.nodup_cons.mp nodup).1
    rw [one, List.mergeSort_singleton]

def Listed (db : Db) (symbol : String) (venue : Option String) (i : Instrument) : Prop :=
  i ∈ db.instruments.rows ∧ active i = true ∧ i.symbol = symbol ∧
    match venue with
    | some venue => i.venue = venue
    | none => ∀ j ∈ db.instruments.rows, j.symbol = symbol → active j = true → j = i

theorem resolve_listing_ok {collate : String → String → Bool} {db : Db} {symbol : String}
    {venue : Option String} {id : Int} :
    resolveListing collate db symbol venue = .ok id ↔ ∃ i, Listed db symbol venue i ∧ i.id = id := by
  cases venue with
  | some venue =>
    unfold resolveListing
    dsimp only
    constructor
    · intro resolved
      split at resolved
      · rename_i i found
        cases resolved
        have matches_ := List.find?_some found
        simp only [decide_eq_true_eq] at matches_
        exact ⟨i, ⟨List.mem_of_find?_eq_some found, matches_.2.2, matches_.1, matches_.2.1⟩, rfl⟩
      · cases resolved
    · rintro ⟨i, ⟨member, open_, rfl, rfl⟩, rfl⟩
      split
      · rename_i j found
        have matches_ := List.find?_some found
        simp only [decide_eq_true_eq] at matches_
        have there := List.mem_of_find?_eq_some found
        have same : j = i := List.inj_on_of_nodup_map db.listings there member
          (Prod.ext matches_.1 matches_.2.1)
        rw [same]
      · rename_i absent
        have none_ := List.find?_eq_none.mp absent i member
        simp [open_] at none_
  | none =>
    have listed : ∀ i, ((db.instruments.rows.filter fun i => i.symbol = symbol ∧ active i).mergeSort
        fun i j => collate i.venue j.venue) = [i] ↔ Listed db symbol none i := by
      intro i
      rw [sorted_single ((rows_nodup db).filter _)]
      simp only [Listed, List.mem_filter, decide_eq_true_eq]
      constructor
      · rintro ⟨⟨member, named, open_⟩, alone⟩
        exact ⟨member, open_, named, fun j there same live => alone j ⟨there, same, live⟩⟩
      · rintro ⟨member, open_, named, alone⟩
        exact ⟨⟨member, named, open_⟩, fun j ⟨there, same, live⟩ => alone j there same live⟩
    unfold resolveListing
    dsimp only
    constructor
    · intro resolved
      split at resolved
      · rename_i i single
        cases resolved
        exact ⟨i, (listed i).mp single, rfl⟩
      · cases resolved
      · cases resolved
    · rintro ⟨i, named, rfl⟩
      rw [(listed i).mpr named]

def Shorthand (text symbol venue : String) : Prop :=
  text = symbol ++ "@" ++ venue ∧ symbol ≠ "" ∧ venue ≠ "" ∧ '@' ∉ venue.toList

/-- What a request's reference means: the id if it gives one, or else the active listing
    its symbol names, by a venue in the symbol or in the venue field but not in both. -/
def Refers (db : Db) (req : SubmitOrderRequest) (id : Int) : Prop :=
  match given req.instrumentId with
  | some text => parseI64 text = some id
  | none => ∃ symbol i, given req.symbol = some symbol ∧ i.id = id ∧
      (given req.venue = none ∧ (∃ sym venue, Shorthand symbol sym venue ∧ Listed db sym (some venue) i) ∨
        (∀ sym venue, ¬ Shorthand symbol sym venue) ∧ Listed db symbol (given req.venue) i)

theorem split_none {text : String} (whole : splitSymbolAtVenue text = none) (symbol venue : String) :
    ¬ Shorthand text symbol venue := by
  intro short
  rw [split_symbol_iff.mpr short] at whole
  cases whole

theorem resolve_refers {collate : String → String → Bool} {db : Db} {req : SubmitOrderRequest}
    {id : Int} : resolveInstrumentRef collate db req = .ok id ↔ Refers db req id := by
  unfold resolveInstrumentRef Refers
  cases given req.instrumentId with
  | some text => cases parsed : parseI64 text <;> simp [parsed]
  | none =>
    cases given req.symbol with
    | none => simp
    | some symbol =>
      simp only [Option.some.injEq, exists_and_left, exists_eq_left']
      cases parts : splitSymbolAtVenue symbol with
      | none =>
        have whole := split_none parts
        simp only [resolve_listing_ok]
        constructor
        · rintro ⟨i, named, rfl⟩
          exact ⟨i, rfl, Or.inr ⟨whole, named⟩⟩
        · rintro ⟨i, rfl, ⟨-, sym, venue, short, -⟩ | ⟨-, named⟩⟩
          · exact absurd short (whole sym venue)
          · exact ⟨i, named, rfl⟩
      | some pair =>
        obtain ⟨sym, venue⟩ := pair
        have short : Shorthand symbol sym venue := split_symbol_iff.mp parts
        cases given req.venue with
        | some other =>
          simp only [reduceCtorEq, false_and, false_or, false_iff, not_exists, not_and]
          exact fun i _ whole => absurd short (whole sym venue)
        | none =>
          simp only [resolve_listing_ok, true_and]
          constructor
          · rintro ⟨i, named, rfl⟩
            exact ⟨i, rfl, Or.inl ⟨sym, venue, short, named⟩⟩
          · rintro ⟨i, rfl, ⟨sym', venue', short', named⟩ | ⟨whole, -⟩⟩
            · have same := (split_symbol_iff.mpr short').symm.trans parts
              cases same
              exact ⟨i, named, rfl⟩
            · exact absurd short (whole sym venue)

def named (req : SubmitOrderRequest) (symbol : String) (venue : Option String) :
    SubmitOrderRequest :=
  { req with instrumentId := none, symbol := some symbol, venue }

/-- What a reference resolves to is what it means, and every active listing is reached by
    its shorthand and, unless its symbol reads as one, by its symbol and venue. -/
theorem reference_exact (collate : String → String → Bool) (db : Db) (req : SubmitOrderRequest) :
    (∀ id, resolveInstrumentRef collate db req = .ok id ↔ Refers db req id) ∧
      ∀ i ∈ db.instruments.rows, active i = true → i.symbol ≠ "" → i.venue ≠ "" →
        ('@' ∉ i.venue.toList → resolveInstrumentRef collate db
          (named req (i.symbol ++ "@" ++ i.venue) none) = .ok i.id) ∧
        ((∀ sym venue, ¬ Shorthand i.symbol sym venue) → resolveInstrumentRef collate db
          (named req i.symbol (some i.venue)) = .ok i.id) := by
  refine ⟨fun id => resolve_refers, ?_⟩
  intro i member open_ some_ there
  have listed : Listed db i.symbol (some i.venue) i := ⟨member, open_, rfl, rfl⟩
  constructor
  · intro away
    refine resolve_refers.mpr ⟨i.symbol ++ "@" ++ i.venue, i, ?_, rfl, Or.inl ⟨rfl, ?_⟩⟩
    · simp [given, named]
    · exact ⟨i.symbol, i.venue, ⟨rfl, some_, there, away⟩, listed⟩
  · intro whole
    have venue : given (named req i.symbol (some i.venue)).venue = some i.venue := by
      simp [given, named, there]
    refine resolve_refers.mpr ⟨i.symbol, i, ?_, rfl, Or.inr ⟨whole, ?_⟩⟩
    · simp [given, named, some_]
    · rw [venue]
      exact listed

end OmsRouting
