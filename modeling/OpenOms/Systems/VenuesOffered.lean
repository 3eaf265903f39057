import OpenOms.Systems.Submissions

/-!
The venues a portfolio is offered for an instrument, and what `submit` makes of an order for
the account of one of them when nothing is edited between its statements.
-/
namespace OmsVenuesOffered
open OmsOrders OmsOrderEntry OmsRouting OmsSubmissions Keyed Runs

/-- So many statements of one request in an unchanged world, none of which fails. -/
def ReadsTo (env : Env) (w : World) : Nat → Submission → Submission → Prop
  | 0, r, r' => r = r'
  | n + 1, r, r' => ∃ stage, read env w r = some (.ok stage) ∧ ReadsTo env w n { r with stage } r'

theorem ended_reads {env : Env} {s : Desk} {i n : Nat} {r r' : Submission}
    (there : s.requests[i]? = some r) {outcome : Except ApiError Unit}
    (ended : r.stage = .done outcome) {t : Desk}
    (ran : run (step env) s (List.replicate n (.read i)) = some t)
    (here : t.requests[i]? = some r') : r'.stage = .done outcome := by
  cases n with
  | zero =>
    cases ran
    cases there.symm.trans here
    exact ended
  | succ n =>
    obtain ⟨m, first, -⟩ := run_cons.mp ran
    simp [step, there, OmsSubmissions.read, ended] at first

theorem run_reads {env : Env} {s : Desk} {i n : Nat} {r r' : Submission}
    (there : s.requests[i]? = some r) (open_ : ∀ outcome, r'.stage ≠ .done outcome) :
    (∃ t, run (step env) s (List.replicate n (.read i)) = some t ∧ t.requests[i]? = some r') ↔
      ReadsTo env s.world n r r' := by
  induction n generalizing s r with
  | zero =>
    constructor
    · rintro ⟨t, ran, here⟩
      cases ran
      exact Option.some.inj (there.symm.trans here)
    · rintro rfl
      exact ⟨s, rfl, there⟩
  | succ n ih =>
    have moved : ∀ stage, (setStage s i r stage).requests[i]? = some { r with stage } :=
      set_own there
    constructor
    · rintro ⟨t, ran, here⟩
      obtain ⟨m, first, rest⟩ := run_cons.mp ran
      simp only [step, there, Option.bind_some, Option.map_eq_some_iff] at first
      obtain ⟨result, found, rfl⟩ := first
      cases result with
      | ok stage => exact ⟨stage, found, (ih (moved stage)).mp ⟨t, rest, here⟩⟩
      | error error => exact absurd (ended_reads (moved _) rfl rest here) (open_ _)
    · rintro ⟨stage, found, reads⟩
      obtain ⟨t, rest, here⟩ := (ih (moved stage)).mpr reads
      refine ⟨t, run_cons.mpr ⟨setStage s i r stage, ?_, rest⟩, here⟩
      simp [step, there, found]

theorem reads_placed {env : Env} {w : World} {r : Submission} (fresh : r.stage = .received)
    {k : Placed} : ReadsTo env w 7 r { r with stage := .placed k } ↔
      begin_ env w r.principalId r.req = .ok k.toBegun ∧
      (k.strategy.elim (.ok none) fun st => strategyRoute w.db st r.req) = .ok k.route ∧
      pickAccount env w.db r.req k.toRouted = .ok (k.accountId, k.explicit) ∧
      pickInstrument env w.db r.req k.toRouted = .ok k.instrumentId ∧
      loadAccount w.db k.portfolioId k.accountId k.explicit = .ok k.account ∧
      loadInstrument w.db k.instrumentId r.req.timeInForce = .ok k.instrument ∧
      loadMapping env.show_ w.db k.instrumentId k.account.brokerCode r.req.quantity =
        .ok k.mapping := by
  simp only [ReadsTo, OmsSubmissions.read, fresh]
  constructor
  · rintro ⟨_, first, _, second, _, third, _, fourth, _, fifth, _, sixth, _, seventh, last⟩
    obtain ⟨begun, began, rfl⟩ := map_ok (Option.some.inj first)
    obtain ⟨route, routed, rfl⟩ := map_ok (Option.some.inj second)
    obtain ⟨⟨accountId, explicit⟩, picked, rfl⟩ := map_ok (Option.some.inj third)
    obtain ⟨instrumentId, resolved, rfl⟩ := map_ok (Option.some.inj fourth)
    obtain ⟨account, connected, rfl⟩ := map_ok (Option.some.inj fifth)
    obtain ⟨instrument, listed, rfl⟩ := map_ok (Option.some.inj sixth)
    obtain ⟨mapping, placed, rfl⟩ := map_ok (Option.some.inj seventh)
    cases last
    exact ⟨began, routed, picked, resolved, connected, listed, placed⟩
  · rintro ⟨began, routed, picked, resolved, connected, listed, placed⟩
    refine ⟨.begun k.toBegun, ?_, .routed k.toRouted, ?_, .picked k.toPicked, ?_,
      .resolved k.toResolved, ?_, .connected k.toConnected, ?_, .listed k.toListing, ?_, .placed k,
      ?_, rfl⟩
    · simp only [began, Except.map]
    · simp only [routed, Except.map]
    · simp only [picked, Except.map]
    · simp only [resolved, Except.map]
    · simp only [connected, Except.map]
    · simp only [listed, Except.map]
    · simp only [placed, Except.map]

theorem eligible_iff {db : Db} {portfolioId accountId brokerCode code : String}
    {instrumentId : Int} :
    (∃ o ∈ (venueRows db portfolioId instrumentId).map venueOption, o.eligible = true ∧
      o.accountId = some accountId ∧ o.brokerCode = brokerCode ∧
      o.brokerConnectionCode = some code) ↔
    ∃ m ∈ db.mappings.rows, ∃ bc ∈ db.connections.rows, ∃ a ∈ db.accounts.rows,
      m.instrumentId = instrumentId ∧ m.brokerCode = brokerCode ∧ m.isTradeable = true ∧
      bc.brokerCode = brokerCode ∧ bc.code = code ∧ bc.status = "ACTIVE" ∧ a.id = accountId ∧
      a.brokerConnectionCode = code ∧ a.portfolioId = some portfolioId := by
  constructor
  · rintro ⟨_, member, eligible, account, broker, connection⟩
    obtain ⟨⟨⟨m, bc⟩, a⟩, there, rfl⟩ := List.mem_map.mp member
    obtain ⟨tradeable, open_, some_⟩ := classify_eligible.mp eligible
    obtain ⟨a, rfl⟩ := Option.isSome_iff_exists.mp some_
    obtain ⟨bc, rfl, active⟩ := Option.map_eq_some_iff.mp open_
    obtain ⟨joined, own⟩ := mem_left_join.mp there
    obtain ⟨mapped, connected⟩ := mem_left_join.mp joined
    simp only [List.mem_filter, decide_eq_true_eq, Option.any_some] at own mapped connected
    simp only [venueOption, Option.map_some, Option.some.injEq] at account broker connection
    subst account broker connection
    exact ⟨m, mapped.1, bc, connected.1, a, own.1, mapped.2, rfl, tradeable, connected.2, rfl, active,
      rfl, own.2.1, own.2.2⟩
  · rintro ⟨m, mapped, bc, connected, a, own, rfl, rfl, tradeable, broker, rfl, active, rfl, on, of_⟩
    refine ⟨venueOption ((m, some bc), some a), List.mem_map.mpr ⟨_, ?_, rfl⟩, ?_, rfl, rfl, rfl⟩
    · refine mem_left_join.mpr ⟨mem_left_join.mpr ⟨?_, ?_⟩, ?_⟩
      · simp [mapped]
      · simp [connected, broker]
      · simp [own, on, of_]
    · exact classify_eligible.mpr ⟨tradeable, by simp [active], rfl⟩

theorem page_offers {db : Db} {viewer portfolioId idText : String} {instrumentId : Int}
    {options : List VenueOption} (parsed : parseI64 idText = some instrumentId)
    (page : getPortfolioVenues db viewer portfolioId idText = .ok options) :
    options = (venueRows db portfolioId instrumentId).map venueOption := by
  unfold getPortfolioVenues at page
  split at page
  · cases page
  · rw [parsed] at page
    cases page
    rfl

theorem picked_explicitly {env : Env} {w : World} {r : Submission}
    {orderId portfolioId accountId text idText : String} {instrumentId : Int}
    (order : env.parseUuid r.req.orderId = some orderId)
    (portfolio : env.parseUuid r.req.portfolioId = some portfolioId)
    (unmanaged : w.byPortfolioId portfolioId = none)
    (account : r.req.accountId = some text) (named : env.parseUuid text = some accountId)
    (instrument : r.req.instrumentId = some idText) (parsed : parseI64 idText = some instrumentId)
    {k : Resolved} :
    (begin_ env w r.principalId r.req = .ok k.toBegun ∧
      (k.strategy.elim (.ok none) fun st => strategyRoute w.db st r.req) = .ok k.route ∧
      pickAccount env w.db r.req k.toRouted = .ok (k.accountId, k.explicit) ∧
      pickInstrument env w.db r.req k.toRouted = .ok k.instrumentId) ↔
    k = ⟨⟨⟨⟨orderId, portfolioId, none⟩, none⟩, accountId, true⟩, instrumentId⟩ := by
  have filled : idText ≠ "" := by
    rintro rfl
    cases parsed
  have begun : begin_ env w r.principalId r.req = .ok ⟨orderId, portfolioId, none⟩ := by
    simp only [begin_, order, portfolio, unmanaged, Option.elim_none]
  have picks : pickAccount env w.db r.req ⟨⟨orderId, portfolioId, none⟩, none⟩ =
      .ok (accountId, true) := by
    simp only [pickAccount, account, named]
  have resolves : pickInstrument env w.db r.req ⟨⟨orderId, portfolioId, none⟩, none⟩ =
      .ok instrumentId := by
    have gives : given r.req.instrumentId = some idText := by
      rw [instrument, given, Option.filter_some, if_pos (decide_eq_true filled)]
    simp only [pickInstrument, resolveInstrumentRef, gives, parsed]
  constructor
  · rintro ⟨began, routed, picked, resolved⟩
    obtain ⟨⟨⟨⟨o, p, strategy⟩, route⟩, a, explicit⟩, id⟩ := k
    cases began.symm.trans begun
    cases routed
    cases picked.symm.trans picks
    cases resolved.symm.trans resolves
    rfl
  · rintro rfl
    exact ⟨begun, rfl, picks, resolves⟩

/-- With nothing edited in between, an order for one of the portfolio's accounts by its id
    passes the checks before the transaction exactly when the account's venue is offered as
    eligible to whoever may view the portfolio, the instrument is active, an option is
    good for the day and the quantity is not below the broker's minimum. -/
theorem offered_taken (env : Env) {s : Desk} {i : Nat} {r : Submission}
    (there : s.requests[i]? = some r) (fresh : r.stage = .received)
    {orderId portfolioId accountId text idText : String} {instrumentId : Int}
    (order : env.parseUuid r.req.orderId = some orderId)
    (portfolio : env.parseUuid r.req.portfolioId = some portfolioId)
    (unmanaged : s.world.byPortfolioId portfolioId = none)
    (account : r.req.accountId = some text) (named : env.parseUuid text = some accountId)
    (instrument : r.req.instrumentId = some idText) (parsed : parseI64 idText = some instrumentId)
    {viewer : String} {options : List VenueOption}
    (page : getPortfolioVenues s.world.db viewer portfolioId idText = .ok options)
    (brokerCode code : String) :
    (∃ t k, run (step env) s (List.replicate 7 (.read i)) = some t ∧
      t.requests[i]? = some { r with stage := .placed k } ∧
      k.account.brokerCode = brokerCode ∧ k.account.brokerConnectionCode = code) ↔
    (∃ o ∈ options, o.eligible = true ∧ o.accountId = some accountId ∧ o.brokerCode = brokerCode ∧
      o.brokerConnectionCode = some code) ∧
    (∃ x ∈ s.world.db.instruments.rows, x.id = instrumentId ∧ x.status = "ACTIVE" ∧
      (x.instrumentClass = "OPTION" → r.req.timeInForce = .day)) ∧
    ∀ m ∈ s.world.db.mappings.rows, m.instrumentId = instrumentId → m.brokerCode = brokerCode →
      ∀ min ∈ m.minQuantity, min ≤ r.req.quantity := by
  have picked := @picked_explicitly env s.world r orderId portfolioId accountId text idText
    instrumentId order portfolio unmanaged account named instrument parsed
  rw [page_offers parsed page, eligible_iff]
  constructor
  · rintro ⟨t, k, ran, here, rfl, rfl⟩
    have reads := (run_reads there (by simp)).mp ⟨t, ran, here⟩
    obtain ⟨began, routed, picks, resolved, connected, listed, placed⟩ := (reads_placed fresh).mp reads
    have own := picked.mp ⟨began, routed, picks, resolved⟩
    obtain ⟨⟨⟨known, found⟩, x⟩, m⟩ := k
    dsimp only at own connected listed placed ⊢
    subst own
    obtain ⟨a, mine, bc, on, id, code, open_, owner, rfl⟩ := load_account_ok.mp connected
    obtain ⟨there, is_, active, dated⟩ := load_instrument_ok.mp listed
    obtain ⟨mapped, of_, broker, tradeable, enough⟩ := load_mapping_ok.mp placed
    refine ⟨⟨m, mapped, bc, on, a, mine, of_, broker, tradeable, rfl, rfl, open_, id, code, ?_⟩,
      ⟨x, there, is_, active, dated⟩, ?_⟩
    · simpa using owner
    · intro m' mapped' of' broker' min least
      have one : m' = m := row_unique s.world.db.mappings mapped' mapped
        (Prod.ext (of'.trans of_.symm) (broker'.trans broker.symm))
      exact enough min (one ▸ least)
  · rintro ⟨⟨m, mapped, bc, on, a, mine, of_, rfl, tradeable, broker, rfl, open_, id, code, owner⟩,
      ⟨x, there', is_, active, dated⟩, enough⟩
    have connected : loadAccount s.world.db portfolioId accountId true =
        .ok ⟨a.id, bc.brokerCode, bc.environment, bc.code, a.externalAccountRef⟩ :=
      load_account_ok.mpr ⟨a, mine, bc, on, id, code, open_, Or.inl owner, rfl⟩
    have listed : loadInstrument s.world.db instrumentId r.req.timeInForce = .ok x :=
      load_instrument_ok.mpr ⟨there', is_, active, dated⟩
    have placed : loadMapping env.show_ s.world.db instrumentId bc.brokerCode r.req.quantity = .ok m :=
      load_mapping_ok.mpr ⟨mapped, of_, broker.symm, tradeable, enough m mapped of_ rfl⟩
    obtain ⟨began, routed, picks, resolved⟩ := picked.mpr rfl
    let k : Placed := ⟨⟨⟨⟨⟨⟨⟨orderId, portfolioId, none⟩, none⟩, accountId, true⟩, instrumentId⟩,
      ⟨a.id, bc.brokerCode, bc.environment, bc.code, a.externalAccountRef⟩⟩, x⟩, m⟩
    have reads : ReadsTo env s.world 7 r { r with stage := .placed k } :=
      (reads_placed fresh).mpr ⟨began, routed, picks, resolved, connected, listed, placed⟩
    obtain ⟨t, ran, here⟩ := (run_reads there (by simp)).mpr reads
    exact ⟨t, k, ran, here, broker, rfl⟩

/-- Uuids as they are written and venues by their letters. -/
def plain : Env := ⟨some, fun a b => a ≤ b, fun q => toString q.num⟩

def oneVenue : Db where
  portfolios := ⟨[⟨"p", none⟩], by decide⟩
  accounts := ⟨[⟨"a", some "p", "alpaca-paper", "X1"⟩], by decide⟩
  connections := ⟨[⟨"alpaca-paper", "ALPACA", "PAPER", "ACTIVE"⟩], by decide⟩
  instruments := ⟨[⟨7, "AAPL", "XNAS", "SPOT", "ACTIVE"⟩], by decide⟩
  listings := by decide
  mappings := ⟨[⟨7, "ALPACA", "AAPL", none, true, some 1⟩], by decide⟩
  grants := ⟨[⟨"u", "p", true, true⟩], by decide⟩

def buyTwo : SubmitOrderRequest :=
  { orderId := "o", clientOrderId := "c", portfolioId := "p", accountId := some "a"
    instrumentId := some "7", symbol := none, venue := none, side := .buy, orderType := .market
    timeInForce := .day, limitPrice := none, quantity := 2 }

def asked : Desk :=
  { Desk.start ⟨oneVenue, [], [("ALPACA", "PAPER")]⟩ .empty with
    requests := [⟨"u", buyTwo, 0, .received⟩] }

theorem one_venue_taken :
    ∃ t k, run (step plain) asked (List.replicate 7 (.read 0)) = some t ∧
      t.requests[0]? = some ⟨"u", buyTwo, 0, .placed k⟩ ∧ k.account.brokerCode = "ALPACA" ∧
      k.account.brokerConnectionCode = "alpaca-paper" := by
  refine (offered_taken plain (s := asked) (r := ⟨"u", buyTwo, 0, .received⟩) rfl rfl rfl rfl rfl rfl
    rfl rfl (show parseI64 "7" = some 7 by decide) (show getPortfolioVenues oneVenue "u" "p" "7" = .ok _
    from rfl) "ALPACA" "alpaca-paper").mpr ⟨?_, ?_, ?_⟩
  · exact ⟨⟨"ALPACA", some "PAPER", some "alpaca-paper", some "a", true, none⟩, by decide, rfl, rfl, rfl,
      rfl⟩
  · exact ⟨⟨7, "AAPL", "XNAS", "SPOT", "ACTIVE"⟩, List.mem_cons_self, rfl, rfl, by decide⟩
  · intro m member _ _ min least
    rw [List.mem_singleton.mp member] at least
    cases least
    decide

end OmsVenuesOffered
