import OpenOms.OrderStore
import OpenOms.ReconOrders

/-!
The two queries a reconcile pass starts from: the orders the broker still owns,
and those left `submitted` past the grace period. Both join an order with its
connection and with the broker's symbol for its instrument.
-/
namespace OmsReconQueries
open OmsOrders OmsOrderStore OmsReconOrders

def STUCK_AFTER_SECS : Nat := 60

structure BrokerConnection where
  code : String
  brokerCode : String
  environment : String
  deriving DecidableEq, Repr

structure BrokerInstrument where
  instrumentId : Int
  brokerCode : String
  brokerSymbol : String
  deriving DecidableEq, Repr

structure Tables where
  orders : List OrderDb
  connections : List BrokerConnection
  instruments : List BrokerInstrument
  orderIds : orders.Pairwise fun a b =>
    ∀ row ∈ a.row, ∀ row' ∈ b.row, row.orderId ≠ row'.orderId
  codes : connections.Pairwise fun a b => a.code ≠ b.code
  mappings : instruments.Pairwise fun a b =>
    ¬ (a.instrumentId = b.instrumentId ∧ a.brokerCode = b.brokerCode)

/-- `COALESCE` of the routed event's venue id and the row's column. -/
def extId (db : OrderDb) (row : OrderRow) : Option String :=
  ((events db).findSome? (fun event => event.payload.routedId)).or row.externalOrderId

def workingId (db : OrderDb) (row : OrderRow) : Option String :=
  (extId db row).filter (· ≠ "")

def isAtVenue (status : OrderStatus) : Bool :=
  status = .routed || status = .partiallyFilled

def isStuck (now : Nat) (row : OrderRow) : Bool :=
  row.status = .submitted && decide (row.createdAt + STUCK_AFTER_SECS < now)

def joinedSymbols (tables : Tables) (brokerCode environment : String) (row : OrderRow) :
    List String :=
  (tables.connections.filter fun bc =>
      bc.code = row.brokerConnectionCode ∧ bc.brokerCode = brokerCode ∧
        bc.environment = environment).flatMap fun _ =>
    (tables.instruments.filter fun bi =>
      row.instrumentId.toInt? = some bi.instrumentId ∧ bi.brokerCode = brokerCode).map
      (·.brokerSymbol)

def workingRows (tables : Tables) (brokerCode environment : String) (db : OrderDb) :
    List OmsWorkingOrder :=
  match db.row with
  | none => []
  | some row =>
    match workingId db row with
    | none => []
    | some ext =>
      if isAtVenue row.status then
        (joinedSymbols tables brokerCode environment row).map fun symbol =>
          ⟨row.orderId, symbol, ext, row.cumQty, row.avgPx⟩
      else []

def stuckRows (tables : Tables) (brokerCode environment : String) (now : Nat) (db : OrderDb) :
    List StuckOrder :=
  match db.row with
  | none => []
  | some row =>
    if isStuck now row then
      (joinedSymbols tables brokerCode environment row).map fun symbol => ⟨row.orderId, symbol⟩
    else []

def loadOmsWorkingOrders (tables : Tables) (brokerCode environment : String) :
    List OmsWorkingOrder :=
  tables.orders.flatMap (workingRows tables brokerCode environment)

def loadStuckOrders (tables : Tables) (brokerCode environment : String) (now : Nat) :
    List StuckOrder :=
  tables.orders.flatMap (stuckRows tables brokerCode environment now)

def returned (tables : Tables) (brokerCode environment : String) (now : Nat)
    (orderId : String) : Nat × Nat :=
  ((loadOmsWorkingOrders tables brokerCode environment).countP (·.orderId = orderId),
    (loadStuckOrders tables brokerCode environment now).countP (·.orderId = orderId))

def Mapped (tables : Tables) (brokerCode environment : String) (row : OrderRow) : Prop :=
  (∃ bc ∈ tables.connections, bc.code = row.brokerConnectionCode ∧
      bc.brokerCode = brokerCode ∧ bc.environment = environment) ∧
    ∃ bi ∈ tables.instruments, row.instrumentId.toInt? = some bi.instrumentId ∧
      bi.brokerCode = brokerCode

theorem filter_key_single {α : Type} {differ : α → α → Prop} {rows : List α}
    (key : rows.Pairwise differ) (keep : α → Bool)
    (clash : ∀ a b, keep a → keep b → ¬ differ a b) {a : α} (there : a ∈ rows)
    (kept : keep a) : rows.filter keep = [a] := by
  have pairs := key.filter keep
  have member : a ∈ rows.filter keep := List.mem_filter.mpr ⟨there, kept⟩
  match kept_rows : rows.filter keep with
  | [] => simp [kept_rows] at member
  | [b] =>
    rw [kept_rows] at member
    rw [List.mem_singleton.mp member]
  | b :: c :: rest =>
    have first : keep b := (List.mem_filter.mp (kept_rows ▸ List.mem_cons_self)).2
    have second : keep c :=
      (List.mem_filter.mp (kept_rows ▸ List.mem_cons_of_mem b List.mem_cons_self)).2
    rw [kept_rows] at pairs
    exact absurd (List.rel_of_pairwise_cons pairs List.mem_cons_self) (clash b c first second)

theorem joined_symbols_single {tables : Tables} {brokerCode environment : String}
    {row : OrderRow} (mapped : Mapped tables brokerCode environment row) :
    (joinedSymbols tables brokerCode environment row).length = 1 := by
  obtain ⟨⟨bc, connected, isCode, isBroker, isEnvironment⟩, bi, listed, isInstrument, isAt⟩ :=
    mapped
  have connection := filter_key_single tables.codes (fun bc =>
      bc.code = row.brokerConnectionCode ∧ bc.brokerCode = brokerCode ∧
        bc.environment = environment)
    (by
      intro a b keptA keptB differ
      simp only [decide_eq_true_eq] at keptA keptB
      exact differ (keptA.1.trans keptB.1.symm))
    connected (by simp [isCode, isBroker, isEnvironment])
  have instrument := filter_key_single tables.mappings (fun bi =>
      row.instrumentId.toInt? = some bi.instrumentId ∧ bi.brokerCode = brokerCode)
    (by
      intro a b keptA keptB differ
      simp only [decide_eq_true_eq] at keptA keptB
      exact differ ⟨Option.some.inj (keptA.1.symm.trans keptB.1), keptA.2.trans keptB.2.symm⟩)
    listed (by simp [isInstrument, isAt])
  simp only [joinedSymbols, connection, instrument, List.flatMap_cons, List.flatMap_nil,
    List.map_cons, List.map_nil, List.append_nil, List.length_singleton]

theorem count_own_rows {β : Type} {orders : List OrderDb}
    (ids : orders.Pairwise fun a b => ∀ row ∈ a.row, ∀ row' ∈ b.row, row.orderId ≠ row'.orderId)
    (rows : OrderDb → List β) (idOf : β → String)
    (own : ∀ db, ∀ b ∈ rows db, ∃ row, db.row = some row ∧ idOf b = row.orderId)
    {db : OrderDb} {row : OrderRow} (there : db ∈ orders) (stored : db.row = some row) :
    (orders.flatMap rows).countP (idOf · = row.orderId) = (rows db).length := by
  have others : ∀ others : List OrderDb, (∀ other ∈ others, ∀ found ∈ other.row,
      found.orderId ≠ row.orderId) → (others.flatMap rows).countP (idOf · = row.orderId) = 0 := by
    intro others differ
    refine List.countP_eq_zero.mpr ?_
    intro b member
    obtain ⟨other, inOthers, inRows⟩ := List.mem_flatMap.mp member
    obtain ⟨found, isRow, named⟩ := own other b inRows
    simpa [named] using differ other inOthers found isRow
  have mine : (rows db).countP (idOf · = row.orderId) = (rows db).length := by
    refine List.countP_eq_length.mpr ?_
    intro b member
    obtain ⟨found, isRow, named⟩ := own db b member
    cases stored.symm.trans isRow
    simp [named]
  obtain ⟨early, late, rfl⟩ := List.append_of_mem there
  obtain ⟨_, tail, across⟩ := List.pairwise_append.mp ids
  have before := others early fun other member found isRow =>
    across other member db List.mem_cons_self found isRow row stored
  have after := others late fun other member found isRow same =>
    List.rel_of_pairwise_cons tail member row stored found isRow same.symm
  simp only [List.flatMap_append, List.flatMap_cons, List.countP_append, before, after, mine]
  omega

theorem returned_counts {tables : Tables} {brokerCode environment : String} {db : OrderDb}
    {row : OrderRow} (there : db ∈ tables.orders) (stored : db.row = some row)
    (mapped : Mapped tables brokerCode environment row) (now : Nat) :
    returned tables brokerCode environment now row.orderId =
      (if isAtVenue row.status ∧ (workingId db row).isSome then 1 else 0,
        if isStuck now row then 1 else 0) := by
  have symbols := joined_symbols_single mapped
  have working := count_own_rows tables.orderIds
    (workingRows tables brokerCode environment) (·.orderId) (by
      intro other b member
      unfold workingRows at member
      split at member
      · simp at member
      · rename_i found isRow
        split at member
        · simp at member
        · split at member
          · obtain ⟨symbol, _, rfl⟩ := List.mem_map.mp member
            exact ⟨found, isRow, rfl⟩
          · simp at member) there stored
  have stuck := count_own_rows tables.orderIds
    (stuckRows tables brokerCode environment now) (·.orderId) (by
      intro other b member
      unfold stuckRows at member
      split at member
      · simp at member
      · rename_i found isRow
        split at member
        · obtain ⟨symbol, _, rfl⟩ := List.mem_map.mp member
          exact ⟨found, isRow, rfl⟩
        · simp at member) there stored
  simp only [returned, loadOmsWorkingOrders, loadStuckOrders, working, stuck, Prod.mk.injEq]
  constructor
  · cases asked : workingId db row with
    | none => simp [workingRows, stored, asked]
    | some ext =>
      by_cases atVenue : isAtVenue row.status
      · simp [workingRows, stored, asked, atVenue, symbols]
      · simp [workingRows, stored, asked, atVenue]
  · by_cases isOld : isStuck now row
    · simp [stuckRows, stored, isOld, symbols]
    · simp [stuckRows, stored, isOld]

end OmsReconQueries
