import OpenOms.Library.Paging
import OpenOms.Colo.Booking
import Mathlib.Data.List.Dedup

/-!
The venue's side of a followed account, and gap recon: after a (re)connect every
trade of the last day is read page by page, pair by pair, and booked. A gap fill
is kept as what is left of it between two of its awaits.
-/
namespace OmsFollow
open OmsOrders OmsGateway OmsBooking OmsScope Keyed

structure VenueTrade extends ExternalFill where
  time : Int
  deriving DecidableEq, Repr

def VenueTrade.fromHistory (t : VenueTrade) : ExternalFill :=
  { t.toExternalFill with clientOrderId := "" }

structure Closing where
  symbol : String
  venueOrderId : String
  outcome : BrokerOrderOutcome
  deriving DecidableEq, Repr

structure Venue where
  trades : List VenueTrade
  closings : List Closing
  deriving DecidableEq, Repr

def Venue.tradesOf (venue : Venue) (symbol venueOrderId : String) : List VenueTrade :=
  venue.trades.filter fun t => t.symbol = symbol ∧ t.venueOrderId = venueOrderId

def Venue.outcome (venue : Venue) (symbol venueOrderId : String) : BrokerOrderOutcome :=
  match venue.closings.find? fun c => c.symbol = symbol ∧ c.venueOrderId = venueOrderId with
  | some closing => closing.outcome
  | none => .working

def Venue.orderStatus (venue : Venue) (symbol venueOrderId : String) : BrokerOrderState :=
  let trades := venue.tradesOf symbol venueOrderId
  let executedQty := (trades.map (·.qty)).sum
  let quote := (trades.map fun t => t.qty * t.price).sum
  { outcome := venue.outcome symbol venueOrderId
    executedQty := executedQty
    avgPx := if executedQty > 0 then quote / executedQty else 0 }

def Venue.trade (venue : Venue) (t : VenueTrade) : Option Venue :=
  if 0 < t.qty ∧ 0 < t.price ∧ venue.outcome t.symbol t.venueOrderId = .working ∧
      ∀ other ∈ venue.trades, ¬ (other.symbol = t.symbol ∧ other.tradeId = t.tradeId) then
    some { venue with trades := venue.trades ++ [t] }
  else none

def Venue.close (venue : Venue) (closing : Closing) : Option Venue :=
  if venue.outcome closing.symbol closing.venueOrderId = .working then
    some { venue with closings := venue.closings ++ [closing] }
  else none

def DAY_MS : Int := 24 * 3600000

def reconStart (followSinceMs : Option Int) (nowMs : Int) : Int :=
  match followSinceMs with
  | none => nowMs - DAY_MS
  | some since => max since (nowMs - DAY_MS)

def pageLimit : Nat := 1000

def nextPage (pageLen : Nat) (lastTradeId : Option Nat) : Option Nat :=
  Paging.nextPage pageLimit pageLen lastTradeId

/-- Every pair gap recon asks about: booked, open now, or seen on the account. -/
def reconSymbols (booked opened seen : List String) : List String :=
  (booked ++ opened ++ seen).dedup.insertionSort (· ≤ ·)

def inRange (fromId : Option Nat) (startMs : Int) (t : VenueTrade) : Bool :=
  match fromId with
  | some id => decide (id ≤ t.tradeId)
  | none => decide (startMs ≤ t.time)

def Venue.asked (venue : Venue) (symbol : String) (fromId : Option Nat) (startMs : Int) :
    List VenueTrade :=
  venue.trades.filter fun t => t.symbol = symbol ∧ inRange fromId startMs t

/-- `/api/v3/myTrades`: the first of the trades asked for, in the order of their ids. -/
def Venue.myTrades (venue : Venue) (symbol : String) (fromId : Option Nat) (startMs : Int) :
    List ExternalFill :=
  (Paging.page (·.tradeId) pageLimit (venue.asked symbol fromId startMs)).map (·.fromHistory)

/-- A run of `fill_gap` between two awaits. `due` is what it set out to bring,
    the head of `symbols` the pair it is on, `page` what is left of the page with
    the page after it, or `none` while a page is to be read. -/
structure GapFill where
  due : List VenueTrade
  startMs : Int
  symbols : List String
  fromId : Option Nat
  page : Option (List ExternalFill × Option Nat)
  failed : Bool
  deriving DecidableEq, Repr

def bookedSymbols (strategy : Followed) (oms : Oms) : List String :=
  oms.orders.rows.map fun order => strategy.catalog.brokerSymbol order.row.instrumentId

def GapFill.begin (strategy : Followed) (oms : Oms) (venue : Venue) (opened seen : List String)
    (nowMs : Int) : GapFill :=
  let symbols := reconSymbols (bookedSymbols strategy oms) opened seen
  let startMs := reconStart strategy.followSince nowMs
  { due := venue.trades.filter fun t => t.symbol ∈ symbols ∧ startMs ≤ t.time
    startMs := startMs
    symbols := symbols
    fromId := none
    page := none
    failed := false }

def GapFill.readPage (g : GapFill) (venue : Venue) : Option GapFill :=
  match g.symbols, g.page with
  | symbol :: _, none =>
    let fills := venue.myTrades symbol g.fromId g.startMs
    some { g with page := some (fills, nextPage fills.length (fills.getLast?.map (·.tradeId))) }
  | _, _ => none

def GapFill.pageFailed (g : GapFill) : Option GapFill :=
  match g.symbols, g.page with
  | _ :: rest, none => some { g with symbols := rest, fromId := none, failed := true }
  | _, _ => none

def GapFill.nextFill (g : GapFill) : Option (ExternalFill × GapFill) :=
  match g.page with
  | some (fill :: left, next) => some (fill, { g with page := some (left, next) })
  | _ => none

def GapFill.endPage (g : GapFill) : Option GapFill :=
  match g.symbols, g.page with
  | _ :: _, some ([], some next) => some { g with fromId := some next, page := none }
  | _ :: rest, some ([], none) => some { g with symbols := rest, fromId := none, page := none }
  | _, _ => none

def ToCome (g : GapFill) (t : VenueTrade) : Prop :=
  (∃ left next, g.page = some (left, next) ∧
      (t.fromHistory ∈ left ∨ g.symbols.head? = some t.symbol ∧ ∃ id ∈ next, id ≤ t.tradeId)) ∨
    (g.page = none ∧ g.symbols.head? = some t.symbol ∧ ∀ id ∈ g.fromId, id ≤ t.tradeId) ∨
    t.symbol ∈ g.symbols.tail

theorem order_status_covers {venue : Venue} (valid : ∀ t ∈ venue.trades, 0 < t.qty ∧ 0 < t.price)
    {t : VenueTrade} (there : t ∈ venue.trades) :
    let st := venue.orderStatus t.symbol t.venueOrderId
    t.qty ≤ st.executedQty ∧ (st.executedQty = t.qty → st.avgPx = t.price) := by
  intro st
  let own := venue.tradesOf t.symbol t.venueOrderId
  have inside : t ∈ own := by simp [own, Venue.tradesOf, there]
  have positive : ∀ qty ∈ (own.erase t).map (·.qty), 0 < qty := by
    intro qty member
    obtain ⟨t', among, rfl⟩ := List.mem_map.mp member
    exact (valid t' (List.mem_of_mem_filter (List.mem_of_mem_erase among))).1
  have executed : st.executedQty = t.qty + ((own.erase t).map (·.qty)).sum :=
    (List.sum_map_erase (fun t : VenueTrade => t.qty) inside).symm
  refine ⟨?_, ?_⟩
  · have others : 0 ≤ ((own.erase t).map (·.qty)).sum :=
      List.sum_nonneg fun qty member => (positive qty member).le
    linarith
  · intro whole
    have alone : own.erase t = [] := by
      by_contra more
      have others := List.sum_pos _ positive (by simpa using more)
      linarith
    have quote : (own.map fun t => t.qty * t.price).sum = t.qty * t.price := by
      rw [← List.sum_map_erase (fun t : VenueTrade => t.qty * t.price) inside, alone]
      simp
    have sized := (valid t there).1
    have average : st.avgPx = if st.executedQty > 0 then
        (own.map fun t => t.qty * t.price).sum / st.executedQty else 0 := rfl
    rw [average, quote, whole, if_pos sized, mul_comm, mul_div_assoc, div_self sized.ne', mul_one]

theorem begin_to_come {strategy : Followed} {oms : Oms} {venue : Venue}
    {opened seen : List String} {nowMs : Int} {t : VenueTrade}
    (due : t ∈ (GapFill.begin strategy oms venue opened seen nowMs).due) :
    ToCome (GapFill.begin strategy oms venue opened seen nowMs) t := by
  have asked : t.symbol ∈ reconSymbols (bookedSymbols strategy oms) opened seen := by
    simp only [GapFill.begin, List.mem_filter, decide_eq_true_eq] at due
    exact due.2.1
  simp only [ToCome, GapFill.begin, reduceCtorEq, false_and, exists_false, false_or, true_and,
    Option.not_mem_none, IsEmpty.forall_iff, implies_true, and_true]
  cases symbols : reconSymbols (bookedSymbols strategy oms) opened seen with
  | nil => simp [symbols] at asked
  | cons first rest =>
    rw [symbols] at asked
    rcases List.mem_cons.mp asked with same | later
    · exact .inl (by simp [same])
    · exact .inr later

theorem read_page_to_come {g g' : GapFill} {venue : Venue} (read : g.readPage venue = some g')
    (distinct : ∀ symbol,
      ((venue.trades.filter fun t => t.symbol = symbol).map (·.tradeId)).Nodup)
    {t : VenueTrade} (there : t ∈ venue.trades) (recent : g.startMs ≤ t.time)
    (toCome : ToCome g t) : ToCome g' t := by
  unfold GapFill.readPage at read
  split at read
  · rename_i symbol rest symbols unread
    cases read
    rcases toCome with ⟨left, next, page, _⟩ | ⟨_, current, past⟩ | later
    · rw [unread] at page
      cases page
    · rw [symbols, List.head?_cons, Option.some.injEq] at current
      subst current
      have onAsked : t ∈ venue.asked t.symbol g.fromId g.startMs := by
        simp only [Venue.asked, List.mem_filter, there, true_and, decide_eq_true_eq, inRange]
        cases from_id : g.fromId with
        | none => exact decide_eq_true recent
        | some id => exact decide_eq_true (past id from_id)
      have ids : ((venue.asked t.symbol g.fromId g.startMs).map (·.tradeId)).Nodup := by
        refine (distinct t.symbol).sublist (List.Sublist.map _ ?_)
        refine List.monotone_filter_right _ ?_
        intro t' kept
        simp only [decide_eq_true_eq] at kept ⊢
        exact kept.1
      refine .inl ⟨_, _, rfl, ?_⟩
      rcases Paging.page_covers _ (by decide : 0 < pageLimit) ids onAsked with
        onPage | ⟨cursor, before, follows⟩
      · exact .inl (List.mem_map.mpr ⟨t, onPage, rfl⟩)
      · refine .inr ⟨by simp [symbols], cursor, ?_, before⟩
        rw [Venue.myTrades, List.getLast?_map, Option.map_map, List.length_map]
        exact follows
    · exact .inr (.inr later)
  · cases read

theorem next_fill_to_come {g g' : GapFill} {fill : ExternalFill}
    (taken : g.nextFill = some (fill, g')) {t : VenueTrade} (toCome : ToCome g t) :
    t.fromHistory = fill ∨ ToCome g' t := by
  unfold GapFill.nextFill at taken
  split at taken
  · rename_i head left next page
    cases taken
    rcases toCome with ⟨left', next', page', on | beyond⟩ | ⟨unread, _⟩ | later
    · rw [page] at page'
      cases page'
      rcases List.mem_cons.mp on with first | rest
      · exact .inl first
      · exact .inr (.inl ⟨left, next, rfl, .inl rest⟩)
    · rw [page] at page'
      cases page'
      exact .inr (.inl ⟨left, next, rfl, .inr beyond⟩)
    · rw [page] at unread
      cases unread
    · exact .inr (.inr (.inr later))
  · cases taken

theorem end_page_to_come {g g' : GapFill} (ended : g.endPage = some g') {t : VenueTrade}
    (toCome : ToCome g t) : ToCome g' t := by
  unfold GapFill.endPage at ended
  split at ended
  · rename_i symbol rest next symbols page
    cases ended
    rcases toCome with ⟨left, next', page', on | ⟨current, id, is, before⟩⟩ | ⟨unread, _⟩ | later
    · rw [page] at page'
      cases page'
      cases on
    · rw [page] at page'
      cases page'
      cases is
      refine .inr (.inl ⟨rfl, current, ?_⟩)
      intro id' is
      cases is
      exact before
    · rw [page] at unread
      cases unread
    · exact .inr (.inr later)
  · rename_i symbol rest symbols page
    cases ended
    rcases toCome with ⟨left, next', page', on | ⟨_, id, is, _⟩⟩ | ⟨unread, _⟩ | later
    · rw [page] at page'
      cases page'
      cases on
    · rw [page] at page'
      cases page'
      cases is
    · rw [page] at unread
      cases unread
    · rw [symbols, List.tail_cons] at later
      cases rest with
      | nil => cases later
      | cons next rest =>
        rcases List.mem_cons.mp later with same | further
        · exact .inr (.inl ⟨rfl, by simp [same], nofun⟩)
        · exact .inr (.inr further)
  · cases ended

theorem finished_to_come {g : GapFill} (done : g.symbols = []) (read : g.page = none)
    (t : VenueTrade) : ¬ ToCome g t := by
  simp [ToCome, done, read]

end OmsFollow
