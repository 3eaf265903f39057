import Std.Data.ExtTreeSet
import OpenOms.Library.Upsert
import Mathlib.Data.Rat.Defs

/-!
Seeding the master catalog: the rows of `instrument` and `instrument_derivative` a list
of instrument definitions leaves, the expiry instants derived for them and the
identifiers an enricher resolves. The row timestamps are left out.
-/
namespace OmsCatalog
open Keyed Upsert

inductive OptionKind where
  | call
  | put
  deriving DecidableEq, Repr

structure Identifiers where
  figi : Option String
  compositeFigi : Option String
  isin : Option String
  cusip : Option String
  deriving DecidableEq, Repr

structure DerivativeDef where
  underlyingSymbol : String
  optionKind : Option OptionKind
  strikePrice : Option Rat
  expiryDate : Option Int
  activationDate : Option Int
  deriving DecidableEq, Repr

structure InstrumentDef where
  symbol : String
  venue : String
  currency : String
  assetClass : String
  instrumentClass : String
  name : Option String
  pricePrecision : Int
  priceIncrement : Rat
  sizeIncrement : Rat
  lotSize : Option Rat
  contractSize : Rat
  nativeId : Option String
  derivative : Option DerivativeDef
  identifiers : Identifiers
  deriving DecidableEq, Repr

abbrev Key := String × String

def InstrumentDef.key (d : InstrumentDef) : Key := (d.symbol, d.venue)

structure Terms where
  currency : String
  assetClass : String
  instrumentClass : String
  name : String
  pricePrecision : Int
  priceIncrement : Rat
  sizeIncrement : Rat
  lotSize : Option Rat
  contractSize : Rat
  deriving DecidableEq, Repr

def InstrumentDef.terms (d : InstrumentDef) : Terms where
  currency := d.currency
  assetClass := d.assetClass
  instrumentClass := d.instrumentClass
  name := d.name.getD d.symbol
  pricePrecision := d.pricePrecision
  priceIncrement := d.priceIncrement
  sizeIncrement := d.sizeIncrement
  lotSize := d.lotSize
  contractSize := d.contractSize

structure Instrument extends Terms where
  id : Nat
  symbol : String
  venue : String
  sizePrecision : Int
  figi : Option String
  cusip : Option String
  isin : Option String
  deriving DecidableEq, Repr

def Instrument.key (r : Instrument) : Key := (r.symbol, r.venue)

structure Leg where
  underlyingId : Option Nat
  underlyingSymbol : Option String
  optionKind : Option OptionKind
  strikePrice : Option Rat
  expiryDate : Option Int
  activationDate : Option Int
  deriving DecidableEq, Repr

structure Derivative extends Leg where
  instrumentId : Nat
  expiresAt : Option Int
  deriving DecidableEq, Repr

structure BrokerRow where
  instrumentId : Nat
  brokerSymbol : String
  brokerExchange : Option String
  nativeId : Option String
  isTradeable : Bool
  minQuantity : Option Rat
  maxQuantity : Option Rat
  minNotional : Option Rat
  maxNotional : Option Rat
  deriving DecidableEq, Repr

structure BrokerMapping extends BrokerRow where
  brokerCode : String
  deriving DecidableEq, Repr

def BrokerMapping.key (r : BrokerMapping) : Nat × String := (r.instrumentId, r.brokerCode)

structure Calendar where
  venue : String
  timezone : String
  closeTime : Option Int
  deriving DecidableEq, Repr

abbrev Instruments := Table Key Instrument Instrument.key

abbrev Derivatives := Table Nat Derivative (·.instrumentId)

abbrev BrokerInstruments := Table (Nat × String) BrokerMapping BrokerMapping.key

structure Db where
  venue : List String
  currency : List String
  calendar : List Calendar
  instrument : Instruments
  instrumentDerivative : Derivatives
  brokerInstrument : BrokerInstruments
  nextId : Nat

/-- The primary key of `instrument`, the column that numbers it, and the references to it. -/
structure Sound (db : Db) : Prop where
  ids : ∀ r ∈ db.instrument.rows, ∀ r' ∈ db.instrument.rows, r.id = r'.id → r = r'
  below : ∀ r ∈ db.instrument.rows, r.id < db.nextId
  legs : ∀ r ∈ db.instrumentDerivative.rows, ∃ i ∈ db.instrument.rows, i.id = r.instrumentId
  mappings : ∀ r ∈ db.brokerInstrument.rows, ∃ i ∈ db.instrument.rows, i.id = r.instrumentId

structure InstrumentIdentity where
  figi : String
  compositeFigi : Option String
  deriving DecidableEq, Repr

/-- What the program asks beyond its database: OpenFIGI about a ticker and an exchange
    code, and Postgres for the instant of a local date and time in a time zone, which
    has to be one it knows. -/
structure Outside where
  identify : String → Option String → Except String (Option InstrumentIdentity)
  atTimeZone : Int → Int → String → Option Int

/-- The day of a load, and the order in which its hash map gives the definitions back. -/
structure Pass where
  today : Int
  intoValues : List InstrumentDef → List InstrumentDef
  perm : ∀ defs, (intoValues defs).Perm defs

structure CatalogSummary where
  upserted : Nat
  skippedVenue : Nat
  skippedCurrency : Nat
  skippedExpired : Nat
  derivatives : Nat
  dated : Nat
  enriched : Nat
  unknownVenues : Std.ExtTreeSet String
  unknownCurrencies : Std.ExtTreeSet String

def CatalogSummary.none : CatalogSummary := ⟨0, 0, 0, 0, 0, 0, 0, ∅, ∅⟩

def CatalogSummary.skippedFk (s : CatalogSummary) : Nat := s.skippedVenue + s.skippedCurrency

inductive LoadError where
  | provider (message : String)
  | database
  | enricher (message : String)
  deriving DecidableEq, Repr

def BATCH : Nat := 4000

def expired (today : Int) (d : InstrumentDef) : Bool :=
  (d.derivative.bind (·.expiryDate)).any (· < today)

structure Sifted where
  summary : CatalogSummary
  dedup : Table Key InstrumentDef InstrumentDef.key

def sift (db : Db) (today : Int) (s : Sifted) (d : InstrumentDef) : Sifted :=
  if !db.venue.contains d.venue then
    { s with summary := { s.summary with
        skippedVenue := s.summary.skippedVenue + 1
        unknownVenues := s.summary.unknownVenues.insert d.venue } }
  else if !db.currency.contains d.currency then
    { s with summary := { s.summary with
        skippedCurrency := s.summary.skippedCurrency + 1
        unknownCurrencies := s.summary.unknownCurrencies.insert d.currency } }
  else if expired today d then
    { s with summary := { s.summary with skippedExpired := s.summary.skippedExpired + 1 } }
  else { s with dedup := place s.dedup d }

def spotsFirst (defs : List InstrumentDef) : List InstrumentDef :=
  defs.filter (·.derivative.isNone) ++ defs.filter (·.derivative.isSome)

def Terms.lawful (t : Terms) : Bool :=
  ["EQUITY", "FX", "COMMODITY", "DEBT", "INDEX", "CRYPTO", "ALTERNATIVE"].contains t.assetClass &&
  ["SPOT", "FUTURE", "FORWARD", "OPTION", "SWAP", "CFD", "BOND", "WARRANT"].contains
    t.instrumentClass &&
  decide (0 ≤ t.pricePrecision) &&
  decide (0 < t.priceIncrement) && decide (0 < t.sizeIncrement) && decide (0 < t.contractSize)

/-- A definition comes with the number the identity column has for it; a row that is
    there keeps its own. The venue and the currency have passed the filter. -/
def instrumentRows : Statement (InstrumentDef × Nat) Instrument.key where
  target v := v.1.key
  row
    | some old, (d, _) => { old with toTerms := d.terms }
    | none, (d, id) =>
      { d.terms with
        id, symbol := d.symbol, venue := d.venue, sizePrecision := 0
        figi := none, cusip := none, isin := none }
  keyed
    | some old, _, same => same old rfl
    | none, _, _ => rfl
  allowed _ r := r.toTerms.lawful

abbrev Ids := Table Key (Key × Nat) Prod.fst

def returning (t : Instruments) (chunk : List (InstrumentDef × Nat)) : List (Key × Nat) :=
  chunk.filterMap fun (d, _) => (t.find d.key).map fun r => (d.key, r.id)

def bulkUpsertInstruments (t : Instruments) (chunk : List (InstrumentDef × Nat)) :
    Option (Instruments × List (Key × Nat)) := do
  let t ← instrumentRows.run t chunk
  return (t, returning t chunk)

def upsertInstruments (at_ : Instruments × Nat × Ids) (chunk : List (InstrumentDef × Nat)) :
    Option (Instruments × Nat × Ids) := do
  let (t, rows) ← bulkUpsertInstruments at_.1 chunk
  return (t, at_.2.1 + rows.length, rows.foldl place at_.2.2)

def isSpot (symbol : String) (u : Instrument) : Bool :=
  u.symbol = symbol && u.instrumentClass = "SPOT"

def DerivativeDef.leg (dv : DerivativeDef) (u : Instrument) : Leg where
  underlyingId := some u.id
  underlyingSymbol := some dv.underlyingSymbol
  optionKind := dv.optionKind
  strikePrice := dv.strikePrice
  expiryDate := dv.expiryDate
  activationDate := dv.activationDate

def derivativeRows : Statement (Nat × Leg) Derivative.instrumentId where
  target v := v.1
  row
    | some old, (_, leg) => { old with toLeg := leg }
    | none, (id, leg) => { leg with instrumentId := id, expiresAt := none }
  keyed
    | some old, _, same => same old rfl
    | none, _, _ => rfl
  allowed _ r := r.underlyingId.isSome || r.underlyingSymbol.isSome

def legs (ids : Ids) (chunk : List InstrumentDef) : List (Nat × DerivativeDef) :=
  chunk.filterMap fun d => do
    let (_, id) ← ids.find d.key
    let dv ← d.derivative
    return (id, dv)

def joined (t : Instruments) (values : List (Nat × DerivativeDef)) : List (Nat × Leg) :=
  values.flatMap fun (id, dv) =>
    (t.rows.filter (isSpot dv.underlyingSymbol)).map fun u => (id, dv.leg u)

def bulkUpsertDerivatives (t : Instruments) (ids : Ids) (at_ : Derivatives × Nat)
    (chunk : List InstrumentDef) : Option (Derivatives × Nat) :=
  let values := legs ids chunk
  if values.isEmpty then some at_
  else do
    let rows := joined t values
    let after ← derivativeRows.run at_.1 rows
    return (after, at_.2 + rows.length)

structure Master where
  db : Db
  upserted : Nat
  derivatives : Nat
  ids : Ids

def upsertMaster (db : Db) (valid : List InstrumentDef) : Option Master := do
  let numbered := valid.zipIdx db.nextId
  let (instrument, upserted, ids) ←
    (chunks BATCH numbered).foldlM upsertInstruments (db.instrument, 0, .empty)
  let derivs := valid.filter (·.derivative.isSome)
  let (instrumentDerivative, derivatives) ←
    (chunks BATCH derivs).foldlM (bulkUpsertDerivatives instrument ids) (db.instrumentDerivative, 0)
  return {
    db := { db with instrument, instrumentDerivative, nextId := db.nextId + numbered.length }
    upserted, derivatives, ids }

def instantsAt (o : Outside) (calendar : List Calendar) (venue : String) (date : Int) : List Int :=
  calendar.filterMap fun c =>
    if c.venue = venue then c.closeTime.bind fun close => o.atTimeZone date close c.timezone
    else none

def readableAt (o : Outside) (calendar : List Calendar) (venue : String) (date : Int) : Bool :=
  calendar.all fun c =>
    c.venue ≠ venue || c.closeTime.all fun close => (o.atTimeZone date close c.timezone).isSome

def instants (o : Outside) (db : Db) (d : Derivative) : List Int :=
  match db.instrument.rows.find? (·.id = d.instrumentId), d.expiryDate with
  | some i, some date => instantsAt o db.calendar i.venue date
  | _, _ => []

def readable (o : Outside) (db : Db) (d : Derivative) : Bool :=
  match db.instrument.rows.find? (·.id = d.instrumentId), d.expiryDate with
  | some i, some date => readableAt o db.calendar i.venue date
  | _, _ => true

/-- An update from a join takes one of the rows joined, here the first. -/
def date (o : Outside) (db : Db) (d : Derivative) : Derivative :=
  match (instants o db d).filter (some · ≠ d.expiresAt) with
  | [] => d
  | instant :: _ => { d with expiresAt := some instant }

theorem date_instrument_id (o : Outside) (db : Db) (d : Derivative) :
    (date o db d).instrumentId = d.instrumentId := by
  unfold date
  split <;> rfl

def redated (o : Outside) (db : Db) : Db :=
  { db with instrumentDerivative :=
      mapRows db.instrumentDerivative (date o db) (date_instrument_id o db) }

/-- One unknown time zone among the rows joined fails the whole update. -/
def recomputeExpiresAt (o : Outside) (db : Db) : Option (Db × Nat) :=
  if db.instrumentDerivative.rows.all (readable o db) then
    some (redated o db,
      (db.instrumentDerivative.rows.filter fun d => decide (date o db d ≠ d)).length)
  else none

abbrev Enricher := List InstrumentDef → Except String (List InstrumentDef × List Key)

def openfigiExchCode (mic : String) : Option String :=
  if ["XNAS", "XNYS", "ARCX", "XASE", "BATS", "BATY", "EDGA", "EDGX", "IEXG", "XBOS",
      "XPSX", "XCIS", "XCHI", "EPRL", "MEMX", "LTSE", "XADF", "OTCM", "PSGM", "XNCM",
      "XNGS", "XNMS"].contains mic then some "US"
  else match mic with
    | "XLON" => some "LN"
    | "XETR" | "XFRA" => some "GY"
    | "XPAR" => some "FP"
    | "XAMS" => some "NA"
    | "XSWX" | "XVTX" => some "SW"
    | "XTKS" => some "JT"
    | "XHKG" => some "HK"
    | "XTSE" => some "CN"
    | "XASX" => some "AT"
    | "XMIL" => some "IM"
    | "XMAD" => some "SM"
    | "XSTO" => some "SS"
    | _ => none

def InstrumentDef.identity (o : Outside) (d : InstrumentDef) :
    Except String (Option InstrumentIdentity) :=
  o.identify d.symbol (openfigiExchCode d.venue)

def InstrumentDef.stamped (d : InstrumentDef) (i : InstrumentIdentity) : InstrumentDef :=
  { d with identifiers := { d.identifiers with
      figi := some i.figi, compositeFigi := i.compositeFigi } }

def resolve (o : Outside) (d : InstrumentDef) : Except String (InstrumentDef × Bool) := do
  if d.instrumentClass = "SPOT" then
    match ← d.identity o with
    | some i => return (d.stamped i, true)
    | none => return (d, false)
  else return (d, false)

def openFigiEnricher (o : Outside) : Enricher := fun defs => do
  let done ← defs.mapM (resolve o)
  return (done.map Prod.fst, (done.filter Prod.snd).map fun (d, _) => d.key)

def Instrument.filled (i : Identifiers) (r : Instrument) : Instrument :=
  { r with figi := r.figi.or i.figi, cusip := r.cusip.or i.cusip, isin := r.isin.or i.isin }

theorem filled_key (i : Identifiers) (r : Instrument) : (r.filled i).key = r.key := rfl

def persistIdentifiers (d : InstrumentDef) (t : Instruments) : Instruments :=
  t.update d.key (Instrument.filled d.identifiers) (filled_key d.identifiers)

def persistResolved (working : List InstrumentDef) (at_ : Instruments × Nat) (k : Key) :
    Instruments × Nat :=
  match working.find? (·.key = k) with
  | some d => (persistIdentifiers d at_.1, at_.2 + 1)
  | none => at_

def enrichAll : List Enricher → List InstrumentDef → Instruments × Nat →
    Except String Nat × Instruments
  | [], _, (t, stamped) => (.ok stamped, t)
  | e :: rest, working, (t, stamped) =>
    match e working with
    | .error message => (.error message, t)
    | .ok (working, resolved) =>
      enrichAll rest working (resolved.foldl (persistResolved working) (t, stamped))

def figiLess (t : Instruments) (defs : List InstrumentDef) : List InstrumentDef :=
  defs.filter fun d =>
    d.instrumentClass = "SPOT" && (t.find d.key).any (·.figi.isNone)

def runEnrichers (enrichers : List Enricher) (defs : List InstrumentDef) (t : Instruments) :
    Except String Nat × Instruments :=
  let working := figiLess t defs
  if working.isEmpty then (.ok 0, t) else enrichAll enrichers working (t, 0)

/-- The transaction over the master tables has committed: the expiry instants follow, then
    the enrichers are asked. -/
def afterMaster (o : Outside) (enrichers : List Enricher) (defs : List InstrumentDef)
    (summary : CatalogSummary) (master : Master) : Except LoadError (CatalogSummary × Ids) × Db :=
  match recomputeExpiresAt o master.db with
  | none => (.error .database, master.db)
  | some (db, dated) =>
    let summary := { summary with
      upserted := master.upserted, derivatives := master.derivatives, dated }
    if enrichers.isEmpty then (.ok (summary, master.ids), db)
    else
      match runEnrichers enrichers defs db.instrument with
      | (.error message, instrument) => (.error (.enricher message), { db with instrument })
      | (.ok enriched, instrument) =>
        (.ok ({ summary with enriched }, master.ids), { db with instrument })

def upsertCatalog (o : Outside) (pass : Pass) (enrichers : List Enricher)
    (defs : List InstrumentDef) (db : Db) : Except LoadError (CatalogSummary × Ids) × Db :=
  if defs.isEmpty then (.ok (.none, .empty), db)
  else
    let sifted := defs.foldl (sift db pass.today) ⟨.none, .empty⟩
    let valid := spotsFirst (pass.intoValues sifted.dedup.rows)
    match upsertMaster db valid with
    | none => (.error .database, db)
    | some master => afterMaster o enrichers defs sifted.summary master

end OmsCatalog
