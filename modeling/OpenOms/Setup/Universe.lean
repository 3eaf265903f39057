import OpenOms.Setup.Stamps

/-!
Loading a broker's universe: the catalog goes into the master tables first, then every
listing that landed is mapped to the broker.
-/
namespace OmsUniverse
open Keyed Upsert OmsCatalog

structure BrokerInstrument where
  definition : InstrumentDef
  brokerSymbol : String
  brokerExchange : Option String
  isTradeable : Bool
  minQuantity : Option Rat
  maxQuantity : Option Rat
  minNotional : Option Rat
  maxNotional : Option Rat
  deriving DecidableEq, Repr

def BrokerInstrument.key (bi : BrokerInstrument) : Key := bi.definition.key

def definitions (catalog : List BrokerInstrument) : List InstrumentDef :=
  catalog.map (·.definition)

structure LoadOptions where
  noEnrich : Bool
  underlyings : List String

structure UniverseLoadReport where
  fetched : Nat
  upserted : Nat
  mapped : Nat
  skipped : Nat
  skippedReasons : List String
  deriving DecidableEq, Repr

def brokerRow (id : Nat) (bi : BrokerInstrument) : BrokerRow where
  instrumentId := id
  brokerSymbol := bi.brokerSymbol
  brokerExchange := bi.brokerExchange
  nativeId := bi.definition.nativeId
  isTradeable := bi.isTradeable
  minQuantity := bi.minQuantity
  maxQuantity := bi.maxQuantity
  minNotional := bi.minNotional
  maxNotional := bi.maxNotional

def ordered : Option Rat → Option Rat → Bool
  | some low, some high => decide (low ≤ high)
  | _, _ => true

def withinLimits (r : BrokerRow) : Bool :=
  ordered r.minQuantity r.maxQuantity && ordered r.minNotional r.maxNotional

/-- The two rows have one broker symbol; without an exchange a row never has another's. -/
def sameListing (r other : BrokerMapping) : Bool :=
  r.brokerCode = other.brokerCode && r.brokerSymbol = other.brokerSymbol &&
    r.brokerExchange.isSome && r.brokerExchange = other.brokerExchange

def mappingRows (brokerCode : String) : Statement BrokerRow BrokerMapping.key where
  target v := (v.instrumentId, brokerCode)
  row _ v := { toBrokerRow := v, brokerCode }
  keyed _ _ _ := rfl
  allowed rows r :=
    withinLimits r.toBrokerRow && rows.all fun other => other.key = r.key || !sameListing r other

def bulkUpsertBrokerInstrument (brokerCode : String) (at_ : BrokerInstruments × Nat)
    (chunk : List BrokerRow) : Option (BrokerInstruments × Nat) := do
  let t ← (mappingRows brokerCode).run at_.1 chunk
  return (t, at_.2 + chunk.length)

def brokerRows (ids : Ids) (catalog : List BrokerInstrument) : List BrokerRow :=
  catalog.filterMap fun bi => (ids.find bi.key).map fun (_, id) => brokerRow id bi

def skippedReasons (summary : CatalogSummary) : List String :=
  summary.unknownVenues.toList.map ("unknown venue " ++ ·) ++
    summary.unknownCurrencies.toList.map ("unknown currency " ++ ·)

def loadUniverse (o : Outside) (opts : LoadOptions) (brokerCode : String) (pass : Pass)
    (listInstruments : List String → Except String (List BrokerInstrument)) (db : Db) :
    Except LoadError UniverseLoadReport × Db :=
  match listInstruments opts.underlyings with
  | .error message => (.error (.provider message), db)
  | .ok catalog =>
    if catalog.isEmpty then (.ok ⟨catalog.length, 0, 0, 0, []⟩, db)
    else
      match upsertCatalog o pass (enrichersOf o opts.noEnrich) (definitions catalog) db with
      | (.error e, db) => (.error e, db)
      | (.ok (summary, ids), db) =>
        match (chunks BATCH (brokerRows ids catalog)).foldlM
            (bulkUpsertBrokerInstrument brokerCode) (db.brokerInstrument, 0) with
        | none => (.error .database, db)
        | some (brokerInstrument, mapped) =>
          (.ok
            { fetched := catalog.length
              upserted := summary.upserted
              mapped
              skipped := summary.skippedFk
              skippedReasons := skippedReasons summary },
            { db with brokerInstrument })

section Statement
variable (o : Outside) (opts : LoadOptions) (brokerCode : String) (pass : Pass)
  (catalog : List BrokerInstrument) (db : Db)

def landed (k : Key) : Option InstrumentDef := landing db pass.today (definitions catalog) k

def classAfter (k : Key) : Option String :=
  match landed pass catalog db k with
  | some d => some d.instrumentClass
  | none => (db.instrument.find k).map (·.instrumentClass)

def MappedOnce (after : Db) : Prop :=
  ∀ k, (landed pass catalog db k).isSome → ∃ i, after.instrument.find k = some i ∧
    (after.brokerInstrument.rows.filter fun r =>
      r.instrumentId = i.id && r.brokerCode = brokerCode).length = 1

def DerivedOnce (after : Db) : Prop :=
  ∀ k d dv, landed pass catalog db k = some d → d.derivative = some dv →
    (∃ u ∈ after.instrument.rows, isSpot dv.underlyingSymbol u = true) →
    ∃ i, after.instrument.find k = some i ∧
      (after.instrumentDerivative.rows.filter fun r => r.instrumentId = i.id).length = 1

def SameRows (db' db : Db) : Prop := db' = { db with nextId := db'.nextId }

/-- The load completes, maps each listing that landed once and gives each option of a known
    underlying one derivative row; another load while no entry's expiry has passed
    completes as well and changes no row. -/
def LoadsExactly : Prop :=
  ∃ report after,
    loadUniverse o opts brokerCode pass (fun _ => .ok catalog) db = (.ok report, after) ∧
    MappedOnce brokerCode pass catalog db after ∧ DerivedOnce pass catalog db after ∧
    ∀ again : Pass, (∀ d ∈ definitions catalog, expired again.today d = expired pass.today d) →
      ∃ report' after',
        loadUniverse o opts brokerCode again (fun _ => .ok catalog) after = (.ok report', after') ∧
        SameRows after' after

def entries : List BrokerInstrument :=
  catalog.filter fun bi => (landed pass catalog db bi.key).isSome

/-- The broker symbol and exchange a listing has after the entries, by the last one of the
    listing or by the mapping there was. -/
def heldAs (earlier : List BrokerInstrument) (k : Key) : Option (String × Option String) :=
  ((earlier.reverse.find? (·.key = k)).map fun bi => (bi.brokerSymbol, bi.brokerExchange)).or
    ((db.instrument.find k).bind fun i => (db.brokerInstrument.find (i.id, brokerCode)).map
      fun r => (r.brokerSymbol, r.brokerExchange))

def Clear (before : List BrokerInstrument) : Prop :=
  ∀ earlier bi later, entries pass catalog db = earlier ++ bi :: later →
    ∀ k, k ≠ bi.key → ∀ exchange, bi.brokerExchange = some exchange →
      heldAs brokerCode db (before ++ earlier) k ≠ some (bi.brokerSymbol, some exchange)

def FigiMissing (k : Key) : Prop :=
  match db.instrument.find k with
  | some r => r.figi = none
  | none => (landed pass catalog db k).isSome = true

def LandsLeg (k : Key) (dv : DerivativeDef) : Prop :=
  ∃ d venue, landed pass catalog db k = some d ∧ d.derivative = some dv ∧
    classAfter pass catalog db (dv.underlyingSymbol, venue) = some "SPOT"

def ExpiresOn (k : Key) (date : Int) : Prop :=
  (∃ dv, LandsLeg pass catalog db k dv ∧ dv.expiryDate = some date) ∨
  (∀ dv, ¬ LandsLeg pass catalog db k dv) ∧ ∃ i r, db.instrument.find k = some i ∧
    db.instrumentDerivative.find i.id = some r ∧ r.expiryDate = some date

/-- When a load is exact. The rows for one listing are told apart only from one batch of
    mappings to the next, and an underlying only by its symbol. -/
structure Loadable : Prop where
  lawful : ∀ k d, landed pass catalog db k = some d → d.terms.lawful = true
  oneSpot : ∀ k d dv, landed pass catalog db k = some d → d.derivative = some dv →
    ∀ venue venue', classAfter pass catalog db (dv.underlyingSymbol, venue) = some "SPOT" →
      classAfter pass catalog db (dv.underlyingSymbol, venue') = some "SPOT" → venue = venue'
  answered : opts.noEnrich = true ∨ ∀ d ∈ definitions catalog, d.instrumentClass = "SPOT" →
    FigiMissing pass catalog db d.key → Answers o d
  listedOnce : ∀ batch ∈ chunks BATCH (entries pass catalog db), (batch.map (·.key)).Nodup
  limits : ∀ bi ∈ entries pass catalog db, ordered bi.minQuantity bi.maxQuantity = true ∧
    ordered bi.minNotional bi.maxNotional = true
  clear : Clear brokerCode pass catalog db []
  clearAgain : Clear brokerCode pass catalog db (entries pass catalog db)
  readable : catalog ≠ [] → ∀ k date, ExpiresOn pass catalog db k date →
    readableAt o db.calendar k.2 date = true
  oneInstant : catalog ≠ [] → ∀ k date, ExpiresOn pass catalog db k date →
    ∀ x ∈ instantsAt o db.calendar k.2 date, ∀ y ∈ instantsAt o db.calendar k.2 date, x = y

end Statement

theorem bulk_upsert_broker_instrument_some {brokerCode : String} (at_ : BrokerInstruments × Nat)
    (batch : List BrokerRow) (out : BrokerInstruments × Nat) :
    bulkUpsertBrokerInstrument brokerCode at_ batch = some out ↔
      (batch.map (mappingRows brokerCode).target).Nodup ∧
      (mappingRows brokerCode).Fits at_.1 batch ∧
      out = ((mappingRows brokerCode).written at_.1 batch, at_.2 + batch.length) := by
  simp only [bulkUpsertBrokerInstrument, Option.bind_eq_bind, Option.bind_eq_some_iff,
    Statement.run_some, Option.pure_def, Option.some.injEq]
  constructor
  · rintro ⟨_, ⟨distinct, fits, rfl⟩, rfl⟩
    exact ⟨distinct, fits, rfl⟩
  · rintro ⟨distinct, fits, rfl⟩
    exact ⟨_, ⟨distinct, fits, rfl⟩, rfl⟩

section Load
variable {o : Outside} {opts : LoadOptions} {brokerCode : String} {pass : Pass}
  {catalog : List BrokerInstrument} {db : Db}

def landedRowsOf (pass : Pass) (catalog : List BrokerInstrument) (db : Db) : List BrokerRow :=
  brokerRows (landedIds db (kept db pass (definitions catalog))) catalog

theorem load_universe_ok {after : Db} (some_ : catalog ≠ []) (sound : Sound db) :
    (∃ report, loadUniverse o opts brokerCode pass (fun _ => .ok catalog) db = (.ok report, after)) ↔
      (∀ d ∈ kept db pass (definitions catalog), d.terms.lawful = true) ∧
      (∀ d ∈ kept db pass (definitions catalog), ∀ dv, d.derivative = some dv →
        ((landedRows db (kept db pass (definitions catalog))).rows.filter
          (isSpot dv.underlyingSymbol)).length ≤ 1) ∧
      Readable o (master db (kept db pass (definitions catalog))).db ∧
      (∀ batch ∈ chunks BATCH (landedRowsOf pass catalog db),
        (batch.map (mappingRows brokerCode).target).Nodup) ∧
      (mappingRows brokerCode).Fits db.brokerInstrument (landedRowsOf pass catalog db) ∧
      ∃ n t, enrichStage (enrichersOf o opts.noEnrich) (definitions catalog)
          (landedRows db (kept db pass (definitions catalog))) = (.ok n, t) ∧
        after = { datedDb o db (kept db pass (definitions catalog)) with
          instrument := t
          brokerInstrument := (mappingRows brokerCode).written db.brokerInstrument
            (landedRowsOf pass catalog db) } := by
  have defs_some : definitions catalog ≠ [] := by simpa [definitions] using some_
  have not_empty : catalog.isEmpty = false := by simpa using some_
  have ok := @upsert_catalog_ok o pass (enrichersOf o opts.noEnrich) (definitions catalog) db
  simp only [loadUniverse, not_empty, Bool.false_eq_true, if_false]
  cases went : upsertCatalog o pass (enrichersOf o opts.noEnrich) (definitions catalog) db with
  | mk result mid =>
    cases result with
    | error e =>
      constructor
      · rintro ⟨_, is⟩
        cases is
      · rintro ⟨lawful, single, readable_, _, _, n, t, done, _⟩
        obtain ⟨_, is⟩ := (ok defs_some sound).mpr
          ⟨lawful, single, readable_, rfl, n, t, done, rfl⟩
        cases went.symm.trans is
    | ok out =>
      obtain ⟨summary, ids⟩ := out
      obtain ⟨lawful, single, readable_, rfl, n, t, done, rfl⟩ :=
        (ok defs_some sound).mp ⟨summary, went⟩
      have mapped := @Statement.counted_some _ _ _ _ _ (mappingRows brokerCode) _ id _
        bulk_upsert_broker_instrument_some (chunks BATCH (landedRowsOf pass catalog db))
        (db.brokerInstrument, 0)
      simp only [List.flatMap_id, flatten_chunks batch_some] at mapped
      have same_mapping : (datedDb o db (kept db pass (definitions catalog))).brokerInstrument =
        db.brokerInstrument := rfl
      simp only [same_mapping]
      cases rows : (chunks BATCH (landedRowsOf pass catalog db)).foldlM
          (bulkUpsertBrokerInstrument brokerCode) (db.brokerInstrument, 0) with
      | none =>
        rw [landedRowsOf] at rows
        rw [rows]
        constructor
        · rintro ⟨_, is⟩
          cases is
        · rintro ⟨_, _, _, distinct, fits, _⟩
          cases rows.symm.trans (mapped.mpr ⟨distinct, fits, rfl⟩)
      | some written =>
        obtain ⟨distinct, fits, rfl⟩ := mapped.mp rows
        rw [landedRowsOf] at rows
        rw [rows]
        constructor
        · rintro ⟨_, is⟩
          cases is
          exact ⟨lawful, single, readable_, distinct, fits, n, t, done, rfl⟩
        · rintro ⟨_, _, _, _, _, n', t', again, rfl⟩
          cases done.symm.trans again
          exact ⟨_, rfl⟩

end Load
end OmsUniverse
