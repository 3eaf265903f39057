import OpenOms.Setup.Universe
import Mathlib.Data.List.Find

/-!
When a universe load is exact: what each stage asks of the catalog and the database, and
what a second load finds.
-/
namespace OmsUniverse
open Keyed Upsert OmsCatalog

section Bridge
variable {brokerCode : String} {pass : Pass} {catalog : List BrokerInstrument} {db : Db}

def valid (pass : Pass) (catalog : List BrokerInstrument) (db : Db) : List InstrumentDef :=
  kept db pass (definitions catalog)

def rowsIn (pass : Pass) (catalog : List BrokerInstrument) (db : Db) : Instruments :=
  landedRows db (valid pass catalog db)

def idsIn (pass : Pass) (catalog : List BrokerInstrument) (db : Db) : Ids :=
  landedIds db (valid pass catalog db)

theorem mem_valid {d : InstrumentDef} :
    d ∈ valid pass catalog db ↔ landed pass catalog db d.key = some d := mem_kept

theorem valid_distinct : ((valid pass catalog db).map InstrumentDef.key).Nodup :=
  kept_distinct _ _ _

theorem landed_own {k : Key} {d : InstrumentDef} (lands : landed pass catalog db k = some d) :
    d.key = k := landing_key lands

theorem valid_of_landed {k : Key} {d : InstrumentDef} (lands : landed pass catalog db k = some d) :
    d ∈ valid pass catalog db := kept_of_landing lands

theorem row_landed {k : Key} {d : InstrumentDef} (lands : landed pass catalog db k = some d) :
    ∃ n, (rowsIn pass catalog db).find k =
      some (instrumentRows.row (db.instrument.find k) (d, n)) := by
  have own := landed_own lands
  subst own
  exact landed_row db valid_distinct (valid_of_landed lands)

theorem row_unlanded {k : Key} (absent : landed pass catalog db k = none) :
    (rowsIn pass catalog db).find k = db.instrument.find k := by
  refine unlanded_row fun d member own => ?_
  have lands := mem_valid.mp member
  rw [own, absent] at lands
  cases lands

theorem row_there {k : Key} (there : (landed pass catalog db k).isSome) :
    ∃ i, (rowsIn pass catalog db).find k = some i := by
  obtain ⟨d, lands⟩ := Option.isSome_iff_exists.mp there
  obtain ⟨n, found⟩ := row_landed lands
  exact ⟨_, found⟩

variable (pass catalog) in
theorem row_before {k : Key} {i : Instrument} (before : db.instrument.find k = some i) :
    ∃ i', (rowsIn pass catalog db).find k = some i' ∧ i'.id = i.id :=
  id_kept _ before

theorem rows_numbered (sound : Sound db) :
    Numbered (rowsIn pass catalog db) (db.nextId + (valid pass catalog db).length) :=
  landed_rows_numbered sound _

theorem fresh_id (sound : Sound db) {k : Key} {i : Instrument}
    (found : (rowsIn pass catalog db).find k = some i) (absent : db.instrument.find k = none) :
    ∀ old ∈ db.instrument.rows, old.id ≠ i.id := by
  intro old held same
  have before : db.instrument.find old.key = some old := find_some.mpr ⟨held, rfl⟩
  obtain ⟨now, here, id⟩ := row_before pass catalog before
  obtain ⟨member, key⟩ := find_some.mp found
  obtain ⟨member', key'⟩ := find_some.mp here
  have one := (rows_numbered sound).1 now member' i member (id.trans same)
  rw [← key, ← one, key', before] at absent
  cases absent

theorem class_landed (k : Key) : ((rowsIn pass catalog db).find k).map (·.instrumentClass) =
    classAfter pass catalog db k := by
  unfold classAfter
  cases lands : landed pass catalog db k with
  | none => rw [row_unlanded lands]
  | some d =>
    obtain ⟨n, found⟩ := row_landed lands
    rw [found]
    cases db.instrument.find k <;> rfl

theorem figi_landed (k : Key) :
    (∃ r, (rowsIn pass catalog db).find k = some r ∧ r.figi = none) ↔
      FigiMissing pass catalog db k := by
  unfold FigiMissing
  cases lands : landed pass catalog db k with
  | none =>
    rw [row_unlanded lands]
    cases db.instrument.find k <;> simp
  | some d =>
    obtain ⟨n, found⟩ := row_landed lands
    rw [found]
    cases db.instrument.find k <;> simp [instrumentRows]

theorem lawful_iff : (∀ d ∈ valid pass catalog db, d.terms.lawful = true) ↔
    ∀ k d, landed pass catalog db k = some d → d.terms.lawful = true := by
  constructor
  · exact fun all k d lands => all d (valid_of_landed lands)
  · exact fun all d member => all d.key d (mem_valid.mp member)

theorem one_spot_iff :
    (∀ d ∈ valid pass catalog db, ∀ dv, d.derivative = some dv →
      ((rowsIn pass catalog db).rows.filter (isSpot dv.underlyingSymbol)).length ≤ 1) ↔
    ∀ k d dv, landed pass catalog db k = some d → d.derivative = some dv →
      ∀ venue venue', classAfter pass catalog db (dv.underlyingSymbol, venue) = some "SPOT" →
        classAfter pass catalog db (dv.underlyingSymbol, venue') = some "SPOT" →
        venue = venue' := by
  simp only [spots_le_one, class_landed]
  constructor
  · exact fun all k d dv lands => all d (valid_of_landed lands) dv
  · exact fun all d member dv => all d.key d dv (mem_valid.mp member)

theorem answered_iff {o : Outside} {noEnrich : Bool} :
    (noEnrich = true ∨ ∀ d ∈ figiLess (rowsIn pass catalog db) (definitions catalog), Answers o d) ↔
      (noEnrich = true ∨ ∀ d ∈ definitions catalog, d.instrumentClass = "SPOT" →
        FigiMissing pass catalog db d.key → Answers o d) := by
  refine or_congr_right ?_
  simp only [mem_figi_less, figi_landed, and_imp]

def idOf (ids : Ids) (k : Key) : Nat := (ids.find k).elim 0 Prod.snd

theorem id_of_entry {k : Key} (there : (landed pass catalog db k).isSome) :
    ∃ i, (rowsIn pass catalog db).find k = some i ∧
      (idsIn pass catalog db).find k = some (k, i.id) ∧ idOf (idsIn pass catalog db) k = i.id := by
  obtain ⟨d, lands⟩ := Option.isSome_iff_exists.mp there
  have own := landed_own lands
  subst own
  obtain ⟨i, row, found⟩ := landed_id_found db valid_distinct (valid_of_landed lands)
  refine ⟨i, row, found, ?_⟩
  unfold idOf idsIn
  rw [found]
  rfl

theorem ids_absent {k : Key} (absent : landed pass catalog db k = none) :
    (idsIn pass catalog db).find k = none := by
  cases found : (idsIn pass catalog db).find k with
  | none => rfl
  | some p =>
    obtain ⟨⟨d, member, own⟩, _⟩ := landed_id.mp found
    have lands := mem_valid.mp member
    rw [own, absent] at lands
    cases lands

theorem mem_entries {bi : BrokerInstrument} :
    bi ∈ entries pass catalog db ↔ bi ∈ catalog ∧ (landed pass catalog db bi.key).isSome := by
  rw [entries, List.mem_filter]

def rowOf (ids : Ids) (bi : BrokerInstrument) : BrokerRow := brokerRow (idOf ids bi.key) bi

theorem landed_rows_of_entries : landedRowsOf pass catalog db =
    (entries pass catalog db).map (rowOf (idsIn pass catalog db)) := by
  have each : ∀ bi : BrokerInstrument,
      ((idsIn pass catalog db).find bi.key).map (fun p => brokerRow p.2 bi) =
        if (landed pass catalog db bi.key).isSome then some (rowOf (idsIn pass catalog db) bi)
        else none := by
    intro bi
    split
    · rename_i there
      obtain ⟨i, _, found, own⟩ := id_of_entry there
      rw [found, rowOf, own]
      rfl
    · rename_i away
      rw [ids_absent (Option.not_isSome_iff_eq_none.mp away)]
      rfl
  have rows : landedRowsOf pass catalog db = catalog.filterMap fun bi =>
      ((idsIn pass catalog db).find bi.key).map (fun p => brokerRow p.2 bi) := rfl
  rw [rows, List.filterMap_congr fun bi _ => each bi, entries, ← List.filterMap_eq_map,
    List.filterMap_filter]
  rfl

theorem id_of_apart (sound : Sound db) {k k' : Key} (there : (landed pass catalog db k).isSome)
    {i : Instrument} (found : (rowsIn pass catalog db).find k' = some i) :
    idOf (idsIn pass catalog db) k = i.id ↔ k = k' := by
  obtain ⟨i', row, _, own⟩ := id_of_entry there
  rw [own]
  constructor
  · intro same
    obtain ⟨member, rfl⟩ := find_some.mp row
    obtain ⟨member', rfl⟩ := find_some.mp found
    rw [(rows_numbered sound).1 i' member i member' same]
  · rintro rfl
    cases row.symm.trans found
    rfl

theorem listed_once_iff (sound : Sound db) :
    (∀ batch ∈ chunks BATCH (landedRowsOf pass catalog db),
      (batch.map (mappingRows brokerCode).target).Nodup) ↔
    ∀ batch ∈ chunks BATCH (entries pass catalog db), (batch.map (·.key)).Nodup := by
  rw [landed_rows_of_entries, chunks_map, List.forall_mem_map]
  refine forall₂_congr fun batch member => ?_
  have inside : ∀ bi ∈ batch, (landed pass catalog db bi.key).isSome := by
    intro bi there
    have whole : bi ∈ (chunks BATCH (entries pass catalog db)).flatten :=
      List.mem_flatten.mpr ⟨batch, member, there⟩
    rw [flatten_chunks batch_some] at whole
    exact (mem_entries.mp whole).2
  have targets : (batch.map (rowOf (idsIn pass catalog db))).map (mappingRows brokerCode).target =
      (batch.map (·.key)).map fun k => (idOf (idsIn pass catalog db) k, brokerCode) := by
    rw [List.map_map, List.map_map]
    rfl
  rw [targets]
  refine ⟨List.Nodup.of_map _, fun distinct => ?_⟩
  refine List.Nodup.map_on (fun k here k' there same => ?_) distinct
  obtain ⟨bi, one, rfl⟩ := List.mem_map.mp here
  obtain ⟨bi', other, rfl⟩ := List.mem_map.mp there
  obtain ⟨i, found, _, own⟩ := id_of_entry (inside bi' other)
  exact (id_of_apart sound (inside bi one) found).mp ((Prod.mk.inj same).1.trans own)

def mappingsAfter (brokerCode : String) (pass : Pass) (catalog : List BrokerInstrument) (db : Db)
    (earlier : List BrokerInstrument) : BrokerInstruments :=
  (mappingRows brokerCode).written db.brokerInstrument
    (earlier.map (rowOf (idsIn pass catalog db)))

section Mappings
variable {earlier : List BrokerInstrument}

variable (brokerCode) in
theorem held_as_spec (sound : Sound db) (part : ∀ bi ∈ earlier, bi ∈ entries pass catalog db)
    {k : Key} {i : Instrument} (found : (rowsIn pass catalog db).find k = some i) :
    ((mappingsAfter brokerCode pass catalog db earlier).find (i.id, brokerCode)).map
        (fun r => (r.brokerSymbol, r.brokerExchange)) = heldAs brokerCode db earlier k := by
  have before : (db.instrument.find k).bind (fun i => (db.brokerInstrument.find
      (i.id, brokerCode)).map fun r => (r.brokerSymbol, r.brokerExchange)) =
      (db.brokerInstrument.find (i.id, brokerCode)).map
        fun r => (r.brokerSymbol, r.brokerExchange) := by
    cases row : db.instrument.find k with
    | some old =>
      obtain ⟨_, now, same⟩ := row_before pass catalog row
      cases found.symm.trans now
      rw [Option.bind_some, same]
    | none =>
      have fresh : db.brokerInstrument.find (i.id, brokerCode) = none := by
        cases mapped : db.brokerInstrument.find (i.id, brokerCode) with
        | none => rfl
        | some r =>
          obtain ⟨there, own⟩ := find_some.mp mapped
          obtain ⟨old, held, id⟩ := sound.mappings r there
          exact absurd (id.trans (Prod.mk.inj own).1) (fresh_id sound found row old held)
      rw [fresh]
      rfl
  have latest : ((earlier.map (rowOf (idsIn pass catalog db))).reverse.find?
      ((mappingRows brokerCode).target · = (i.id, brokerCode))) =
      (earlier.reverse.find? (·.key = k)).map (rowOf (idsIn pass catalog db)) := by
    rw [← List.map_reverse, List.find?_map]
    refine congrArg _ (List.find?_congr fun bi member => ?_)
    have there := (mem_entries.mp (part bi (List.mem_reverse.mp member))).2
    have same := id_of_apart sound there found
    simp only [Function.comp_apply, mappingRows, rowOf, brokerRow, Prod.mk.injEq, and_true, same]
  rw [mappingsAfter, (mappingRows brokerCode).find_written_last (fun _ _ => rfl), latest, heldAs,
    before]
  cases earlier.reverse.find? (·.key = k) <;> rfl

theorem mapping_instrument (sound : Sound db) (part : ∀ bi ∈ earlier, bi ∈ entries pass catalog db)
    {r : BrokerMapping} (member : r ∈ (mappingsAfter brokerCode pass catalog db earlier).rows) :
    ∃ i ∈ (rowsIn pass catalog db).rows, i.id = r.instrumentId := by
  have found : (mappingsAfter brokerCode pass catalog db earlier).find r.key = some r :=
    find_some.mpr ⟨member, rfl⟩
  rw [mappingsAfter, (mappingRows brokerCode).find_written_last (fun _ _ => rfl)] at found
  cases latest : (earlier.map (rowOf (idsIn pass catalog db))).reverse.find?
      ((mappingRows brokerCode).target · = r.key) with
  | some v =>
    rw [latest] at found
    cases found
    obtain ⟨bi, there, rfl⟩ := List.mem_map.mp
      (List.mem_reverse.mp (List.mem_of_find?_eq_some latest))
    obtain ⟨i, row, _, own⟩ := id_of_entry (mem_entries.mp (part bi there)).2
    exact ⟨i, (find_some.mp row).1, own.symm⟩
  | none =>
    rw [latest] at found
    obtain ⟨there, _⟩ := find_some.mp (found : db.brokerInstrument.find r.key = some r)
    obtain ⟨old, held, id⟩ := sound.mappings r there
    obtain ⟨now, row, same⟩ := row_before pass catalog
      (find_some.mpr ⟨held, rfl⟩ : db.instrument.find old.key = some old)
    exact ⟨now, (find_some.mp row).1, same.trans id⟩

theorem free_iff (sound : Sound db) (part : ∀ bi ∈ earlier, bi ∈ entries pass catalog db)
    {bi : BrokerInstrument} (member : bi ∈ entries pass catalog db) :
    ((mappingsAfter brokerCode pass catalog db earlier).rows.all fun other =>
        other.key = (idOf (idsIn pass catalog db) bi.key, brokerCode) ||
          !sameListing { toBrokerRow := rowOf (idsIn pass catalog db) bi, brokerCode } other) = true ↔
      ∀ k, k ≠ bi.key → ∀ exchange, bi.brokerExchange = some exchange →
        heldAs brokerCode db earlier k ≠ some (bi.brokerSymbol, some exchange) := by
  have lands := (mem_entries.mp member).2
  rw [List.all_eq_true]
  constructor
  · intro all k away exchange listed held
    have row : ∃ i, (rowsIn pass catalog db).find k = some i := by
      cases now : (rowsIn pass catalog db).find k with
      | some i => exact ⟨i, rfl⟩
      | none =>
        have not_before : db.instrument.find k = none := by
          cases before : db.instrument.find k with
          | none => rfl
          | some old =>
            obtain ⟨_, there, _⟩ := row_before pass catalog before
            cases now.symm.trans there
        have not_earlier : earlier.reverse.find? (·.key = k) = none := by
          refine List.find?_eq_none.mpr fun other there own => ?_
          have landed_too := (mem_entries.mp (part other (List.mem_reverse.mp there))).2
          obtain ⟨i, here⟩ := row_there landed_too
          rw [(of_decide_eq_true own : other.key = k), now] at here
          cases here
        rw [heldAs, not_before, not_earlier] at held
        cases held
    obtain ⟨i, found⟩ := row
    rw [← held_as_spec brokerCode sound part found] at held
    obtain ⟨other, mapped, label⟩ := Option.map_eq_some_iff.mp held
    obtain ⟨there, own⟩ := find_some.mp mapped
    obtain ⟨symbols, exchanges⟩ := Prod.mk.inj label
    have apart : other.key ≠ (idOf (idsIn pass catalog db) bi.key, brokerCode) := by
      rw [own]
      intro same
      exact away ((id_of_apart sound lands found).mp (Prod.mk.inj same).1.symm).symm
    have code : other.brokerCode = brokerCode := (Prod.mk.inj own).2
    have free := all other there
    simp [apart, sameListing, rowOf, brokerRow, code, symbols, exchanges, listed] at free
  · intro clear other there
    by_cases same : sameListing { toBrokerRow := rowOf (idsIn pass catalog db) bi, brokerCode } other
    · obtain ⟨i, row, id⟩ := mapping_instrument sound part there
      have found : (rowsIn pass catalog db).find i.key = some i := find_some.mpr ⟨row, rfl⟩
      simp only [sameListing, rowOf, brokerRow, Bool.and_eq_true, decide_eq_true_eq] at same
      obtain ⟨⟨⟨code, symbols⟩, listed⟩, exchanges⟩ := same
      obtain ⟨exchange, is⟩ := Option.isSome_iff_exists.mp listed
      have key : other.key = (i.id, brokerCode) := Prod.ext id.symm code.symm
      by_cases own : i.key = bi.key
      · have ids : idOf (idsIn pass catalog db) bi.key = i.id :=
          (id_of_apart sound lands found).mpr own.symm
        simp [key, ids]
      · have mapped : (mappingsAfter brokerCode pass catalog db earlier).find (i.id, brokerCode) =
            some other := find_some.mpr ⟨there, key⟩
        have held := held_as_spec brokerCode sound part found
        rw [mapped] at held
        refine absurd ?_ (clear i.key own exchange is)
        rw [← held, ← is, of_decide_eq_true symbols, of_decide_eq_true exchanges]
        rfl
    · simp [same]

end Mappings

/-- The mapping stage breaks no constraint when the entries' limits are in order and each
    finds its broker symbol and exchange free. -/
theorem fits_iff (sound : Sound db) {before : List BrokerInstrument}
    (part : ∀ bi ∈ before, bi ∈ entries pass catalog db) :
    (mappingRows brokerCode).Fits (mappingsAfter brokerCode pass catalog db before)
        (landedRowsOf pass catalog db) ↔
      (∀ bi ∈ entries pass catalog db, ordered bi.minQuantity bi.maxQuantity = true ∧
        ordered bi.minNotional bi.maxNotional = true) ∧
      Clear brokerCode pass catalog db before := by
  have allowed : ∀ earlier bi later, entries pass catalog db = earlier ++ bi :: later →
      ((mappingRows brokerCode).allowed (mappingsAfter brokerCode pass catalog db
          (before ++ earlier)).rows ((mappingRows brokerCode).row none (rowOf (idsIn pass catalog db) bi))
        = true ↔
      (ordered bi.minQuantity bi.maxQuantity = true ∧ ordered bi.minNotional bi.maxNotional = true) ∧
      ∀ k, k ≠ bi.key → ∀ exchange, bi.brokerExchange = some exchange →
        heldAs brokerCode db (before ++ earlier) k ≠ some (bi.brokerSymbol, some exchange)) := by
    intro earlier bi later split
    have inside : ∀ other ∈ before ++ earlier, other ∈ entries pass catalog db := by
      intro other there
      rcases List.mem_append.mp there with old | new
      · exact part other old
      · rw [split]
        exact List.mem_append_left _ new
    have member : bi ∈ entries pass catalog db := by
      rw [split]
      exact List.mem_append_right _ List.mem_cons_self
    rw [← free_iff sound inside member, ← Bool.and_eq_true, ← Bool.and_eq_true]
    rfl
  have after : ∀ earlier, (mappingRows brokerCode).written
      (mappingsAfter brokerCode pass catalog db before)
        (earlier.map (rowOf (idsIn pass catalog db))) =
      mappingsAfter brokerCode pass catalog db (before ++ earlier) := by
    intro earlier
    rw [mappingsAfter, mappingsAfter, List.map_append, Statement.written_append]
  rw [Statement.fits_iff_split, landed_rows_of_entries]
  constructor
  · intro each
    have turn : ∀ earlier bi later, entries pass catalog db = earlier ++ bi :: later → _ :=
      fun earlier bi later split => (allowed earlier bi later split).mp (by
        have one := each (earlier.map (rowOf (idsIn pass catalog db)))
          (rowOf (idsIn pass catalog db) bi) (later.map (rowOf (idsIn pass catalog db)))
          (by rw [split, List.map_append, List.map_cons])
        rw [after] at one
        exact one)
    refine ⟨fun bi member => ?_, fun earlier bi later split => (turn earlier bi later split).2⟩
    obtain ⟨earlier, later, split⟩ := List.append_of_mem member
    exact (turn earlier bi later split).1
  · rintro ⟨limits, clear⟩ earlier v later split
    obtain ⟨earlier', rest, whole, rfl, more⟩ := List.map_eq_append_iff.mp split
    obtain ⟨bi, later', rfl, rfl, _⟩ := List.map_eq_cons_iff.mp more
    have member : bi ∈ entries pass catalog db := by
      rw [whole]
      exact List.mem_append_right _ List.mem_cons_self
    rw [after]
    exact (allowed earlier' bi later' whole).mpr ⟨limits bi member, clear earlier' bi later' whole⟩

section Legs

def OneSpot (pass : Pass) (catalog : List BrokerInstrument) (db : Db) : Prop :=
  ∀ d ∈ valid pass catalog db, ∀ dv, d.derivative = some dv →
    ((rowsIn pass catalog db).rows.filter (isSpot dv.underlyingSymbol)).length ≤ 1

def legsIn (pass : Pass) (catalog : List BrokerInstrument) (db : Db) : Derivatives :=
  derivativeRows.written db.instrumentDerivative (landedLegs db (valid pass catalog db))

theorem mem_landed_legs {v : Nat × Leg} :
    v ∈ landedLegs db (valid pass catalog db) ↔
      ∃ k d dv i u, landed pass catalog db k = some d ∧ d.derivative = some dv ∧
        (rowsIn pass catalog db).find k = some i ∧ u ∈ (rowsIn pass catalog db).rows ∧
        isSpot dv.underlyingSymbol u = true ∧ v = (i.id, dv.leg u) := by
  rw [landedLegs, mem_joined]
  constructor
  · rintro ⟨d, member, dv, own, k, id, found, u, there, spot, rfl⟩
    obtain ⟨_, i, row, is⟩ := landed_id.mp found
    cases is
    exact ⟨d.key, d, dv, i, u, mem_valid.mp (List.mem_of_mem_filter member), own, row, there, spot, rfl⟩
  · rintro ⟨k, d, dv, i, u, lands, own, row, there, spot, rfl⟩
    have key := landed_own lands
    subst key
    have member := valid_of_landed lands
    have found : (landedIds db (valid pass catalog db)).find d.key = some (d.key, i.id) :=
      landed_id.mpr ⟨⟨d, member, rfl⟩, i, row, rfl⟩
    exact ⟨d, List.mem_filter.mpr ⟨member, by simp [own]⟩, dv, own, _, _, found, u, there, spot, rfl⟩

theorem landed_legs_distinct (sound : Sound db) (single : OneSpot pass catalog db) :
    ((landedLegs db (valid pass catalog db)).map derivativeRows.target).Nodup := by
  refine (legs_distinct sound (fun d there => List.mem_of_mem_filter there) valid_distinct
    ((List.filter_sublist.map _).nodup valid_distinct)).mpr fun d there dv own => ?_
  exact single d (List.mem_of_mem_filter there) dv own

theorem leg_row {v : Nat × Leg} (old : Option Derivative) : (derivativeRows.row old v).toLeg = v.2 := by
  cases old <;> rfl

theorem leg_written (sound : Sound db) (single : OneSpot pass catalog db) {v : Nat × Leg}
    (member : v ∈ landedLegs db (valid pass catalog db)) :
    ∃ r, (legsIn pass catalog db).find v.1 = some r ∧ r.toLeg = v.2 :=
  ⟨_, derivativeRows.find_written (landed_legs_distinct sound single) member, leg_row _⟩

theorem lands_leg_member {k : Key} {dv : DerivativeDef} (leg : LandsLeg pass catalog db k dv)
    {i : Instrument} (found : (rowsIn pass catalog db).find k = some i) :
    ∃ u, (i.id, dv.leg u) ∈ landedLegs db (valid pass catalog db) := by
  obtain ⟨d, venue, lands, own, cls⟩ := leg
  rw [← class_landed] at cls
  obtain ⟨u, there, is⟩ := Option.map_eq_some_iff.mp cls
  obtain ⟨member, key⟩ := find_some.mp there
  obtain ⟨symbols, _⟩ := Prod.mk.inj key
  exact ⟨u, mem_landed_legs.mpr
    ⟨k, d, dv, i, u, lands, own, found, member, by simp [isSpot, symbols, is], rfl⟩⟩

theorem lands_leg_of_member {v : Nat × Leg} (member : v ∈ landedLegs db (valid pass catalog db)) :
    ∃ k dv i, LandsLeg pass catalog db k dv ∧ (rowsIn pass catalog db).find k = some i ∧
      v.1 = i.id := by
  obtain ⟨k, d, dv, i, u, lands, own, found, there, spot, rfl⟩ := mem_landed_legs.mp member
  obtain ⟨symbols, cls⟩ : u.symbol = dv.underlyingSymbol ∧ u.instrumentClass = "SPOT" := by
    simpa [isSpot] using spot
  have row : (rowsIn pass catalog db).find (dv.underlyingSymbol, u.venue) = some u :=
    find_some.mpr ⟨there, by rw [← symbols]; rfl⟩
  refine ⟨k, dv, i, ⟨d, u.venue, lands, own, ?_⟩, found, rfl⟩
  rw [← class_landed, row, Option.map_some, cls]

theorem leg_kept (sound : Sound db) {k : Key} (none_ : ∀ dv, ¬ LandsLeg pass catalog db k dv)
    {i : Instrument} (found : (rowsIn pass catalog db).find k = some i) :
    (legsIn pass catalog db).find i.id = db.instrumentDerivative.find i.id := by
  refine derivativeRows.find_written_of_not_mem fun v member same => ?_
  obtain ⟨k', dv, i', leg, found', id⟩ := lands_leg_of_member member
  obtain ⟨there, rfl⟩ := find_some.mp found
  obtain ⟨there', rfl⟩ := find_some.mp found'
  rw [(rows_numbered sound).1 i' there' i there (id.symm.trans same)] at leg
  exact none_ dv leg

theorem leg_instrument (sound : Sound db) {r : Derivative}
    (member : r ∈ (legsIn pass catalog db).rows) :
    ∃ i ∈ (rowsIn pass catalog db).rows, i.id = r.instrumentId := by
  by_cases new : ∃ v ∈ landedLegs db (valid pass catalog db), v.1 = r.instrumentId
  · obtain ⟨v, there, id⟩ := new
    obtain ⟨_, _, i, _, found, same⟩ := lands_leg_of_member there
    exact ⟨i, (find_some.mp found).1, same.symm.trans id⟩
  · have found : (legsIn pass catalog db).find r.instrumentId = some r :=
      find_some.mpr ⟨member, rfl⟩
    have old : db.instrumentDerivative.find r.instrumentId = some r :=
      (derivativeRows.find_written_of_not_mem fun v there same => new ⟨v, there, same⟩).symm.trans
        found
    obtain ⟨i, held, id⟩ := sound.legs r (find_some.mp old).1
    obtain ⟨now, row, same⟩ := row_before pass catalog
      (find_some.mpr ⟨held, rfl⟩ : db.instrument.find i.key = some i)
    exact ⟨now, (find_some.mp row).1, same.trans id⟩

theorem expires_iff (sound : Sound db) (single : OneSpot pass catalog db) {k : Key}
    {i : Instrument} (found : (rowsIn pass catalog db).find k = some i) {date : Int} :
    (∃ r, (legsIn pass catalog db).find i.id = some r ∧ r.expiryDate = some date) ↔
      ExpiresOn pass catalog db k date := by
  by_cases leg : ∃ dv, LandsLeg pass catalog db k dv
  · obtain ⟨dv, lands⟩ := leg
    obtain ⟨u, member⟩ := lands_leg_member lands found
    obtain ⟨r, row, is⟩ := leg_written sound single member
    have expiry : r.expiryDate = dv.expiryDate := congrArg Leg.expiryDate is
    constructor
    · rintro ⟨_, row', on⟩
      cases row.symm.trans row'
      exact .inl ⟨dv, lands, expiry.symm.trans on⟩
    · rintro (⟨dv', lands', on⟩ | ⟨none_, _⟩)
      · obtain ⟨d, _, one, own, _⟩ := lands
        obtain ⟨d', _, one', own', _⟩ := lands'
        cases one.symm.trans one'
        cases own.symm.trans own'
        exact ⟨r, row, expiry.trans on⟩
      · exact absurd lands (none_ dv)
  · have none_ : ∀ dv, ¬ LandsLeg pass catalog db k dv := fun dv lands => leg ⟨dv, lands⟩
    rw [leg_kept sound none_ found]
    constructor
    · rintro ⟨r, row, on⟩
      cases before : db.instrument.find k with
      | none =>
        obtain ⟨there, id⟩ := find_some.mp row
        obtain ⟨old, held, same⟩ := sound.legs r there
        exact absurd (same.trans id) (fresh_id sound found before old held)
      | some old =>
        obtain ⟨_, now, same⟩ := row_before pass catalog before
        cases found.symm.trans now
        exact .inr ⟨none_, old, r, before, same ▸ row, on⟩
    · rintro (⟨dv, lands, _⟩ | ⟨_, old, r, before, row, on⟩)
      · exact absurd lands (none_ dv)
      · obtain ⟨_, now, same⟩ := row_before pass catalog before
        cases found.symm.trans now
        exact ⟨r, same ▸ row, on⟩

theorem each_expiry (sound : Sound db) (single : OneSpot pass catalog db)
    (P : String → Int → Prop) :
    (∀ r ∈ (legsIn pass catalog db).rows, ∀ i ∈ (rowsIn pass catalog db).rows,
        i.id = r.instrumentId → ∀ date, r.expiryDate = some date → P i.venue date) ↔
      ∀ k date, ExpiresOn pass catalog db k date → P k.2 date := by
  constructor
  · intro all k on expires
    have row : ∃ i, (rowsIn pass catalog db).find k = some i := by
      rcases expires with ⟨_, ⟨_, _, lands, _⟩, _⟩ | ⟨_, i, _, before, _⟩
      · exact row_there (by rw [lands]; rfl)
      · obtain ⟨i', found, _⟩ := row_before pass catalog before
        exact ⟨i', found⟩
    obtain ⟨i, found⟩ := row
    obtain ⟨r, held, date_⟩ := (expires_iff sound single found).mpr expires
    obtain ⟨member, rfl⟩ := find_some.mp found
    obtain ⟨there, own⟩ := find_some.mp held
    exact all r there i member own.symm on date_
  · intro all r there i member own on date_
    have found : (rowsIn pass catalog db).find i.key = some i := find_some.mpr ⟨member, rfl⟩
    have held : (legsIn pass catalog db).find i.id = some r := find_some.mpr ⟨there, own.symm⟩
    exact all i.key on ((expires_iff sound single found).mp ⟨r, held, date_⟩)

theorem readable_iff {o : Outside} (sound : Sound db) (single : OneSpot pass catalog db) :
    Readable o (master db (valid pass catalog db)).db ↔
      ∀ k date, ExpiresOn pass catalog db k date → readableAt o db.calendar k.2 date = true := by
  refine Iff.trans ?_ (each_expiry sound single fun venue date =>
    readableAt o db.calendar venue date = true)
  refine forall₂_congr fun r there => ?_
  constructor
  · intro reads i member own on date_
    rw [readable_of (rows_numbered sound).1 member own, date_] at reads
    exact reads
  · intro reads
    obtain ⟨i, member, own⟩ := leg_instrument sound there
    rw [readable_of (rows_numbered sound).1 member own]
    cases date_ : r.expiryDate with
    | none => rfl
    | some on => exact reads i member own on date_

end Legs
end Bridge
end OmsUniverse
