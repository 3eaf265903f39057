import OpenOms.Setup.UniverseLoads

/-!
The universe loaded twice: what the first load leaves, and that a second one finds every
row in place but for the mappings it writes in turn and the dates it derives anew.
-/
namespace OmsUniverse
open Keyed Upsert OmsCatalog

section Twice
variable {o : Outside} {opts : LoadOptions} {brokerCode : String} {pass : Pass}
  {catalog : List BrokerInstrument} {db after : Db}

structure Loaded (o : Outside) (opts : LoadOptions) (brokerCode : String) (pass : Pass)
    (catalog : List BrokerInstrument) (db after : Db) : Prop where
  lawful : ∀ d ∈ valid pass catalog db, d.terms.lawful = true
  oneSpot : OneSpot pass catalog db
  readable : Readable o (master db (valid pass catalog db)).db
  answered : opts.noEnrich = true ∨
    ∀ d ∈ figiLess (rowsIn pass catalog db) (definitions catalog), Answers o d
  batches : ∀ batch ∈ chunks BATCH (entries pass catalog db), (batch.map (·.key)).Nodup
  limits : ∀ bi ∈ entries pass catalog db, ordered bi.minQuantity bi.maxQuantity = true ∧
    ordered bi.minNotional bi.maxNotional = true
  clear : Clear brokerCode pass catalog db []
  stamps : Restamped (rowsIn pass catalog db) after.instrument
  known : opts.noEnrich = false →
    ∀ d ∈ figiLess (rowsIn pass catalog db) (definitions catalog), ∀ i,
      d.identity o = .ok (some i) → ∃ r, after.instrument.find d.key = some r ∧ r.figi.isSome
  is : after = { datedDb o db (valid pass catalog db) with
    instrument := after.instrument
    brokerInstrument := mappingsAfter brokerCode pass catalog db (entries pass catalog db) }

theorem loaded_of_load (some_ : catalog ≠ []) (sound : Sound db) {report : UniverseLoadReport}
    (load : loadUniverse o opts brokerCode pass (fun _ => .ok catalog) db = (.ok report, after)) :
    Loaded o opts brokerCode pass catalog db after := by
  obtain ⟨lawful, single, readable, distinct, fits, n, t, done, rfl⟩ :=
    (load_universe_ok some_ sound).mp ⟨report, load⟩
  obtain ⟨answered, stamps, known⟩ := enrich_stage_ok ⟨n, done⟩
  have none_before : ∀ bi ∈ ([] : List BrokerInstrument), bi ∈ entries pass catalog db := by simp
  obtain ⟨limits, clear⟩ := (fits_iff sound none_before).mp fits
  have rows : landedRowsOf pass catalog db = _ := landed_rows_of_entries
  exact
    { lawful, oneSpot := single, readable, answered
      batches := (listed_once_iff sound).mp distinct
      limits, clear, stamps, known
      is := by rw [mappingsAfter, ← rows]; rfl }

theorem completes_iff (some_ : catalog ≠ []) (sound : Sound db) :
    (∃ report after, loadUniverse o opts brokerCode pass (fun _ => .ok catalog) db =
        (.ok report, after)) ↔
      (∀ d ∈ valid pass catalog db, d.terms.lawful = true) ∧ OneSpot pass catalog db ∧
      Readable o (master db (valid pass catalog db)).db ∧
      (opts.noEnrich = true ∨
        ∀ d ∈ figiLess (rowsIn pass catalog db) (definitions catalog), Answers o d) ∧
      (∀ batch ∈ chunks BATCH (entries pass catalog db), (batch.map (·.key)).Nodup) ∧
      (∀ bi ∈ entries pass catalog db, ordered bi.minQuantity bi.maxQuantity = true ∧
        ordered bi.minNotional bi.maxNotional = true) ∧
      Clear brokerCode pass catalog db [] := by
  constructor
  · rintro ⟨report, after, load⟩
    have loaded := loaded_of_load some_ sound load
    exact ⟨loaded.lawful, loaded.oneSpot, loaded.readable, loaded.answered, loaded.batches,
      loaded.limits, loaded.clear⟩
  · rintro ⟨lawful, single, readable, answered, distinct, limits, clear⟩
    have none_before : ∀ bi ∈ ([] : List BrokerInstrument), bi ∈ entries pass catalog db := by simp
    obtain ⟨n, t, done⟩ := enrich_stage_answered answered
    have ok := @load_universe_ok o opts brokerCode pass catalog db
    obtain ⟨report, load⟩ := (ok some_ sound).mpr
      ⟨lawful, single, readable, (listed_once_iff sound).mpr distinct,
        (fits_iff sound none_before).mpr ⟨limits, clear⟩, n, t, done, rfl⟩
    exact ⟨report, _, load⟩

variable (loaded : Loaded o opts brokerCode pass catalog db after)
include loaded

theorem row_after {k : Key} {i : Instrument} (found : (rowsIn pass catalog db).find k = some i) :
    ∃ i', after.instrument.find k = some i' ∧ i'.id = i.id ∧ i'.toTerms = i.toTerms ∧
      i'.key = i.key := by
  obtain ⟨i', there, same, _⟩ := loaded.stamps.2 k i found
  exact ⟨i', there, stampless_same same⟩

theorem row_back {k : Key} {i' : Instrument} (found : after.instrument.find k = some i') :
    ∃ i, (rowsIn pass catalog db).find k = some i ∧ i'.id = i.id ∧ i'.toTerms = i.toTerms := by
  obtain ⟨i, there, same, _⟩ := restamped_back loaded.stamps found
  obtain ⟨ids, terms, _⟩ := stampless_same same
  exact ⟨i, there, ids, terms⟩

theorem after_legs : after.instrumentDerivative =
    mapRows (legsIn pass catalog db) (date o (master db (valid pass catalog db)).db)
      (date_instrument_id _ _) := by
  rw [loaded.is]
  rfl

theorem after_mappings : after.brokerInstrument =
    mappingsAfter brokerCode pass catalog db (entries pass catalog db) := by
  rw [loaded.is]

theorem after_sound (sound : Sound db) : Sound after := by
  have numbered : Numbered (rowsIn pass catalog db) _ := rows_numbered sound
  have back : ∀ r ∈ after.instrument.rows, ∃ i ∈ (rowsIn pass catalog db).rows,
      r.id = i.id ∧ i.key = r.key := by
    intro r there
    obtain ⟨i, found, same, _⟩ := row_back loaded (find_some.mpr ⟨there, rfl⟩ :
      after.instrument.find r.key = some r)
    obtain ⟨member, key⟩ := find_some.mp found
    exact ⟨i, member, same, key⟩
  have forth : ∀ i ∈ (rowsIn pass catalog db).rows, ∃ r ∈ after.instrument.rows, r.id = i.id := by
    intro i there
    obtain ⟨r, found, same, _⟩ := row_after loaded (find_some.mpr ⟨there, rfl⟩ :
      (rowsIn pass catalog db).find i.key = some i)
    exact ⟨r, (find_some.mp found).1, same⟩
  refine ⟨fun r here r' there same => ?_, fun r there => ?_, fun r there => ?_, fun r there => ?_⟩
  · obtain ⟨i, one, id, key⟩ := back r here
    obtain ⟨i', other, id', key'⟩ := back r' there
    have is := numbered.1 i one i' other (id.symm.trans (same.trans id'))
    exact row_unique _ here there (key.symm.trans ((congrArg Instrument.key is).trans key'))
  · obtain ⟨i, member, id, _⟩ := back r there
    rw [id, loaded.is]
    exact numbered.2 i member
  · rw [after_legs loaded] at there
    obtain ⟨r0, before, rfl⟩ := List.mem_map.mp there
    obtain ⟨i, member, id⟩ := leg_instrument sound before
    obtain ⟨i', now, same⟩ := forth i member
    exact ⟨i', now, by rw [date_instrument_id]; exact same.trans id⟩
  · rw [after_mappings loaded] at there
    obtain ⟨i, member, id⟩ := mapping_instrument sound (fun _ is => is) there
    obtain ⟨i', now, same⟩ := forth i member
    exact ⟨i', now, same.trans id⟩

theorem mapped_once (sound : Sound db) : MappedOnce brokerCode pass catalog db after := by
  intro k lands
  obtain ⟨i, row⟩ := row_there lands
  obtain ⟨i', there, id, _⟩ := row_after loaded row
  refine ⟨i', there, ?_⟩
  have held := held_as_spec brokerCode sound (fun _ is => is) row
  have some_ : (heldAs brokerCode db (entries pass catalog db) k).isSome := by
    obtain ⟨d, landed_⟩ := Option.isSome_iff_exists.mp lands
    obtain ⟨bi, member, rfl⟩ := List.mem_map.mp (landing_mem landed_)
    have own : bi.key = k := landed_own landed_
    have found : ((entries pass catalog db).reverse.find? (·.key = k)).isSome := by
      rw [List.find?_isSome]
      exact ⟨bi, List.mem_reverse.mpr (mem_entries.mpr ⟨member, by rw [own]; exact lands⟩), by simp [own]⟩
    rw [heldAs]
    simp [found]
  rw [← held, Option.isSome_map] at some_
  obtain ⟨r, mapped⟩ := Option.isSome_iff_exists.mp some_
  rw [after_mappings loaded, id]
  have only := filter_key mapped
  have same : ∀ r : BrokerMapping, (r.instrumentId = i.id && r.brokerCode = brokerCode) =
      decide (r.key = (i.id, brokerCode)) := by
    intro r
    simp [BrokerMapping.key, Prod.ext_iff]
  simp only [same, only, List.length_singleton]

theorem derived_once (sound : Sound db) : DerivedOnce pass catalog db after := by
  rintro k d dv lands own ⟨u, there, spot⟩
  obtain ⟨i, row⟩ := row_there (by rw [lands]; rfl : (landed pass catalog db k).isSome)
  obtain ⟨i', now, id, _⟩ := row_after loaded row
  refine ⟨i', now, ?_⟩
  obtain ⟨u0, known, _, terms⟩ := row_back loaded
    (find_some.mpr ⟨there, rfl⟩ : after.instrument.find u.key = some u)
  have leg : LandsLeg pass catalog db k dv := by
    obtain ⟨symbols, cls⟩ : u.symbol = dv.underlyingSymbol ∧ u.instrumentClass = "SPOT" := by
      simpa [isSpot] using spot
    refine ⟨d, u.venue, lands, own, ?_⟩
    rw [← class_landed, ← symbols]
    have at_ : (rowsIn pass catalog db).find (u.symbol, u.venue) = some u0 := known
    rw [at_, Option.map_some, ← cls, ← terms]
  obtain ⟨_, member⟩ := lands_leg_member leg row
  obtain ⟨r, found, _⟩ := leg_written sound loaded.oneSpot member
  have dated : after.instrumentDerivative.find i'.id =
      some (date o (master db (valid pass catalog db)).db r) := by
    rw [after_legs loaded, find_map_rows, id, found]
    rfl
  rw [filter_key dated]
  rfl

section Again
variable {again : Pass}
  (listed : ∀ d ∈ definitions catalog, expired again.today d = expired pass.today d)
include listed

theorem landed_again (k : Key) : landed again catalog after k = landed pass catalog db k := by
  have venues : after.venue = db.venue := by rw [loaded.is]; rfl
  have currencies : after.currency = db.currency := by rw [loaded.is]; rfl
  have each : ∀ d ∈ definitions catalog, lands after again.today d = lands db pass.today d := by
    intro d member
    rw [lands, lands, venues, currencies, listed d member]
  rw [landed, landed, landing, landing, List.filter_congr each]

theorem entries_again : entries again catalog after = entries pass catalog db := by
  simp only [entries, landed_again loaded listed]

theorem valid_again {d : InstrumentDef} :
    d ∈ valid again catalog after ↔ d ∈ valid pass catalog db := by
  rw [mem_valid, mem_valid, landed_again loaded listed]

theorem rows_again : rowsIn again catalog after = after.instrument := by
  refine instrumentRows.written_held fun v member => ?_
  have lands := mem_valid.mp ((valid_again loaded listed).mp (mem_of_zip_idx member))
  obtain ⟨n, found⟩ := row_landed lands
  obtain ⟨i, there, _, terms, _⟩ := row_after loaded found
  have written : i.toTerms = v.1.terms := by
    rw [terms]
    cases db.instrument.find v.1.key <;> rfl
  have next : instrumentRows.next after.instrument v = { i with toTerms := v.1.terms } := by
    have held : after.instrument.find (instrumentRows.target v) = some i := there
    rw [Statement.next, held]
    rfl
  rw [next, ← written]
  exact there

theorem ids_again (k : Key) : (idsIn again catalog after).find k = (idsIn pass catalog db).find k := by
  cases lands : landed pass catalog db k with
  | none =>
    have absent := (landed_again loaded listed k).trans lands
    rw [ids_absent lands, ids_absent absent]
  | some d =>
    have there : (landed pass catalog db k).isSome := by rw [lands]; rfl
    have there' : (landed again catalog after k).isSome := by
      rw [landed_again loaded listed]
      exact there
    obtain ⟨i, row, found, _⟩ := id_of_entry there
    obtain ⟨i', row', found', _⟩ := id_of_entry there'
    rw [rows_again loaded listed] at row'
    obtain ⟨i'', row'', id, _⟩ := row_after loaded row
    cases row'.symm.trans row''
    rw [found, found', id]

theorem landed_rows_of_again : landedRowsOf again catalog after = landedRowsOf pass catalog db := by
  have same : ∀ bi, rowOf (idsIn again catalog after) bi = rowOf (idsIn pass catalog db) bi := by
    intro bi
    rw [rowOf, rowOf, idOf, idOf, ids_again loaded listed]
  rw [landed_rows_of_entries, landed_rows_of_entries, entries_again loaded listed]
  exact List.map_congr_left fun bi _ => same bi

theorem legs_again (sound : Sound db) : legsIn again catalog after = after.instrumentDerivative := by
  refine derivativeRows.written_held fun v member => ?_
  obtain ⟨k, d, dv, i', u', lands, own, found, there, spot, rfl⟩ := mem_landed_legs.mp member
  rw [landed_again loaded listed] at lands
  rw [rows_again loaded listed] at found there
  obtain ⟨i, row, id, _⟩ := row_back loaded found
  obtain ⟨u, known, id', terms⟩ := row_back loaded
    (find_some.mpr ⟨there, rfl⟩ : after.instrument.find u'.key = some u')
  obtain ⟨member', key⟩ := find_some.mp known
  have leg : dv.leg u' = dv.leg u := by rw [DerivativeDef.leg, id']; rfl
  have spot' : isSpot dv.underlyingSymbol u = true := by
    have symbols : u.symbol = u'.symbol := (Prod.mk.inj key).1
    rw [isSpot, symbols, ← terms]
    exact spot
  rw [id, leg]
  obtain ⟨r, held, is⟩ := leg_written sound loaded.oneSpot
    (mem_landed_legs.mpr ⟨k, d, dv, i, u, lands, own, row, member', spot', rfl⟩)
  have dated : after.instrumentDerivative.find i.id =
      some (date o (master db (valid pass catalog db)).db r) := by
    rw [after_legs loaded, find_map_rows, held]
    rfl
  have next : derivativeRows.next after.instrumentDerivative (i.id, dv.leg u) =
      { date o (master db (valid pass catalog db)).db r with toLeg := dv.leg u } := by
    have there : after.instrumentDerivative.find (derivativeRows.target (i.id, dv.leg u)) = _ := dated
    rw [Statement.next, there]
    rfl
  have kept : (date o (master db (valid pass catalog db)).db r).toLeg = dv.leg u :=
    date_leg.trans is
  rw [next, ← kept]
  exact dated

theorem enrich_again : ∃ n, enrichStage (enrichersOf o opts.noEnrich) (definitions catalog)
    (rowsIn again catalog after) = (.ok n, after.instrument) := by
  rw [rows_again loaded listed]
  refine enrich_stage_quiet ?_
  cases enrich : opts.noEnrich with
  | true => exact .inl rfl
  | false =>
    refine .inr fun d member => ?_
    obtain ⟨inside, spot, r', found, missing⟩ := mem_figi_less.mp member
    obtain ⟨r, row, _, keeps⟩ := restamped_back loaded.stamps found
    have before : r.figi = none := by
      cases figi : r.figi with
      | none => rfl
      | some f =>
        have now := keeps (by rw [figi]; rfl)
        rw [missing] at now
        cases now
    have asked : d ∈ figiLess (rowsIn pass catalog db) (definitions catalog) :=
      mem_figi_less.mpr ⟨inside, spot, r, row, before⟩
    have answers := loaded.answered.resolve_left (by rw [enrich]; exact Bool.false_ne_true)
    obtain ⟨answer, is⟩ := answers d asked
    cases answer with
    | none => exact is
    | some i =>
      obtain ⟨r'', now, figi⟩ := loaded.known enrich d asked i is
      cases found.symm.trans now
      rw [missing] at figi
      cases figi

theorem dates_again (sound : Sound db) {r : Derivative}
    (member : r ∈ after.instrumentDerivative.rows) :
    instants o (master after (valid again catalog after)).db r =
        instants o (master db (valid pass catalog db)).db r ∧
      readable o (master after (valid again catalog after)).db r =
        readable o (master db (valid pass catalog db)).db r := by
  rw [after_legs loaded] at member
  obtain ⟨r0, before, rfl⟩ := List.mem_map.mp member
  obtain ⟨i, there, id⟩ := leg_instrument sound before
  obtain ⟨i', found, id', _, key⟩ := row_after loaded (find_some.mpr ⟨there, rfl⟩ :
    (rowsIn pass catalog db).find i.key = some i)
  have now : i' ∈ (rowsIn again catalog after).rows := by
    rw [rows_again loaded listed]
    exact (find_some.mp found).1
  have calendars : after.calendar = db.calendar := by rw [loaded.is]; rfl
  have own : i.id = (date o (master db (valid pass catalog db)).db r0).instrumentId :=
    id.trans (date_instrument_id _ _ _).symm
  have venues : i'.venue = i.venue := (Prod.mk.inj key).2
  have first := (@rows_numbered pass catalog db sound).1
  have second := (@rows_numbered again catalog after (after_sound loaded sound)).1
  constructor
  · have one := @instants_of o (master db (valid pass catalog db)).db _ first i there own
    have two := @instants_of o (master after (valid again catalog after)).db _ second i' now
      (id'.trans own)
    rw [one, two, venues]
    exact congrArg (fun c => Option.elim _ [] (instantsAt o c i.venue)) calendars
  · have one := @readable_of o (master db (valid pass catalog db)).db _ first i there own
    have two := @readable_of o (master after (valid again catalog after)).db _ second i' now
      (id'.trans own)
    rw [one, two, venues]
    exact congrArg (fun c => Option.elim _ true (readableAt o c i.venue)) calendars

theorem readable_again (sound : Sound db) :
    Readable o (master after (valid again catalog after)).db := by
  intro r member
  have there : r ∈ after.instrumentDerivative.rows := by
    rw [← legs_again loaded listed sound]
    exact member
  rw [(dates_again loaded listed sound there).2]
  rw [after_legs loaded] at there
  obtain ⟨r0, before, rfl⟩ := List.mem_map.mp there
  rw [readable_date]
  exact loaded.readable r0 before

/-- What a second load leaves: the dates derived once more, and everything else. -/
theorem dated_again (sound : Sound db) : datedDb o after (valid again catalog after) =
    { after with
      instrumentDerivative := mapRows after.instrumentDerivative
        (date o (master after (valid again catalog after)).db) (date_instrument_id _ _)
      nextId := after.nextId + (valid again catalog after).length } := by
  have legs := legs_again loaded listed sound
  have rows := rows_again loaded listed
  have is : datedDb o after (valid again catalog after) =
      { after with
        instrument := rowsIn again catalog after
        instrumentDerivative := mapRows (legsIn again catalog after)
          (date o (master after (valid again catalog after)).db) (date_instrument_id _ _)
        nextId := after.nextId + (valid again catalog after).length } := rfl
  rw [is, legs, rows]

/-- The second load completes when the mappings can be written over themselves, and changes
    no row when the dates are settled. -/
theorem again_iff (some_ : catalog ≠ []) (sound : Sound db) :
    (∃ report after', loadUniverse o opts brokerCode again (fun _ => .ok catalog) after =
        (.ok report, after') ∧ SameRows after' after) ↔
      Clear brokerCode pass catalog db (entries pass catalog db) ∧
      ∀ r ∈ after.instrumentDerivative.rows,
        date o (master after (valid again catalog after)).db r = r := by
  have ok := @load_universe_ok o opts brokerCode again catalog after
  have fits := @fits_iff brokerCode pass catalog db sound (entries pass catalog db) fun _ is => is
  have mappings_twice : (mappingRows brokerCode).written
      (mappingsAfter brokerCode pass catalog db (entries pass catalog db))
      (landedRowsOf pass catalog db) =
      mappingsAfter brokerCode pass catalog db (entries pass catalog db) := by
    rw [landed_rows_of_entries]
    exact (mappingRows brokerCode).written_again (fun _ _ => rfl) _ _
  obtain ⟨n, quiet⟩ := enrich_again loaded listed
  have result : ∀ t, t = after.instrument →
      { datedDb o after (valid again catalog after) with
        instrument := t
        brokerInstrument := (mappingRows brokerCode).written after.brokerInstrument
          (landedRowsOf again catalog after) } =
      { after with
        instrumentDerivative := mapRows after.instrumentDerivative
          (date o (master after (valid again catalog after)).db) (date_instrument_id _ _)
        nextId := after.nextId + (valid again catalog after).length } := by
    rintro _ rfl
    have same := mappings_twice
    rw [← after_mappings loaded] at same
    rw [dated_again loaded listed sound, landed_rows_of_again loaded listed, same]
  constructor
  · rintro ⟨report, after', load, same⟩
    obtain ⟨_, _, _, _, fit, m, t, done, rfl⟩ :=
      (ok some_ (after_sound loaded sound)).mp ⟨report, load⟩
    cases quiet.symm.trans done
    rw [landed_rows_of_again loaded listed, after_mappings loaded] at fit
    refine ⟨(fits.mp fit).2, ?_⟩
    have derivatives : mapRows after.instrumentDerivative
        (date o (master after (valid again catalog after)).db) (date_instrument_id _ _) =
        after.instrumentDerivative :=
      congrArg Db.instrumentDerivative ((result _ rfl).symm.trans same)
    exact map_rows_same.mp derivatives
  · rintro ⟨clear, settled⟩
    have lawful : ∀ d ∈ valid again catalog after, d.terms.lawful = true := fun d member =>
      loaded.lawful d ((valid_again loaded listed).mp member)
    have single : OneSpot again catalog after := by
      rintro d member dv own
      have once := loaded.oneSpot d ((valid_again loaded listed).mp member) dv own
      rw [spots_le_one] at once ⊢
      have classes : ∀ k, ((rowsIn again catalog after).find k).map (·.instrumentClass) =
          ((rowsIn pass catalog db).find k).map (·.instrumentClass) := by
        intro k
        rw [rows_again loaded listed]
        cases row : (rowsIn pass catalog db).find k with
        | none => rw [loaded.stamps.1 k row]
        | some i =>
          obtain ⟨i', found, _, terms, _⟩ := row_after loaded row
          rw [found, Option.map_some, Option.map_some, terms]
      simpa only [classes] using once
    have distinct := (@listed_once_iff brokerCode pass catalog db sound).mpr loaded.batches
    have fit := fits.mpr ⟨loaded.limits, clear⟩
    rw [← after_mappings loaded, ← landed_rows_of_again loaded listed] at fit
    rw [← landed_rows_of_again loaded listed] at distinct
    obtain ⟨report, load⟩ := (ok some_ (after_sound loaded sound)).mpr
      ⟨lawful, single, readable_again loaded listed sound, distinct, fit, n, after.instrument,
        quiet, (result _ rfl).symm⟩
    refine ⟨report, _, load, ?_⟩
    rw [SameRows, map_rows_same.mpr settled]

theorem settled_iff (sound : Sound db) :
    (∀ r ∈ after.instrumentDerivative.rows,
      date o (master after (valid again catalog after)).db r = r) ↔
    ∀ k date, ExpiresOn pass catalog db k date →
      ∀ x ∈ instantsAt o db.calendar k.2 date, ∀ y ∈ instantsAt o db.calendar k.2 date, x = y := by
  have each : (∀ r ∈ after.instrumentDerivative.rows,
        date o (master after (valid again catalog after)).db r = r) ↔
      ∀ r ∈ (legsIn pass catalog db).rows,
        ∀ x ∈ instants o (master db (valid pass catalog db)).db r,
        ∀ y ∈ instants o (master db (valid pass catalog db)).db r, x = y := by
    simp only [← date_settles]
    have rows : after.instrumentDerivative.rows =
        (legsIn pass catalog db).rows.map (date o (master db (valid pass catalog db)).db) := by
      rw [after_legs loaded]
      rfl
    constructor
    · intro all r member
      have there : date o (master db (valid pass catalog db)).db r ∈
          after.instrumentDerivative.rows := by
        rw [rows]
        exact List.mem_map_of_mem member
      exact (date_congr (dates_again loaded listed sound there).1).symm.trans (all _ there)
    · intro all r there
      have member := there
      rw [rows] at member
      obtain ⟨r0, before, rfl⟩ := List.mem_map.mp member
      exact (date_congr (dates_again loaded listed sound there).1).trans (all r0 before)
  rw [each]
  refine Iff.trans ?_ (each_expiry sound loaded.oneSpot fun venue date =>
    ∀ x ∈ instantsAt o db.calendar venue date, ∀ y ∈ instantsAt o db.calendar venue date, x = y)
  refine forall₂_congr fun r there => ?_
  constructor
  · intro agree i member own on date_
    rw [instants_of (rows_numbered sound).1 member own, date_] at agree
    exact agree
  · intro agree
    obtain ⟨i, member, own⟩ := leg_instrument sound there
    rw [instants_of (rows_numbered sound).1 member own]
    cases date_ : r.expiryDate with
    | none => intro x absent; cases absent
    | some on => exact agree i member own on date_

end Again
end Twice

structure Database extends Db where
  sound : Sound toDb

/-- A load is exact when no batch of mappings has two entries of one listing, no underlying's
    symbol is a SPOT row's on two venues, and what is written breaks no constraint, the
    identification service answers and each venue's calendars agree. -/
theorem loads_exactly_iff (o : Outside) (opts : LoadOptions) (brokerCode : String) (pass : Pass)
    (catalog : List BrokerInstrument) (db : Database) :
    LoadsExactly o opts brokerCode pass catalog db.toDb ↔
      Loadable o opts brokerCode pass catalog db.toDb := by
  by_cases some_ : catalog = []
  · subst some_
    have nothing : ∀ k, landed pass [] db.toDb k = none := fun _ => rfl
    have unlisted : entries pass [] db.toDb = [] := rfl
    constructor
    · intro _
      exact
        { lawful := fun k d lands => by cases lands
          oneSpot := fun k d dv lands => by cases lands
          answered := .inr (by simp [definitions])
          listedOnce := by simp [unlisted, chunks, slices]
          limits := by simp [unlisted]
          clear := fun earlier bi later split => by simp [unlisted] at split
          clearAgain := fun earlier bi later split => by simp [unlisted] at split
          readable := fun absurd_ => (absurd_ rfl).elim
          oneInstant := fun absurd_ => (absurd_ rfl).elim }
    · intro _
      refine ⟨_, db.toDb, rfl, fun k lands => ?_, fun k d dv lands => ?_, fun _ _ => ⟨_, _, rfl, rfl⟩⟩
      · cases lands
      · cases lands
  · constructor
    · rintro ⟨report, after, load, _, _, twice⟩
      have loaded := loaded_of_load some_ db.sound load
      have listed : ∀ d ∈ definitions catalog, expired pass.today d = expired pass.today d :=
        fun _ _ => rfl
      obtain ⟨clear, settled⟩ := (again_iff loaded listed some_ db.sound).mp (twice pass listed)
      exact
        { lawful := lawful_iff.mp loaded.lawful
          oneSpot := one_spot_iff.mp loaded.oneSpot
          answered := answered_iff.mp loaded.answered
          listedOnce := loaded.batches
          limits := loaded.limits
          clear := loaded.clear
          clearAgain := clear
          readable := fun _ => (readable_iff db.sound loaded.oneSpot).mp loaded.readable
          oneInstant := fun _ => (settled_iff loaded listed db.sound).mp settled }
    · intro loadable
      have single := one_spot_iff.mpr loadable.oneSpot
      obtain ⟨report, after, load⟩ := (completes_iff some_ db.sound).mpr
        ⟨lawful_iff.mpr loadable.lawful, single,
          (readable_iff db.sound single).mpr (loadable.readable some_),
          answered_iff.mpr loadable.answered, loadable.listedOnce, loadable.limits, loadable.clear⟩
      have loaded := loaded_of_load some_ db.sound load
      refine ⟨report, after, load, mapped_once loaded db.sound, derived_once loaded db.sound,
        fun again listed => ?_⟩
      exact (again_iff loaded listed some_ db.sound).mpr
        ⟨loadable.clearAgain, (settled_iff loaded listed db.sound).mpr (loadable.oneInstant some_)⟩

section Example

def knowsNothing : Outside := ⟨fun _ _ => .ok none, fun day time _ => some (day + time)⟩

def anyPass : Pass := ⟨0, id, fun _ => .refl _⟩

def emptyDb : Database where
  venue := ["XNAS", "XNYS"]
  currency := ["USD"]
  calendar := []
  instrument := .empty
  instrumentDerivative := .empty
  brokerInstrument := .empty
  nextId := 1
  sound :=
    { ids := fun _ member => by cases member
      below := fun _ member => by cases member
      legs := fun _ member => by cases member
      mappings := fun _ member => by cases member }

def listing (symbol venue : String) (underlying : Option String) : BrokerInstrument where
  definition :=
    { symbol, venue
      currency := "USD"
      assetClass := "EQUITY"
      instrumentClass := if underlying.isSome then "OPTION" else "SPOT"
      name := none
      pricePrecision := 0
      priceIncrement := 1
      sizeIncrement := 1
      lotSize := none
      contractSize := 1
      nativeId := none
      derivative := underlying.map fun symbol => ⟨symbol, some .call, some 200, some 30, none⟩
      identifiers := ⟨none, none, none, none⟩ }
  brokerSymbol := symbol
  brokerExchange := none
  isTradeable := true
  minQuantity := none
  maxQuantity := none
  minNotional := none
  maxNotional := none

/-- One stock listed twice, and an option on a symbol listed on two venues. -/
theorem repeated_and_shared_not_exact :
    ¬ LoadsExactly knowsNothing ⟨true, []⟩ "ALPACA" anyPass
        [listing "AAPL" "XNAS" none, listing "AAPL" "XNAS" none] emptyDb.toDb ∧
    ¬ LoadsExactly knowsNothing ⟨true, []⟩ "ALPACA" anyPass
        [listing "AAPL" "XNAS" none, listing "AAPL" "XNYS" none,
          listing "AAPL250117C" "XNAS" (some "AAPL")] emptyDb.toDb := by
  constructor
  · rintro ⟨report, after, load, _⟩
    have loaded := loaded_of_load (by simp) emptyDb.sound load
    have both := loaded.batches [listing "AAPL" "XNAS" none, listing "AAPL" "XNAS" none]
      (by decide)
    exact absurd both (by decide)
  · rintro ⟨report, after, load, _⟩
    have loaded := loaded_of_load (by simp) emptyDb.sound load
    have venues := one_spot_iff.mp loaded.oneSpot ("AAPL250117C", "XNAS")
      (listing "AAPL250117C" "XNAS" (some "AAPL")).definition
      ⟨"AAPL", some .call, some 200, some 30, none⟩ (by decide) rfl "XNAS" "XNYS"
      (by decide) (by decide)
    exact absurd venues (by decide)

end Example
end OmsUniverse
