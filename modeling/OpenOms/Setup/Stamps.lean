import OpenOms.Library.Lists
import OpenOms.Setup.Master

/-!
What comes after the master transaction: the enrichers fill the identifiers a row has
not got, and a contract's expiry instant follows its venue's calendars.
-/
namespace OmsCatalog
open Keyed Upsert

def Instrument.stampless (r : Instrument) : Instrument :=
  { r with figi := none, cusip := none, isin := none }

theorem stampless_same {r r' : Instrument} (same : r'.stampless = r.stampless) :
    r'.id = r.id ∧ r'.toTerms = r.toTerms ∧ r'.key = r.key := by
  have ids := congrArg Instrument.id same
  have terms := congrArg Instrument.toTerms same
  have keys := congrArg Instrument.key same
  exact ⟨ids, terms, keys⟩

def Restamped (t t' : Instruments) : Prop :=
  (∀ k, t.find k = none → t'.find k = none) ∧
  ∀ k r, t.find k = some r → ∃ r', t'.find k = some r' ∧ r'.stampless = r.stampless ∧
    (r.figi.isSome → r'.figi.isSome)

theorem restamped_refl (t : Instruments) : Restamped t t :=
  ⟨fun _ is => is, fun _ r found => ⟨r, found, rfl, fun is => is⟩⟩

theorem restamped_trans {a b c : Instruments} (one : Restamped a b) (two : Restamped b c) :
    Restamped a c := by
  refine ⟨fun k absent => two.1 k (one.1 k absent), fun k r found => ?_⟩
  obtain ⟨r', found', same, figi⟩ := one.2 k r found
  obtain ⟨r'', found'', same', figi'⟩ := two.2 k r' found'
  exact ⟨r'', found'', same'.trans same, fun is => figi' (figi is)⟩

theorem restamped_back {t t' : Instruments} (stamps : Restamped t t') {k : Key} {r' : Instrument}
    (found : t'.find k = some r') : ∃ r, t.find k = some r ∧ r'.stampless = r.stampless ∧
      (r.figi.isSome → r'.figi.isSome) := by
  cases before : t.find k with
  | none =>
    rw [stamps.1 k before] at found
    cases found
  | some r =>
    obtain ⟨_, there, same⟩ := stamps.2 k r before
    cases found.symm.trans there
    exact ⟨r, rfl, same⟩

theorem find_persist (d : InstrumentDef) (t : Instruments) (k : Key) :
    (persistIdentifiers d t).find k =
      if k = d.key then (t.find k).map (Instrument.filled d.identifiers) else t.find k := by
  rw [persistIdentifiers, find_update]
  split
  · rename_i same
    rw [same]
  · rfl

theorem persist_restamps (d : InstrumentDef) (t : Instruments) :
    Restamped t (persistIdentifiers d t) := by
  constructor
  · intro k absent
    rw [find_persist, absent]
    simp
  · intro k r found
    rw [find_persist, found]
    split
    · refine ⟨_, rfl, rfl, fun is => ?_⟩
      simp [Instrument.filled, Option.isSome_or, is]
    · exact ⟨r, rfl, rfl, fun is => is⟩

theorem persist_stamps {d : InstrumentDef} {t : Instruments} {r : Instrument}
    (found : t.find d.key = some r) (resolved : d.identifiers.figi.isSome) :
    ∃ r', (persistIdentifiers d t).find d.key = some r' ∧ r'.figi.isSome := by
  rw [find_persist, if_pos rfl, found]
  refine ⟨_, rfl, ?_⟩
  simp [Instrument.filled, Option.isSome_or, resolved]

theorem persist_resolved_all {working : List InstrumentDef} {resolved : List Key}
    (known : ∀ k ∈ resolved, ∃ d, working.find? (·.key = k) = some d ∧ d.identifiers.figi.isSome)
    (at_ : Instruments × Nat) :
    Restamped at_.1 (resolved.foldl (persistResolved working) at_).1 ∧
    ∀ k ∈ resolved, ∀ r, at_.1.find k = some r →
      ∃ r', (resolved.foldl (persistResolved working) at_).1.find k = some r' ∧ r'.figi.isSome := by
  induction resolved generalizing at_ with
  | nil => exact ⟨restamped_refl _, nofun⟩
  | cons k resolved ih =>
    obtain ⟨⟨d, first, figi⟩, rest⟩ := List.forall_mem_cons.mp known
    have own : d.key = k := by simpa using List.find?_some first
    have step : persistResolved working at_ k = (persistIdentifiers d at_.1, at_.2 + 1) := by
      rw [persistResolved, first]
    obtain ⟨stamps, later⟩ := ih rest (persistIdentifiers d at_.1, at_.2 + 1)
    have now := persist_restamps d at_.1
    rw [List.foldl_cons, step]
    refine ⟨restamped_trans now stamps, fun k' member r found => ?_⟩
    rcases List.mem_cons.mp member with rfl | there
    · cases own
      obtain ⟨r', found', stamped⟩ := persist_stamps found figi
      obtain ⟨r'', found'', _, keeps⟩ := stamps.2 _ r' found'
      exact ⟨r'', found'', keeps stamped⟩
    · obtain ⟨r', found', _⟩ := now.2 k' r found
      exact later k' there r' found'

section OpenFigi
variable {o : Outside}

def Answers (o : Outside) (d : InstrumentDef) : Prop := ∃ answer, d.identity o = .ok answer

theorem resolve_ok {d : InstrumentDef} (spot : d.instrumentClass = "SPOT")
    {out : InstrumentDef × Bool} :
    resolve o d = .ok out ↔
      d.identity o = .ok none ∧ out = (d, false) ∨
      ∃ i, d.identity o = .ok (some i) ∧ out = (d.stamped i, true) := by
  unfold resolve
  rw [if_pos spot]
  cases answer : d.identity o with
  | error message =>
    constructor
    · intro is
      cases is
    · rintro (⟨is, _⟩ | ⟨_, is, _⟩) <;> cases is
  | ok identity =>
    cases identity with
    | none =>
      constructor
      · intro is
        cases is
        exact .inl ⟨rfl, rfl⟩
      · rintro (⟨_, rfl⟩ | ⟨_, is, _⟩)
        · rfl
        · cases is
    | some i =>
      constructor
      · intro is
        cases is
        exact .inr ⟨i, rfl, rfl⟩
      · rintro (⟨is, _⟩ | ⟨_, is, rfl⟩)
        · cases is
        · cases is
          rfl

theorem resolve_key {d : InstrumentDef} {out : InstrumentDef × Bool}
    (spot : d.instrumentClass = "SPOT") (done : resolve o d = .ok out) : out.1.key = d.key := by
  rcases (resolve_ok spot).mp done with ⟨_, rfl⟩ | ⟨_, _, rfl⟩ <;> rfl

theorem resolve_all {working : List InstrumentDef}
    (spots : ∀ d ∈ working, d.instrumentClass = "SPOT") :
    (∃ done, working.mapM (resolve o) = .ok done) ↔ ∀ d ∈ working, Answers o d := by
  constructor
  · rintro ⟨done, all⟩ d member
    obtain ⟨i, at_⟩ := List.mem_iff_getElem?.mp member
    obtain ⟨out, _, one⟩ := Lists.paired_partner (Lists.map_m_ok.mp all) at_
    rcases (resolve_ok (spots d member)).mp one with ⟨answer, _⟩ | ⟨_, answer, _⟩
    · exact ⟨_, answer⟩
    · exact ⟨_, answer⟩
  · intro answers
    induction working with
    | nil => exact ⟨[], rfl⟩
    | cons d working ih =>
      obtain ⟨spot, others⟩ := List.forall_mem_cons.mp spots
      obtain ⟨⟨answer, here⟩, rest⟩ := List.forall_mem_cons.mp answers
      obtain ⟨done, all⟩ := ih others rest
      have one : ∃ out, resolve o d = .ok out := by
        cases answer with
        | none => exact ⟨_, (resolve_ok spot).mpr (.inl ⟨here, rfl⟩)⟩
        | some i => exact ⟨_, (resolve_ok spot).mpr (.inr ⟨i, here, rfl⟩)⟩
      obtain ⟨out, is⟩ := one
      exact ⟨out :: done, Lists.map_m_ok.mpr (.cons is (Lists.map_m_ok.mp all))⟩

theorem reported_stamped {working : List InstrumentDef}
    (spots : ∀ d ∈ working, d.instrumentClass = "SPOT") {done : List (InstrumentDef × Bool)}
    (all : working.mapM (resolve o) = .ok done) :
    ∀ k ∈ (done.filter Prod.snd).map (fun p => p.1.key),
      ∃ d, (done.map Prod.fst).find? (·.key = k) = some d ∧ d.identifiers.figi.isSome := by
  intro k member
  obtain ⟨⟨d, stamped⟩, reported, rfl⟩ := List.mem_map.mp member
  obtain ⟨there, yes⟩ := List.mem_filter.mp reported
  have pairs := Lists.map_m_ok.mp all
  have source : ∀ p ∈ done, ∃ w ∈ working, resolve o w = .ok p := by
    intro p inside
    obtain ⟨i, at_⟩ := List.mem_iff_getElem?.mp inside
    obtain ⟨w, left, one⟩ := Lists.paired_partner pairs.flip at_
    exact ⟨w, List.mem_of_getElem? left, one⟩
  have some_ : ((done.map Prod.fst).find? (·.key = d.key)).isSome := by
    rw [List.find?_isSome]
    exact ⟨d, List.mem_map.mpr ⟨_, there, rfl⟩, by simp⟩
  obtain ⟨first, found⟩ := Option.isSome_iff_exists.mp some_
  have own : first.key = d.key := by simpa using List.find?_some found
  obtain ⟨⟨_, flag⟩, inside, rfl⟩ := List.mem_map.mp (List.mem_of_find?_eq_some found)
  obtain ⟨w, wanted, one⟩ := source _ inside
  obtain ⟨w', wanted', other⟩ := source _ there
  have same : w.identity o = w'.identity o := by
    have keys : w.key = w'.key :=
      (resolve_key (spots w wanted) one).symm.trans
        (own.trans (resolve_key (spots w' wanted') other))
    obtain ⟨symbols, venues⟩ := Prod.mk.inj keys
    rw [InstrumentDef.identity, InstrumentDef.identity, symbols, venues]
  cases yes
  rcases (resolve_ok (spots w' wanted')).mp other with ⟨_, is⟩ | ⟨i, known, _⟩
  · cases is
  · rcases (resolve_ok (spots w wanted)).mp one with ⟨unknown, _⟩ | ⟨_, _, is⟩
    · cases unknown.symm.trans (same.trans known)
    · cases is
      exact ⟨_, found, rfl⟩

theorem reported_of_resolved {working : List InstrumentDef}
    (spots : ∀ d ∈ working, d.instrumentClass = "SPOT") {done : List (InstrumentDef × Bool)}
    (all : working.mapM (resolve o) = .ok done) {d : InstrumentDef} (member : d ∈ working)
    {i : InstrumentIdentity} (known : d.identity o = .ok (some i)) :
    d.key ∈ (done.filter Prod.snd).map (fun p => p.1.key) := by
  obtain ⟨n, at_⟩ := List.mem_iff_getElem?.mp member
  obtain ⟨out, right, one⟩ := Lists.paired_partner (Lists.map_m_ok.mp all) at_
  rcases (resolve_ok (spots d member)).mp one with ⟨unknown, _⟩ | ⟨i', _, rfl⟩
  · cases unknown.symm.trans known
  · exact List.mem_map.mpr
      ⟨_, List.mem_filter.mpr ⟨List.mem_of_getElem? right, rfl⟩, rfl⟩

theorem figi_less_spot {t : Instruments} {defs : List InstrumentDef} :
    ∀ d ∈ figiLess t defs, d.instrumentClass = "SPOT" := by
  intro d member
  have both := (List.mem_filter.mp member).2
  rw [Bool.and_eq_true] at both
  simpa using both.1

theorem mem_figi_less {t : Instruments} {defs : List InstrumentDef} {d : InstrumentDef} :
    d ∈ figiLess t defs ↔ d ∈ defs ∧ d.instrumentClass = "SPOT" ∧
      ∃ r, t.find d.key = some r ∧ r.figi = none := by
  simp [figiLess, Option.any_eq_true]

def enrichersOf (o : Outside) (noEnrich : Bool) : List Enricher :=
  if noEnrich then [] else [openFigiEnricher o]

def enrichStage (enrichers : List Enricher) (defs : List InstrumentDef) (t : Instruments) :
    Except String Nat × Instruments :=
  if enrichers.isEmpty then (.ok 0, t) else runEnrichers enrichers defs t

/-- The stage goes through when there is no enricher or the service answers for every SPOT
    definition without a FIGI, and whom the service knows then has one. -/
theorem enrich_stage_ok {noEnrich : Bool} {defs : List InstrumentDef} {t t' : Instruments} :
    (∃ n, enrichStage (enrichersOf o noEnrich) defs t = (.ok n, t')) →
      (noEnrich = true ∨ ∀ d ∈ figiLess t defs, Answers o d) ∧ Restamped t t' ∧
      (noEnrich = false → ∀ d ∈ figiLess t defs, ∀ i, d.identity o = .ok (some i) →
        ∃ r, t'.find d.key = some r ∧ r.figi.isSome) := by
  rintro ⟨n, done⟩
  cases noEnrich with
  | true =>
    cases done
    exact ⟨.inl rfl, restamped_refl _, nofun⟩
  | false =>
    have spots : ∀ d ∈ figiLess t defs, d.instrumentClass = "SPOT" := figi_less_spot
    simp only [enrichStage, enrichersOf, Bool.false_eq_true, if_false, List.isEmpty_cons,
      runEnrichers] at done
    split at done
    · rename_i nothing
      cases done
      rw [List.isEmpty_iff.mp nothing]
      exact ⟨.inr (by simp), restamped_refl _, by simp⟩
    · simp only [enrichAll, openFigiEnricher] at done
      cases all : (figiLess t defs).mapM (resolve o) with
      | error message =>
        rw [all] at done
        cases done
      | ok out =>
        rw [all] at done
        cases done
        obtain ⟨stamps, stamped⟩ := persist_resolved_all (reported_stamped spots all) (t, 0)
        refine ⟨.inr ((resolve_all spots).mp ⟨out, all⟩), stamps, fun _ d member i known => ?_⟩
        obtain ⟨_, _, r, found, _⟩ := mem_figi_less.mp member
        exact stamped _ (reported_of_resolved spots all member known) r found

theorem enrich_stage_answered {noEnrich : Bool} {defs : List InstrumentDef} {t : Instruments}
    (answered : noEnrich = true ∨ ∀ d ∈ figiLess t defs, Answers o d) :
    ∃ n t', enrichStage (enrichersOf o noEnrich) defs t = (.ok n, t') := by
  cases noEnrich with
  | true => exact ⟨_, _, rfl⟩
  | false =>
    obtain ⟨out, all⟩ := (resolve_all figi_less_spot).mpr (answered.resolve_left nofun)
    simp only [enrichStage, enrichersOf, Bool.false_eq_true, if_false, List.isEmpty_cons,
      runEnrichers, enrichAll, openFigiEnricher, all]
    split
    · exact ⟨_, _, rfl⟩
    · exact ⟨_, _, rfl⟩

theorem enrich_stage_quiet {noEnrich : Bool} {defs : List InstrumentDef} {t : Instruments}
    (unknown : noEnrich = true ∨ ∀ d ∈ figiLess t defs, d.identity o = .ok none) :
    ∃ n, enrichStage (enrichersOf o noEnrich) defs t = (.ok n, t) := by
  cases noEnrich with
  | true => exact ⟨_, rfl⟩
  | false =>
    have none_known := unknown.resolve_left nofun
    have all : (figiLess t defs).mapM (resolve o) =
        .ok ((figiLess t defs).map fun d => (d, false)) := by
      refine Lists.map_m_ok.mpr (List.forall₂_map_right_iff.mpr (List.forall₂_same.mpr ?_))
      intro d member
      exact (resolve_ok (figi_less_spot d member)).mpr (.inl ⟨none_known d member, rfl⟩)
    have none_reported : ((figiLess t defs).map fun d => (d, false)).filter Prod.snd = [] := by
      simp [List.filter_eq_nil_iff]
    simp only [enrichStage, enrichersOf, Bool.false_eq_true, if_false, List.isEmpty_cons,
      runEnrichers, enrichAll, openFigiEnricher, all]
    split
    · exact ⟨_, rfl⟩
    · refine ⟨0, ?_⟩
      simp only [Except.bind, bind, pure, Except.pure, none_reported, List.map_nil, List.foldl_nil]

end OpenFigi

section Dates
variable {o : Outside} {db : Db} {d : Derivative}

theorem find_instrument
    (ids : ∀ r ∈ db.instrument.rows, ∀ r' ∈ db.instrument.rows, r.id = r'.id → r = r')
    {i : Instrument} (there : i ∈ db.instrument.rows) (own : i.id = d.instrumentId) :
    db.instrument.rows.find? (·.id = d.instrumentId) = some i := by
  cases search : db.instrument.rows.find? (·.id = d.instrumentId) with
  | none =>
    have absent := List.find?_eq_none.mp search i there
    simp [own] at absent
  | some i' =>
    have same : i'.id = d.instrumentId := by simpa using List.find?_some search
    rw [ids i' (List.mem_of_find?_eq_some search) i there (same.trans own.symm)]

theorem instants_of (ids : ∀ r ∈ db.instrument.rows, ∀ r' ∈ db.instrument.rows, r.id = r'.id → r = r')
    {i : Instrument} (there : i ∈ db.instrument.rows) (own : i.id = d.instrumentId) :
    instants o db d = d.expiryDate.elim [] (instantsAt o db.calendar i.venue) := by
  rw [instants, find_instrument ids there own]
  cases d.expiryDate <;> rfl

theorem date_expiry_date : (date o db d).expiryDate = d.expiryDate := by
  unfold date
  split <;> rfl

theorem date_leg : (date o db d).toLeg = d.toLeg := by
  unfold date
  split <;> rfl

theorem date_congr {db' : Db} (same : instants o db' d = instants o db d) :
    date o db' d = date o db d := by
  unfold date
  rw [same]

theorem instants_date : instants o db (date o db d) = instants o db d := by
  rw [instants, instants, date_instrument_id, date_expiry_date]

theorem readable_date : readable o db (date o db d) = readable o db d := by
  rw [readable, readable, date_instrument_id, date_expiry_date]

theorem date_same : date o db d = d ↔ ∀ x ∈ instants o db d, some x = d.expiresAt := by
  unfold date
  split
  · rename_i agreed
    have none_left := List.filter_eq_nil_iff.mp agreed
    simpa using none_left
  · rename_i x rest differing
    have member : x ∈ (instants o db d).filter (some · ≠ d.expiresAt) := by
      rw [differing]
      exact List.mem_cons_self
    obtain ⟨there, away⟩ := List.mem_filter.mp member
    constructor
    · intro same
      have moved := congrArg Derivative.expiresAt same
      exact absurd moved (by simpa using away)
    · intro agreed
      exact absurd (agreed x there) (by simpa using away)

theorem readable_of (ids : ∀ r ∈ db.instrument.rows, ∀ r' ∈ db.instrument.rows, r.id = r'.id → r = r')
    {i : Instrument} (there : i ∈ db.instrument.rows) (own : i.id = d.instrumentId) :
    readable o db d = d.expiryDate.elim true (readableAt o db.calendar i.venue) := by
  rw [readable, find_instrument ids there own]
  cases d.expiryDate <;> rfl

theorem date_settles : date o db (date o db d) = date o db d ↔
    ∀ x ∈ instants o db d, ∀ y ∈ instants o db d, x = y := by
  rw [date_same, instants_date]
  constructor
  · intro agreed x here y there
    exact Option.some.inj ((agreed x here).trans (agreed y there).symm)
  · intro agree y there
    unfold date
    split
    · rename_i settled
      have none_left := List.filter_eq_nil_iff.mp settled y there
      simpa using none_left
    · rename_i x rest differing
      have member : x ∈ (instants o db d).filter (some · ≠ d.expiresAt) := by
        rw [differing]
        exact List.mem_cons_self
      exact congrArg some (agree y there x (List.mem_of_mem_filter member))

end Dates
theorem spots_le_one {t : Instruments} {symbol : String} :
    (t.rows.filter (isSpot symbol)).length ≤ 1 ↔ ∀ venue venue',
      (t.find (symbol, venue)).map (·.instrumentClass) = some "SPOT" →
      (t.find (symbol, venue')).map (·.instrumentClass) = some "SPOT" → venue = venue' := by
  have spot_row : ∀ {venue}, (t.find (symbol, venue)).map (·.instrumentClass) = some "SPOT" ↔
      ∃ r ∈ t.rows, isSpot symbol r = true ∧ r.venue = venue := by
    intro venue
    rw [Option.map_eq_some_iff]
    constructor
    · rintro ⟨r, found, cls⟩
      obtain ⟨there, own⟩ := find_some.mp found
      obtain ⟨same, at_⟩ := Prod.mk.inj own
      exact ⟨r, there, by simp [isSpot, same, cls], at_⟩
    · rintro ⟨r, there, spot, rfl⟩
      obtain ⟨same, cls⟩ : r.symbol = symbol ∧ r.instrumentClass = "SPOT" := by
        simpa [isSpot] using spot
      exact ⟨r, find_some.mpr ⟨there, by rw [← same]; rfl⟩, cls⟩
  rw [filter_length_le_one]
  constructor
  · intro single venue venue' one other
    obtain ⟨r, here, spot, rfl⟩ := spot_row.mp one
    obtain ⟨r', there, spot', rfl⟩ := spot_row.mp other
    exact (Prod.mk.inj (single r here r' there spot spot')).2
  · intro single r here r' there spot spot'
    have venues := single r.venue r'.venue (spot_row.mpr ⟨r, here, spot, rfl⟩)
      (spot_row.mpr ⟨r', there, spot', rfl⟩)
    have symbols : r.symbol = symbol ∧ r'.symbol = symbol := by
      simp [isSpot] at spot spot'
      exact ⟨spot.1, spot'.1⟩
    exact Prod.ext (symbols.1.trans symbols.2.symm) venues

/-- Every contract's expiry can be read off its venue's calendars. -/
def Readable (o : Outside) (db : Db) : Prop :=
  ∀ d ∈ db.instrumentDerivative.rows, readable o db d = true

def datedDb (o : Outside) (db : Db) (valid : List InstrumentDef) : Db :=
  redated o (master db valid).db

theorem after_master_ok {o : Outside} {enrichers : List Enricher} {defs : List InstrumentDef}
    {summary : CatalogSummary} {m : Master} {ids : Ids} {after : Db} :
    (∃ summary', afterMaster o enrichers defs summary m = (.ok (summary', ids), after)) ↔
      Readable o m.db ∧ ids = m.ids ∧
      ∃ n t, enrichStage enrichers defs m.db.instrument = (.ok n, t) ∧
        after = { redated o m.db with instrument := t } := by
  by_cases readable_ : m.db.instrumentDerivative.rows.all (readable o m.db) = true
  swap
  · have unread : ¬ Readable o m.db := fun all => readable_ (List.all_eq_true.mpr all)
    rw [afterMaster, recomputeExpiresAt, if_neg readable_]
    constructor
    · rintro ⟨_, is⟩
      cases is
    · intro all
      exact absurd all.1 unread
  have all : Readable o m.db := List.all_eq_true.mp readable_
  have same_rows : (redated o m.db).instrument = m.db.instrument := rfl
  unfold afterMaster enrichStage
  simp only [recomputeExpiresAt, readable_, if_true, same_rows, all, true_and]
  split
  · constructor
    · rintro ⟨_, is⟩
      cases is
      exact ⟨rfl, 0, _, rfl, rfl⟩
    · rintro ⟨rfl, n, t, is, rfl⟩
      cases is
      exact ⟨_, rfl⟩
  · split
    · rename_i failed
      constructor
      · rintro ⟨_, is⟩
        cases is
      · rintro ⟨_, n, t, is, _⟩
        cases failed.symm.trans is
    · rename_i n t done
      constructor
      · rintro ⟨_, is⟩
        cases is
        exact ⟨rfl, n, t, done, rfl⟩
      · rintro ⟨rfl, n', t', is, rfl⟩
        cases done.symm.trans is
        exact ⟨_, rfl⟩

section Staged
variable {o : Outside} {pass : Pass} {enrichers : List Enricher} {defs : List InstrumentDef}
  {db : Db}

theorem upsert_catalog_failed (some_ : defs.isEmpty = false)
    (failed : upsertMaster db (kept db pass defs) = none) :
    upsertCatalog o pass enrichers defs db = (.error .database, db) := by
  unfold kept at failed
  simp only [upsertCatalog, some_, Bool.false_eq_true, if_false, failed]

theorem upsert_catalog_committed (some_ : defs.isEmpty = false) {m : Master}
    (committed : upsertMaster db (kept db pass defs) = some m) :
    upsertCatalog o pass enrichers defs db = afterMaster o enrichers defs
      (defs.foldl (sift db pass.today) ⟨.none, .empty⟩).summary m := by
  unfold kept at committed
  simp only [upsertCatalog, some_, Bool.false_eq_true, if_false, committed]

theorem upsert_catalog_ok {after : Db} {ids : Ids} (some_ : defs ≠ []) (sound : Sound db) :
    (∃ summary, upsertCatalog o pass enrichers defs db = (.ok (summary, ids), after)) ↔
      (∀ d ∈ kept db pass defs, d.terms.lawful = true) ∧
      (∀ d ∈ kept db pass defs, ∀ dv, d.derivative = some dv →
        ((landedRows db (kept db pass defs)).rows.filter (isSpot dv.underlyingSymbol)).length ≤ 1) ∧
      Readable o (master db (kept db pass defs)).db ∧
      ids = landedIds db (kept db pass defs) ∧
      ∃ n t, enrichStage enrichers defs (landedRows db (kept db pass defs)) = (.ok n, t) ∧
        after = { datedDb o db (kept db pass defs) with instrument := t } := by
  have ran := @upsert_master_some db (kept db pass defs) sound (kept_distinct db pass defs)
  have not_empty : defs.isEmpty = false := by simpa using some_
  cases went : upsertMaster db (kept db pass defs) with
  | none =>
    rw [upsert_catalog_failed not_empty went]
    constructor
    · rintro ⟨_, is⟩
      cases is
    · rintro ⟨lawful, single, _⟩
      cases went.symm.trans (ran.mpr ⟨lawful, single, rfl⟩)
  | some m =>
    obtain ⟨lawful, single, rfl⟩ := ran.mp went
    rw [upsert_catalog_committed not_empty went, after_master_ok]
    exact ⟨fun both => ⟨lawful, single, both⟩, fun all => all.2.2⟩

end Staged
end OmsCatalog
