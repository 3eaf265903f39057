import OpenOms.Setup.Catalog
import Mathlib.Data.List.Perm.Basic
import Mathlib.Data.List.Flatten

/-!
What the stages of the catalog upsert leave: which definition of a listing lands, the
rows and ids of the instruments, and their derivatives' rows.
-/
namespace OmsCatalog
open Keyed Upsert

theorem batch_some : 0 < BATCH := Nat.zero_lt_succ _

def lands (db : Db) (today : Int) (d : InstrumentDef) : Bool :=
  db.venue.contains d.venue && db.currency.contains d.currency && !expired today d

def landing (db : Db) (today : Int) (defs : List InstrumentDef) (k : Key) : Option InstrumentDef :=
  (defs.filter (lands db today)).reverse.find? (·.key = k)

theorem landing_key {db : Db} {today : Int} {defs : List InstrumentDef} {k : Key}
    {d : InstrumentDef} (found : landing db today defs k = some d) : d.key = k := by
  simpa using List.find?_some found

theorem landing_mem {db : Db} {today : Int} {defs : List InstrumentDef} {k : Key}
    {d : InstrumentDef} (found : landing db today defs k = some d) : d ∈ defs := by
  have member := List.mem_reverse.mp (List.mem_of_find?_eq_some found)
  exact List.mem_of_mem_filter member

theorem sift_dedup (db : Db) (today : Int) (defs : List InstrumentDef) (s : Sifted) :
    (defs.foldl (sift db today) s).dedup = (defs.filter (lands db today)).foldl place s.dedup := by
  induction defs generalizing s with
  | nil => rfl
  | cons d defs ih =>
    rw [List.foldl_cons, ih, List.filter_cons]
    unfold sift lands
    cases db.venue.contains d.venue <;> cases db.currency.contains d.currency <;>
      cases expired today d <;> simp

def kept (db : Db) (pass : Pass) (defs : List InstrumentDef) : List InstrumentDef :=
  spotsFirst (pass.intoValues (defs.foldl (sift db pass.today) ⟨.none, .empty⟩).dedup.rows)

theorem spots_first_perm (defs : List InstrumentDef) : (spotsFirst defs).Perm defs := by
  have split : defs.filter (·.derivative.isSome) = defs.filter fun d => !d.derivative.isNone := by
    simp
  rw [spotsFirst, split]
  exact List.filter_append_perm _ _

theorem kept_perm (db : Db) (pass : Pass) (defs : List InstrumentDef) :
    (kept db pass defs).Perm (defs.foldl (sift db pass.today) ⟨.none, .empty⟩).dedup.rows :=
  (spots_first_perm _).trans (pass.perm _)

theorem mem_kept {db : Db} {pass : Pass} {defs : List InstrumentDef} {d : InstrumentDef} :
    d ∈ kept db pass defs ↔ landing db pass.today defs d.key = some d := by
  have none_yet : (Table.empty : Table Key InstrumentDef InstrumentDef.key).find d.key = none := rfl
  have found := find_places (Table.empty : Table Key InstrumentDef InstrumentDef.key)
    (defs.filter (lands db pass.today)) d.key
  rw [none_yet, Option.or_none, ← sift_dedup db pass.today defs ⟨.none, .empty⟩] at found
  rw [(kept_perm db pass defs).mem_iff, landing, ← found, find_some]
  simp

theorem kept_distinct (db : Db) (pass : Pass) (defs : List InstrumentDef) :
    ((kept db pass defs).map InstrumentDef.key).Nodup :=
  ((kept_perm db pass defs).map _).nodup_iff.mpr (Table.distinct _)

theorem kept_of_landing {db : Db} {pass : Pass} {defs : List InstrumentDef} {k : Key}
    {d : InstrumentDef} (found : landing db pass.today defs k = some d) :
    d ∈ kept db pass defs := by
  rw [mem_kept, landing_key found, found]

section Instruments
variable {t : Instruments} {vs : List (InstrumentDef × Nat)}

theorem instruments_fit :
    instrumentRows.Fits t vs ↔ ∀ v ∈ vs, v.1.terms.lawful = true := by
  refine instrumentRows.fits_of_values (fun v => v.1.terms.lawful) ?_
  rintro _ (_ | old) v <;> rfl

theorem id_kept (vs : List (InstrumentDef × Nat)) {k : Key} {r : Instrument}
    (found : t.find k = some r) : ∃ r', (instrumentRows.written t vs).find k = some r' ∧ r'.id = r.id :=
  instrumentRows.written_keeps (fun _ _ => rfl) vs found

theorem instrument_found {v : InstrumentDef × Nat} (member : v ∈ vs) :
    ∃ r, (instrumentRows.written t vs).find v.1.key = some r :=
  Option.isSome_iff_exists.mp (instrumentRows.written_is_some t member)

theorem returning_length : (returning (instrumentRows.written t vs) vs).length = vs.length := by
  refine List.filterMap_length_eq_length.mpr fun v member => ?_
  obtain ⟨r, found⟩ := instrument_found (t := t) member
  simp [found]

theorem returning_stays (more : List (InstrumentDef × Nat)) :
    returning (instrumentRows.written (instrumentRows.written t vs) more) vs =
      returning (instrumentRows.written t vs) vs := by
  refine List.filterMap_congr fun v member => ?_
  obtain ⟨r, found⟩ := instrument_found (t := t) member
  obtain ⟨r', later, same⟩ := id_kept more found
  simp [found, later, same]

theorem bulk_upsert_instruments_some {out : Instruments × List (Key × Nat)} :
    bulkUpsertInstruments t vs = some out ↔
      (vs.map instrumentRows.target).Nodup ∧ (∀ v ∈ vs, v.1.terms.lawful = true) ∧
      out = (instrumentRows.written t vs, returning (instrumentRows.written t vs) vs) := by
  simp only [bulkUpsertInstruments, Option.bind_eq_bind, Option.bind_eq_some_iff,
    Statement.run_some, instruments_fit, Option.pure_def, Option.some.injEq]
  constructor
  · rintro ⟨_, ⟨distinct, lawful, rfl⟩, rfl⟩
    exact ⟨distinct, lawful, rfl⟩
  · rintro ⟨distinct, lawful, rfl⟩
    exact ⟨_, ⟨distinct, lawful, rfl⟩, rfl⟩

theorem upsert_instruments_step {upserted : Nat} {ids : Ids} {out : Instruments × Nat × Ids} :
    upsertInstruments (t, upserted, ids) vs = some out ↔
      (vs.map instrumentRows.target).Nodup ∧ (∀ v ∈ vs, v.1.terms.lawful = true) ∧
      out = (instrumentRows.written t vs, upserted + vs.length,
        (returning (instrumentRows.written t vs) vs).foldl place ids) := by
  simp only [upsertInstruments, Option.bind_eq_bind, Option.bind_eq_some_iff,
    bulk_upsert_instruments_some, Option.pure_def, Option.some.injEq]
  constructor
  · rintro ⟨_, ⟨distinct, lawful, rfl⟩, rfl⟩
    exact ⟨distinct, lawful, by rw [returning_length]⟩
  · rintro ⟨distinct, lawful, rfl⟩
    exact ⟨_, ⟨distinct, lawful, rfl⟩, by rw [returning_length]⟩

theorem upsert_instruments_some {batches : List (List (InstrumentDef × Nat))}
    {at_ out : Instruments × Nat × Ids} :
    batches.foldlM upsertInstruments at_ = some out ↔
      (∀ b ∈ batches, (b.map instrumentRows.target).Nodup) ∧
      (∀ v ∈ batches.flatten, v.1.terms.lawful = true) ∧
      out = (instrumentRows.written at_.1 batches.flatten, at_.2.1 + batches.flatten.length,
        (returning (instrumentRows.written at_.1 batches.flatten) batches.flatten).foldl place
          at_.2.2) := by
  induction batches generalizing at_ with
  | nil =>
    obtain ⟨t, upserted, ids⟩ := at_
    simp only [List.foldlM_nil, Option.pure_def, Option.some.injEq, List.flatten_nil,
      List.not_mem_nil, false_implies, implies_true, true_and, List.length_nil, Nat.add_zero]
    exact eq_comm
  | cons b batches ih =>
    obtain ⟨t, upserted, ids⟩ := at_
    rw [List.foldlM_cons, Option.bind_eq_bind, Option.bind_eq_some_iff]
    simp only [upsert_instruments_step, ih, List.flatten_cons, List.forall_mem_cons, List.forall_mem_append,
      Statement.written_append]
    have ids_then : (returning (instrumentRows.written (instrumentRows.written t b)
          batches.flatten) (b ++ batches.flatten)).foldl place ids =
        (returning (instrumentRows.written (instrumentRows.written t b) batches.flatten)
          batches.flatten).foldl place ((returning (instrumentRows.written t b) b).foldl place ids) := by
      rw [← returning_stays batches.flatten, returning, List.filterMap_append, List.foldl_append]
      rfl
    rw [ids_then, List.length_append, ← Nat.add_assoc]
    constructor
    · rintro ⟨_, ⟨distinct, lawful, rfl⟩, others, more, rfl⟩
      exact ⟨⟨distinct, others⟩, ⟨lawful, more⟩, rfl⟩
    · rintro ⟨⟨distinct, others⟩, ⟨lawful, more⟩, rfl⟩
      exact ⟨_, ⟨distinct, lawful, rfl⟩, others, more, rfl⟩

theorem find_returning {k : Key} {p : Key × Nat} :
    ((returning t vs).foldl place (.empty : Ids)).find k = some p ↔
      (∃ v ∈ vs, v.1.key = k) ∧ ∃ r, t.find k = some r ∧ p = (k, r.id) := by
  have last := find_places (.empty : Ids) (returning t vs) k
  have nothing : (.empty : Ids).find k = none := rfl
  rw [nothing, Option.or_none] at last
  have each : ∀ q, q ∈ returning t vs ↔
      ∃ v ∈ vs, ∃ r, t.find v.1.key = some r ∧ (v.1.key, r.id) = q := by
    intro q
    simp [returning]
  rw [last]
  constructor
  · intro found
    have member := (each p).mp (List.mem_reverse.mp (List.mem_of_find?_eq_some found))
    have own : p.1 = k := by simpa using List.find?_some found
    obtain ⟨v, there, r, row, rfl⟩ := member
    cases own
    exact ⟨⟨v, there, rfl⟩, r, row, rfl⟩
  · rintro ⟨⟨v, there, rfl⟩, r, row, rfl⟩
    have some_ : ((returning t vs).reverse.find? (Prod.fst · = v.1.key)).isSome := by
      rw [List.find?_isSome]
      exact ⟨(v.1.key, r.id), List.mem_reverse.mpr ((each _).mpr ⟨v, there, r, row, rfl⟩), by simp⟩
    obtain ⟨q, found⟩ := Option.isSome_iff_exists.mp some_
    obtain ⟨w, _, r', row', rfl⟩ := (each q).mp (List.mem_reverse.mp (List.mem_of_find?_eq_some found))
    have own : w.1.key = v.1.key := by simpa using List.find?_some found
    rw [own] at row'
    cases row.symm.trans row'
    rw [found, own]

end Instruments

section Derivatives
variable {t : Instruments} {ids : Ids}

theorem joined_append (chunk more : List InstrumentDef) :
    joined t (legs ids (chunk ++ more)) = joined t (legs ids chunk) ++ joined t (legs ids more) := by
  simp [joined, legs]

theorem joined_flatten (batches : List (List InstrumentDef)) :
    (batches.flatMap fun chunk => joined t (legs ids chunk)) =
      joined t (legs ids batches.flatten) := by
  induction batches with
  | nil => rfl
  | cons chunk batches ih => rw [List.flatMap_cons, List.flatten_cons, joined_append, ih]

theorem mem_joined {chunk : List InstrumentDef} {v : Nat × Leg} :
    v ∈ joined t (legs ids chunk) ↔
      ∃ d ∈ chunk, ∃ dv, d.derivative = some dv ∧ ∃ k id, ids.find d.key = some (k, id) ∧
        ∃ u ∈ t.rows, isSpot dv.underlyingSymbol u = true ∧ v = (id, dv.leg u) := by
  simp only [joined, legs, List.mem_flatMap, List.mem_filterMap, List.mem_map, List.mem_filter]
  constructor
  · rintro ⟨⟨id, dv⟩, ⟨d, member, values⟩, u, ⟨there, spot⟩, rfl⟩
    obtain ⟨⟨k, id'⟩, found, more⟩ := Option.bind_eq_some_iff.mp values
    obtain ⟨dv', own, same⟩ := Option.bind_eq_some_iff.mp more
    cases same
    exact ⟨d, member, _, own, k, _, found, u, there, spot, rfl⟩
  · rintro ⟨d, member, dv, own, k, id, found, u, there, spot, rfl⟩
    exact ⟨(id, dv), ⟨d, member, by simp [found, own]⟩, u, ⟨there, spot⟩, rfl⟩

theorem legs_fit {at_ : Derivatives} (chunk : List InstrumentDef) :
    derivativeRows.Fits at_ (joined t (legs ids chunk)) := by
  refine (derivativeRows.fits_of_values
    (fun v => v.2.underlyingId.isSome || v.2.underlyingSymbol.isSome)
    (by rintro _ (_ | old) v <;> rfl)).mpr fun v member => ?_
  obtain ⟨_, _, dv, _, _, _, _, u, _, _, rfl⟩ := mem_joined.mp member
  rfl

theorem bulk_upsert_derivatives_some {at_ out : Derivatives × Nat} {chunk : List InstrumentDef} :
    bulkUpsertDerivatives t ids at_ chunk = some out ↔
      ((joined t (legs ids chunk)).map derivativeRows.target).Nodup ∧
      out = (derivativeRows.written at_.1 (joined t (legs ids chunk)),
        at_.2 + (joined t (legs ids chunk)).length) := by
  unfold bulkUpsertDerivatives
  by_cases nothing : (legs ids chunk).isEmpty = true
  · have no_rows : joined t (legs ids chunk) = [] := by
      rw [List.isEmpty_iff.mp nothing]
      rfl
    rw [if_pos nothing, no_rows]
    simp only [List.map_nil, List.nodup_nil, true_and, List.length_nil, Nat.add_zero,
      Option.some.injEq]
    exact eq_comm
  · rw [if_neg nothing]
    simp only [Option.bind_eq_bind, Option.bind_eq_some_iff, Statement.run_some, legs_fit,
      Option.pure_def, Option.some.injEq, true_and]
    constructor
    · rintro ⟨_, ⟨distinct, rfl⟩, rfl⟩
      exact ⟨distinct, rfl⟩
    · rintro ⟨distinct, rfl⟩
      exact ⟨_, ⟨distinct, rfl⟩, rfl⟩

theorem bulk_upsert_derivatives_all {batches : List (List InstrumentDef)}
    {at_ out : Derivatives × Nat} :
    batches.foldlM (bulkUpsertDerivatives t ids) at_ = some out ↔
      (∀ chunk ∈ batches, ((joined t (legs ids chunk)).map derivativeRows.target).Nodup) ∧
      out = (derivativeRows.written at_.1 (joined t (legs ids batches.flatten)),
        at_.2 + (joined t (legs ids batches.flatten)).length) := by
  have one : ∀ at_ chunk out, bulkUpsertDerivatives t ids at_ chunk = some out ↔
      ((joined t (legs ids chunk)).map derivativeRows.target).Nodup ∧
      derivativeRows.Fits at_.1 (joined t (legs ids chunk)) ∧
      out = (derivativeRows.written at_.1 (joined t (legs ids chunk)),
        at_.2 + (joined t (legs ids chunk)).length) := by
    intro at_ chunk out
    simp only [bulk_upsert_derivatives_some, legs_fit, true_and]
  rw [derivativeRows.counted_some one, joined_flatten]
  simp only [legs_fit, true_and]

theorem joined_distinct {chunk : List InstrumentDef}
    (found : ∀ d ∈ chunk, ∃ p, ids.find d.key = some p)
    (apart : chunk.Pairwise fun d d' => ∀ p p', ids.find d.key = some p →
      ids.find d'.key = some p' → p.2 ≠ p'.2) :
    ((joined t (legs ids chunk)).map derivativeRows.target).Nodup ↔
      ∀ d ∈ chunk, ∀ dv, d.derivative = some dv →
        (t.rows.filter (isSpot dv.underlyingSymbol)).length ≤ 1 := by
  induction chunk with
  | nil => simp [joined, legs]
  | cons d chunk ih =>
    obtain ⟨⟨⟨k, id⟩, here⟩, rest⟩ := List.forall_mem_cons.mp found
    obtain ⟨away, others⟩ := List.pairwise_cons.mp apart
    rw [← List.singleton_append, joined_append, List.map_append, List.nodup_append', ih rest others,
      List.singleton_append, List.forall_mem_cons]
    have disjoint : ((joined t (legs ids [d])).map derivativeRows.target).Disjoint
        ((joined t (legs ids chunk)).map derivativeRows.target) := by
      intro i one other
      obtain ⟨v, there, rfl⟩ := List.mem_map.mp one
      obtain ⟨w, there', same⟩ := List.mem_map.mp other
      obtain ⟨_, only, _, _, k', id', found', _, _, _, rfl⟩ := mem_joined.mp there
      obtain ⟨d', member, _, _, k'', id'', found'', _, _, _, rfl⟩ := mem_joined.mp there'
      cases List.mem_singleton.mp only
      exact away d' member _ _ found' found'' same.symm
    have alone : ((joined t (legs ids [d])).map derivativeRows.target).Nodup ↔
        ∀ dv, d.derivative = some dv →
          (t.rows.filter (isSpot dv.underlyingSymbol)).length ≤ 1 := by
      cases own : d.derivative with
      | none => simp [joined, legs, here, own]
      | some dv =>
        have same_id : (joined t (legs ids [d])).map derivativeRows.target =
            List.replicate (t.rows.filter (isSpot dv.underlyingSymbol)).length id := by
          simp [joined, legs, here, own, derivativeRows, Function.comp_def, List.map_const']
        rw [same_id, List.nodup_replicate]
        simp
    rw [alone]
    exact ⟨fun both => ⟨both.1, both.2.1⟩, fun both => ⟨both.1, both.2, disjoint⟩⟩

end Derivatives

def Numbered (t : Instruments) (n : Nat) : Prop :=
  (∀ r ∈ t.rows, ∀ r' ∈ t.rows, r.id = r'.id → r = r') ∧ ∀ r ∈ t.rows, r.id < n

theorem numbered_put {t : Instruments} {n : Nat} (numbered : Numbered t n) (d : InstrumentDef) :
    Numbered (instrumentRows.put t (d, n)) (n + 1) := by
  obtain ⟨own, below⟩ := numbered
  have id_of_next : (∃ old ∈ t.rows, old.key = d.key ∧ (instrumentRows.next t (d, n)).id = old.id) ∨
      (instrumentRows.next t (d, n)).id = n := by
    unfold Statement.next
    cases found : t.find (instrumentRows.target (d, n)) with
    | some old =>
      obtain ⟨there, same⟩ := find_some.mp found
      exact .inl ⟨old, there, same, rfl⟩
    | none => exact .inr rfl
  have apart : ∀ r ∈ t.rows, r.key ≠ d.key → r.id ≠ (instrumentRows.next t (d, n)).id := by
    intro r there away same
    rcases id_of_next with ⟨old, held, key, is⟩ | is
    · rw [own r there old held (same.trans is)] at away
      exact away key
    · have under := below r there
      omega
  constructor
  · intro r member r' member' same
    rcases instrumentRows.mem_put.mp member with rfl | ⟨there, away⟩
    · rcases instrumentRows.mem_put.mp member' with rfl | ⟨there', away'⟩
      · rfl
      · exact absurd same.symm (apart r' there' away')
    · rcases instrumentRows.mem_put.mp member' with rfl | ⟨there', _⟩
      · exact absurd same (apart r there away)
      · exact own r there r' there' same
  · intro r member
    rcases instrumentRows.mem_put.mp member with rfl | ⟨there, _⟩
    · rcases id_of_next with ⟨old, held, _, is⟩ | is
      · have under := below old held
        omega
      · omega
    · have under := below r there
      omega

theorem numbered_written {t : Instruments} {n : Nat} (numbered : Numbered t n)
    (defs : List InstrumentDef) :
    Numbered (instrumentRows.written t (defs.zipIdx n)) (n + defs.length) := by
  induction defs generalizing t n with
  | nil => exact numbered
  | cons d defs ih =>
    have rest := ih (numbered_put numbered d)
    rw [List.zipIdx_cons, List.length_cons, Nat.add_comm defs.length, ← Nat.add_assoc]
    exact rest

def landedRows (db : Db) (valid : List InstrumentDef) : Instruments :=
  instrumentRows.written db.instrument (valid.zipIdx db.nextId)

def landedIds (db : Db) (valid : List InstrumentDef) : Ids :=
  (returning (landedRows db valid) (valid.zipIdx db.nextId)).foldl place .empty

def landedLegs (db : Db) (valid : List InstrumentDef) : List (Nat × Leg) :=
  joined (landedRows db valid)
    (legs (landedIds db valid) (valid.filter (·.derivative.isSome)))

def master (db : Db) (valid : List InstrumentDef) : Master where
  db := { db with
    instrument := landedRows db valid
    instrumentDerivative := derivativeRows.written db.instrumentDerivative (landedLegs db valid)
    nextId := db.nextId + valid.length }
  upserted := valid.length
  derivatives := (landedLegs db valid).length
  ids := landedIds db valid

section Landed
variable {db : Db} {valid : List InstrumentDef}

theorem zip_idx_mem {d : InstrumentDef} (member : d ∈ valid) (n : Nat) :
    ∃ i, (d, i) ∈ valid.zipIdx n := by
  have first : d ∈ (valid.zipIdx n).map Prod.fst := by
    rw [List.zipIdx_map_fst]
    exact member
  obtain ⟨⟨_, i⟩, there, rfl⟩ := List.mem_map.mp first
  exact ⟨i, there⟩

theorem mem_of_zip_idx {n : Nat} {v : InstrumentDef × Nat} (member : v ∈ valid.zipIdx n) :
    v.1 ∈ valid := by
  rw [← List.zipIdx_map_fst n valid]
  exact List.mem_map_of_mem member

theorem targets_distinct (distinct : (valid.map InstrumentDef.key).Nodup) (n : Nat) :
    ((valid.zipIdx n).map instrumentRows.target).Nodup := by
  have same : (valid.zipIdx n).map instrumentRows.target = valid.map InstrumentDef.key := by
    conv_rhs => rw [← List.zipIdx_map_fst n valid, List.map_map]
    rfl
  rw [same]
  exact distinct

theorem landed_rows_numbered (sound : Sound db) (valid : List InstrumentDef) :
    Numbered (landedRows db valid) (db.nextId + valid.length) :=
  numbered_written ⟨sound.ids, sound.below⟩ valid

variable (db) in
theorem landed_row (distinct : (valid.map InstrumentDef.key).Nodup) {d : InstrumentDef}
    (member : d ∈ valid) : ∃ n, (landedRows db valid).find d.key =
      some (instrumentRows.row (db.instrument.find d.key) (d, n)) := by
  obtain ⟨n, there⟩ := zip_idx_mem member db.nextId
  exact ⟨n, instrumentRows.find_written (targets_distinct distinct _) there⟩

theorem unlanded_row {k : Key} (away : ∀ d ∈ valid, d.key ≠ k) :
    (landedRows db valid).find k = db.instrument.find k :=
  instrumentRows.find_written_of_not_mem fun v there => away v.1 (mem_of_zip_idx there)

theorem landed_id {k : Key} {p : Key × Nat} :
    (landedIds db valid).find k = some p ↔
      (∃ d ∈ valid, d.key = k) ∧ ∃ r, (landedRows db valid).find k = some r ∧ p = (k, r.id) := by
  rw [landedIds, find_returning]
  refine and_congr_left fun _ => ⟨?_, ?_⟩
  · rintro ⟨v, there, same⟩
    exact ⟨v.1, mem_of_zip_idx there, same⟩
  · rintro ⟨d, there, same⟩
    obtain ⟨n, member⟩ := zip_idx_mem there db.nextId
    exact ⟨(d, n), member, same⟩

variable (db) in
theorem landed_id_found (distinct : (valid.map InstrumentDef.key).Nodup) {d : InstrumentDef}
    (member : d ∈ valid) : ∃ r, (landedRows db valid).find d.key = some r ∧
      (landedIds db valid).find d.key = some (d.key, r.id) := by
  obtain ⟨n, row⟩ := landed_row db distinct member
  exact ⟨_, row, landed_id.mpr ⟨⟨d, member, rfl⟩, _, row, rfl⟩⟩

theorem landed_ids_apart (sound : Sound db) {k k' : Key} {p p' : Key × Nat}
    (one : (landedIds db valid).find k = some p) (other : (landedIds db valid).find k' = some p')
    (same : p.2 = p'.2) : k = k' := by
  obtain ⟨_, r, row, rfl⟩ := landed_id.mp one
  obtain ⟨_, r', row', rfl⟩ := landed_id.mp other
  obtain ⟨there, rfl⟩ := find_some.mp row
  obtain ⟨there', rfl⟩ := find_some.mp row'
  rw [(landed_rows_numbered sound valid).1 r there r' there' same]

theorem legs_distinct (sound : Sound db) {chunk : List InstrumentDef}
    (part : ∀ d ∈ chunk, d ∈ valid) (distinct : (valid.map InstrumentDef.key).Nodup)
    (apart : (chunk.map InstrumentDef.key).Nodup) :
    ((joined (landedRows db valid) (legs (landedIds db valid) chunk)).map
        derivativeRows.target).Nodup ↔
      ∀ d ∈ chunk, ∀ dv, d.derivative = some dv →
        ((landedRows db valid).rows.filter (isSpot dv.underlyingSymbol)).length ≤ 1 := by
  refine joined_distinct (fun d member => ?_) ?_
  · obtain ⟨r, _, found⟩ := landed_id_found db distinct (part d member)
    exact ⟨_, found⟩
  · refine (List.pairwise_map.mp apart).imp fun {d d'} keys p p' found found' same => ?_
    exact keys (landed_ids_apart sound found found' same)

/-- The transaction over the master tables goes through when the constraints hold of every
    definition and each underlying's symbol is a SPOT row's at most once. -/
theorem upsert_master_some (sound : Sound db) (distinct : (valid.map InstrumentDef.key).Nodup)
    {m : Master} :
    upsertMaster db valid = some m ↔
      (∀ d ∈ valid, d.terms.lawful = true) ∧
      (∀ d ∈ valid, ∀ dv, d.derivative = some dv →
        ((landedRows db valid).rows.filter (isSpot dv.underlyingSymbol)).length ≤ 1) ∧
      m = master db valid := by
  have lawful_iff : (∀ v ∈ valid.zipIdx db.nextId, v.1.terms.lawful = true) ↔
      ∀ d ∈ valid, d.terms.lawful = true := by
    constructor
    · intro all d member
      obtain ⟨n, there⟩ := zip_idx_mem member db.nextId
      exact all _ there
    · intro all v there
      exact all _ (mem_of_zip_idx there)
  have part : ∀ chunk ∈ chunks BATCH (valid.filter (·.derivative.isSome)),
      chunk.Sublist (valid.filter (·.derivative.isSome)) := by
    intro chunk member
    have inside := List.sublist_flatten_of_mem member
    rwa [flatten_chunks batch_some] at inside
  have single_iff : (∀ chunk ∈ chunks BATCH (valid.filter (·.derivative.isSome)),
        ((joined (landedRows db valid) (legs (landedIds db valid) chunk)).map
          derivativeRows.target).Nodup) ↔
      ∀ d ∈ valid, ∀ dv, d.derivative = some dv →
        ((landedRows db valid).rows.filter (isSpot dv.underlyingSymbol)).length ≤ 1 := by
    have each : ∀ chunk ∈ chunks BATCH (valid.filter (·.derivative.isSome)),
        (((joined (landedRows db valid) (legs (landedIds db valid) chunk)).map
          derivativeRows.target).Nodup ↔ _) := fun chunk member =>
      legs_distinct sound
        (fun d there => List.mem_of_mem_filter ((part chunk member).mem there)) distinct
        ((((part chunk member).trans List.filter_sublist).map _).nodup distinct)
    constructor
    · intro all d member dv own
      have leg : d ∈ valid.filter (·.derivative.isSome) := by simp [member, own]
      rw [← flatten_chunks batch_some (valid.filter (·.derivative.isSome))] at leg
      obtain ⟨chunk, there, inside⟩ := List.mem_flatten.mp leg
      exact (each chunk there).mp (all chunk there) d inside dv own
    · intro single chunk there
      refine (each chunk there).mpr fun d inside dv own => ?_
      exact single d (List.mem_of_mem_filter ((part chunk there).mem inside)) dv own
  simp only [upsertMaster, Option.bind_eq_bind, Option.bind_eq_some_iff, upsert_instruments_some,
    bulk_upsert_derivatives_all, flatten_chunks batch_some, lawful_iff, Option.pure_def,
    Option.some.injEq]
  constructor
  · rintro ⟨_, ⟨_, lawful, rfl⟩, _, ⟨once, rfl⟩, rfl⟩
    refine ⟨lawful, single_iff.mp once, ?_⟩
    simp [master, landedRows, landedIds, landedLegs]
  · rintro ⟨lawful, single, rfl⟩
    refine ⟨_, ⟨chunk_nodup batch_some (targets_distinct distinct _), lawful, rfl⟩, _,
      ⟨single_iff.mpr single, rfl⟩, ?_⟩
    simp [master, landedRows, landedIds, landedLegs]

end Landed
end OmsCatalog
