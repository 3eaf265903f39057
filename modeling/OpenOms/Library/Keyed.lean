import Mathlib.Data.List.Nodup

/-!
A table whose rows are told apart by a key. Updates keep a row's key and inserts
take a new one, so no two rows ever share one.
-/
namespace Keyed
variable {K R : Type} {key : R → K}

structure Table (K R : Type) (key : R → K) where
  rows : List R
  distinct : (rows.map key).Nodup

def Table.empty : Table K R key := ⟨[], .nil⟩

theorem row_unique (t : Table K R key) {r r' : R} (here : r ∈ t.rows) (there : r' ∈ t.rows)
    (same : key r = key r') : r = r' :=
  List.inj_on_of_nodup_map t.distinct here there same

variable [DecidableEq K]

def Table.find (t : Table K R key) (k : K) : Option R := t.rows.find? (key · = k)

def Table.update (t : Table K R key) (k : K) (change : R → R)
    (keeps : ∀ r, key (change r) = key r) : Table K R key where
  rows := t.rows.map fun r => if key r = k then change r else r
  distinct := by
    have same : (t.rows.map fun r => if key r = k then change r else r).map key =
        t.rows.map key := by
      rw [List.map_map]
      refine List.map_congr_left fun r _ => ?_
      simp only [Function.comp_apply]
      split
      · exact keeps r
      · rfl
    rw [same]
    exact t.distinct

def Table.put (t : Table K R key) (r : R) : Table K R key :=
  t.update (key r) (fun old => if key old = key r then r else old) (by
    intro old
    split
    · rename_i same
      exact same.symm
    · rfl)

def Table.insert (t : Table K R key) (r : R) : Table K R key :=
  if free : key r ∉ t.rows.map key then
    { rows := t.rows ++ [r]
      distinct := by
        rw [List.map_append]
        refine List.nodup_append.mpr ⟨t.distinct, List.nodup_singleton _, ?_⟩
        intro k taken k' new
        cases List.mem_singleton.mp new
        rintro rfl
        exact free taken }
  else t

theorem find_some {t : Table K R key} {k : K} {r : R} :
    t.find k = some r ↔ r ∈ t.rows ∧ key r = k := by
  constructor
  · intro found
    exact ⟨List.mem_of_find?_eq_some found, by simpa using List.find?_some found⟩
  · rintro ⟨member, rfl⟩
    cases found : t.find (key r) with
    | none =>
      have absent := List.find?_eq_none.mp found r member
      simp at absent
    | some r' =>
      have there := List.mem_of_find?_eq_some found
      have same : key r' = key r := by simpa using List.find?_some found
      rw [row_unique t there member same]

theorem find_none {t : Table K R key} {k : K} : t.find k = none ↔ ∀ r ∈ t.rows, key r ≠ k := by
  simp [Table.find, List.find?_eq_none]

theorem filter_key {t : Table K R key} {k : K} {r : R} (found : t.find k = some r) :
    t.rows.filter (key · = k) = [r] := by
  obtain ⟨member, rfl⟩ := find_some.mp found
  obtain ⟨before, after, split⟩ := List.append_of_mem member
  have distinct := t.distinct
  rw [split, List.map_append, List.map_cons] at distinct
  have away := List.nodup_middle.mp distinct
  have apart : ∀ r' ∈ before ++ after, key r' ≠ key r := by
    intro r' there same
    refine (List.nodup_cons.mp away).1 ?_
    rw [← List.map_append, ← same]
    exact List.mem_map_of_mem there
  rw [split, List.filter_append, List.filter_cons]
  have none_before : before.filter (key · = key r) = [] := by
    simpa [List.filter_eq_nil_iff] using fun r' there => apart r' (List.mem_append_left _ there)
  have none_after : after.filter (key · = key r) = [] := by
    simpa [List.filter_eq_nil_iff] using fun r' there => apart r' (List.mem_append_right _ there)
  simp [none_before, none_after]

theorem find_update (t : Table K R key) (k : K) (change : R → R)
    (keeps : ∀ r, key (change r) = key r) (k' : K) :
    (t.update k change keeps).find k' = if k' = k then (t.find k).map change else t.find k' := by
  by_cases same : k' = k
  · subst same
    cases found : t.find k' with
    | none =>
      rw [if_pos rfl, Option.map_none, find_none]
      intro r member
      obtain ⟨old, there, rfl⟩ := List.mem_map.mp member
      have away := find_none.mp found old there
      simp [away]
    | some r =>
      obtain ⟨member, own⟩ := find_some.mp found
      rw [if_pos rfl, Option.map_some, find_some]
      refine ⟨List.mem_map.mpr ⟨r, member, by simp [own]⟩, (keeps r).trans own⟩
  · rw [if_neg same]
    cases found : t.find k' with
    | none =>
      rw [find_none]
      intro r member
      obtain ⟨old, there, rfl⟩ := List.mem_map.mp member
      have away := find_none.mp found old there
      split
      · rw [keeps]
        exact away
      · exact away
    | some r =>
      obtain ⟨member, own⟩ := find_some.mp found
      rw [find_some]
      refine ⟨List.mem_map.mpr ⟨r, member, ?_⟩, own⟩
      simp [own, same]

theorem find_put {t : Table K R key} {r : R} (there : (t.find (key r)).isSome) (k : K) :
    (t.put r).find k = if k = key r then some r else t.find k := by
  obtain ⟨old, found⟩ := Option.isSome_iff_exists.mp there
  rw [Table.put, find_update, found, Option.map_some, if_pos (find_some.mp found).2]

theorem mem_put {t : Table K R key} {r : R} (there : (t.find (key r)).isSome) {r' : R} :
    r' ∈ (t.put r).rows ↔ r' = r ∨ r' ∈ t.rows ∧ key r' ≠ key r := by
  have rows : r' ∈ (t.put r).rows ↔ (t.put r).find (key r') = some r' := by simp [find_some]
  rw [rows, find_put there]
  by_cases same : key r' = key r
  · simp [same, eq_comm]
  · have away : r' ≠ r := fun is => same (by rw [is])
    simp [same, away, find_some]

theorem find_insert (t : Table K R key) (r : R) (k : K) :
    (t.insert r).find k = if k = key r ∧ t.find k = none then some r else t.find k := by
  unfold Table.insert
  split
  · rename_i free
    have absent : t.find (key r) = none :=
      find_none.mpr fun r' member same => free (List.mem_map.mpr ⟨r', member, same⟩)
    simp only [Table.find, List.find?_append] at absent ⊢
    by_cases same : k = key r
    · subst same
      simp [absent]
    · simp [same, Ne.symm same]
  · rename_i taken
    obtain ⟨r', member, same⟩ := List.mem_map.mp (not_not.mp taken)
    rw [if_neg]
    rintro ⟨rfl, absent⟩
    exact find_none.mp absent r' member same

theorem mem_insert {t : Table K R key} {r r' : R} :
    r' ∈ (t.insert r).rows ↔ r' ∈ t.rows ∨ r' = r ∧ key r ∉ t.rows.map key := by
  unfold Table.insert
  split
  · rename_i free
    simp only [List.mem_append, List.mem_singleton]
    exact or_congr_right ⟨fun is => ⟨is, free⟩, And.left⟩
  · rename_i taken
    exact ⟨Or.inl, fun either => either.resolve_right fun new => taken new.2⟩

end Keyed
