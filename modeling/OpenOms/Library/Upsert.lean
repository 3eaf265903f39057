import OpenOms.Library.Keyed
import Mathlib.Data.List.Basic

/-!
Bulk inserts that update on a conflicting key. A statement fails as a whole when two
of its values have one key, or when a row it writes breaks a constraint of the table.
-/
namespace Upsert
open Keyed
variable {K R V : Type} {key : R → K}

theorem same_of_find [DecidableEq K] {t t' : Table K R key}
    (keys : t.rows.map key = t'.rows.map key) (finds : ∀ k, t.find k = t'.find k) : t = t' := by
  have rows : t.rows = t'.rows := by
    have lengths : t.rows.length = t'.rows.length := by simpa using congrArg List.length keys
    refine List.ext_getElem lengths fun i below below' => ?_
    have same : key t.rows[i] = key t'.rows[i] := by
      have at_ := congrArg (fun ks => ks[i]?) keys
      simpa [below, below'] using at_
    have here : t.find (key t.rows[i]) = some t.rows[i] :=
      find_some.mpr ⟨List.getElem_mem below, rfl⟩
    have there : t'.find (key t.rows[i]) = some t'.rows[i] :=
      find_some.mpr ⟨List.getElem_mem below', same.symm⟩
    exact Option.some.inj (here.symm.trans ((finds _).trans there))
  cases t
  cases t'
  cases rows
  rfl

def mapRows (t : Table K R key) (change : R → R) (keeps : ∀ r, key (change r) = key r) :
    Table K R key where
  rows := t.rows.map change
  distinct := by
    have same : key ∘ change = key := funext keeps
    rw [List.map_map, same]
    exact t.distinct

theorem map_rows_same {t : Table K R key} {change : R → R} {keeps : ∀ r, key (change r) = key r} :
    mapRows t change keeps = t ↔ ∀ r ∈ t.rows, change r = r := by
  have each : t.rows.map change = t.rows ↔ ∀ r ∈ t.rows, change r = r := by
    conv_lhs => rhs; rw [← List.map_id t.rows]
    exact List.map_inj_left
  rw [← each]
  constructor
  · exact fun same => congrArg Table.rows same
  · intro rows
    cases t
    simpa [mapRows] using rows

theorem filter_length_le_one {t : Table K R key} {P : R → Bool} :
    (t.rows.filter P).length ≤ 1 ↔
      ∀ r ∈ t.rows, ∀ r' ∈ t.rows, P r = true → P r' = true → key r = key r' := by
  constructor
  · intro few r here r' there holds holds'
    have one := List.mem_filter.mpr ⟨here, holds⟩
    have other := List.mem_filter.mpr ⟨there, holds'⟩
    match filtered : t.rows.filter P, few with
    | [], _ => simp [filtered] at one
    | [only], _ =>
      rw [filtered, List.mem_singleton] at one other
      rw [one, other]
  · intro single
    have distinct : (t.rows.filter P).Nodup := (List.Nodup.of_map _ t.distinct).filter _
    match filtered : t.rows.filter P with
    | [] => simp
    | [only] => simp
    | r :: r' :: rest =>
      have one := List.mem_filter.mp (filtered ▸ List.mem_cons_self)
      have other := List.mem_filter.mp (filtered ▸ List.mem_cons_of_mem r List.mem_cons_self)
      have same := row_unique t one.1 other.1 (single r one.1 r' other.1 one.2 other.2)
      rw [filtered] at distinct
      exact absurd (same ▸ List.mem_cons_self) (List.nodup_cons.mp distinct).1

section Batches
variable {A B : Type}

def slices (size : Nat) : Nat → List A → List (List A)
  | 0, _ => []
  | _ + 1, [] => []
  | fuel + 1, a :: l => (a :: l).take size :: slices size fuel ((a :: l).drop size)

def chunks (size : Nat) (l : List A) : List (List A) := slices size l.length l

theorem flatten_slices {size : Nat} (some_ : 0 < size) (fuel : Nat) (l : List A)
    (enough : l.length ≤ fuel) : (slices size fuel l).flatten = l := by
  induction fuel generalizing l with
  | zero =>
    cases List.length_eq_zero_iff.mp (Nat.le_zero.mp enough)
    rfl
  | succ fuel ih =>
    cases l with
    | nil => rfl
    | cons a l =>
      rw [slices, List.flatten_cons, ih, List.take_append_drop]
      simp only [List.length_drop, List.length_cons] at enough ⊢
      omega

theorem flatten_chunks {size : Nat} (some_ : 0 < size) (l : List A) : (chunks size l).flatten = l :=
  flatten_slices some_ _ l (Nat.le_refl _)

theorem slices_map (size fuel : Nat) (f : A → B) (l : List A) :
    slices size fuel (l.map f) = (slices size fuel l).map (List.map f) := by
  induction fuel generalizing l with
  | zero => rfl
  | succ fuel ih =>
    cases l with
    | nil => rfl
    | cons a l =>
      simp only [slices, List.map_cons, List.map_take, List.map_drop, ← ih]

theorem chunks_map (size : Nat) (f : A → B) (l : List A) :
    chunks size (l.map f) = (chunks size l).map (List.map f) := by
  rw [chunks, List.length_map, slices_map, chunks]

theorem chunk_nodup {size : Nat} (some_ : 0 < size) {f : A → B} {l : List A}
    (distinct : (l.map f).Nodup) : ∀ c ∈ chunks size l, (c.map f).Nodup := by
  intro c member
  have part : c.Sublist l := by
    rw [← flatten_chunks some_ l]
    exact List.sublist_flatten_of_mem member
  exact (part.map f).nodup distinct

end Batches

variable [DecidableEq K]

def place (t : Table K R key) (r : R) : Table K R key :=
  if (t.find (key r)).isSome then t.put r else t.insert r

theorem find_place (t : Table K R key) (r : R) (k : K) :
    (place t r).find k = if k = key r then some r else t.find k := by
  unfold place
  split
  · rename_i there
    exact find_put there k
  · rename_i absent
    rw [find_insert]
    by_cases same : k = key r
    · subst same
      simp [Option.not_isSome_iff_eq_none.mp absent]
    · simp [same]

theorem keys_place {t : Table K R key} {r : R} (there : (t.find (key r)).isSome) :
    (place t r).rows.map key = t.rows.map key := by
  rw [place, if_pos there]
  simp only [Table.put, Table.update, List.map_map]
  refine List.map_congr_left fun old _ => ?_
  simp only [Function.comp_apply]
  split <;> simp_all

theorem place_held {t : Table K R key} {r : R} (held : t.find (key r) = some r) :
    place t r = t := by
  refine same_of_find (keys_place (by rw [held]; rfl)) fun k => ?_
  rw [find_place]
  split
  · rename_i same
    rw [same, held]
  · rfl

theorem find_map_rows {t : Table K R key} {change : R → R} {keeps : ∀ r, key (change r) = key r}
    (k : K) : (mapRows t change keeps).find k = (t.find k).map change := by
  simp only [Table.find, mapRows, List.find?_map, Function.comp_def, keeps]

theorem find_places (t : Table K R key) (rs : List R) (k : K) :
    (rs.foldl place t).find k = (rs.reverse.find? (key · = k)).or (t.find k) := by
  induction rs generalizing t with
  | nil => rfl
  | cons r rs ih =>
    rw [List.foldl_cons, ih, List.reverse_cons, List.find?_append, find_place]
    cases rs.reverse.find? (key · = k) with
    | some r' => rfl
    | none =>
      by_cases same : k = key r
      · simp [same]
      · simp [same, Ne.symm same]

/-- `target` is the conflict key of a value, `row` what the value writes over the row
    that has the key, and `allowed` the constraints on a row beside the others. -/
structure Statement (V : Type) (key : R → K) where
  target : V → K
  row : Option R → V → R
  keyed : ∀ old v, (∀ r, old = some r → key r = target v) → key (row old v) = target v
  allowed : List R → R → Bool

namespace Statement
variable (s : Statement V key)

def next (t : Table K R key) (v : V) : R := s.row (t.find (s.target v)) v

def put (t : Table K R key) (v : V) : Table K R key := place t (s.next t v)

/-- The table once the values are written in turn, whatever the constraints say. -/
def written (t : Table K R key) (vs : List V) : Table K R key := vs.foldl s.put t

def Fits (t : Table K R key) : List V → Prop
  | [] => True
  | v :: vs => s.allowed t.rows (s.next t v) = true ∧ Fits (s.put t v) vs

def putAllowed (t : Table K R key) (v : V) : Option (Table K R key) :=
  if s.allowed t.rows (s.next t v) then some (s.put t v) else none

def run (t : Table K R key) (vs : List V) : Option (Table K R key) :=
  if (vs.map s.target).Nodup then vs.foldlM s.putAllowed t else none

theorem key_next (t : Table K R key) (v : V) : key (s.next t v) = s.target v :=
  s.keyed _ v fun _ found => (find_some.mp found).2

theorem find_put (t : Table K R key) (v : V) (k : K) :
    (s.put t v).find k = if k = s.target v then some (s.row (t.find k) v) else t.find k := by
  rw [put, find_place, s.key_next]
  split
  · rename_i same
    rw [same, next]
  · rfl

theorem mem_put {t : Table K R key} {v : V} {r : R} :
    r ∈ (s.put t v).rows ↔ r = s.next t v ∨ r ∈ t.rows ∧ key r ≠ s.target v := by
  have rows : r ∈ (s.put t v).rows ↔ (s.put t v).find (key r) = some r := by simp [find_some]
  rw [rows, find_put]
  by_cases same : key r = s.target v
  · simp [same, next, eq_comm]
  · have away : r ≠ s.next t v := fun is => same (by rw [is, s.key_next])
    simp [same, away, find_some]

theorem written_append (t : Table K R key) (vs ws : List V) :
    s.written t (vs ++ ws) = s.written (s.written t vs) ws := List.foldl_append

theorem fits_append (t : Table K R key) (vs ws : List V) :
    s.Fits t (vs ++ ws) ↔ s.Fits t vs ∧ s.Fits (s.written t vs) ws := by
  induction vs generalizing t with
  | nil => simp [Fits, written]
  | cons v vs ih => simp [Fits, written, ih, and_assoc]

theorem puts_some {t t' : Table K R key} {vs : List V} :
    vs.foldlM s.putAllowed t = some t' ↔ s.Fits t vs ∧ t' = s.written t vs := by
  induction vs generalizing t with
  | nil => simp [Fits, written, eq_comm]
  | cons v vs ih =>
    rw [List.foldlM_cons, Option.bind_eq_bind, putAllowed]
    split
    · rename_i allowed
      simp [ih, Fits, written, allowed]
    · rename_i refused
      simp [Fits, refused]

theorem run_some {t t' : Table K R key} {vs : List V} :
    s.run t vs = some t' ↔ (vs.map s.target).Nodup ∧ s.Fits t vs ∧ t' = s.written t vs := by
  rw [run]
  split
  · rename_i distinct
    simp [puts_some, distinct]
  · rename_i twice
    simp [twice]

/-- Statements in turn, as one transaction runs them, the rows written counted. `vals` are
    the values a batch comes to. -/
theorem counted_some {B : Type} {vals : B → List V}
    {step : Table K R key × Nat → B → Option (Table K R key × Nat)}
    (one : ∀ at_ b out, step at_ b = some out ↔ ((vals b).map s.target).Nodup ∧
      s.Fits at_.1 (vals b) ∧ out = (s.written at_.1 (vals b), at_.2 + (vals b).length))
    {batches : List B} {at_ out : Table K R key × Nat} :
    batches.foldlM step at_ = some out ↔
      (∀ b ∈ batches, ((vals b).map s.target).Nodup) ∧ s.Fits at_.1 (batches.flatMap vals) ∧
      out = (s.written at_.1 (batches.flatMap vals), at_.2 + (batches.flatMap vals).length) := by
  induction batches generalizing at_ with
  | nil =>
    simp only [List.foldlM_nil, Option.pure_def, Option.some.injEq, List.not_mem_nil,
      false_implies, implies_true, true_and, List.flatMap_nil, Fits]
    exact eq_comm
  | cons b batches ih =>
    rw [List.foldlM_cons, Option.bind_eq_bind, Option.bind_eq_some_iff]
    simp only [one, ih, List.flatMap_cons, List.forall_mem_cons, fits_append, written_append,
      List.length_append, ← Nat.add_assoc]
    constructor
    · rintro ⟨_, ⟨distinct, fits, rfl⟩, others, more, rfl⟩
      exact ⟨⟨distinct, others⟩, ⟨fits, more⟩, rfl⟩
    · rintro ⟨⟨distinct, others⟩, ⟨fits, more⟩, rfl⟩
      exact ⟨_, ⟨distinct, fits, rfl⟩, others, more, rfl⟩

theorem fits_of_values (ok : V → Bool)
    (local_ : ∀ rows old v, s.allowed rows (s.row old v) = ok v) {t : Table K R key} {vs : List V} :
    s.Fits t vs ↔ ∀ v ∈ vs, ok v = true := by
  induction vs generalizing t with
  | nil => simp [Fits]
  | cons v vs ih => simp [Fits, next, local_, ih]

theorem fits_iff_split {t : Table K R key} {vs : List V} :
    s.Fits t vs ↔ ∀ earlier v later, vs = earlier ++ v :: later →
      s.allowed (s.written t earlier).rows (s.next (s.written t earlier) v) = true := by
  constructor
  · rintro fits earlier v later rfl
    exact ((s.fits_append t earlier (v :: later)).mp fits).2.1
  · intro each
    induction vs generalizing t with
    | nil => trivial
    | cons v vs ih =>
      refine ⟨each [] v vs rfl, ih ?_⟩
      rintro earlier w later rfl
      exact each (v :: earlier) w later rfl

theorem find_written_of_not_mem {t : Table K R key} {vs : List V} {k : K}
    (away : ∀ v ∈ vs, s.target v ≠ k) : (s.written t vs).find k = t.find k := by
  induction vs generalizing t with
  | nil => rfl
  | cons v vs ih =>
    obtain ⟨here, rest⟩ := List.forall_mem_cons.mp away
    rw [written, List.foldl_cons]
    refine (ih rest).trans ?_
    rw [find_put, if_neg (Ne.symm here)]

theorem written_keeps {B : Type} {f : R → B} (keeps : ∀ old v, f (s.row (some old) v) = f old)
    {t : Table K R key} (vs : List V) {k : K} {r : R} (found : t.find k = some r) :
    ∃ r', (s.written t vs).find k = some r' ∧ f r' = f r := by
  induction vs generalizing t r with
  | nil => exact ⟨r, found, rfl⟩
  | cons v vs ih =>
    rw [written, List.foldl_cons]
    by_cases same : k = s.target v
    · have next : (s.put t v).find k = some (s.row (some r) v) := by
        rw [find_put, if_pos same, found]
      obtain ⟨r', later, as_next⟩ := ih next
      exact ⟨r', later, as_next.trans (keeps r v)⟩
    · have next : (s.put t v).find k = some r := by rw [find_put, if_neg same, found]
      exact ih next

theorem written_is_some (t : Table K R key) {vs : List V} {v : V} (member : v ∈ vs) :
    ((s.written t vs).find (s.target v)).isSome := by
  obtain ⟨earlier, later, rfl⟩ := List.append_of_mem member
  have here : (s.put (s.written t earlier) v).find (s.target v) =
      some (s.next (s.written t earlier) v) := by
    rw [find_put, if_pos rfl, next]
  rw [written_append, written, List.foldl_cons]
  obtain ⟨r, found, _⟩ := s.written_keeps (f := fun _ => ()) (fun _ _ => rfl) later here
  exact Option.isSome_of_eq_some found

theorem find_written {t : Table K R key} {vs : List V} (distinct : (vs.map s.target).Nodup)
    {v : V} (member : v ∈ vs) :
    (s.written t vs).find (s.target v) = some (s.row (t.find (s.target v)) v) := by
  induction vs generalizing t with
  | nil => cases member
  | cons w vs ih =>
    obtain ⟨apart, rest⟩ := List.nodup_cons.mp distinct
    rw [written, List.foldl_cons]
    rcases List.mem_cons.mp member with rfl | later
    · have away : ∀ w ∈ vs, s.target w ≠ s.target v := by
        intro w there same
        exact apart (List.mem_map.mpr ⟨w, there, same⟩)
      refine (s.find_written_of_not_mem away).trans ?_
      rw [find_put, if_pos rfl]
    · have other : s.target v ≠ s.target w := by
        intro same
        exact apart (List.mem_map.mpr ⟨v, later, same⟩)
      refine (ih rest later).trans ?_
      rw [find_put, if_neg other]

theorem find_written_last (overwrites : ∀ old v, s.row old v = s.row none v) (t : Table K R key)
    (vs : List V) (k : K) :
    (s.written t vs).find k =
      ((vs.reverse.find? (s.target · = k)).map (s.row none)).or (t.find k) := by
  induction vs generalizing t with
  | nil => simp [written]
  | cons v vs ih =>
    rw [written, List.foldl_cons]
    refine (ih (s.put t v)).trans ?_
    rw [List.reverse_cons, List.find?_append, find_put, overwrites]
    cases vs.reverse.find? (s.target · = k) with
    | some w => simp
    | none =>
      by_cases same : k = s.target v
      · simp [same]
      · simp [same, Ne.symm same]

theorem written_held {t : Table K R key} {vs : List V}
    (held : ∀ v ∈ vs, t.find (s.target v) = some (s.next t v)) : s.written t vs = t := by
  induction vs with
  | nil => rfl
  | cons v vs ih =>
    obtain ⟨here, rest⟩ := List.forall_mem_cons.mp held
    have same : s.put t v = t := place_held (by rw [s.key_next]; exact here)
    rw [written, List.foldl_cons, same]
    exact ih rest

theorem keys_written {t : Table K R key} {vs : List V}
    (there : ∀ v ∈ vs, (t.find (s.target v)).isSome) :
    (s.written t vs).rows.map key = t.rows.map key := by
  induction vs generalizing t with
  | nil => rfl
  | cons v vs ih =>
    obtain ⟨here, rest⟩ := List.forall_mem_cons.mp there
    rw [written, List.foldl_cons]
    refine (ih fun w later => ?_).trans (keys_place (by rw [s.key_next]; exact here))
    rw [find_put]
    split
    · rfl
    · exact rest w later

theorem written_again (overwrites : ∀ old v, s.row old v = s.row none v) (t : Table K R key)
    (vs : List V) : s.written (s.written t vs) vs = s.written t vs := by
  have last := s.find_written_last overwrites
  have there : ∀ v ∈ vs, ((s.written t vs).find (s.target v)).isSome := by
    intro v member
    have found : (vs.reverse.find? (s.target · = s.target v)).isSome := by
      rw [List.find?_isSome]
      exact ⟨v, List.mem_reverse.mpr member, by simp⟩
    rw [last]
    simp [found]
  refine same_of_find (s.keys_written there) fun k => ?_
  rw [last, last]
  cases vs.reverse.find? (s.target · = k) with
  | some v => simp
  | none => simp

end Statement
end Upsert
