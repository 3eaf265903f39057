import Mathlib.Data.List.Sort

/-!
Reading a growing table in pages by a cursor on its key. A full page is followed
by the one after its last key; a short page is the last. What was there when a
page was read is on it or past it.
-/
namespace Paging
variable {R : Type} (key : R → Nat)

def page (limit : Nat) (rows : List R) : List R :=
  (rows.insertionSort (key · ≤ key ·)).take limit

def nextPage (limit length : Nat) (last : Option Nat) : Option Nat :=
  if length ≥ limit then last.map (· + 1) else none

theorem mem_of_mem_page {limit : Nat} {rows : List R} {r : R} (onPage : r ∈ page key limit rows) :
    r ∈ rows :=
  (List.mem_insertionSort _).mp (List.mem_of_mem_take onPage)

theorem page_sorted (rows : List R) :
    (rows.insertionSort (key · ≤ key ·)).Pairwise (key · ≤ key ·) := by
  have : Std.Total (fun a b : R => key a ≤ key b) := ⟨fun a b => Nat.le_total (key a) (key b)⟩
  have : IsTrans R (fun a b => key a ≤ key b) := ⟨fun a b c => Nat.le_trans⟩
  exact List.pairwise_insertionSort _ rows

theorem page_covers {limit : Nat} (positive : 0 < limit) {rows : List R}
    (distinct : (rows.map key).Nodup) {r : R} (there : r ∈ rows) :
    r ∈ page key limit rows ∨
      ∃ cursor ≤ key r, nextPage limit (page key limit rows).length
        ((page key limit rows).getLast?.map key) = some cursor := by
  have sorted := page_sorted key rows
  have all : r ∈ rows.insertionSort (key · ≤ key ·) := (List.mem_insertionSort _).mpr there
  rw [← List.take_append_drop limit (rows.insertionSort (key · ≤ key ·))] at all sorted
  rcases List.mem_append.mp all with onPage | later
  · exact .inl onPage
  refine .inr ?_
  have full : (page key limit rows).length = limit := by
    have more := List.length_pos_of_mem later
    rw [List.length_drop] at more
    rw [page, List.length_take]
    omega
  obtain ⟨last, ends⟩ := Option.isSome_iff_exists.mp
    (List.getLast?_isSome.mpr (List.length_pos_iff.mp (full ▸ positive)))
  have lastOn : last ∈ page key limit rows := List.mem_of_getLast? ends
  have before : key last ≤ key r := (List.pairwise_append.mp sorted).2.2 last lastOn r later
  have differ : key last ≠ key r := by
    intro same
    have one : last = r := List.inj_on_of_nodup_map distinct (mem_of_mem_page key lastOn) there same
    have sortedDistinct : (rows.insertionSort (key · ≤ key ·)).Nodup :=
      (List.perm_insertionSort _ rows).nodup_iff.mpr distinct.of_map
    rw [← List.take_append_drop limit (rows.insertionSort (key · ≤ key ·))] at sortedDistinct
    exact (List.nodup_append.mp sortedDistinct).2.2 last lastOn r later one
  refine ⟨key last + 1, by omega, ?_⟩
  simp [nextPage, full, ends]

/-!
Rows some of which cannot be read, and a reader that goes on only when it could read
a full page.
-/
section
variable {F : Type} (limit : Nat) (read : R → Option F)

def readThrough : Nat → List R → Option (List F)
  | 0, _ => none
  | fuel + 1, rows =>
    let got := (rows.take limit).filterMap read
    if got.length ≥ limit then (readThrough fuel (rows.drop limit)).map (got ++ ·)
    else some got

theorem full_iff (rows : List R) : ((rows.take limit).filterMap read).length ≥ limit ↔
    limit ≤ rows.length ∧ ∀ u ∈ rows.take limit, (read u).isSome = true := by
  have bound := List.length_filterMap_le read (rows.take limit)
  have width := List.length_take (i := limit) (l := rows)
  constructor
  · intro full
    have all : ((rows.take limit).filterMap read).length = (rows.take limit).length := by omega
    constructor
    · omega
    · exact List.filterMap_length_eq_length.mp all
  · intro both
    obtain ⟨long, all⟩ := both
    have same := List.filterMap_length_eq_length.mpr all
    omega

theorem read_through_ends (positive : 0 < limit) (fuel : Nat) (rows : List R)
    (enough : rows.length < fuel) : ∃ got, readThrough limit read fuel rows = some got := by
  induction fuel generalizing rows with
  | zero => omega
  | succ fuel ih =>
    rw [readThrough]
    split
    · rename_i full
      have long := ((full_iff limit read rows).mp full).1
      obtain ⟨more, rest⟩ := ih (rows.drop limit) (by rw [List.length_drop]; omega)
      rw [rest]
      exact ⟨_, rfl⟩
    · exact ⟨_, rfl⟩

theorem read_through_pages (fuel : Nat) (rows : List R) (got : List F)
    (done : readThrough limit read fuel rows = some got) :
    ∃ full, got = (rows.take ((full + 1) * limit)).filterMap read ∧
      (∀ u ∈ rows.take (full * limit), (read u).isSome = true) ∧
      (rows.length < (full + 1) * limit ∨
        ∃ i u, rows[i]? = some u ∧ i < (full + 1) * limit ∧ read u = none) := by
  induction fuel generalizing rows got with
  | zero => cases done
  | succ fuel ih =>
    rw [readThrough] at done
    split at done
    · rename_i goesOn
      have readable := ((full_iff limit read rows).mp goesOn).2
      obtain ⟨more, rest, rfl⟩ := Option.map_eq_some_iff.mp done
      obtain ⟨full, isMore, before, ends⟩ := ih _ _ rest
      have width : (full + 1 + 1) * limit = limit + (full + 1) * limit := by
        rw [Nat.add_mul (full + 1), Nat.one_mul, Nat.add_comm]
      refine ⟨full + 1, ?_, ?_, ?_⟩
      · rw [width, List.take_add, List.filterMap_append, isMore]
      · intro u member
        rw [Nat.add_mul, Nat.one_mul, Nat.add_comm, List.take_add] at member
        rcases List.mem_append.mp member with first | later
        · exact readable u first
        · exact before u later
      · rw [width]
        cases ends with
        | inl short =>
          rw [List.length_drop] at short
          exact Or.inl (by omega)
        | inr stuck =>
          obtain ⟨i, u, at_, within, unread⟩ := stuck
          rw [List.getElem?_drop] at at_
          exact Or.inr ⟨limit + i, u, at_, by omega, unread⟩
    · rename_i stops
      cases done
      refine ⟨0, by simp, by simp, ?_⟩
      by_cases long : limit ≤ rows.length
      · refine Or.inr ?_
        have some_ : ∃ u ∈ rows.take limit, read u = none := by
          by_contra none_
          refine stops ((full_iff limit read rows).mpr ⟨long, ?_⟩)
          intro u member
          refine Option.isSome_iff_ne_none.mpr ?_
          intro unread
          exact none_ ⟨u, member, unread⟩
        obtain ⟨u, member, unread⟩ := some_
        obtain ⟨i, at_⟩ := List.mem_iff_getElem?.mp member
        rw [List.getElem?_take] at at_
        split at at_
        · exact ⟨i, u, at_, by omega, unread⟩
        · cases at_
      · exact Or.inl (by omega)

end

end Paging
