import Mathlib.Data.List.Forall2
import Mathlib.Data.List.Nodup
import Mathlib.Algebra.BigOperators.Group.List.Basic
import Mathlib.Tactic.Abel

/-!
Lists one element of which is replaced, sums one term of which changes, lists in
order already, and two lists kept side by side.
-/
namespace Lists

theorem forall_mem_set {A : Type} {P : A → Prop} {l : List A} {i : Nat} {x : A}
    (all : ∀ y ∈ l, P y) (new : P x) : ∀ y ∈ l.set i x, P y := by
  intro y member
  rcases List.mem_or_eq_of_mem_set member with old | rfl
  · exact all y old
  · exact new

theorem at_set {A : Type} {l : List A} {i j : Nat} {x y : A} (there : (l.set i x)[j]? = some y) :
    j = i ∧ y = x ∨ j ≠ i ∧ l[j]? = some y := by
  rw [List.getElem?_set] at there
  split at there
  · rename_i same
    split at there
    · cases there
      exact .inl ⟨same.symm, rfl⟩
    · cases there
  · rename_i apart
    exact .inr ⟨Ne.symm apart, there⟩

theorem at_append {A : Type} {l : List A} {i : Nat} {x y : A} (there : (l ++ [x])[i]? = some y) :
    i < l.length ∧ l[i]? = some y ∨ i = l.length ∧ y = x := by
  have bound := (List.getElem?_eq_some_iff.mp there).1
  rw [List.length_append, List.length_singleton] at bound
  rw [List.getElem?_append] at there
  split at there
  · rename_i within
    exact .inl ⟨within, there⟩
  · rename_i beyond
    refine .inr ⟨by omega, ?_⟩
    exact List.mem_singleton.mp (List.mem_of_getElem? there)

theorem exists_mem_set {A : Type} {P : A → Prop} {l : List A} {i : Nat} {x next : A}
    (there : l[i]? = some x) (keeps : P x → P next) (some_ : ∃ y ∈ l, P y) :
    ∃ y ∈ l.set i next, P y := by
  obtain ⟨y, member, holds⟩ := some_
  obtain ⟨j, at_⟩ := List.mem_iff_getElem?.mp member
  by_cases same : j = i
  · subst same
    cases there.symm.trans at_
    obtain ⟨inside, _⟩ := List.getElem?_eq_some_iff.mp there
    exact ⟨next, List.mem_set inside next, keeps holds⟩
  · refine ⟨y, List.mem_of_getElem? (i := j) ?_, holds⟩
    rw [List.getElem?_set_ne (Ne.symm same)]
    exact at_

theorem at_modify {A : Type} {l : List A} {i j : Nat} {change : A → A} {y : A}
    (there : (l.modify i change)[j]? = some y) :
    ∃ x, l[j]? = some x ∧ y = if i = j then change x else x := by
  rw [List.getElem?_modify] at there
  obtain ⟨x, here, rfl⟩ := Option.map_eq_some_iff.mp there
  exact ⟨x, here, by split <;> rfl⟩

theorem mem_modify {A : Type} {l : List A} {i : Nat} {change : A → A} {y : A}
    (member : y ∈ l.modify i change) :
    ∃ j x, l[j]? = some x ∧ y = if i = j then change x else x := by
  obtain ⟨j, there⟩ := List.mem_iff_getElem?.mp member
  obtain ⟨x, here, is⟩ := at_modify there
  exact ⟨j, x, here, is⟩

/-- A relation between elements stays where the changed one still has it both ways. -/
theorem pairwise_modify {A : Type} {R : A → A → Prop} {l : List A} {i : Nat} {change : A → A}
    (pairs : l.Pairwise R) (before : ∀ x ∈ l[i]?, ∀ y, R x y → R (change x) y)
    (behind : ∀ x ∈ l[i]?, ∀ y, R y x → R y (change x)) : (l.modify i change).Pairwise R := by
  rw [List.pairwise_iff_getElem] at pairs ⊢
  intro m n here there order
  rw [List.length_modify] at here there
  have pair := pairs m n here there order
  rw [List.getElem_modify, List.getElem_modify]
  split
  · rename_i left
    subst left
    rw [if_neg (Nat.ne_of_lt order)]
    exact before _ (List.getElem?_eq_getElem here) _ pair
  · split
    · rename_i right
      subst right
      exact behind _ (List.getElem?_eq_getElem there) _ pair
    · exact pair

theorem pairwise_set {A : Type} {R : A → A → Prop} (symm : ∀ a b, R a b → R b a) {l : List A}
    {x : A} (pairs : l.Pairwise R) : ∀ i, (∀ y ∈ l.eraseIdx i, R x y) → (l.set i x).Pairwise R := by
  induction l with
  | nil => intro i _; exact pairs
  | cons a l ih =>
    intro i new
    obtain ⟨head, tail⟩ := List.pairwise_cons.mp pairs
    cases i with
    | zero => exact List.pairwise_cons.mpr ⟨new, tail⟩
    | succ i =>
      simp only [List.eraseIdx_cons_succ, List.mem_cons, forall_eq_or_imp] at new
      refine List.pairwise_cons.mpr ⟨?_, ih tail i new.2⟩
      intro b member
      rcases List.mem_or_eq_of_mem_set member with old | rfl
      · exact head b old
      · exact symm _ _ new.1

theorem pairwise_others {A : Type} {R : A → A → Prop} (symm : ∀ a b, R a b → R b a) {l : List A}
    {x : A} (pairs : l.Pairwise R) : ∀ i, l[i]? = some x → ∀ y ∈ l.eraseIdx i, R x y := by
  induction l with
  | nil => intro i there; cases there
  | cons a l ih =>
    intro i there
    obtain ⟨head, tail⟩ := List.pairwise_cons.mp pairs
    cases i with
    | zero =>
      cases there
      exact head
    | succ i =>
      simp only [List.eraseIdx_cons_succ, List.mem_cons, forall_eq_or_imp]
      exact ⟨symm _ _ (head x (List.mem_of_getElem? there)), ih tail i there⟩

theorem mem_set_others {A : Type} {l : List A} {x y : A} :
    ∀ i, y ∈ l.set i x → y = x ∨ y ∈ l.eraseIdx i := by
  induction l with
  | nil => intro i member; cases member
  | cons a l ih =>
    intro i member
    cases i with
    | zero => simpa using member
    | succ i =>
      rcases List.mem_cons.mp member with rfl | later
      · exact Or.inr (by simp)
      · exact (ih i later).imp_right (List.mem_cons_of_mem a)

theorem mem_set_of_ne {A : Type} {l : List A} {i : Nat} {x y new : A} (there : l[i]? = some x)
    (member : y ∈ l) (other : y ≠ x) : y ∈ l.set i new := by
  obtain ⟨j, at_⟩ := List.mem_iff_getElem?.mp member
  have apart : i ≠ j := by
    rintro rfl
    rw [there] at at_
    exact other (Option.some.inj at_).symm
  exact List.mem_iff_getElem?.mpr ⟨j, by rw [List.getElem?_set_ne apart, at_]⟩

theorem perm_at {A : Type} {l : List A} {x : A} :
    ∀ {i : Nat}, l[i]? = some x → l.Perm (x :: l.eraseIdx i) := by
  induction l with
  | nil => intro i there; cases there
  | cons a l ih =>
    intro i there
    cases i with
    | zero =>
      cases there
      exact .refl _
    | succ i => exact ((ih there).cons a).trans (.swap x a _)

theorem filter_map_keys {A B K : Type} {f : A → Option B} {key : A → K} {made : B → K}
    (keeps : ∀ a b, f a = some b → made b = key a) (l : List A) :
    ((l.filterMap f).map made).Sublist (l.map key) := by
  induction l with
  | nil => exact .refl _
  | cons a l ih =>
    rw [List.filterMap_cons, List.map_cons]
    cases makes : f a with
    | none => exact ih.cons _
    | some b =>
      rw [List.map_cons, keeps a b makes]
      exact ih.cons_cons _

theorem sum_map_one {A M : Type} [DecidableEq A] [AddCommGroup M] {l : List A} {a : A}
    (nodup : l.Nodup) (there : a ∈ l) {f g : A → M} (others : ∀ b ∈ l, b ≠ a → g b = f b) :
    (l.map g).sum = (l.map f).sum + (g a - f a) := by
  have rest : (l.erase a).map g = (l.erase a).map f := by
    refine List.map_congr_left fun b member => ?_
    obtain ⟨differ, inside⟩ := nodup.mem_erase_iff.mp member
    exact others b inside differ
  rw [← List.sum_map_erase f there, ← List.sum_map_erase g there, rest]
  abel

theorem filter_merge_sort {A : Type} {le : A → A → Bool}
    (trans : ∀ a b c, le a b = true → le b c = true → le a c = true)
    (total : ∀ a b, (le a b || le b a) = true) {p : A → Bool} {l : List A}
    (sorted : (l.filter p).Pairwise fun a b => le a b = true) :
    (l.mergeSort le).filter p = l.filter p := by
  have inside : (l.filter p).Sublist (l.mergeSort le) :=
    List.sublist_mergeSort trans total sorted List.filter_sublist
  have kept : (l.filter p).Sublist ((l.mergeSort le).filter p) := by
    have both := inside.filter p
    simpa using both
  refine (kept.eq_of_length ?_).symm
  exact ((List.mergeSort_perm l le).filter p).length_eq.symm

section Paired
variable {A B : Type} {R : A → B → Prop} {as : List A} {bs : List B}

theorem paired_at (pairs : List.Forall₂ R as bs) {i : Nat} {a : A} {b : B}
    (left : as[i]? = some a) (right : bs[i]? = some b) : R a b := by
  induction pairs generalizing i with
  | nil => cases left
  | cons head _ ih =>
    cases i with
    | zero =>
      cases left
      cases right
      exact head
    | succ i => exact ih left right

theorem paired_set_right (pairs : List.Forall₂ R as bs) (i : Nat) {b : B}
    (new : ∀ a, as[i]? = some a → R a b) : List.Forall₂ R as (bs.set i b) := by
  induction pairs generalizing i with
  | nil => exact .nil
  | cons head tail ih =>
    cases i with
    | zero => exact .cons (new _ rfl) tail
    | succ i => exact .cons head (ih i new)

theorem paired_set_left (pairs : List.Forall₂ R as bs) (i : Nat) {a : A}
    (new : ∀ b, bs[i]? = some b → R a b) : List.Forall₂ R (as.set i a) bs := by
  induction pairs generalizing i with
  | nil => exact .nil
  | cons head tail ih =>
    cases i with
    | zero => exact .cons (new _ rfl) tail
    | succ i => exact .cons head (ih i new)

theorem paired_erase (pairs : List.Forall₂ R as bs) (i : Nat) :
    List.Forall₂ R (as.eraseIdx i) (bs.eraseIdx i) := by
  induction pairs generalizing i with
  | nil => exact .nil
  | cons head tail ih =>
    cases i with
    | zero => exact tail
    | succ i => exact .cons head (ih i)

theorem paired_partner (pairs : List.Forall₂ R as bs) {i : Nat} {a : A}
    (left : as[i]? = some a) : ∃ b, bs[i]? = some b ∧ R a b := by
  induction pairs generalizing i with
  | nil => cases left
  | cons head _ ih =>
    cases i with
    | zero =>
      cases left
      exact ⟨_, rfl, head⟩
    | succ i => exact ih left

theorem paired_forall {P : A → Prop} {Q : B → Prop}
    (pairs : List.Forall₂ (fun a b => Q b ↔ P a) as bs) : (∀ b ∈ bs, Q b) ↔ ∀ a ∈ as, P a := by
  induction pairs with
  | nil => simp
  | cons head _ ih => rw [List.forall_mem_cons, List.forall_mem_cons, head, ih]

end Paired

/-- A traversal that can fail answers for every element in turn. -/
theorem map_m_ok {A B E : Type} {f : A → Except E B} {l : List A} {out : List B} :
    l.mapM f = .ok out ↔ List.Forall₂ (fun a b => f a = .ok b) l out := by
  induction l generalizing out with
  | nil =>
    rw [List.mapM_nil, List.forall₂_nil_left_iff]
    exact ⟨fun is => (Except.ok.inj is).symm, fun is => by rw [is]; rfl⟩
  | cons a l ih =>
    rw [List.mapM_cons, List.forall₂_cons_left_iff]
    cases head : f a with
    | error e =>
      constructor
      · exact fun is => nomatch is
      · rintro ⟨_, _, is, _⟩
        exact nomatch is
    | ok b =>
      cases tail : l.mapM f with
      | error e =>
        constructor
        · exact fun is => nomatch is
        · rintro ⟨_, rest, _, all, _⟩
          exact nomatch tail.symm.trans (ih.mpr all)
      | ok bs =>
        constructor
        · intro is
          cases is
          exact ⟨b, bs, rfl, ih.mp tail, rfl⟩
        · rintro ⟨_, rest, same, all, rfl⟩
          cases same
          cases tail.symm.trans (ih.mpr all)
          rfl

theorem find_own {A K : Type*} [DecidableEq K] {key : A → K} {xs : List A} {a : A}
    (apart : (xs.map key).Nodup) (there : a ∈ xs) : xs.find? (key · = key a) = some a := by
  cases found : xs.find? (key · = key a) with
  | none =>
    have other := List.find?_eq_none.mp found a there
    simp at other
  | some b =>
    have same : key b = key a := by simpa using List.find?_some found
    rw [List.inj_on_of_nodup_map apart (List.mem_of_find?_eq_some found) there same]

theorem paired_merge_sort {A B : Type} {R : A → B → Prop} {le : A → A → Bool} {le' : B → B → Bool}
    (same : ∀ a a' b b', R a b → R a' b' → le a a' = le' b b') {as : List A} {bs : List B}
    (pairs : List.Forall₂ R as bs) : List.Forall₂ R (as.mergeSort le) (bs.mergeSort le') := by
  obtain ⟨both, left, right, each⟩ : ∃ both : List (A × B), both.map Prod.fst = as ∧
      both.map Prod.snd = bs ∧ ∀ p ∈ both, R p.1 p.2 := by
    induction pairs with
    | nil => exact ⟨[], rfl, rfl, nofun⟩
    | @cons a b _ _ pair _ ih =>
      obtain ⟨both, rfl, rfl, each⟩ := ih
      exact ⟨(a, b) :: both, rfl, rfl, List.forall_mem_cons.mpr ⟨pair, each⟩⟩
  have first : as.mergeSort le = (both.mergeSort fun p q => le p.1 q.1).map Prod.fst := by
    rw [← left]
    refine (List.map_mergeSort ?_).symm
    exact fun _ _ _ _ => rfl
  have second : bs.mergeSort le' = (both.mergeSort fun p q => le p.1 q.1).map Prod.snd := by
    rw [← right]
    exact (List.map_mergeSort fun p here q there =>
      same p.1 q.1 p.2 q.2 (each p here) (each q there)).symm
  rw [first, second, List.forall₂_map_left_iff, List.forall₂_map_right_iff, List.forall₂_same]
  exact fun p there => each p (List.mem_mergeSort.mp there)

theorem paired_filter {A B : Type} {R : A → B → Prop} {p : A → Bool} {q : B → Bool}
    (same : ∀ a b, R a b → p a = q b) {as : List A} {bs : List B} (pairs : List.Forall₂ R as bs) :
    List.Forall₂ R (as.filter p) (bs.filter q) := by
  induction pairs with
  | nil => exact .nil
  | @cons a b _ _ pair _ ih =>
    rw [List.filter_cons, List.filter_cons, same a b pair]
    split
    · exact .cons pair ih
    · exact ih

theorem paired_foldl {A B S : Type} {R : A → B → Prop} {f : S → A → S} {g : S → B → S}
    (same : ∀ s a b, R a b → f s a = g s b) {as : List A} {bs : List B}
    (pairs : List.Forall₂ R as bs) (s : S) : as.foldl f s = bs.foldl g s := by
  induction pairs generalizing s with
  | nil => rfl
  | @cons a b _ _ pair _ ih => rw [List.foldl_cons, List.foldl_cons, same s a b pair, ih]

/-- What the first so many leave out comes after each of them. -/
theorem take_before {A : Type} {r : A → A → Prop} {xs : List A} {n : Nat} {x y : A}
    (sorted : xs.Pairwise r) (took : x ∈ xs.take n) (left : y ∈ xs.drop n) : r x y := by
  rw [← List.take_append_drop n xs] at sorted
  exact (List.pairwise_append.mp sorted).2.2 x took y left

end Lists
