import OpenOms.MarketData.Symbology
import Mathlib.Data.List.Induction

/-!
The core's handle on the market data gateway. Each subscription belongs to an
owner, and an instrument stays held while any owner wants it.
-/
namespace OmsInterests
open OmsMarketData

abbrev Owners := Std.ExtTreeMap Int (InstrumentRef × Std.ExtTreeSet String)

/-- `notified` counts how often the watchers of `held` have been woken. -/
structure Interests where
  held : Held
  owners : Owners
  notified : Nat

def Interests.new : Interests := ⟨∅, ∅, 0⟩

def want (owner : String) (owners : Owners) (i : InstrumentRef) : Owners :=
  let who := (owners[i.id]?).elim ∅ Prod.snd
  owners.insert i.id (i, who.insert owner)

def letGo (owner : String) (owners : Owners) (id : Int) : Owners :=
  owners.modify id fun (i, who) => (i, who.erase owner)

inductive Op where
  | subscribe (owner : String) (instruments : List InstrumentRef)
  | unsubscribe (owner : String) (instrumentIds : List Int)
  | unsubscribeOwner (owner : String)
  deriving DecidableEq, Repr

def change (owners : Owners) : Op → Owners
  | .subscribe owner instruments => instruments.foldl (want owner) owners
  | .unsubscribe owner instrumentIds => instrumentIds.foldl (letGo owner) owners
  | .unsubscribeOwner owner => owners.map fun _ (i, who) => (i, who.erase owner)

def retain (owners : Owners) : Owners := owners.filter fun _ (_, who) => !who.isEmpty

def union (owners : Owners) : Held := owners.map fun _ (i, _) => i

def update (s : Interests) (op : Op) : Interests :=
  let owners := retain (change s.owners op)
  let latest := union owners
  if s.held = latest then { s with owners }
  else { held := latest, owners, notified := s.notified + 1 }

def after (ops : List Op) : Interests := ops.foldl update .new

def Op.owner : Op → String
  | .subscribe owner _ => owner
  | .unsubscribe owner _ => owner
  | .unsubscribeOwner owner => owner

def wishes (owner : String) (id : Int) (before : Bool) : Op → Bool
  | .subscribe by_ instruments => before || by_ = owner && id ∈ instruments.map InstrumentRef.id
  | .unsubscribe by_ instrumentIds => before && !(by_ = owner && id ∈ instrumentIds)
  | .unsubscribeOwner by_ => before && by_ ≠ owner

/-- What the owner wants after all these operations, from its own ones alone. -/
def Wished (ops : List Op) (owner : String) (id : Int) : Prop :=
  ops.foldl (wishes owner id) false = true

def names (id : Int) : Op → Option InstrumentRef
  | .subscribe _ instruments => instruments.reverse.find? (·.id = id)
  | _ => none

def named (ops : List Op) (id : Int) : Option InstrumentRef :=
  ops.foldl (fun before op => (names id op).or before) none

def holds (owners : Owners) (owner : String) (id : Int) : Bool :=
  (owners[id]?).any fun (_, who) => who.contains owner

def described (owners : Owners) (id : Int) : Option InstrumentRef := (owners[id]?).map Prod.fst

instance (ops : List Op) (owner : String) (id : Int) : Decidable (Wished ops owner id) := by
  unfold Wished
  infer_instance

@[simp] theorem after_snoc (ops : List Op) (op : Op) :
    after (ops ++ [op]) = update (after ops) op := by
  simp [after]

@[simp] theorem named_snoc (ops : List Op) (op : Op) (id : Int) :
    named (ops ++ [op]) id = (names id op).or (named ops id) := by
  simp [named]

theorem compare_same (a b : String) : (compare a b == .eq) = decide (a = b) := by
  rw [Bool.eq_iff_iff]
  simp

theorem holds_want (owner : String) (owners : Owners) (i : InstrumentRef) (o : String) (id : Int) :
    holds (want owner owners i) o id = (holds owners o id || owner = o && i.id = id) := by
  simp only [holds, want, Std.ExtTreeMap.getElem?_insert]
  by_cases same : i.id = id
  · subst same
    cases entry : owners[i.id]? <;>
      simp [Std.ExtTreeSet.contains_insert, compare_same, Bool.or_comm]
  · simp [same]

theorem described_want (owner : String) (owners : Owners) (i : InstrumentRef) (id : Int) :
    described (want owner owners i) id = if i.id = id then some i else described owners id := by
  simp only [described, want, Std.ExtTreeMap.getElem?_insert]
  by_cases same : i.id = id <;> simp [same]

theorem holds_let_go (owner : String) (owners : Owners) (id' : Int) (o : String) (id : Int) :
    holds (letGo owner owners id') o id = (holds owners o id && !(owner = o && id' = id)) := by
  simp only [holds, letGo, Std.ExtTreeMap.getElem?_modify]
  by_cases same : id' = id
  · subst same
    cases entry : owners[id']? <;>
      simp [Std.ExtTreeSet.contains_erase, bne, compare_same, Bool.and_comm]
  · simp [same]

theorem described_let_go (owner : String) (owners : Owners) (id' id : Int) :
    described (letGo owner owners id') id = described owners id := by
  simp only [described, letGo, Std.ExtTreeMap.getElem?_modify]
  by_cases same : id' = id
  · subst same
    simp [Function.comp_def]
  · simp [same]

theorem holds_wants (owner : String) (owners : Owners) (is : List InstrumentRef) (o : String)
    (id : Int) : holds (is.foldl (want owner) owners) o id =
      (holds owners o id || owner = o && id ∈ is.map InstrumentRef.id) := by
  induction is generalizing owners with
  | nil => simp
  | cons i is ih =>
    rw [List.foldl_cons, ih, holds_want, Bool.or_assoc]
    congr 1
    rw [Bool.eq_iff_iff]
    simp only [Bool.or_eq_true, Bool.and_eq_true, decide_eq_true_eq, List.map_cons, List.mem_cons,
      eq_comm (a := i.id)]
    tauto

theorem described_wants (owner : String) (owners : Owners) (is : List InstrumentRef) (id : Int) :
    described (is.foldl (want owner) owners) id =
      (is.reverse.find? (·.id = id)).or (described owners id) := by
  induction is generalizing owners with
  | nil => simp
  | cons i is ih =>
    rw [List.foldl_cons, ih, described_want, List.reverse_cons, List.find?_append, Option.or_assoc]
    congr 1
    by_cases same : i.id = id <;> simp [same]

theorem holds_let_gos (owner : String) (owners : Owners) (ids : List Int) (o : String) (id : Int) :
    holds (ids.foldl (letGo owner) owners) o id =
      (holds owners o id && !(owner = o && id ∈ ids)) := by
  induction ids generalizing owners with
  | nil => simp
  | cons first ids ih =>
    rw [List.foldl_cons, ih, holds_let_go, Bool.and_assoc]
    congr 1
    rw [Bool.eq_iff_iff]
    simp only [Bool.and_eq_true, Bool.not_eq_true', Bool.and_eq_false_iff, decide_eq_false_iff_not,
      List.mem_cons, eq_comm (a := first)]
    tauto

theorem described_let_gos (owner : String) (owners : Owners) (ids : List Int) (id : Int) :
    described (ids.foldl (letGo owner) owners) id = described owners id := by
  induction ids generalizing owners with
  | nil => rfl
  | cons first ids ih => rw [List.foldl_cons, ih, described_let_go]

theorem holds_change (owners : Owners) (op : Op) (o : String) (id : Int) :
    holds (change owners op) o id = wishes o id (holds owners o id) op := by
  cases op with
  | subscribe owner instruments => exact holds_wants owner owners instruments o id
  | unsubscribe owner instrumentIds => exact holds_let_gos owner owners instrumentIds o id
  | unsubscribeOwner owner =>
    simp only [holds, change, Std.ExtTreeMap.getElem?_map, wishes]
    cases entry : owners[id]? <;>
      simp [Std.ExtTreeSet.contains_erase, bne, compare_same, Bool.and_comm]

theorem described_change (owners : Owners) (op : Op) (id : Int) :
    described (change owners op) id = (names id op).or (described owners id) := by
  cases op with
  | subscribe owner instruments => exact described_wants owner owners instruments id
  | unsubscribe owner instrumentIds => exact described_let_gos owner owners instrumentIds id
  | unsubscribeOwner owner =>
    simp only [described, change, Std.ExtTreeMap.getElem?_map, names]
    cases entry : owners[id]? <;> simp

/-- An entry nobody is left in is dropped, so nobody loses anything. -/
theorem holds_retain (owners : Owners) (o : String) (id : Int) :
    holds (retain owners) o id = holds owners o id := by
  simp only [holds, retain, Std.ExtTreeMap.getElem?_filter']
  cases entry : owners[id]? with
  | none => rfl
  | some of_ =>
    obtain ⟨i, who⟩ := of_
    by_cases empty : who = ∅ <;> simp [empty]

theorem described_retain (owners : Owners) (id : Int) (i : InstrumentRef) :
    described (retain owners) id = some i ↔
      described owners id = some i ∧ ∃ o, holds owners o id = true := by
  simp only [holds, described, retain, Std.ExtTreeMap.getElem?_filter']
  cases entry : owners[id]? with
  | none => simp
  | some of_ =>
    obtain ⟨i', who⟩ := of_
    by_cases empty : who = ∅
    · simp [empty]
    · have some_ : ∃ o, o ∈ who := by
        by_contra nobody
        exact empty (Std.ExtTreeSet.eq_empty_iff_forall_not_mem.mpr (not_exists.mp nobody))
      simp [empty, some_]

theorem union_get (owners : Owners) (id : Int) : (union owners)[id]? = described owners id := by
  simp [union, described, Std.ExtTreeMap.getElem?_map]

structure Consistent (s : Interests) (ops : List Op) : Prop where
  wished : ∀ owner id, holds s.owners owner id = true ↔ Wished ops owner id
  someone : ∀ id i, described s.owners id = some i → ∃ owner, holds s.owners owner id = true
  last : ∀ id i, described s.owners id = some i → named ops id = some i
  held : s.held = union s.owners

theorem update_owners (s : Interests) (op : Op) :
    (update s op).owners = retain (change s.owners op) := by
  unfold update
  dsimp only
  split <;> rfl

theorem update_held (s : Interests) (op : Op) :
    (update s op).held = union (retain (change s.owners op)) := by
  unfold update
  dsimp only
  split
  · rename_i same
    exact same
  · rfl

theorem update_notified (s : Interests) (op : Op) :
    (update s op).notified = s.notified + if (update s op).held = s.held then 0 else 1 := by
  unfold update
  dsimp only
  split
  · simp
  · rename_i other
    simp [Ne.symm other]

theorem update_consistent {s : Interests} {ops : List Op} (consistent : Consistent s ops)
    (op : Op) : Consistent (update s op) (ops ++ [op]) := by
  have wished : ∀ owner id, holds (update s op).owners owner id = true ↔
      Wished (ops ++ [op]) owner id := by
    intro owner id
    have before : holds s.owners owner id = ops.foldl (wishes owner id) false := by
      rw [Bool.eq_iff_iff]
      exact consistent.wished owner id
    rw [update_owners, holds_retain, holds_change, before]
    simp [Wished]
  constructor
  · exact wished
  · intro id i there
    rw [update_owners] at there ⊢
    obtain ⟨_, owner, holding⟩ := (described_retain _ id i).mp there
    exact ⟨owner, (holds_retain _ owner id).trans holding⟩
  · intro id i there
    rw [update_owners] at there
    have changed := ((described_retain _ id i).mp there).1
    rw [described_change] at changed
    rw [named_snoc]
    cases here : names id op with
    | some new => rwa [here] at changed
    | none =>
      rw [here, Option.none_or] at changed
      rw [Option.none_or]
      exact consistent.last id i changed
  · rw [update_held, update_owners]

theorem after_consistent (ops : List Op) : Consistent (after ops) ops := by
  induction ops using List.reverseRecOn with
  | nil =>
    constructor
    · intro owner id
      simp [after, Interests.new, holds, Wished]
    · intro id i there
      simp [after, Interests.new, described] at there
    · intro id i there
      simp [after, Interests.new, described] at there
    · refine Std.ExtTreeMap.ext_getElem? ?_
      intro id
      simp [after, Interests.new, union]
  | append_singleton ops op ih =>
    rw [after_snoc]
    exact update_consistent ih op

theorem wishes_other {op : Op} {owner : String} (other : op.owner ≠ owner) (id : Int)
    (before : Bool) : wishes owner id before op = before := by
  cases op <;> simp_all [wishes, Op.owner]

/-- The held set is exactly what some owner wants, each instrument as it was described
    last; an owner's operation leaves what every other owner holds, and the watchers
    are woken when the held set changes and at no other time. -/
theorem ownership_exact (ops : List Op) :
    (∀ id, id ∈ (after ops).held ↔ ∃ owner, Wished ops owner id) ∧
      (∀ id i, (after ops).held[id]? = some i → named ops id = some i) ∧
      (∀ owner id, holds (after ops).owners owner id = true ↔ Wished ops owner id) ∧
      ∀ op, (∀ owner, op.owner ≠ owner → ∀ id,
          holds (after (ops ++ [op])).owners owner id = holds (after ops).owners owner id) ∧
        (after (ops ++ [op])).notified = (after ops).notified +
          if (after (ops ++ [op])).held = (after ops).held then 0 else 1 := by
  have consistent := after_consistent ops
  have held : ∀ id, (after ops).held[id]? = described (after ops).owners id := by
    intro id
    rw [consistent.held, union_get]
  refine ⟨?_, ?_, consistent.wished, ?_⟩
  · intro id
    rw [Std.ExtTreeMap.mem_iff_isSome_getElem?, held, Option.isSome_iff_exists]
    simp only [← consistent.wished]
    constructor
    · intro there
      obtain ⟨i, there⟩ := there
      exact consistent.someone id i there
    · intro holding
      obtain ⟨owner, holding⟩ := holding
      obtain ⟨entry, there, _⟩ := (Option.any_eq_true _ _).mp holding
      exact ⟨entry.1, by rw [described, there, Option.map_some]⟩
  · intro id i there
    exact consistent.last id i ((held id).symm.trans there)
  · intro op
    constructor
    · intro owner other id
      rw [after_snoc, update_owners, holds_retain, holds_change, wishes_other other]
    · rw [after_snoc]
      exact update_notified (after ops) op

def btc : InstrumentRef := ⟨7, "BTCUSDT".toList, some "SPOT", some "CRYPTO", some "BINANCE"⟩

/-- Two owners share it, one lets go twice, the other altogether. -/
def sharedThenReleased : List Op :=
  [.subscribe "held" [btc, btc], .subscribe "strategy:s" [btc], .unsubscribe "held" [7, 7, 8],
    .unsubscribe "held" [7]]

theorem shared_stays_held : holds (after (sharedThenReleased ++ [.unsubscribeOwner "x"])).owners
      "strategy:s" 7 = true ∧ 7 ∈ (after sharedThenReleased).held := by
  obtain ⟨held, _, wished, later⟩ := ownership_exact sharedThenReleased
  constructor
  · rw [(later (.unsubscribeOwner "x")).1 "strategy:s" (by decide) 7, wished]
    decide
  · exact (held 7).mpr ⟨"strategy:s", by decide⟩

end OmsInterests
