import OpenOms.Colo.DeadMan
import OpenOms.Colo.Runtime
import OpenOms.Library.Histories
import OpenOms.Library.Runs

/-!
Fighting killed strategies at the venue: an order one of them opens is cancelled on
sight, and a sweep cancels what is still open on their accounts, both on one
cancel budget for each strategy. Times are in nanoseconds.
-/
namespace OmsFight
open OmsRisk OmsColo OmsRuntime Trailing Histories Runs

def FIGHT_CANCELS_PER_SEC : Nat := 10

abbrev CancelRate := List Nat

def lastSecond : Horizon := .from SECOND

def allow (rate : CancelRate) (now : Nat) : Bool × CancelRate :=
  let kept := pruned lastSecond id now rate
  if kept.length ≥ FIGHT_CANCELS_PER_SEC then (false, kept) else (true, kept ++ [now])

structure VenueOrder where
  venueOrderId : String
  symbol : String
  deriving DecidableEq, Repr

def fight (killed : Bool) (event : FollowEvent) : Option VenueOrder :=
  match event with
  | .opened venueOrderId _ symbol .. => if killed then some ⟨venueOrderId, symbol⟩ else none
  | _ => none

def toSweep (strategies : List Registered) : List String :=
  (strategies.filter fun s => s.mode = .colocated ∧ s.state = .halted).map (·.code)

structure Try where
  code : String
  order : VenueOrder
  time : Nat
  allowed : Bool
  deriving DecidableEq, Repr

/-- `due` are the strategies the sweep has still to list, `sweep` the one it has
    listed and what it has left of its orders. -/
structure Fighting where
  clock : Nat
  rates : Std.ExtTreeMap String CancelRate
  fighting : Std.ExtTreeMap String Nat
  due : List String
  sweep : Option (String × List VenueOrder)
  tries : List Try

def Fighting.start : Fighting := ⟨0, ∅, ∅, [], none, []⟩

inductive Action where
  | event (strategy : Registered) (event : FollowEvent)
  | tick (strategies : List Registered)
  | list (answer : Option (List VenueOrder))
  | cancelNext
  | enable (code : String)

def ask (s : Fighting) (code : String) (order : VenueOrder) : Bool × Fighting :=
  let (allowed, rate) := allow (s.rates.getD code []) s.clock
  (allowed,
    { s with
      rates := s.rates.insert code rate
      tries := s.tries ++ [⟨code, order, s.clock, allowed⟩] })

def turn (s : Fighting) : Action → Option Fighting
  | .event strategy event =>
    match fight (strategy.state = .halted) event with
    | some order =>
      let fighting := s.fighting.insert strategy.code s.clock
      some (ask { s with fighting } strategy.code order).2
    | none => some s
  | .tick strategies =>
    if s.due = [] ∧ s.sweep = none then some { s with due := toSweep strategies } else none
  | .list answer =>
    match s.sweep, s.due with
    | none, code :: due =>
      match answer with
      | none | some [] => some { s with due }
      | some orders =>
        some { s with due, fighting := s.fighting.insert code s.clock, sweep := some (code, orders) }
    | _, _ => none
  | .cancelNext =>
    match s.sweep with
    | some (code, order :: orders) =>
      let (allowed, asked) := ask s code order
      -- The budget is spent: the rest is left for the next sweep.
      some { asked with sweep := if allowed then some (code, orders) else none }
    | some (_, []) => some { s with sweep := none }
    | none => none
  | .enable code => some { s with fighting := s.fighting.erase code }

def step (s : Fighting) : Nat × Action → Option Fighting
  | (now, a) => if s.clock ≤ now then turn { s with clock := now } a else none

def sent (code : String) (tries : List Try) : List Nat :=
  (tries.filter fun t => t.code = code && t.allowed).map Try.time

def sentInLastSecond (code : String) (now : Nat) (tries : List Try) : Nat :=
  (tries.filter fun t => t.code = code && t.allowed && now - t.time < SECOND).length

/-- A cancel is sent unless as many as the budget has went in the second before it,
    and never are more than these within a second. -/
structure Budgeted (s : Fighting) : Prop where
  exact : AtEach (fun before t => t.allowed = true ↔
    sentInLastSecond t.code t.time before < FIGHT_CANCELS_PER_SEC) s.tries
  bounded : ∀ code now, s.clock ≤ now →
    sentInLastSecond code now s.tries ≤ FIGHT_CANCELS_PER_SEC

theorem sent_live (code : String) (now : Nat) (tries : List Try) :
    (live lastSecond id now (sent code tries)).length = sentInLastSecond code now tries := by
  rw [live, sent, List.filter_map, List.length_map, List.filter_filter]
  refine congrArg List.length (List.filter_congr fun t _ => ?_)
  rw [Bool.eq_iff_iff]
  simp only [lastSecond, Horizon.from, Function.comp_apply, id, Bool.and_eq_true,
    decide_eq_true_eq, Bool.not_eq_true', decide_eq_false_iff_not, Nat.not_le]
  exact and_comm

theorem sent_snoc (code : String) (tries : List Try) (t : Try) :
    sent code (tries ++ [t]) =
      if t.code = code ∧ t.allowed = true then sent code tries ++ [t.time] else sent code tries := by
  simp only [sent, List.filter_append, List.filter_cons, List.filter_nil, Bool.and_eq_true,
    decide_eq_true_eq]
  split <;> simp

structure Counting (s : Fighting) : Prop where
  keeps : ∀ code, Keeps lastSecond id s.clock (sent code s.tries) (s.rates.getD code [])
  budgeted : Budgeted s

theorem start_counting : Counting .start where
  keeps := fun code => by
    simpa [Fighting.start, sent] using keeps_nil 0
  budgeted := by
    constructor
    · trivial
    · intro code now _
      exact Nat.zero_le _

/-- Time passing takes cancels out of the last second and adds none. -/
theorem later_counting {s : Fighting} {now : Nat} (counting : Counting s)
    (forward : s.clock ≤ now) : Counting { s with clock := now } where
  keeps := fun code => keeps_later (counting.keeps code) forward
  budgeted :=
    { exact := counting.budgeted.exact
      bounded := fun code later order =>
        counting.budgeted.bounded code later (Nat.le_trans forward order) }

theorem allow_spec {s : Fighting} (counting : Counting s) (code : String) :
    allow (s.rates.getD code []) s.clock =
      if sentInLastSecond code s.clock s.tries < FIGHT_CANCELS_PER_SEC then
        (true, pruned lastSecond id s.clock (s.rates.getD code []) ++ [s.clock])
      else (false, pruned lastSecond id s.clock (s.rates.getD code [])) := by
  have size : (pruned lastSecond id s.clock (s.rates.getD code [])).length =
      sentInLastSecond code s.clock s.tries := by
    rw [pruned_live (counting.keeps code), sent_live]
  simp only [allow, size, ge_iff_le]
  by_cases room : sentInLastSecond code s.clock s.tries < FIGHT_CANCELS_PER_SEC
  · rw [if_neg (Nat.not_le.mpr room), if_pos room]
  · rw [if_pos (Nat.le_of_not_lt room), if_neg room]

theorem sent_in_snoc (code : String) (now : Nat) (tries : List Try) (t : Try) :
    sentInLastSecond code now (tries ++ [t]) ≤
      sentInLastSecond code now tries + if t.code = code ∧ t.allowed = true then 1 else 0 := by
  rw [sentInLastSecond, List.filter_append, List.length_append, ← sentInLastSecond]
  by_cases counts : t.code = code ∧ t.allowed = true
  · rw [if_pos counts]
    exact Nat.add_le_add_left (List.length_filter_le _ [t]) _
  · have none_ : (t.code = code && t.allowed) = false := by
      simpa using counts
    simp [counts, none_]

theorem in_last_second_later (code : String) (tries : List Try) {now later : Nat}
    (forward : now ≤ later) :
    sentInLastSecond code later tries ≤ sentInLastSecond code now tries := by
  rw [← sent_live, ← sent_live]
  exact live_length_mono forward

theorem ask_counting {s : Fighting} (counting : Counting s) (code : String) (order : VenueOrder) :
    Counting (ask s code order).2 := by
  have decided := allow_spec counting code
  have allowed : (allow (s.rates.getD code []) s.clock).1 = true ↔
      sentInLastSecond code s.clock s.tries < FIGHT_CANCELS_PER_SEC := by
    rw [decided]
    split <;> simp [*]
  refine ⟨?_, ?_, ?_⟩
  · intro other
    simp only [ask, sent_snoc, Std.ExtTreeMap.getD_insert]
    by_cases own : code = other
    · subst own
      have now := keeps_pruned (counting.keeps code)
      rw [decided]
      split
      · have grown := @keeps_snoc _ _ id _ _ s.clock now
        simpa using grown
      · simpa using now
    · simpa [own] using counting.keeps other
  · simp only [ask]
    exact at_each_snoc.mpr ⟨counting.budgeted.exact, allowed⟩
  · intro other now forward
    simp only [ask] at forward ⊢
    refine le_trans (sent_in_snoc other now s.tries _) ?_
    split
    · rename_i counts
      obtain ⟨own, room⟩ := counts
      dsimp only at own room
      subst own
      have before := allowed.mp room
      have now_ := in_last_second_later code s.tries forward
      omega
    · exact counting.budgeted.bounded other now forward

theorem counting_congr {s t : Fighting} (counting : Counting s) (clock : t.clock = s.clock)
    (rates : t.rates = s.rates) (tries : t.tries = s.tries) : Counting t := by
  obtain ⟨keeps, exact_, bounded⟩ := counting
  refine ⟨?_, ?_, ?_⟩
  · rw [clock, rates, tries]
    exact keeps
  · rw [tries]
    exact exact_
  · rw [clock, tries]
    exact bounded

theorem turn_counting {s t : Fighting} {a : Action} (counting : Counting s)
    (turned : turn s a = some t) : Counting t := by
  cases a with
  | event strategy event =>
    simp only [turn] at turned
    split at turned
    · rename_i order _
      cases turned
      refine ask_counting ?_ strategy.code order
      exact counting_congr counting rfl rfl rfl
    · cases turned
      exact counting
  | tick strategies =>
    simp only [turn] at turned
    split at turned
    · cases turned
      exact counting_congr counting rfl rfl rfl
    · cases turned
  | list answer =>
    simp only [turn] at turned
    split at turned
    · split at turned <;> cases turned <;> exact counting_congr counting rfl rfl rfl
    · cases turned
  | cancelNext =>
    simp only [turn] at turned
    split at turned
    · rename_i code order orders _
      cases turned
      exact counting_congr (ask_counting counting code order) rfl rfl rfl
    · cases turned
      exact counting_congr counting rfl rfl rfl
    · cases turned
  | enable code =>
    cases turned
    exact counting_congr counting rfl rfl rfl

theorem step_counting {s t : Fighting} {a : Nat × Action} (counting : Counting s)
    (taken : step s a = some t) : Counting t := by
  obtain ⟨now, a⟩ := a
  simp only [step] at taken
  split at taken
  · rename_i forward
    exact turn_counting (later_counting counting forward) taken
  · cases taken

/-- However fights and sweeps of any strategies are mixed, each strategy's cancels stay
    within its budget and none is held back while that has room. -/
theorem cancels_budgeted (acts : List (Nat × Action)) : Throughout step Budgeted .start acts :=
  throughout_mono (fun _ counting => counting.budgeted)
    (throughout_keeps (fun _ _ _ counting taken => step_counting counting taken) start_counting acts)

end OmsFight
