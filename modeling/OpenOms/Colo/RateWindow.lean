import OpenOms.Colo.RiskBook
import OpenOms.Library.Histories

/-!
The order rate of a risk book over all its calls: which checks passed in the last
second, and which of them the book's window has counted.
-/
namespace OmsRateWindow
open OmsGuard OmsColo Histories

inductive Call where
  | check (o : OrderIntent) (reference : ℚ) (now : Nat)
  | setLimits (limits : Limits) (version : Nat)
  | setPositions (positions : List Position)
  | onFill (symbol : String) (buy : Bool) (qty : ℚ)
  | halt
  | resume
  deriving DecidableEq, Repr

def call (book : RiskBook) : Call → RiskBook
  | .check o reference now => (book.check o reference now).2
  | .setLimits limits version => book.setLimits limits version
  | .setPositions positions => book.setPositions positions
  | .onFill symbol buy qty => book.onFill symbol buy qty
  | .halt => book.halt
  | .resume => book.resume

def after (book : RiskBook) (calls : List Call) : RiskBook := calls.foldl call book

def Call.time : Call → Option Nat
  | .check _ _ now => some now
  | _ => none

structure Pass where
  time : Nat
  capped : Bool
  deriving DecidableEq, Repr

def pass (book : RiskBook) : Call → Option Pass
  | .check o reference now =>
    if (book.check o reference now).1 = .ok () then
      some ⟨now, book.limits.maxOrdersPerSec.isSome⟩
    else none
  | _ => none

def passes (book : RiskBook) : List Call → List Pass
  | [] => []
  | c :: calls => (pass book c).toList ++ passes (call book c) calls

def inLastSecond (now : Nat) (ps : List Pass) : List Pass := ps.filter fun p => now - p.time < 1000

def WithinCap (book : RiskBook) (before : List Call) : Call → Prop
  | .check o reference now =>
    ∀ cap ∈ (after book before).limits.maxOrdersPerSec,
      ((after book before).check o reference now).1 = .ok () →
        (inLastSecond now (passes book before)).length + 1 ≤ cap
  | _ => True

/-- No other limit refuses the order and the window has room for it under the cap, but
    none is left beside the checks of the last second that passed under no cap. -/
def Uncounted (book : RiskBook) (before : List Call) : Call → Prop
  | .check o reference now =>
    (after book before).checkOrder o reference = .ok () ∧
      ∃ cap ∈ (after book before).limits.maxOrdersPerSec,
        (recent (after book before).window now).length < cap ∧
          cap ≤ (recent (after book before).window now).length +
            ((inLastSecond now (passes book before)).filter fun p => !p.capped).length
  | _ => False

instance (book : RiskBook) (before : List Call) (c : Call) :
    Decidable (WithinCap book before c) := by
  unfold WithinCap
  split <;> infer_instance

instance (book : RiskBook) (before : List Call) (c : Call) :
    Decidable (Uncounted book before c) := by
  unfold Uncounted
  split <;> infer_instance

@[simp] theorem after_snoc (book : RiskBook) (calls : List Call) (c : Call) :
    after book (calls ++ [c]) = call (after book calls) c := by
  simp [after]

@[simp] theorem passes_snoc (book : RiskBook) (calls : List Call) (c : Call) :
    passes book (calls ++ [c]) = passes book calls ++ (pass (after book calls) c).toList := by
  induction calls generalizing book with
  | nil => simp [passes, after]
  | cons first calls ih =>
    rw [List.cons_append, passes, passes, ih, List.append_assoc]
    rfl

theorem recent_filter {window : List Nat} (sorted : window.Pairwise (· ≤ ·)) (now : Nat) :
    recent window now = window.filter fun t => now - t < 1000 := by
  induction window with
  | nil => rfl
  | cons t rest ih =>
    obtain ⟨first, tail⟩ := List.pairwise_cons.mp sorted
    unfold recent at ih ⊢
    by_cases old : now - t ≥ 1000
    · have gone : ¬ now - t < 1000 := by omega
      simp only [List.dropWhile_cons, List.filter_cons, old, gone, decide_true, decide_false,
        if_true]
      exact ih tail
    · have young : now - t < 1000 := by omega
      have all : ∀ later ∈ rest, now - later < 1000 := by
        intro later member
        have order := first later member
        omega
      simp only [List.dropWhile_cons, List.filter_cons, old, young, decide_true, decide_false]
      simp only [Bool.false_eq_true, if_false, if_true]
      rw [List.filter_eq_self.mpr (by simpa using all)]

def Past (calls : List Call) (now : Nat) : Prop := ∀ c ∈ calls, ∀ t ∈ c.time, t ≤ now

/-- The window is in order, its entries are checks made, and from then on it holds
    the checks of the last second that passed under a cap. -/
structure Counting (book : RiskBook) (calls : List Call) : Prop where
  sorted : (after book calls).window.Pairwise (· ≤ ·)
  made : ∀ t ∈ (after book calls).window, ∃ c ∈ calls, t ∈ c.time
  counted : ∀ now, Past calls now → recent (after book calls).window now =
    ((inLastSecond now (passes book calls)).filter Pass.capped).map Pass.time

theorem recent_sorted {window : List Nat} (sorted : window.Pairwise (· ≤ ·)) (now : Nat) :
    (recent window now).Pairwise (· ≤ ·) :=
  sorted.sublist (List.dropWhile_sublist _)

theorem recent_recent {window : List Nat} (sorted : window.Pairwise (· ≤ ·)) {now later : Nat}
    (forward : now ≤ later) : recent (recent window now) later = recent window later := by
  rw [recent_filter (recent_sorted sorted now), recent_filter sorted, recent_filter sorted,
    List.filter_filter]
  refine List.filter_congr ?_
  intro t _
  rw [Bool.eq_iff_iff]
  simp only [Bool.and_eq_true, decide_eq_true_eq]
  omega

theorem check_cases (book : RiskBook) (o : OrderIntent) (reference : ℚ) (now : Nat) :
    ((∃ reject, (book.check o reference now).1 = .error reject) ∧
        ((book.check o reference now).2.window = book.window ∨
          (book.check o reference now).2.window = recent book.window now)) ∨
      (book.limits.maxOrdersPerSec = none ∧ (book.check o reference now).1 = .ok () ∧
        (book.check o reference now).2.window = book.window) ∨
      ∃ cap, book.limits.maxOrdersPerSec = some cap ∧ (recent book.window now).length < cap ∧
        (book.check o reference now).1 = .ok () ∧
        (book.check o reference now).2.window = recent book.window now ++ [now] := by
  unfold RiskBook.check
  split
  · rename_i reject _
    exact Or.inl ⟨⟨reject, rfl⟩, Or.inl rfl⟩
  · split
    · rename_i uncapped
      exact Or.inr (Or.inl ⟨uncapped, rfl, rfl⟩)
    · rename_i cap capped
      dsimp only
      split
      · exact Or.inl ⟨⟨_, rfl⟩, Or.inr rfl⟩
      · rename_i room
        exact Or.inr (Or.inr ⟨cap, capped, by omega, rfl, rfl⟩)

theorem check_passes_iff {book : RiskBook} {cap : Nat}
    (capped : book.limits.maxOrdersPerSec = some cap) (o : OrderIntent) (reference : ℚ)
    (now : Nat) : (book.check o reference now).1 = .ok () ↔
      book.checkOrder o reference = .ok () ∧ (recent book.window now).length < cap := by
  unfold RiskBook.check
  split
  · rename_i reject refused
    simp [refused]
  · rename_i allowed
    rw [capped]
    dsimp only
    split
    · rename_i full
      simp [allowed, Nat.not_lt.mpr full]
    · rename_i room
      simp [allowed, Nat.lt_of_not_le room]

theorem past_snoc {calls : List Call} {c : Call} {now : Nat} :
    Past (calls ++ [c]) now ↔ Past calls now ∧ ∀ t ∈ c.time, t ≤ now := by
  simp [Past, or_imp, forall_and]

theorem start_counting (limits : Limits) (version : Nat) : Counting (.new limits version) [] := by
  constructor
  · exact List.Pairwise.nil
  · intro t member
    cases member
  · intro now _
    rfl

theorem quiet_counting {book : RiskBook} {calls : List Call} {c : Call}
    (counting : Counting book calls)
    (same : (after book (calls ++ [c])).window = (after book calls).window)
    (none_ : pass (after book calls) c = none) : Counting book (calls ++ [c]) := by
  constructor
  · rw [same]
    exact counting.sorted
  · intro t member
    rw [same] at member
    obtain ⟨made, there, at_⟩ := counting.made t member
    exact ⟨made, List.mem_append_left _ there, at_⟩
  · intro now past
    rw [same, passes_snoc, none_, Option.toList_none, List.append_nil]
    exact counting.counted now (past_snoc.mp past).1

theorem check_counting {book : RiskBook} {calls : List Call} {o : OrderIntent} {reference : ℚ}
    {now : Nat} (counting : Counting book calls) (forward : Past calls now) :
    Counting book (calls ++ [.check o reference now]) := by
  have entries : ∀ t ∈ recent (after book calls).window now, t ∈ (after book calls).window :=
    fun t member => (List.dropWhile_sublist _).subset member
  have before : ∀ t ∈ (after book calls).window, t ≤ now := by
    intro t member
    obtain ⟨made, there, at_⟩ := counting.made t member
    exact forward made there t at_
  have earlier : ∀ t ∈ (after book calls).window,
      ∃ c ∈ calls ++ [.check o reference now], t ∈ c.time := by
    intro t member
    obtain ⟨made, there, at_⟩ := counting.made t member
    exact ⟨made, List.mem_append_left _ there, at_⟩
  have later : ∀ then_, Past (calls ++ [.check o reference now]) then_ →
      Past calls then_ ∧ now ≤ then_ := by
    intro then_ past
    obtain ⟨old, new⟩ := past_snoc.mp past
    exact ⟨old, new now rfl⟩
  rcases check_cases (after book calls) o reference now with
    ⟨⟨reject, refused⟩, kept⟩ | ⟨uncapped, passed, kept⟩ | ⟨cap, capped, room, passed, pushed⟩
  · have none_ : pass (after book calls) (.check o reference now) = none := by
      simp [pass, refused]
    rcases kept with same | pruned
    · exact quiet_counting counting (by simpa [call] using same) none_
    · constructor
      · rw [after_snoc, call, pruned]
        exact recent_sorted counting.sorted now
      · intro t member
        rw [after_snoc, call, pruned] at member
        exact earlier t (entries t member)
      · intro then_ past
        rw [after_snoc, call, pruned, recent_recent counting.sorted (later then_ past).2,
          passes_snoc, none_, Option.toList_none, List.append_nil]
        exact counting.counted then_ (later then_ past).1
  · have some_ : pass (after book calls) (.check o reference now) = some ⟨now, false⟩ := by
      simp [pass, passed, uncapped]
    constructor
    · rw [after_snoc, call, kept]
      exact counting.sorted
    · intro t member
      rw [after_snoc, call, kept] at member
      exact earlier t member
    · intro then_ past
      rw [after_snoc, call, kept, passes_snoc, some_, counting.counted then_ (later then_ past).1]
      by_cases young : then_ - now < 1000 <;> simp [inLastSecond, young]
  · have some_ : pass (after book calls) (.check o reference now) = some ⟨now, true⟩ := by
      simp [pass, passed, capped]
    have sorted : (recent (after book calls).window now ++ [now]).Pairwise (· ≤ ·) := by
      refine List.pairwise_append.mpr ⟨?_, List.pairwise_singleton _ _, ?_⟩
      · exact recent_sorted counting.sorted now
      · intro t member last new
        rw [List.mem_singleton.mp new]
        exact before t (entries t member)
    constructor
    · rw [after_snoc, call, pushed]
      exact sorted
    · intro t member
      rw [after_snoc, call, pushed] at member
      rcases List.mem_append.mp member with old | new
      · exact earlier t (entries t old)
      · rw [List.mem_singleton.mp new]
        exact ⟨.check o reference now, by simp, rfl⟩
    · intro then_ past
      have old := counting.counted then_ (later then_ past).1
      rw [← recent_recent counting.sorted (later then_ past).2,
        recent_filter (recent_sorted counting.sorted now)] at old
      rw [after_snoc, call, pushed, recent_filter sorted, List.filter_append, old, passes_snoc,
        some_]
      by_cases young : then_ - now < 1000 <;> simp [inLastSecond, young]

theorem call_counting {book : RiskBook} {calls : List Call} {c : Call}
    (counting : Counting book calls) (forward : ∀ now ∈ c.time, Past calls now) :
    Counting book (calls ++ [c]) := by
  cases c with
  | check o reference now => exact check_counting counting (forward now rfl)
  | setLimits limits version => exact quiet_counting counting (by simp [call, RiskBook.setLimits]) rfl
  | setPositions positions =>
    exact quiet_counting counting (by simp [call, RiskBook.setPositions]) rfl
  | onFill symbol buy qty => exact quiet_counting counting (by simp [call, RiskBook.onFill]) rfl
  | halt => exact quiet_counting counting (by simp [call, RiskBook.halt]) rfl
  | resume => exact quiet_counting counting (by simp [call, RiskBook.resume]) rfl

theorem within_cap_iff {book : RiskBook} {calls : List Call} {c : Call}
    (counting : Counting book calls) (forward : ∀ now ∈ c.time, Past calls now) :
    WithinCap book calls c ↔ ¬ Uncounted book calls c := by
  cases c with
  | check o reference now =>
    have split : (inLastSecond now (passes book calls)).length =
        (recent (after book calls).window now).length +
          ((inLastSecond now (passes book calls)).filter fun p => !p.capped).length := by
      rw [counting.counted now (forward now rfl), List.length_map]
      exact List.length_eq_length_filter_add Pass.capped
    constructor
    · intro within
      rintro ⟨allowed, cap, capped, room, full⟩
      have bound := within cap capped ((check_passes_iff capped o reference now).mpr ⟨allowed, room⟩)
      omega
    · intro counted cap capped passed
      obtain ⟨allowed, room⟩ := (check_passes_iff capped o reference now).mp passed
      by_contra over_
      exact counted ⟨allowed, cap, capped, room, by omega⟩
  | _ => simp [WithinCap, Uncounted]

/-- With the clock going forward, the checks that pass under a cap are within it
    exactly when those that passed under none always leave them room. -/
theorem rate_cap_holds_iff (limits : Limits) (version : Nat) (calls : List Call)
    (forward : (calls.filterMap Call.time).Pairwise (· ≤ ·)) :
    AtEach (WithinCap (.new limits version)) calls ↔
      AtEach (fun before c => ¬ Uncounted (.new limits version) before c) calls := by
  have lawful : AtEach (fun before c => ∀ now ∈ c.time, Past before now) calls := by
    refine at_each_split.mpr ?_
    intro ahead c behind split now at_ earlier there t time
    rw [split, List.filterMap_append, List.filterMap_cons_some at_] at forward
    exact (List.pairwise_append.mp forward).2.2 t
      (List.mem_filterMap.mpr ⟨earlier, there, time⟩) now (by simp)
  exact after_each_iff (fun _ _ counting forward _ => call_counting counting forward)
    (fun _ _ counting forward => within_cap_iff counting forward) (start_counting limits version)
    lawful

def order (now : Nat) : Call := .check ⟨"BTCUSDT", "USDT", true, 1, 100⟩ 100 now

def capOf (cap : Nat) : Call := .setLimits { noLimits with maxOrdersPerSec := some cap } 2

def lowered : List Call :=
  [capOf 2, order 0, order 400, order 900, capOf 1, order 1200, order 1400]

theorem lowered_holds : AtEach (WithinCap (.new noLimits 1)) lowered :=
  (rate_cap_holds_iff noLimits 1 lowered (by decide)).mpr (by decide +kernel)

/-- Three orders without a cap, one more in the same second under a cap of one. -/
def introduced : List Call := [order 0, order 100, order 200, capOf 1, order 500]

theorem introduced_cap_broken :
    (introduced.filterMap Call.time).Pairwise (· ≤ ·) ∧
      ¬ AtEach (WithinCap (.new noLimits 1)) introduced :=
  ⟨by decide, by decide +kernel⟩

end OmsRateWindow
