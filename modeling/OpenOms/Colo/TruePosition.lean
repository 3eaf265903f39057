import OpenOms.Colo.RiskBook
import OpenOms.Library.Lists
import OpenOms.Library.Runs
import Mathlib.Algebra.Order.BigOperators.Group.List
import Mathlib.Data.List.Induction
import Mathlib.Tactic.Linarith
import Mathlib.Tactic.Ring

/-!
The true position behind a risk book. An order that has passed fills at any later
time, the program tells the book of its fills when it hears of them, and the OMS
replaces the book's positions with what it had booked some time before.
-/
namespace OmsTruePosition
open OmsColo Lists Runs

structure Fill where
  symbol : String
  buy : Bool
  qty : ℚ
  deriving DecidableEq, Repr

structure OpenOrder where
  symbol : String
  buy : Bool
  left : ℚ
  sized : 0 ≤ left
  deriving DecidableEq, Repr

def OpenOrder.fill (order : OpenOrder) (qty : ℚ) (fits : qty ≤ order.left) : OpenOrder :=
  { order with left := order.left - qty, sized := sub_nonneg.mpr fits }

/-- `heard` counts the fills the program has told the book, `booked` those the
    OMS has booked, both in the order they were made. `basis` is what the book's
    positions were last set to, when `since` fills had been told. -/
structure Trading where
  book : RiskBook
  start : List Position
  basis : List Position
  since : Nat
  open_ : List OpenOrder
  fills : List Fill
  heard : Nat
  booked : Nat
  deriving DecidableEq, Repr

def Trading.begin (book : RiskBook) (start : List Position) : Trading :=
  ⟨book, start, book.positions, 0, [], [], 0, 0⟩

def addFills (positions : List Position) (fills : List Fill) : List Position :=
  fills.foldl (fun positions f => addFill positions f.symbol f.buy f.qty) positions

def Trading.positionsAt (s : Trading) (count : Nat) : List Position :=
  addFills (s.start.foldl assign []) (s.fills.take count)

def Trading.position (s : Trading) (symbol : String) : ℚ :=
  positionOf (s.positionsAt s.fills.length) symbol

inductive Action where
  | check (o : OrderIntent) (reference : ℚ) (now : Nat)
  | fill (i : Nat) (qty : ℚ)
  | close (i : Nat)
  | hear
  | book
  -- the positions as they were when the OMS had booked `count` fills
  | setPositions (count : Nat)
  deriving DecidableEq, Repr

/-- A passed order goes to the venue, which takes none of nothing. -/
def place (s : Trading) (o : OrderIntent) : Trading :=
  if sized : 0 < o.qty then
    { s with open_ := s.open_ ++ [⟨o.symbol, o.buy, o.qty, sized.le⟩] }
  else s

def step (s : Trading) : Action → Option Trading
  | .check o reference now =>
    let (verdict, book) := s.book.check o reference now
    match verdict with
    | .ok () => some (place { s with book } o)
    | .error _ => some { s with book }
  | .fill i qty =>
    match s.open_[i]? with
    | none => none
    | some order =>
      if fits : 0 < qty ∧ qty ≤ order.left then
        some { s with
          open_ := s.open_.set i (order.fill qty fits.2)
          fills := s.fills ++ [⟨order.symbol, order.buy, qty⟩] }
      else none
  | .close i => if i < s.open_.length then some { s with open_ := s.open_.eraseIdx i } else none
  | .hear =>
    match s.fills[s.heard]? with
    | none => none
    | some f =>
      some { s with book := s.book.onFill f.symbol f.buy f.qty, heard := s.heard + 1 }
  | .book => if s.booked < s.fills.length then some { s with booked := s.booked + 1 } else none
  | .setPositions count =>
    if count ≤ s.booked then
      some { s with
        book := s.book.setPositions (s.positionsAt count)
        basis := s.positionsAt count
        since := s.heard }
    else none

def openPart (symbol : String) (buy : Bool) (o : OpenOrder) : ℚ :=
  if o.symbol = symbol ∧ o.buy = buy then o.left else 0

def openQty (symbol : String) (buy : Bool) (orders : List OpenOrder) : ℚ :=
  (orders.map (openPart symbol buy)).sum

def Trading.told (s : Trading) (symbol : String) : ℚ :=
  positionOf (addFills s.basis ((s.fills.take s.heard).drop s.since)) symbol

/-- An order is checked while the fills the book was told do not cover the true
    position with what is open on the order's side. -/
def Lags (symbol : String) (s : Trading) : Action → Prop
  | .check o _ _ =>
    o.symbol = symbol ∧ 0 < o.qty ∧
      if o.buy then s.told symbol < s.position symbol + openQty symbol true s.open_
      else s.position symbol - openQty symbol false s.open_ < s.told symbol
  | _ => False

instance (symbol : String) (s : Trading) (a : Action) : Decidable (Lags symbol s a) := by
  unfold Lags
  split <;> infer_instance

/-- Everything open on either side leaves the true position within the limit. -/
structure Covered (symbol : String) (max : ℚ) (s : Trading) : Prop where
  buys : s.position symbol + openQty symbol true s.open_ ≤ max
  sells : -max ≤ s.position symbol - openQty symbol false s.open_

theorem open_part_nonneg (symbol : String) (buy : Bool) (o : OpenOrder) :
    0 ≤ openPart symbol buy o := by
  unfold openPart
  split
  · exact o.sized
  · exact le_rfl

theorem open_qty_nonneg (symbol : String) (buy : Bool) (orders : List OpenOrder) :
    0 ≤ openQty symbol buy orders := by
  refine List.sum_nonneg fun part member => ?_
  obtain ⟨o, _, rfl⟩ := List.mem_map.mp member
  exact open_part_nonneg symbol buy o

theorem open_qty_at {orders : List OpenOrder} {i : Nat} {o : OpenOrder}
    (there : orders[i]? = some o) (symbol : String) (buy : Bool) : openQty symbol buy orders =
      openPart symbol buy o + openQty symbol buy (orders.eraseIdx i) := by
  have perm := ((perm_at there).map (openPart symbol buy)).sum_eq
  simpa [openQty] using perm

theorem open_qty_set {orders : List OpenOrder} {i : Nat} {o : OpenOrder}
    (there : orders[i]? = some o) (next : OpenOrder) (symbol : String) (buy : Bool) :
    openQty symbol buy (orders.set i next) =
      openQty symbol buy orders - openPart symbol buy o + openPart symbol buy next := by
  obtain ⟨inside, _⟩ := List.getElem?_eq_some_iff.mp there
  have set_there : (orders.set i next)[i]? = some next := by simp [inside]
  rw [open_qty_at set_there, List.eraseIdx_set_eq, open_qty_at there]
  ring

theorem open_part_fill (o : OpenOrder) (qty : ℚ) (fits : qty ≤ o.left) (symbol : String)
    (buy : Bool) : openPart symbol buy (o.fill qty fits) =
      openPart symbol buy o - if o.symbol = symbol ∧ o.buy = buy then qty else 0 := by
  by_cases ours : o.symbol = symbol ∧ o.buy = buy <;> simp [openPart, OpenOrder.fill, ours]

theorem add_fills_append (positions : List Position) (fills : List Fill) (f : Fill) :
    addFills positions (fills ++ [f]) = addFill (addFills positions fills) f.symbol f.buy f.qty := by
  simp [addFills]

theorem position_filled (s : Trading) (open_ : List OpenOrder) (f : Fill) (symbol : String) :
    Trading.position { s with open_, fills := s.fills ++ [f] } symbol =
      s.position symbol + if f.symbol = symbol then signed f.buy f.qty else 0 := by
  simp only [Trading.position, Trading.positionsAt, List.take_length, add_fills_append,
    position_of_fill]

theorem place_position (s : Trading) (o : OrderIntent) (symbol : String) :
    (place s o).position symbol = s.position symbol := by
  unfold place
  split <;> rfl

theorem place_open (s : Trading) (o : OrderIntent) (symbol : String) (buy : Bool) :
    openQty symbol buy (place s o).open_ = openQty symbol buy s.open_ +
      if o.symbol = symbol ∧ o.buy = buy ∧ 0 < o.qty then o.qty else 0 := by
  unfold place
  by_cases sized : 0 < o.qty
  · simp [sized, openQty, openPart]
  · simp [sized]

theorem fill_covered {symbol : String} {max : ℚ} {s : Trading} (covered : Covered symbol max s)
    {i : Nat} {order : OpenOrder} (there : s.open_[i]? = some order) {qty : ℚ} (positive : 0 < qty)
    (fits : qty ≤ order.left) :
    Covered symbol max { s with
      open_ := s.open_.set i (order.fill qty fits)
      fills := s.fills ++ [⟨order.symbol, order.buy, qty⟩] } := by
  obtain ⟨buys, sells⟩ := covered
  have bought := open_qty_set there (order.fill qty fits) symbol true
  have sold := open_qty_set there (order.fill qty fits) symbol false
  rw [open_part_fill] at bought sold
  refine ⟨?_, ?_⟩ <;> rw [position_filled]
  · change _ + openQty symbol true (s.open_.set i (order.fill qty fits)) ≤ max
    rw [bought]
    cases side : order.buy <;> by_cases own : order.symbol = symbol <;>
      simp [own, signed] <;> linarith
  · change -max ≤ _ - openQty symbol false (s.open_.set i (order.fill qty fits))
    rw [sold]
    cases side : order.buy <;> by_cases own : order.symbol = symbol <;>
      simp [own, signed] <;> linarith

theorem place_covered {symbol : String} {max : ℚ} {s : Trading} (covered : Covered symbol max s)
    {o : OrderIntent} (fits : o.symbol = symbol → 0 < o.qty →
      if o.buy then s.position symbol + openQty symbol true s.open_ + o.qty ≤ max
      else -max ≤ s.position symbol - openQty symbol false s.open_ - o.qty) :
    Covered symbol max (place s o) := by
  obtain ⟨buys, sells⟩ := covered
  refine ⟨?_, ?_⟩ <;> rw [place_position, place_open]
  · split
    · rename_i ours
      obtain ⟨own, buy, sized⟩ := ours
      have fits := fits own sized
      rw [if_pos buy] at fits
      linarith
    · linarith
  · split
    · rename_i ours
      obtain ⟨own, buy, sized⟩ := ours
      have fits := fits own sized
      rw [if_neg (by simp [buy])] at fits
      linarith
    · linarith

theorem close_covered {symbol : String} {max : ℚ} {s : Trading} (covered : Covered symbol max s)
    {i : Nat} {order : OpenOrder} (there : s.open_[i]? = some order) :
    Covered symbol max { s with open_ := s.open_.eraseIdx i } := by
  obtain ⟨buys, sells⟩ := covered
  rw [open_qty_at there] at buys sells
  have bought := open_part_nonneg symbol true order
  have sold := open_part_nonneg symbol false order
  refine ⟨?_, ?_⟩
  · change s.position symbol + openQty symbol true (s.open_.eraseIdx i) ≤ max
    linarith
  · change -max ≤ s.position symbol - openQty symbol false (s.open_.eraseIdx i)
    linarith

structure Followed (s : Trading) : Prop where
  since : s.since ≤ s.heard
  heard : s.heard ≤ s.fills.length
  told : ∀ symbol, positionOf s.book.positions symbol = s.told symbol

theorem begin_followed (book : RiskBook) (start : List Position) :
    Followed (.begin book start) :=
  ⟨le_rfl, Nat.zero_le _, fun _ => rfl⟩

theorem assign_symbols (positions : List Position) (p : Position)
    (unique : (positions.map (·.symbol)).Nodup) :
    ((assign positions p).map (·.symbol)).Nodup := by
  rw [assign, List.map_append, List.nodup_append]
  refine ⟨(unique.sublist (List.filter_sublist.map _)), by simp, ?_⟩
  intro symbol member other isNew same
  obtain ⟨q, kept, rfl⟩ := List.mem_map.mp member
  simp only [List.map_cons, List.map_nil, List.mem_singleton] at isNew
  simp [same, isNew] at kept

theorem collect_symbols (ps positions : List Position)
    (unique : (positions.map (·.symbol)).Nodup) :
    ((ps.foldl assign positions).map (·.symbol)).Nodup := by
  induction ps generalizing positions with
  | nil => exact unique
  | cons p ps ih => exact ih (assign positions p) (assign_symbols positions p unique)

theorem positions_at_symbols (s : Trading) (count : Nat) :
    ((s.positionsAt count).map (·.symbol)).Nodup := by
  rw [Trading.positionsAt, addFills]
  generalize s.fills.take count = fills
  have start := collect_symbols s.start [] (by simp)
  generalize s.start.foldl assign [] = positions at start
  induction fills generalizing positions with
  | nil => exact start
  | cons f fills ih => exact ih _ (assign_symbols positions _ start)

theorem position_collected (ps : List Position) (unique : (ps.map (·.symbol)).Nodup)
    (symbol : String) : positionOf (ps.foldl assign []) symbol = positionOf ps symbol := by
  induction ps using List.reverseRecOn with
  | nil => rfl
  | append_singleton ps p ih =>
    rw [List.map_append, List.nodup_append] at unique
    rw [List.foldl_append, List.foldl_cons, List.foldl_nil, position_of_assign, ih unique.1]
    split
    · rename_i same
      have fresh : ps.find? (·.symbol = symbol) = none := by
        simp only [List.find?_eq_none, decide_eq_true_eq]
        intro q member is
        exact unique.2.2 q.symbol (List.mem_map_of_mem member) p.symbol (by simp)
          (is.trans same.symm)
      simp [positionOf, fresh, same]
    · rename_i other
      simp [positionOf, List.find?_append, other]

theorem hear_followed {s : Trading} (followed : Followed s) {f : Fill}
    (next : s.fills[s.heard]? = some f) :
    Followed { s with book := s.book.onFill f.symbol f.buy f.qty, heard := s.heard + 1 } := by
  obtain ⟨inside, isNext⟩ := List.getElem?_eq_some_iff.mp next
  refine ⟨Nat.le_succ_of_le followed.since, inside, fun symbol => ?_⟩
  have grown : (s.fills.take (s.heard + 1)).drop s.since =
      (s.fills.take s.heard).drop s.since ++ [f] := by
    rw [List.take_succ_eq_append_getElem inside, isNext, List.drop_append_of_le_length]
    simpa using ⟨followed.since, followed.heard.trans' followed.since⟩
  rw [Trading.told, grown, add_fills_append, position_of_fill]
  simp only [RiskBook.onFill, position_of_fill]
  rw [followed.told symbol]
  rfl

theorem set_followed {s : Trading} (followed : Followed s) (count : Nat) :
    Followed { s with
      book := s.book.setPositions (s.positionsAt count)
      basis := s.positionsAt count
      since := s.heard } := by
  refine ⟨le_rfl, followed.heard, fun symbol => ?_⟩
  have nothing : (s.fills.take s.heard).drop s.heard = [] := by simp
  rw [Trading.told, nothing]
  exact position_collected _ (positions_at_symbols s count) symbol

theorem fill_followed {s : Trading} (followed : Followed s) (open_ : List OpenOrder) (f : Fill) :
    Followed { s with open_, fills := s.fills ++ [f] } := by
  refine ⟨followed.since, ?_, fun symbol => ?_⟩
  · rw [List.length_append]
    exact Nat.le_add_right_of_le followed.heard
  · rw [followed.told symbol, Trading.told, Trading.told,
      List.take_append_of_le_length followed.heard]

theorem check_followed {s : Trading} (followed : Followed s) (o : OrderIntent) (reference : ℚ)
    (now : Nat) : Followed { s with book := (s.book.check o reference now).2 } := by
  refine ⟨followed.since, followed.heard, fun symbol => ?_⟩
  obtain ⟨_, positions, _⟩ := check_keeps s.book o reference now
  exact positions ▸ followed.told symbol

theorem place_followed {s : Trading} (followed : Followed s) (o : OrderIntent) :
    Followed (place s o) := by
  unfold place
  split
  · exact ⟨followed.since, followed.heard, followed.told⟩
  · exact followed

theorem step_followed {s t : Trading} {a : Action} (followed : Followed s)
    (next : step s a = some t) : Followed t := by
  cases a with
  | check o reference now =>
    simp only [step] at next
    split at next <;> cases next
    · exact place_followed (check_followed followed o reference now) o
    · exact check_followed followed o reference now
  | fill i qty =>
    simp only [step] at next
    repeat' split at next
    all_goals cases next
    exact fill_followed followed _ _
  | close i =>
    simp only [step] at next
    split at next <;> cases next
    exact ⟨followed.since, followed.heard, followed.told⟩
  | hear =>
    simp only [step] at next
    split at next
    · cases next
    · rename_i f there
      cases next
      exact hear_followed followed there
  | book =>
    simp only [step] at next
    split at next <;> cases next
    exact ⟨followed.since, followed.heard, followed.told⟩
  | setPositions count =>
    simp only [step] at next
    split at next <;> cases next
    exact set_followed followed count

theorem check_within {book : RiskBook} {o : OrderIntent} {reference : ℚ} {now : Nat}
    (passes : (book.check o reference now).1 = .ok ()) {max : ℚ}
    (limit : book.limits.maxPositionQty = some max) :
    |positionOf book.positions o.symbol + signed o.buy o.qty| ≤ max := by
  have ok : book.checkOrder o reference = .ok () := by
    unfold RiskBook.check at passes
    split at passes
    · cases passes
    · assumption
  by_contra past
  rw [not_le] at past
  simp only [RiskBook.checkOrder, limit, within, rejectIf, past, decide_true, if_true, bind,
    Except.bind] at ok
  repeat' split at ok
  all_goals cases ok

theorem check_covered {symbol : String} {max : ℚ} {s : Trading} (covered : Covered symbol max s)
    (followed : Followed s) (limit : s.book.limits.maxPositionQty = some max) {o : OrderIntent}
    {reference : ℚ} {now : Nat} (ok : ¬ Lags symbol s (.check o reference now))
    (passes : (s.book.check o reference now).1 = .ok ()) :
    Covered symbol max (place { s with book := (s.book.check o reference now).2 } o) := by
  refine place_covered (s := { s with book := (s.book.check o reference now).2 })
    ⟨covered.buys, covered.sells⟩ fun own sized => ?_
  have bound := abs_le.mp (check_within passes limit)
  rw [followed.told, own] at bound
  simp only [Lags, own, sized, true_and] at ok
  cases side : o.buy with
  | true =>
    rw [side, if_pos rfl, not_lt] at ok
    have high := bound.2
    rw [side, signed, if_pos rfl] at high
    rw [if_pos rfl]
    exact (add_le_add_left ok o.qty).trans high
  | false =>
    rw [side, if_neg (by simp), not_lt] at ok
    have low := bound.1
    rw [side, signed, if_neg (by simp)] at low
    rw [if_neg (by simp)]
    change -max ≤ s.position symbol - openQty symbol false s.open_ - o.qty
    linarith

structure Inv (symbol : String) (max : ℚ) (s : Trading) : Prop where
  covered : Covered symbol max s
  followed : Followed s
  limit : s.book.limits.maxPositionQty = some max

theorem step_covered {symbol : String} {max : ℚ} {s t : Trading} {a : Action}
    (inv : Inv symbol max s) (ok : ¬ Lags symbol s a) (next : step s a = some t) :
    Covered symbol max t := by
  obtain ⟨covered, followed, limit⟩ := inv
  cases a with
  | check o reference now =>
    simp only [step] at next
    split at next
    · rename_i passed
      cases next
      exact check_covered covered followed limit ok passed
    · cases next
      exact ⟨covered.buys, covered.sells⟩
  | fill i qty =>
    simp only [step] at next
    split at next
    · cases next
    · rename_i order there
      split at next
      · rename_i fits
        cases next
        exact fill_covered covered there fits.1 fits.2
      · cases next
  | close i =>
    simp only [step] at next
    split at next
    · rename_i inside
      cases next
      exact close_covered covered (List.getElem?_eq_getElem inside)
    · cases next
  | hear =>
    simp only [step] at next
    split at next
    · cases next
    · cases next
      exact ⟨covered.buys, covered.sells⟩
  | book =>
    simp only [step] at next
    split at next
    · cases next
      exact ⟨covered.buys, covered.sells⟩
    · cases next
  | setPositions count =>
    simp only [step] at next
    split at next
    · cases next
      exact ⟨covered.buys, covered.sells⟩
    · cases next

theorem step_limits {s t : Trading} {a : Action} (next : step s a = some t) :
    t.book.limits = s.book.limits := by
  have placed : ∀ (s : Trading) (o : OrderIntent), (place s o).book = s.book := by
    intro s o
    unfold place
    split <;> rfl
  cases a with
  | check o reference now =>
    have enforced := (check_keeps s.book o reference now).1
    have limits : (s.book.check o reference now).2.limits = s.book.limits :=
      congrArg Prod.fst enforced
    simp only [step] at next
    split at next <;> cases next
    · rw [placed]
      exact limits
    · exact limits
  | _ =>
    simp only [step] at next
    repeat' split at next
    all_goals cases next
    all_goals rfl

theorem step_inv {symbol : String} {max : ℚ} {s t : Trading} {a : Action}
    (inv : Inv symbol max s) (ok : ¬ Lags symbol s a) (next : step s a = some t) :
    Inv symbol max t :=
  ⟨step_covered inv ok next, step_followed inv.followed next,
    (congrArg (·.maxPositionQty) (step_limits next)).trans inv.limit⟩

theorem covered_within {symbol : String} {max : ℚ} {s : Trading} (covered : Covered symbol max s) :
    |s.position symbol| ≤ max := by
  have bought := open_qty_nonneg symbol true s.open_
  have sold := open_qty_nonneg symbol false s.open_
  obtain ⟨buys, sells⟩ := covered
  exact abs_le.mpr ⟨by linarith, by linarith⟩

/-- The book's limit holds of the true position in every run in which the fills the
    book was told cover it, and what is open on the order's side, at every check. -/
theorem position_limit_holds (book : RiskBook) (start : List Position) (symbol : String) {max : ℚ}
    (limit : book.limits.maxPositionQty = some max)
    (within_ : |(Trading.begin book start).position symbol| ≤ max) {as : List Action}
    (steps : Along step (fun s a => ¬ Lags symbol s a) (.begin book start) as) :
    Throughout step (fun s => |s.position symbol| ≤ max) (.begin book start) as := by
  have covered : Covered symbol max (.begin book start) := by
    obtain ⟨low, high⟩ := abs_le.mp within_
    have none_ : ∀ buy, openQty symbol buy (Trading.begin book start).open_ = 0 := fun _ => rfl
    refine ⟨?_, ?_⟩
    · rw [none_]
      linarith
    · rw [none_]
      linarith
  exact throughout_mono (fun _ inv => covered_within inv.covered)
    (throughout_along (fun _ _ _ inv ok next => step_inv inv ok next)
      ⟨covered, begin_followed book start, limit⟩ steps)

def fiveAtMost : RiskBook := .new { noLimits with maxPositionQty := some 5 } 1

def order (buy : Bool) (qty : ℚ) : Action := .check ⟨"BTCUSDT", "USDT", buy, qty, 100⟩ 100 0

/-- A buy of three is filled and told in two parts, the OMS's position set over the
    first of them; a sell of four passes and fills. -/
def buyThenSell : List Action :=
  [order true 3, .fill 0 2, .hear, .book, .setPositions 1, .fill 0 1, .hear, order false 4,
    .fill 1 4]

theorem buy_then_sell_held : Throughout step (fun s => |s.position "BTCUSDT"| ≤ 5)
    (.begin fiveAtMost []) buyThenSell :=
  position_limit_holds fiveAtMost [] "BTCUSDT" rfl (by decide +kernel) (by decide +kernel)

def twoBuys : List Action := [order true 4, order true 4, .fill 0 4, .fill 1 4]

/-- A buy of four is filled and told, and the OMS's earlier position set over it. -/
def staleSet : List Action :=
  [order true 4, .fill 0 4, .hear, .setPositions 0, order true 4, .fill 1 4]

/-- Either run ends eight long under a limit of five. -/
theorem limit_of_five_broken :
    |(Trading.begin fiveAtMost []).position "BTCUSDT"| ≤ 5 ∧
      (∃ t ∈ run step (.begin fiveAtMost []) twoBuys, ¬ |t.position "BTCUSDT"| ≤ 5) ∧
      ∃ t ∈ run step (.begin fiveAtMost []) staleSet, ¬ |t.position "BTCUSDT"| ≤ 5 :=
  ⟨by decide +kernel, by decide +kernel, by decide +kernel⟩

end OmsTruePosition
