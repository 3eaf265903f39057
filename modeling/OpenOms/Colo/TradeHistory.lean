import OpenOms.Colo.Follow

/-!
The gap fill over a trade history as the venue sends it: rows of which some cannot be
read, a thousand raw rows to a page. The venue answers every request.
-/
namespace OmsTradeHistory
open OmsBooking OmsFollow Paging

/-- A row of the history. The venue orders by `tradeId` and selects by `time`; the
    other fields are what reading the row's own gives. -/
structure RawTrade where
  pair : String
  tradeId : Nat
  time : Int
  id : Option Nat
  orderId : Option Int
  symbol : Option String
  isBuyer : Option Bool
  qty : Option ℚ
  price : Option ℚ
  id_shown : ∀ shown ∈ id, shown = tradeId
  symbol_shown : ∀ shown ∈ symbol, shown = pair

def readRow (t : RawTrade) : Option ExternalFill := do
  let tradeId ← t.id
  let orderId ← t.orderId
  let symbol ← t.symbol
  let buy ← t.isBuyer
  let qty ← t.qty
  let price ← t.price
  return {
    tradeId
    venueOrderId := toString orderId
    clientOrderId := ""
    symbol
    buy
    qty
    price }

def parseMyTrades (body : List RawTrade) : List ExternalFill := body.filterMap readRow

structure History where
  rows : List RawTrade
  increasing : rows.Pairwise fun a b => a.pair = b.pair → a.tradeId < b.tradeId

def wanted (fromId : Option Nat) (startMs : Int) (t : RawTrade) : Bool :=
  match fromId with
  | some id => decide (id ≤ t.tradeId)
  | none => decide (startMs ≤ t.time)

def History.asked (history : History) (symbol : String) (fromId : Option Nat) (startMs : Int) :
    List RawTrade :=
  history.rows.filter fun t => t.pair = symbol && wanted fromId startMs t

def History.myTrades (history : History) (symbol : String) (fromId : Option Nat) (startMs : Int) :
    List ExternalFill :=
  parseMyTrades ((history.asked symbol fromId startMs).take pageLimit)

/-- The pages of one pair, all their fills handed over. `none` is more pages than the
    fuel reaches. -/
def fillPair (history : History) (symbol : String) (startMs : Int) :
    Nat → Option Nat → Option (List ExternalFill)
  | 0, _ => none
  | fuel + 1, fromId =>
    let page := history.myTrades symbol fromId startMs
    match OmsFollow.nextPage page.length (page.getLast?.map (·.tradeId)) with
    | some next => (fillPair history symbol startMs fuel (some next)).map (page ++ ·)
    | none => some page

def fillGap (history : History) (startMs : Int) (fuel : Nat) :
    List String → Option (List ExternalFill)
  | [] => some []
  | symbol :: rest => do
    let fills ← fillPair history symbol startMs fuel none
    let more ← fillGap history startMs fuel rest
    return fills ++ more

def Covers (history : History) (startMs : Int) (symbols : List String) : Prop :=
  ∃ fuel handed, fillGap history startMs fuel symbols = some handed ∧
    ∀ t ∈ history.rows, startMs ≤ t.time → ∀ fill, readRow t = some fill → fill ∈ handed

/-- A pair's rows in the order its pages show them: from the start time, and after a
    full page by id. -/
def line (history : History) (symbol : String) (startMs : Int) : List RawTrade :=
  let first := (history.asked symbol none startMs).take pageLimit
  if first.length = pageLimit then
    first ++ (first.getLast?.elim [] fun last => history.asked symbol (some (last.tradeId + 1)) startMs)
  else first

/-- No page with an unreadable row is followed by a page with a readable trade that is
    due. -/
def UnreadableLast (history : History) (startMs : Int) (symbol : String) : Prop :=
  ∀ i j u t, (line history symbol startMs)[i]? = some u →
    (line history symbol startMs)[j]? = some t → i / pageLimit < j / pageLimit →
    startMs ≤ t.time → (readRow t).isSome = true → (readRow u).isSome = true

/-- Each pair with a readable trade that is due is asked about, and its unreadable rows
    stand on the last of its pages with such a trade. -/
def Readable (history : History) (startMs : Int) (symbols : List String) : Prop :=
  (∀ t ∈ history.rows, startMs ≤ t.time → (readRow t).isSome = true → t.pair ∈ symbols) ∧
    ∀ symbol ∈ symbols, UnreadableLast history startMs symbol

theorem read_shows {t : RawTrade} {fill : ExternalFill} (read : readRow t = some fill) :
    fill.tradeId = t.tradeId ∧ fill.symbol = t.pair := by
  unfold readRow at read
  simp only [Option.bind_eq_bind, Option.bind_eq_some_iff, Option.pure_def, Option.some.injEq] at read
  obtain ⟨tradeId, id, _, _, symbol, shown, _, _, _, _, _, _, rfl⟩ := read
  exact ⟨t.id_shown tradeId id, t.symbol_shown symbol shown⟩

theorem asked_pair {history : History} {symbol : String} {fromId : Option Nat} {startMs : Int}
    {t : RawTrade} (member : t ∈ history.asked symbol fromId startMs) :
    t ∈ history.rows ∧ t.pair = symbol ∧ wanted fromId startMs t = true := by
  unfold History.asked at member
  simpa only [List.mem_filter, Bool.and_eq_true, decide_eq_true_eq] using member

theorem asked_increasing (history : History) (symbol : String) (fromId : Option Nat)
    (startMs : Int) :
    (history.asked symbol fromId startMs).Pairwise fun a b => a.tradeId < b.tradeId := by
  refine (history.increasing.filter _).imp_of_mem ?_
  intro a b inA inB less
  exact less ((asked_pair inA).2.1.trans (asked_pair inB).2.1.symm)

/-- Past the last row of a full page come the rows it left out. -/
theorem asked_after {history : History} {symbol : String} {id : Nat} {startMs : Int}
    {last : RawTrade}
    (ends : ((history.asked symbol (some id) startMs).take pageLimit).getLast? = some last) :
    history.asked symbol (some (last.tradeId + 1)) startMs =
      (history.asked symbol (some id) startMs).drop pageLimit := by
  have sorted := asked_increasing history symbol (some id) startMs
  have lastIn := List.mem_of_getLast? ends
  have from_ : id ≤ last.tradeId := by
    have wanted_ := (asked_pair (List.mem_of_mem_take lastIn)).2.2
    simpa [wanted] using wanted_
  have narrowed : history.asked symbol (some (last.tradeId + 1)) startMs =
      (history.asked symbol (some id) startMs).filter fun t => last.tradeId + 1 ≤ t.tradeId := by
    unfold History.asked
    rw [List.filter_filter]
    refine List.filter_congr ?_
    intro t _
    rw [Bool.eq_iff_iff]
    simp only [wanted, Bool.and_eq_true, decide_eq_true_eq]
    constructor
    · intro both
      exact ⟨both.2, both.1, by omega⟩
    · intro all
      exact ⟨all.2.1, all.1⟩
  rw [narrowed]
  rw [← List.take_append_drop pageLimit (history.asked symbol (some id) startMs)] at sorted
  obtain ⟨sortedFirst, -, across⟩ := List.pairwise_append.mp sorted
  conv_lhs => rw [← List.take_append_drop pageLimit (history.asked symbol (some id) startMs)]
  rw [List.filter_append]
  have none_ : ((history.asked symbol (some id) startMs).take pageLimit).filter
      (fun t => last.tradeId + 1 ≤ t.tradeId) = [] := by
    rw [List.filter_eq_nil_iff]
    intro t member
    obtain ⟨front, isFront⟩ := List.getLast?_eq_some_iff.mp ends
    rw [isFront] at member sortedFirst
    have order : t.tradeId ≤ last.tradeId := by
      rcases List.mem_append.mp member with before | isLast
      · have := (List.pairwise_append.mp sortedFirst).2.2 t before last (by simp)
        omega
      · rw [List.mem_singleton.mp isLast]
    simp only [decide_eq_true_eq]
    omega
  have all : ((history.asked symbol (some id) startMs).drop pageLimit).filter
      (fun t => last.tradeId + 1 ≤ t.tradeId) =
        (history.asked symbol (some id) startMs).drop pageLimit := by
    rw [List.filter_eq_self]
    intro t member
    have order := across last lastIn t member
    simp only [decide_eq_true_eq]
    omega
  rw [none_, all, List.nil_append]

theorem next_of_full {rows : List RawTrade}
    (full : (parseMyTrades (rows.take pageLimit)).length ≥ pageLimit) :
    ∃ last, (rows.take pageLimit).getLast? = some last ∧
      OmsFollow.nextPage (parseMyTrades (rows.take pageLimit)).length
        ((parseMyTrades (rows.take pageLimit)).getLast?.map (·.tradeId)) =
          some (last.tradeId + 1) := by
  obtain ⟨long, readable⟩ := (full_iff pageLimit readRow rows).mp full
  have some_ : rows.take pageLimit ≠ [] := by
    intro empty
    have width := List.length_take (i := pageLimit) (l := rows)
    rw [empty] at width
    simp only [List.length_nil, pageLimit] at width long
    omega
  obtain ⟨last, ends⟩ := Option.isSome_iff_exists.mp (List.getLast?_isSome.mpr some_)
  obtain ⟨front, isFront⟩ := List.getLast?_eq_some_iff.mp ends
  obtain ⟨fill, read⟩ := Option.isSome_iff_exists.mp (readable last (List.mem_of_getLast? ends))
  have lastFill : (parseMyTrades (rows.take pageLimit)).getLast? = some fill := by
    rw [isFront, parseMyTrades, List.filterMap_append]
    simp [read]
  refine ⟨last, ends, ?_⟩
  rw [OmsFollow.nextPage, Paging.nextPage, if_pos full, lastFill, Option.map_some, Option.map_some,
    (read_shows read).1]

theorem next_of_short {length : Nat} (short : ¬ length ≥ pageLimit) (last : Option Nat) :
    OmsFollow.nextPage length last = none := by
  rw [OmsFollow.nextPage, Paging.nextPage, if_neg short]

theorem read_through_succ (fuel : Nat) (rows : List RawTrade) :
    readThrough pageLimit readRow (fuel + 1) rows =
      if (parseMyTrades (rows.take pageLimit)).length ≥ pageLimit then
        (readThrough pageLimit readRow fuel (rows.drop pageLimit)).map
          (parseMyTrades (rows.take pageLimit) ++ ·)
      else some (parseMyTrades (rows.take pageLimit)) := rfl

theorem fill_pair_from (history : History) (symbol : String) (startMs : Int) (fuel id : Nat) :
    fillPair history symbol startMs fuel (some id) =
      readThrough pageLimit readRow fuel (history.asked symbol (some id) startMs) := by
  induction fuel generalizing id with
  | zero => rfl
  | succ fuel ih =>
    rw [fillPair, read_through_succ, History.myTrades]
    by_cases full :
        (parseMyTrades ((history.asked symbol (some id) startMs).take pageLimit)).length ≥ pageLimit
    · obtain ⟨last, ends, next⟩ := next_of_full full
      rw [if_pos full, next]
      simp only
      rw [ih, asked_after ends]
    · rw [if_neg full, next_of_short full]

theorem line_take (history : History) (symbol : String) (startMs : Int) :
    (line history symbol startMs).take pageLimit =
      (history.asked symbol none startMs).take pageLimit := by
  unfold line
  dsimp only
  split
  · rename_i full
    exact List.take_left' full
  · rw [List.take_take, Nat.min_self]

theorem fill_pair_line (history : History) (symbol : String) (startMs : Int) (fuel : Nat) :
    fillPair history symbol startMs fuel none =
      readThrough pageLimit readRow fuel (line history symbol startMs) := by
  cases fuel with
  | zero => rfl
  | succ fuel =>
    rw [fillPair, read_through_succ, History.myTrades, line_take]
    by_cases full :
        (parseMyTrades ((history.asked symbol none startMs).take pageLimit)).length ≥ pageLimit
    · obtain ⟨last, ends, next⟩ := next_of_full full
      have long := ((full_iff pageLimit readRow _).mp full).1
      have width : ((history.asked symbol none startMs).take pageLimit).length = pageLimit :=
        List.length_take_of_le long
      rw [if_pos full, next]
      simp only
      rw [fill_pair_from, line]
      simp only [width, if_true, ends, Option.elim]
      rw [List.drop_left' width]
    · rw [if_neg full, next_of_short full]

theorem line_increasing (history : History) (symbol : String) (startMs : Int) :
    (line history symbol startMs).Pairwise fun a b => a.tradeId < b.tradeId := by
  have first := (asked_increasing history symbol none startMs).sublist (List.take_sublist pageLimit _)
  unfold line
  dsimp only
  split
  · cases ends : ((history.asked symbol none startMs).take pageLimit).getLast? with
    | none => simpa using first
    | some last =>
      refine List.pairwise_append.mpr ⟨first, asked_increasing _ _ _ _, ?_⟩
      intro a inFirst b later
      have past : last.tradeId + 1 ≤ b.tradeId := by
        have wanted_ := (asked_pair later).2.2
        simpa [wanted] using wanted_
      obtain ⟨front, isFront⟩ := List.getLast?_eq_some_iff.mp ends
      rw [isFront] at inFirst first
      rcases List.mem_append.mp inFirst with before | isLast
      · have := (List.pairwise_append.mp first).2.2 a before last (by simp)
        omega
      · rw [List.mem_singleton.mp isLast]
        omega
  · exact first

theorem mem_line_rows {history : History} {symbol : String} {startMs : Int} {t : RawTrade}
    (member : t ∈ line history symbol startMs) : t ∈ history.rows ∧ t.pair = symbol := by
  have asked_ : ∃ fromId, t ∈ history.asked symbol fromId startMs := by
    unfold line at member
    dsimp only at member
    split at member
    · rcases List.mem_append.mp member with first | later
      · exact ⟨none, List.mem_of_mem_take first⟩
      · cases ends : ((history.asked symbol none startMs).take pageLimit).getLast? with
        | none =>
          rw [ends] at later
          cases later
        | some last =>
          rw [ends] at later
          exact ⟨some (last.tradeId + 1), later⟩
    · exact ⟨none, List.mem_of_mem_take member⟩
  obtain ⟨fromId, asked_⟩ := asked_
  exact ⟨(asked_pair asked_).1, (asked_pair asked_).2.1⟩

theorem due_in_line {history : History} {startMs : Int} {t : RawTrade}
    (there : t ∈ history.rows) (due : startMs ≤ t.time) : t ∈ line history t.pair startMs := by
  have asked_ : t ∈ history.asked t.pair none startMs := by
    unfold History.asked
    simp [there, wanted, due]
  have sorted := asked_increasing history t.pair none startMs
  rw [← List.take_append_drop pageLimit (history.asked t.pair none startMs)] at asked_ sorted
  unfold line
  dsimp only
  rcases List.mem_append.mp asked_ with first | later
  · split
    · exact List.mem_append_left _ first
    · exact first
  · have long : pageLimit ≤ (history.asked t.pair none startMs).length := by
      have some_ := List.length_pos_of_mem later
      rw [List.length_drop] at some_
      omega
    have width : ((history.asked t.pair none startMs).take pageLimit).length = pageLimit :=
      List.length_take_of_le long
    rw [if_pos width]
    refine List.mem_append_right _ ?_
    cases ends : ((history.asked t.pair none startMs).take pageLimit).getLast? with
    | none =>
      rw [List.getLast?_eq_none_iff.mp ends] at width
      cases width
    | some last =>
      have past := (List.pairwise_append.mp sorted).2.2 last (List.mem_of_getLast? ends) t later
      have asked_for : wanted (some (last.tradeId + 1)) startMs t = true := decide_eq_true past
      unfold History.asked
      simp [there, asked_for]

theorem line_place {history : History} {symbol : String} {startMs : Int} {i j : Nat}
    {a b : RawTrade} (at_ : (line history symbol startMs)[i]? = some a)
    (atToo : (line history symbol startMs)[j]? = some b) (same : a.tradeId = b.tradeId) :
    i = j := by
  have sorted := List.pairwise_iff_getElem.mp (line_increasing history symbol startMs)
  obtain ⟨inside, isA⟩ := List.getElem?_eq_some_iff.mp at_
  obtain ⟨insideToo, isB⟩ := List.getElem?_eq_some_iff.mp atToo
  rcases Nat.lt_trichotomy i j with before | equal | after
  · have less := sorted i j inside insideToo before
    rw [isA, isB] at less
    omega
  · exact equal
  · have less := sorted j i insideToo inside after
    rw [isA, isB] at less
    omega

theorem pair_covers_iff {history : History} {symbol : String} {startMs : Int} {fuel : Nat}
    {got : List ExternalFill} (done : fillPair history symbol startMs fuel none = some got) :
    (∀ t ∈ history.rows, t.pair = symbol → startMs ≤ t.time →
      ∀ fill, readRow t = some fill → fill ∈ got) ↔ UnreadableLast history startMs symbol := by
  rw [fill_pair_line] at done
  obtain ⟨full, rfl, readable, ends⟩ := read_through_pages _ _ _ _ _ done
  have positive : 0 < pageLimit := by decide
  have pages : ∀ i, i < (full + 1) * pageLimit ↔ i / pageLimit ≤ full := fun i =>
    (Nat.div_lt_iff_lt_mul positive).symm.trans Nat.lt_succ_iff
  have onPage : ∀ i u, (line history symbol startMs)[i]? = some u → i < (full + 1) * pageLimit →
      u ∈ (line history symbol startMs).take ((full + 1) * pageLimit) := by
    intro i u at_ within
    refine List.mem_of_getElem? (i := i) ?_
    rw [List.getElem?_take, if_pos within]
    exact at_
  constructor
  · intro covers i j u t at_ atToo earlier due read
    obtain ⟨fill, isFill⟩ := Option.isSome_iff_exists.mp read
    obtain ⟨there, pair⟩ := mem_line_rows (List.mem_of_getElem? atToo)
    obtain ⟨its, member, readToo⟩ := List.mem_filterMap.mp (covers t there pair due fill isFill)
    obtain ⟨k, atIts⟩ := List.mem_iff_getElem?.mp member
    rw [List.getElem?_take] at atIts
    split at atIts
    · rename_i within
      have ids := (read_shows isFill).1.symm.trans (read_shows readToo).1
      have place := line_place atToo atIts ids
      have page := (pages k).mp within
      rw [← place] at page
      refine readable u (List.mem_of_getElem? (i := i) ?_)
      rw [List.getElem?_take, if_pos ((Nat.div_lt_iff_lt_mul positive).mp (by omega))]
      exact at_
    · cases atIts
  · intro last t there pair due fill read
    have member := due_in_line there due
    rw [pair] at member
    obtain ⟨j, at_⟩ := List.mem_iff_getElem?.mp member
    by_cases within : j < (full + 1) * pageLimit
    · exact List.mem_filterMap.mpr ⟨t, onPage j t at_ within, read⟩
    · obtain ⟨inside, -⟩ := List.getElem?_eq_some_iff.mp at_
      cases ends with
      | inl short => omega
      | inr stuck =>
        obtain ⟨i, u, atToo, early, unread⟩ := stuck
        have before := (pages i).mp early
        have after := mt (pages j).mpr within
        have readU := last i j u t atToo at_ (by omega) due (by rw [read]; rfl)
        rw [unread] at readU
        cases readU

theorem fill_pair_ends (history : History) (symbol : String) (startMs : Int) {fuel : Nat}
    (enough : 2 * history.rows.length < fuel) :
    ∃ got, fillPair history symbol startMs fuel none = some got := by
  rw [fill_pair_line]
  refine read_through_ends pageLimit readRow (by decide) fuel _ ?_
  have asked_ : ∀ fromId, (history.asked symbol fromId startMs).length ≤ history.rows.length :=
    fun fromId => List.length_filter_le _ _
  have first := List.length_take_le' pageLimit (history.asked symbol none startMs)
  have all := asked_ none
  unfold line
  dsimp only
  split
  · cases ends : ((history.asked symbol none startMs).take pageLimit).getLast? with
    | none =>
      rw [List.length_append]
      simp only [Option.elim, List.length_nil]
      omega
    | some last =>
      have later := asked_ (some (last.tradeId + 1))
      rw [List.length_append]
      simp only [Option.elim]
      omega
  · omega

theorem fill_gap_ends (history : History) (startMs : Int) (symbols : List String) {fuel : Nat}
    (enough : 2 * history.rows.length < fuel) :
    ∃ handed, fillGap history startMs fuel symbols = some handed := by
  induction symbols with
  | nil => exact ⟨[], rfl⟩
  | cons symbol rest ih =>
    obtain ⟨got, first⟩ := fill_pair_ends history symbol startMs enough
    obtain ⟨more, later⟩ := ih
    exact ⟨got ++ more, by simp [fillGap, first, later]⟩

theorem handed_iff {history : History} {startMs : Int} {fuel : Nat} {symbols : List String}
    {handed : List ExternalFill} (done : fillGap history startMs fuel symbols = some handed) :
    (∀ symbol ∈ symbols, ∃ got, fillPair history symbol startMs fuel none = some got) ∧
      ∀ fill, fill ∈ handed ↔ ∃ symbol ∈ symbols, ∃ got,
        fillPair history symbol startMs fuel none = some got ∧ fill ∈ got := by
  induction symbols generalizing handed with
  | nil =>
    cases done
    simp
  | cons symbol rest ih =>
    simp only [fillGap, Option.bind_eq_bind, Option.bind_eq_some_iff, Option.pure_def,
      Option.some.injEq] at done
    obtain ⟨got, first, more, later, rfl⟩ := done
    obtain ⟨each, which⟩ := ih later
    constructor
    · exact List.forall_mem_cons.mpr ⟨⟨got, first⟩, each⟩
    · intro fill
      rw [List.mem_append, which]
      simp [first]

theorem pair_of_fill {history : History} {symbol : String} {startMs : Int} {fuel : Nat}
    {got : List ExternalFill} (done : fillPair history symbol startMs fuel none = some got)
    {fill : ExternalFill} (member : fill ∈ got) : fill.symbol = symbol := by
  rw [fill_pair_line] at done
  obtain ⟨full, rfl, -, -⟩ := read_through_pages _ _ _ _ _ done
  obtain ⟨t, taken, read⟩ := List.mem_filterMap.mp member
  exact (read_shows read).2.trans (mem_line_rows (List.mem_of_mem_take taken)).2

theorem covers_readable {history : History} {startMs : Int} {symbols : List String}
    (covers : Covers history startMs symbols) : Readable history startMs symbols := by
  obtain ⟨fuel, handed, done, all⟩ := covers
  obtain ⟨each, which⟩ := handed_iff done
  constructor
  · intro t there due read
    obtain ⟨fill, isFill⟩ := Option.isSome_iff_exists.mp read
    obtain ⟨symbol, asked, got, pages, member⟩ := (which fill).mp (all t there due fill isFill)
    rw [← (read_shows isFill).2, pair_of_fill pages member]
    exact asked
  · intro symbol asked
    obtain ⟨got, pages⟩ := each symbol asked
    refine (pair_covers_iff pages).mp ?_
    intro t there pair due fill read
    obtain ⟨other, _, gotToo, pagesToo, member⟩ := (which fill).mp (all t there due fill read)
    have same : other = symbol :=
      (pair_of_fill pagesToo member).symm.trans ((read_shows read).2.trans pair)
    rw [same, pages] at pagesToo
    cases pagesToo
    exact member

theorem readable_covers {history : History} {startMs : Int} {symbols : List String}
    (readable : Readable history startMs symbols) : Covers history startMs symbols := by
  obtain ⟨asked, last⟩ := readable
  obtain ⟨handed, done⟩ :=
    fill_gap_ends history startMs symbols (Nat.lt_succ_self (2 * history.rows.length))
  obtain ⟨each, which⟩ := handed_iff done
  refine ⟨_, handed, done, ?_⟩
  intro t there due fill read
  have its := asked t there due (by rw [read]; rfl)
  obtain ⟨got, pages⟩ := each t.pair its
  have member := (pair_covers_iff pages).mpr (last t.pair its) t there rfl due fill read
  exact (which fill).mpr ⟨t.pair, its, got, pages, member⟩

/-- For every history and start the gap fill ends, and it hands every readable trade
    that is due to the booking exactly if the pairs asked about have them all, with the
    unreadable rows on the last of a pair's pages that have one. -/
theorem gap_fill_covers_iff (history : History) (startMs : Int) (booked opened seen : List String) :
    (∃ fuel handed, fillGap history startMs fuel (reconSymbols booked opened seen) = some handed) ∧
      (Covers history startMs (reconSymbols booked opened seen) ↔
        Readable history startMs (reconSymbols booked opened seen)) := by
  constructor
  · exact ⟨_, fill_gap_ends history startMs _ (Nat.lt_succ_self (2 * history.rows.length))⟩
  · constructor
    · exact covers_readable
    · exact readable_covers

def row (id : Nat) : RawTrade where
  pair := "BTCUSDT"
  tradeId := id
  time := 0
  id := some id
  orderId := some 9001
  symbol := some "BTCUSDT"
  isBuyer := some true
  qty := some 1
  price := if id = 0 then none else some 64000
  id_shown := by simp
  symbol_shown := by simp

theorem rows_wanted (n : Nat) :
    ∀ t ∈ (List.range n).map row, (t.pair = "BTCUSDT" && wanted none 0 t) = true := by
  intro t member
  obtain ⟨id, -, rfl⟩ := List.mem_map.mp member
  rfl

def longHistory : History where
  rows := (List.range 1001).map row
  increasing := by
    rw [List.pairwise_map]
    refine List.Pairwise.imp ?_ List.pairwise_lt_range
    intro i j less _
    exact less

/-- The first page has 999 readable rows, and the last trade is never asked for. -/
theorem long_history_not_covered :
    ¬ Covers longHistory 0 (reconSymbols ["BTCUSDT"] [] []) := by
  intro covers
  have last := (covers_readable covers).2 "BTCUSDT" (by simp [reconSymbols])
  have rowsAre : longHistory.rows = (List.range 1001).map row := by rw [longHistory]
  have all : longHistory.asked "BTCUSDT" none 0 = longHistory.rows := by
    rw [History.asked, List.filter_eq_self, rowsAre]
    exact rows_wanted 1001
  have rows_ : ∀ i < 1001, longHistory.rows[i]? = some (row i) := by
    intro i within
    rw [rowsAre, List.getElem?_map, List.getElem?_range within]
    rfl
  have first : ∀ i < pageLimit, (line longHistory "BTCUSDT" 0)[i]? = some (row i) := by
    intro i within
    have taken := line_take longHistory "BTCUSDT" 0
    rw [all] at taken
    have place := congrArg (·[i]?) taken
    simp only [List.getElem?_take, if_pos within] at place
    rw [place]
    exact rows_ i (Nat.lt_trans within (by decide))
  have there : row 1000 ∈ longHistory.rows := List.mem_of_getElem? (rows_ 1000 (by decide))
  obtain ⟨j, at_⟩ := List.mem_iff_getElem?.mp (due_in_line there (Int.le_refl 0))
  have later : 0 / pageLimit < j / pageLimit := by
    rw [Nat.zero_div, Nat.div_pos_iff]
    refine ⟨by decide, Nat.not_lt.mp fun within => ?_⟩
    have same := (first j within).symm.trans at_
    have ids : j = 1000 := congrArg RawTrade.tradeId (Option.some.inj same)
    rw [ids] at within
    exact absurd within (by decide)
  have readable := last 0 j (row 0) (row 1000) (first 0 (by decide)) at_ later (by decide) rfl
  exact absurd readable (by decide)

end OmsTradeHistory
