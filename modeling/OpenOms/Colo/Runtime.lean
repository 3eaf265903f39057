import OpenOms.Colo.Booking
import OpenOms.Library.Histories
import OpenOms.Library.Trailing
import Mathlib.Data.List.Induction
import Std.Data.ExtTreeMap
import Std.Data.ExtTreeSet

/-!
What the hub knows of the accounts it follows: the orders open on each, the pairs
seen on it and its order flow of the last minute. The follow streams' events tell
it, and the gap fill after a (re)connect, which keeps of the open orders those the
venue lists. Times are in nanoseconds.
-/
namespace OmsRuntime
open OmsBooking Trailing Histories

def SECOND : Nat := 1000000000

def MINUTE : Nat := 60 * SECOND

inductive FollowEvent where
  | connected
  | opened (venueOrderId clientOrderId symbol : String) (buy : Bool) (qty price : ℚ)
  | closed (venueOrderId outcome : String)
  | fill (fill : ExternalFill)
  deriving DecidableEq, Repr

structure OpenOrder where
  clientOrderId : String
  symbol : String
  buy : Bool
  qty : ℚ
  price : ℚ
  deriving DecidableEq, Repr

inductive Flow where
  | placed
  | cancelled
  | rejected
  deriving DecidableEq, Repr

structure Runtime where
  open_ : Std.ExtTreeMap String OpenOrder
  flow : List (Nat × Flow)
  seenSymbols : Std.ExtTreeSet String

def Runtime.default : Runtime := ⟨∅, [], ∅⟩

structure FlowCounts where
  placed : Nat
  cancelled : Nat
  rejected : Nat
  deriving DecidableEq, Repr

def overAMinute : Horizon := .beyond MINUTE

/-- The open set, the pairs and the flow, before what is over a minute old goes. -/
def Runtime.take (self : Runtime) (event : FollowEvent) (now : Nat) : Runtime :=
  match event with
  | .opened venueOrderId clientOrderId symbol buy qty price =>
    { open_ := self.open_.insert venueOrderId ⟨clientOrderId, symbol, buy, qty, price⟩
      flow := self.flow ++ [(now, .placed)]
      seenSymbols := self.seenSymbols.insert symbol }
  | .closed venueOrderId outcome =>
    { self with
      open_ := self.open_.erase venueOrderId
      flow :=
        match outcome with
        | "canceled" | "expired" => self.flow ++ [(now, .cancelled)]
        | "rejected" => self.flow ++ [(now, .rejected)]
        | _ => self.flow }
  | .fill fill => { self with seenSymbols := self.seenSymbols.insert fill.symbol }
  | .connected => self

def Runtime.apply (self : Runtime) (event : FollowEvent) (now : Nat) : Runtime :=
  let taken := self.take event now
  { taken with flow := pruned overAMinute Prod.fst now taken.flow }

def isWithin (window now : Nat) (f : Flow) (entry : Nat × Flow) : Bool :=
  entry.2 = f && now - entry.1 ≤ window

def Runtime.placedWithin (self : Runtime) (window now : Nat) : Nat :=
  (self.flow.filter (isWithin window now .placed)).length

def FlowCounts.add (c : FlowCounts) : Flow → FlowCounts
  | .placed => { c with placed := c.placed + 1 }
  | .cancelled => { c with cancelled := c.cancelled + 1 }
  | .rejected => { c with rejected := c.rejected + 1 }

def Runtime.counts (self : Runtime) (now : Nat) : FlowCounts :=
  self.flow.foldl (fun c (t, f) => if now - t ≤ MINUTE then c.add f else c) ⟨0, 0, 0⟩

def Runtime.retain (self : Runtime) (listed : List String) : Runtime :=
  { self with open_ := self.open_.filter fun venueOrderId _ => listed.contains venueOrderId }

/-- What changes a runtime: an event from the sink, or the gap fill of an account
    whose stream has (re)connected, with what the venue then lists. -/
inductive Change where
  | followed (event : FollowEvent)
  | fillGap (listed : List String)
  deriving DecidableEq, Repr

structure Report where
  code : String
  change : Change
  time : Nat
  deriving DecidableEq, Repr

abbrev Runtimes := Std.ExtTreeMap String Runtime

def Runtime.changed (self : Runtime) (change : Change) (now : Nat) : Runtime :=
  match change with
  | .followed event => self.apply event now
  | .fillGap listed => self.retain listed

def received (runtimes : Runtimes) (r : Report) : Runtimes :=
  runtimes.insert r.code ((runtimes.getD r.code .default).changed r.change r.time)

def runtime (reports : List Report) (code : String) : Runtime :=
  (reports.foldl received ∅).getD code .default

/-! What a history of reports says, looked at as a whole. -/

def reportsOf (code : String) (reports : List Report) : List Report :=
  reports.filter fun r => r.code = code

def FollowEvent.flow : FollowEvent → Option Flow
  | .opened .. => some .placed
  | .closed _ outcome =>
    match outcome with
    | "canceled" | "expired" => some .cancelled
    | "rejected" => some .rejected
    | _ => none
  | _ => none

def FollowEvent.order : FollowEvent → Option String
  | .opened venueOrderId .. | .closed venueOrderId _ => some venueOrderId
  | _ => none

def FollowEvent.symbol : FollowEvent → Option String
  | .opened _ _ symbol .. => some symbol
  | .fill f => some f.symbol
  | _ => none

def Change.flow : Change → Option Flow
  | .followed event => event.flow
  | .fillGap _ => none

def Change.symbol : Change → Option String
  | .followed event => event.symbol
  | .fillGap _ => none

def Change.Ends (venueOrderId : String) : Change → Prop
  | .followed event => event.order = some venueOrderId
  | .fillGap listed => venueOrderId ∉ listed

def Standing (reports : List Report) (venueOrderId : String) (o : OpenOrder) : Prop :=
  ∃ before r behind, Stands
    (fun r => r.change = .followed
      (.opened venueOrderId o.clientOrderId o.symbol o.buy o.qty o.price))
    (fun later => later.change.Ends venueOrderId) reports before r behind

def flowWithin (window now : Nat) (f : Flow) (reports : List Report) : Nat :=
  (reports.filter fun r => r.change.flow = some f ∧ now - r.time ≤ window).length

structure Exact (reports : List Report) (state : Runtime) : Prop where
  opened : ∀ id o, state.open_[id]? = some o ↔ Standing reports id o
  seen : ∀ symbol, symbol ∈ state.seenSymbols ↔ ∃ r ∈ reports, r.change.symbol = some symbol
  counts : ∀ now, UpTo Report.time reports now → state.counts now =
    ⟨flowWithin MINUTE now .placed reports, flowWithin MINUTE now .cancelled reports,
      flowWithin MINUTE now .rejected reports⟩
  placed : ∀ now, UpTo Report.time reports now → ∀ window, window ≤ MINUTE →
    state.placedWithin window now = flowWithin window now .placed reports

def flows (reports : List Report) : List (Nat × Flow) :=
  reports.filterMap fun r => r.change.flow.map (r.time, ·)

theorem take_flow (self : Runtime) (event : FollowEvent) (now : Nat) :
    (self.take event now).flow = self.flow ++ (event.flow.map (now, ·)).toList := by
  cases event with
  | connected => simp [Runtime.take, FollowEvent.flow]
  | opened => simp [Runtime.take, FollowEvent.flow]
  | closed venueOrderId outcome =>
    simp only [Runtime.take, FollowEvent.flow]
    split <;> simp
  | fill => simp [Runtime.take, FollowEvent.flow]

theorem take_open (self : Runtime) (event : FollowEvent) (now : Nat) (id : String) :
    (self.take event now).open_[id]? =
      match event with
      | .opened venueOrderId clientOrderId symbol buy qty price =>
        if venueOrderId = id then some ⟨clientOrderId, symbol, buy, qty, price⟩ else self.open_[id]?
      | .closed venueOrderId _ => if venueOrderId = id then none else self.open_[id]?
      | _ => self.open_[id]? := by
  cases event <;> simp [Runtime.take, Std.ExtTreeMap.getElem?_insert, Std.ExtTreeMap.getElem?_erase]

theorem take_seen (self : Runtime) (event : FollowEvent) (now : Nat) (symbol : String) :
    symbol ∈ (self.take event now).seenSymbols ↔
      symbol ∈ self.seenSymbols ∨ event.symbol = some symbol := by
  cases event <;> simp [Runtime.take, FollowEvent.symbol, or_comm]

theorem runtime_snoc (reports : List Report) (r : Report) (code : String) :
    runtime (reports ++ [r]) code =
      if r.code = code then (runtime reports code).changed r.change r.time
      else runtime reports code := by
  simp only [runtime, List.foldl_append, List.foldl_cons, List.foldl_nil, received,
    Std.ExtTreeMap.getD_insert]
  by_cases same : r.code = code <;> simp [same]

theorem reports_of_snoc (code : String) (reports : List Report) (r : Report) :
    reportsOf code (reports ++ [r]) =
      if r.code = code then reportsOf code reports ++ [r] else reportsOf code reports := by
  simp only [reportsOf, List.filter_append, List.filter_cons, List.filter_nil, decide_eq_true_eq]
  split <;> simp

theorem standing_snoc {reports : List Report} {r : Report} {id : String} {o : OpenOrder} :
    Standing (reports ++ [r]) id o ↔
      r.change = .followed (.opened id o.clientOrderId o.symbol o.buy o.qty o.price) ∨
        (¬ r.change.Ends id ∧ Standing reports id o) := by
  simp only [Standing, stands_snoc]
  constructor
  · rintro ⟨before, opening, behind, ⟨_, _, _, opened⟩ | ⟨rest, _, other, stands⟩⟩
    · exact Or.inl opened
    · exact Or.inr ⟨other, before, opening, rest, stands⟩
  · rintro (opened | ⟨other, before, opening, rest, stands⟩)
    · exact ⟨reports, r, [], Or.inl ⟨rfl, rfl, rfl, opened⟩⟩
    · exact ⟨before, opening, rest ++ [r], Or.inr ⟨rest, rfl, other, stands⟩⟩

theorem event_open {reports : List Report} {self : Runtime} {r : Report} {event : FollowEvent}
    (is : r.change = .followed event)
    (opened : ∀ id o, self.open_[id]? = some o ↔ Standing reports id o) (id : String)
    (o : OpenOrder) :
    (self.apply event r.time).open_[id]? = some o ↔ Standing (reports ++ [r]) id o := by
  have same : (self.apply event r.time).open_ = (self.take event r.time).open_ := rfl
  rw [same, take_open, standing_snoc, is]
  cases event with
  | connected => simp [Change.Ends, FollowEvent.order, opened]
  | fill => simp [Change.Ends, FollowEvent.order, opened]
  | closed venueOrderId outcome =>
    by_cases own : venueOrderId = id <;> simp [Change.Ends, FollowEvent.order, own, opened]
  | opened venueOrderId clientOrderId symbol buy qty price =>
    by_cases own : venueOrderId = id
    · obtain ⟨c, s, b, q, p⟩ := o
      simp [Change.Ends, FollowEvent.order, own]
    · simp [Change.Ends, FollowEvent.order, own, opened]

theorem retain_open (self : Runtime) (listed : List String) (id : String) (o : OpenOrder) :
    (self.retain listed).open_[id]? = some o ↔ id ∈ listed ∧ self.open_[id]? = some o := by
  simp only [Runtime.retain, Std.ExtTreeMap.getElem?_filter']
  cases self.open_[id]? <;> simp [Option.filter]

theorem open_snoc {reports : List Report} {self : Runtime} (r : Report)
    (opened : ∀ id o, self.open_[id]? = some o ↔ Standing reports id o) (id : String)
    (o : OpenOrder) :
    (self.changed r.change r.time).open_[id]? = some o ↔ Standing (reports ++ [r]) id o := by
  cases is : r.change with
  | followed event => exact event_open is opened id o
  | fillGap listed =>
    rw [Runtime.changed, retain_open, standing_snoc, is, opened]
    simp [Change.Ends]

theorem seen_snoc {reports : List Report} {self : Runtime} (r : Report)
    (seen : ∀ symbol, symbol ∈ self.seenSymbols ↔ ∃ r ∈ reports, r.change.symbol = some symbol)
    (symbol : String) :
    symbol ∈ (self.changed r.change r.time).seenSymbols ↔
      ∃ r' ∈ reports ++ [r], r'.change.symbol = some symbol := by
  have here : symbol ∈ (self.changed r.change r.time).seenSymbols ↔
      symbol ∈ self.seenSymbols ∨ r.change.symbol = some symbol := by
    cases r.change with
    | followed event => exact take_seen self event r.time symbol
    | fillGap listed => simp [Runtime.changed, Runtime.retain, Change.symbol]
  rw [here, seen]
  simp [or_and_right, exists_or]

theorem flows_snoc (reports : List Report) (r : Report) :
    flows (reports ++ [r]) = flows reports ++ (r.change.flow.map (r.time, ·)).toList := by
  rw [flows, List.filterMap_append, flows]
  cases flow : r.change.flow <;> simp [flow]

theorem flow_snoc {reports : List Report} {self : Runtime} {r : Report} {since : Nat}
    (keeps : Keeps overAMinute Prod.fst since (flows reports) self.flow)
    (forward : since ≤ r.time) :
    Keeps overAMinute Prod.fst r.time (flows (reports ++ [r]))
      (self.changed r.change r.time).flow := by
  have now := keeps_later keeps forward
  rw [flows_snoc]
  cases r.change with
  | fillGap listed => simpa [Change.flow, Runtime.changed, Runtime.retain] using now
  | followed event =>
    refine keeps_pruned ?_
    rw [take_flow, Change.flow]
    cases event.flow with
    | none => simpa using now
    | some f => exact keeps_snoc (e := (r.time, f)) now

theorem is_within_filter (window now : Nat) (f : Flow) (log : List (Nat × Flow)) :
    log.filter (isWithin window now f) =
      (live (.beyond window) Prod.fst now log).filter fun entry => entry.2 = f := by
  rw [live, List.filter_filter]
  refine List.filter_congr fun entry _ => ?_
  rw [Bool.eq_iff_iff]
  simp only [isWithin, Horizon.beyond, Bool.and_eq_true, decide_eq_true_eq, Bool.not_eq_true',
    decide_eq_false_iff_not, Nat.not_lt]

theorem flows_within (window now : Nat) (f : Flow) (reports : List Report) :
    ((flows reports).filter (isWithin window now f)).length = flowWithin window now f reports := by
  induction reports with
  | nil => rfl
  | cons r reports ih =>
    unfold flows flowWithin at ih ⊢
    rw [List.filterMap_cons, List.filter_cons]
    cases flow : r.change.flow with
    | none => simpa [flow] using ih
    | some g =>
      have counted : isWithin window now f (r.time, g) =
          decide (some g = some f ∧ now - r.time ≤ window) := by
        simp [isWithin]
      simp only [Option.map_some, List.filter_cons, counted]
      split
      · simpa using ih
      · exact ih

theorem within_flow {reports : List Report} {state : Runtime} {since now window : Nat}
    (keeps : Keeps overAMinute Prod.fst since (flows reports) state.flow) (forward : since ≤ now)
    (short : window ≤ MINUTE) (f : Flow) :
    (state.flow.filter (isWithin window now f)).length = flowWithin window now f reports := by
  have within : ∀ age, overAMinute.past age = true → (Horizon.beyond window).past age = true := by
    intro age aged
    simp only [overAMinute, Horizon.beyond, decide_eq_true_eq] at aged ⊢
    omega
  rw [← flows_within, is_within_filter, is_within_filter, ← live_narrow within now state.flow,
    keeps.same now forward, live_narrow within now]

theorem counts_eq (state : Runtime) (now : Nat) : state.counts now =
    ⟨(state.flow.filter (isWithin MINUTE now .placed)).length,
      (state.flow.filter (isWithin MINUTE now .cancelled)).length,
      (state.flow.filter (isWithin MINUTE now .rejected)).length⟩ := by
  have from_ : ∀ (flow : List (Nat × Flow)) (c : FlowCounts),
      flow.foldl (fun c (t, f) => if now - t ≤ MINUTE then c.add f else c) c =
        ⟨c.placed + (flow.filter (isWithin MINUTE now .placed)).length,
          c.cancelled + (flow.filter (isWithin MINUTE now .cancelled)).length,
          c.rejected + (flow.filter (isWithin MINUTE now .rejected)).length⟩ := by
    intro flow
    induction flow with
    | nil => exact fun c => rfl
    | cons entry flow ih =>
      intro c
      obtain ⟨t, f⟩ := entry
      rw [List.foldl_cons, ih]
      by_cases young : now - t ≤ MINUTE
      · have counted : ∀ g, isWithin MINUTE now g (t, f) = decide (f = g) := by
          intro g
          simp only [isWithin, young, decide_true, Bool.and_true]
        cases f <;> simp only [List.filter_cons, counted, young, FlowCounts.add] <;> simp <;> omega
      · have old : ∀ g, isWithin MINUTE now g (t, f) = false := by
          intro g
          simp only [isWithin, young, decide_false, Bool.and_false]
        simp only [List.filter_cons, old, young]
        simp
  rw [Runtime.counts, from_]
  simp

/-- The invariant behind `Exact`: open orders, pairs, and a flow kept up to the last report. -/
structure Tracks (reports : List Report) (state : Runtime) (since : Nat) : Prop where
  opened : ∀ id o, state.open_[id]? = some o ↔ Standing reports id o
  seen : ∀ symbol, symbol ∈ state.seenSymbols ↔ ∃ r ∈ reports, r.change.symbol = some symbol
  flow : Keeps overAMinute Prod.fst since (flows reports) state.flow

theorem default_tracks : Tracks [] .default 0 where
  opened := by
    intro id o
    simp [Runtime.default, Standing, Stands]
  seen := by
    intro symbol
    simp [Runtime.default]
  flow := keeps_nil 0

theorem changed_tracks {reports : List Report} {state : Runtime} {since : Nat} {r : Report}
    (tracks : Tracks reports state since) (forward : since ≤ r.time) :
    Tracks (reports ++ [r]) (state.changed r.change r.time) r.time where
  opened := open_snoc r tracks.opened
  seen := seen_snoc r tracks.seen
  flow := flow_snoc tracks.flow forward

theorem runtime_tracks {reports : List Report} (forward : InOrder Report.time reports)
    (code : String) : ∃ since, Tracks (reportsOf code reports) (runtime reports code) since ∧
      ∀ now, UpTo Report.time (reportsOf code reports) now → since ≤ now := by
  induction reports using List.reverseRecOn with
  | nil => exact ⟨0, default_tracks, fun now _ => Nat.zero_le now⟩
  | append_singleton reports r ih =>
    obtain ⟨earlier, _, last⟩ := List.pairwise_append.mp forward
    obtain ⟨since, tracks, latest⟩ := ih earlier
    rw [runtime_snoc, reports_of_snoc]
    by_cases own : r.code = code
    · rw [if_pos own, if_pos own]
      have order : since ≤ r.time := by
        refine latest r.time fun old member => ?_
        exact last old (List.mem_filter.mp member).1 r (by simp)
      refine ⟨r.time, changed_tracks tracks order, ?_⟩
      intro now upTo
      exact (up_to_snoc.mp upTo).2
    · rw [if_neg own, if_neg own]
      exact ⟨since, tracks, latest⟩

/-- With the clock going forward, what the hub says of each account is what was
    reported of it, however the accounts' reports are mixed. -/
theorem runtime_exact (reports : List Report) (forward : InOrder Report.time reports)
    (code : String) : Exact (reportsOf code reports) (runtime reports code) := by
  obtain ⟨since, tracks, latest⟩ := runtime_tracks forward code
  constructor
  · exact tracks.opened
  · exact tracks.seen
  · intro now upTo
    rw [counts_eq]
    simp only [within_flow tracks.flow (latest now upTo) (Nat.le_refl MINUTE)]
  · intro now upTo window short
    exact within_flow tracks.flow (latest now upTo) short .placed

/-- Two accounts. On the first an order is placed and goes, and of two more the venue
    lists one when the stream is back; on the other one is left open. -/
def twoAccounts : List Report :=
  [⟨"mm1", .followed (.opened "7" "a" "BTCUSDT" true 1 100), 5 * SECOND⟩,
    ⟨"mm2", .followed (.opened "7" "b" "ETHUSDT" false 2 10), 6 * SECOND⟩,
    ⟨"mm1", .followed (.closed "7" "canceled"), 8 * SECOND⟩,
    ⟨"mm1", .followed (.opened "8" "c" "BTCUSDT" true 1 100), 9 * SECOND⟩,
    ⟨"mm1", .followed (.opened "9" "d" "BTCUSDT" true 1 101), 9 * SECOND⟩,
    ⟨"mm1", .followed .connected, 20 * SECOND⟩,
    ⟨"mm1", .fillGap ["9"], 21 * SECOND⟩]

theorem two_accounts_exact : Exact (reportsOf "mm1" twoAccounts) (runtime twoAccounts "mm1") :=
  runtime_exact twoAccounts (by unfold InOrder; decide) "mm1"

end OmsRuntime
