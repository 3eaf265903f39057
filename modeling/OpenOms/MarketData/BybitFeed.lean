import OpenOms.Library.Histories
import OpenOms.MarketData.Symbology
import OpenOms.Marks
import Mathlib.Data.List.Induction
import Mathlib.Data.Rat.Floor

/-!
Bybit's spot top-of-book: a stateful topic whose snapshots replace the book and whose
deltas carry one side, turned into quotes. `parse` reads a number out of a text.
-/
namespace OmsBybitFeed
open OmsMarketData OmsMarks Histories

inductive Cell where
  | text (s : String)
  | other
  deriving DecidableEq, Repr

abbrev SideJson := Option (List (List Cell))

inductive Side where
  | bid
  | ask
  deriving DecidableEq, Repr

structure BookMessage where
  topic : Bool
  type : Option String
  s : Option Symbol
  b : SideJson
  a : SideJson
  deriving DecidableEq, Repr

def BookMessage.side (m : BookMessage) : Side → SideJson
  | .bid => m.b
  | .ask => m.a

structure Level where
  price : ℚ
  size : ℚ
  deriving DecidableEq, Repr

structure Top where
  bid : Option Level
  ask : Option Level
  deriving DecidableEq, Repr

def Top.default : Top := ⟨none, none⟩

def Top.side (top : Top) : Side → Option Level
  | .bid => top.bid
  | .ask => top.ask

structure FeedQuote extends Quote where
  bidSize : Nat
  askSize : Nat
  deriving DecidableEq, Repr

def SOURCE_CODE : String := "BYBIT"

/-- A cast to 32 bits: towards zero, and no further than they reach. -/
def asU32 (x : ℚ) : Nat := min ⌊x⌋.toNat (2 ^ 32 - 1)

variable (parse : String → Option ℚ)

def number : Cell → Option ℚ
  | .text s => parse s
  | .other => none

/-- One side of an update: `none` where the update does not touch it, `some none` where
    the level was removed. -/
def level (side : SideJson) : Option (Option Level) := do
  let arr ← side
  let first ← arr.head?
  let price ← first[0]?.bind (number parse)
  let size ← first[1]?.bind (number parse)
  some (if size = 0 then none else some ⟨price, size⟩)

structure Feed where
  symToId : SymbolAdds
  books : Std.ExtTreeMap Symbol Top
  heard : List BookMessage
  quotes : List FeedQuote

def Feed.start (symbols : SymbolAdds) : Feed := ⟨symbols, ∅, [], []⟩

inductive Event where
  | adds (adds : SymbolAdds)
  | text (m : BookMessage) (now : Int)

def update (top : Top) (m : BookMessage) : Top :=
  -- A side absent from a snapshot is gone.
  let base := if m.type = some "snapshot" then Top.default else top
  ⟨(level parse m.b).getD base.bid, (level parse m.a).getD base.ask⟩

def quote (instrumentId : Int) (top : Top) (now : Int) : Option FeedQuote :=
  match top.bid, top.ask with
  | some bid, some ask =>
    some
      { instrumentId, bid := bid.price, ask := ask.price, tsRecv := now, sourceCode := SOURCE_CODE
        bidSize := asU32 bid.size, askSize := asU32 ask.size }
  | _, _ => none

def Feed.takes (s : Feed) (m : BookMessage) : Option (Symbol × Int) :=
  if m.topic then
    m.s.bind fun pair => s.symToId[pair]?.map fun instrumentId => (pair, instrumentId)
  else none

def step (s : Feed) : Event → Feed
  | .adds adds => { s with symToId := s.symToId ∪ adds }
  | .text m now =>
    match s.takes m with
    | some (pair, instrumentId) =>
      let book := update parse (s.books.getD pair .default) m
      { s with
        books := s.books.insert pair book
        heard := s.heard ++ [m]
        quotes := s.quotes ++ (quote instrumentId book now).toList }
    | none => s

def after (symbols : SymbolAdds) (events : List Event) : Feed :=
  events.foldl (step parse) (.start symbols)

def Gives (pair : Symbol) (side : Side) (l : Level) (m : BookMessage) : Prop :=
  m.s = some pair ∧ level parse (m.side side) = some (some l)

def Touches (pair : Symbol) (side : Side) (m : BookMessage) : Prop :=
  m.s = some pair ∧ (m.type = some "snapshot" ∨ (level parse (m.side side)).isSome)

def LastTold (heard : List BookMessage) (pair : Symbol) (side : Side) (l : Level) : Prop :=
  ∃ before m behind,
    Stands (Gives parse pair side l) (Touches parse pair side) heard before m behind

/-- The book has of each side what was last told, and a message taken is followed by a
    quote of both sides of its own pair as they then are, unless one is not known. -/
structure Exact (symbols : SymbolAdds) (events : List Event) : Prop where
  book : ∀ pair side l,
    ((after parse symbols events).books.getD pair .default).side side = some l ↔
      LastTold parse (after parse symbols events).heard pair side l
  quoted : ∀ m now before behind, events = before ++ .text m now :: behind → ∀ q,
    (after parse symbols (before ++ [.text m now])).quotes =
        (after parse symbols before).quotes ++ [q] ↔
      ∃ pair instrumentId bid ask, (after parse symbols before).takes m = some (pair, instrumentId) ∧
        LastTold parse ((after parse symbols before).heard ++ [m]) pair .bid bid ∧
          LastTold parse ((after parse symbols before).heard ++ [m]) pair .ask ask ∧
            some q = quote instrumentId ⟨some bid, some ask⟩ now

variable {parse}

theorem after_snoc (symbols : SymbolAdds) (events : List Event) (e : Event) :
    after parse symbols (events ++ [e]) = step parse (after parse symbols events) e := by
  simp [after]

theorem update_side (top : Top) (m : BookMessage) (side : Side) :
    (update parse top m).side side =
      (level parse (m.side side)).getD
        (if m.type = some "snapshot" then none else top.side side) := by
  cases side <;> by_cases whole : m.type = some "snapshot" <;>
    simp [update, Top.side, BookMessage.side, Top.default, whole]

theorem last_told_snoc {heard : List BookMessage} {m : BookMessage} {pair : Symbol}
    {side : Side} {l : Level} :
    LastTold parse (heard ++ [m]) pair side l ↔
      Gives parse pair side l m ∨
        (¬ Touches parse pair side m ∧ LastTold parse heard pair side l) := by
  simp only [LastTold, stands_snoc]
  constructor
  · rintro ⟨before, old, behind, ⟨_, _, _, gives⟩ | ⟨rest, _, quiet, stands⟩⟩
    · exact Or.inl gives
    · exact Or.inr ⟨quiet, before, old, rest, stands⟩
  · rintro (gives | ⟨quiet, before, old, rest, stands⟩)
    · exact ⟨heard, m, [], Or.inl ⟨rfl, rfl, rfl, gives⟩⟩
    · exact ⟨before, old, rest ++ [m], Or.inr ⟨rest, rfl, quiet, stands⟩⟩

theorem update_told {heard : List BookMessage} {m : BookMessage} {pair : Symbol} {top : Top}
    (own : m.s = some pair)
    (told : ∀ side l, top.side side = some l ↔ LastTold parse heard pair side l)
    (side : Side) (l : Level) :
    (update parse top m).side side = some l ↔ LastTold parse (heard ++ [m]) pair side l := by
  rw [update_side, last_told_snoc, ← told]
  cases read : level parse (m.side side) with
  | some said => simp [Gives, Touches, own, read]
  | none => by_cases whole : m.type = some "snapshot" <;> simp [Gives, Touches, own, read, whole]

theorem told_other {heard : List BookMessage} {m : BookMessage} {pair : Symbol} {side : Side}
    {l : Level} (other : m.s ≠ some pair) :
    LastTold parse (heard ++ [m]) pair side l ↔ LastTold parse heard pair side l := by
  rw [last_told_snoc]
  simp [Gives, Touches, other]

theorem takes_pair {s : Feed} {m : BookMessage} {pair : Symbol} {instrumentId : Int}
    (takes : s.takes m = some (pair, instrumentId)) : m.s = some pair := by
  unfold Feed.takes at takes
  split at takes
  · obtain ⟨named, own, mapped⟩ := Option.bind_eq_some_iff.mp takes
    obtain ⟨_, _, same⟩ := Option.map_eq_some_iff.mp mapped
    cases same
    exact own
  · cases takes

theorem step_book {s : Feed}
    (told : ∀ pair side l, (s.books.getD pair .default).side side = some l ↔
      LastTold parse s.heard pair side l) (e : Event) (pair : Symbol) (side : Side) (l : Level) :
    ((step parse s e).books.getD pair .default).side side = some l ↔
      LastTold parse (step parse s e).heard pair side l := by
  cases e with
  | adds adds => exact told pair side l
  | text m now =>
    simp only [step]
    split
    · rename_i own instrumentId takes
      have named := takes_pair takes
      by_cases same : own = pair
      · subst same
        simp only [Std.ExtTreeMap.getD_insert_self]
        exact update_told named (told own) side l
      · rw [told_other (by rw [named]; simpa using same)]
        simp only [Std.ExtTreeMap.getD_insert, Std.LawfulEqCmp.compare_eq_iff_eq, same, if_false]
        exact told pair side l
    · exact told pair side l

theorem after_book (symbols : SymbolAdds) (events : List Event) (pair : Symbol) (side : Side)
    (l : Level) :
    ((after parse symbols events).books.getD pair .default).side side = some l ↔
      LastTold parse (after parse symbols events).heard pair side l := by
  induction events using List.reverseRecOn generalizing pair side l with
  | nil => cases side <;> simp [after, Feed.start, Top.default, Top.side, LastTold, Stands]
  | append_singleton events e ih =>
    rw [after_snoc]
    exact step_book ih e pair side l

theorem quote_some {instrumentId : Int} {top : Top} {now : Int} {q : FeedQuote} :
    quote instrumentId top now = some q ↔ ∃ bid ask, top.side .bid = some bid ∧
      top.side .ask = some ask ∧ some q = quote instrumentId ⟨some bid, some ask⟩ now := by
  obtain ⟨bid, ask⟩ := top
  cases bid <;> cases ask <;> simp [quote, Top.side, eq_comm]

/-- Over any session, with symbols added at any time, what is known of each pair's two
    sides is what was last told of them, and no quote has a side that is not. -/
theorem bybit_exact (parse : String → Option ℚ) (symbols : SymbolAdds) (events : List Event) :
    Exact parse symbols events := by
  refine ⟨after_book symbols events, ?_⟩
  intro m now before behind _ q
  have told := @after_book parse symbols before
  rw [after_snoc]
  generalize after parse symbols before = s at told
  simp only [step]
  cases takes : s.takes m with
  | none => simp
  | some taken =>
    obtain ⟨pair, instrumentId⟩ := taken
    have sides := update_told (takes_pair takes) (told pair)
    have new : s.quotes ++ (quote instrumentId (update parse (s.books.getD pair .default) m)
        now).toList = s.quotes ++ [q] ↔
          quote instrumentId (update parse (s.books.getD pair .default) m) now = some q := by
      rw [List.append_cancel_left_eq]
      cases quote instrumentId (update parse (s.books.getD pair .default) m) now <;> simp
    dsimp only
    rw [new, quote_some]
    simp only [sides, Option.some.injEq, Prod.mk.injEq]
    constructor
    · rintro ⟨bid, ask, toldBid, toldAsk, same⟩
      exact ⟨pair, instrumentId, bid, ask, ⟨rfl, rfl⟩, toldBid, toldAsk, same⟩
    · rintro ⟨_, _, bid, ask, ⟨rfl, rfl⟩, toldBid, toldAsk, same⟩
      exact ⟨bid, ask, toldBid, toldAsk, same⟩

end OmsBybitFeed
