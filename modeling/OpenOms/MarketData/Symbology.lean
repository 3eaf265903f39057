import Std.Data.ExtTreeMap
import Std.Data.ExtTreeSet
import Mathlib.Data.List.Basic

/-!
What the core tells the market data gateway of an instrument, and how a feed names
the instruments it prices. A symbol is the list of its characters; maps and sets
are the ordered ones.
-/
namespace OmsMarketData

abbrev Symbol := List Char

structure InstrumentRef where
  id : Int
  symbol : Symbol
  instrumentClass : Option String
  assetClass : Option String
  venue : Option String
  deriving DecidableEq, Repr

abbrev Held := Std.ExtTreeMap Int InstrumentRef

/-- New symbols to subscribe, with the instrument ids they price. -/
abbrev SymbolAdds := Std.ExtTreeMap Symbol Int

structure InstrumentFilter where
  instrumentClass : Option String
  assetClass : Option String
  venue : Option String
  deriving DecidableEq, Repr

inductive Panic where
  | notACharBoundary
  deriving DecidableEq, Repr

/-- `toFeedSymbol` answers `none` for a symbol the feed cannot express. -/
structure FeedSymbology where
  candidates : InstrumentFilter
  toFeedSymbol : Symbol → Except Panic (Option Symbol)

def matches_ : Option String → Option String → Bool
  | none, _ => true
  | some want, some have_ => want = have_
  | some _, none => false

def InstrumentFilter.admits (f : InstrumentFilter) (i : InstrumentRef) : Bool :=
  matches_ f.instrumentClass i.instrumentClass && matches_ f.assetClass i.assetClass &&
    matches_ f.venue i.venue

def covers (feed : FeedSymbology) (i : InstrumentRef) : Except Panic Bool :=
  if feed.candidates.admits i then (feed.toFeedSymbol i.symbol).map Option.isSome else .ok false

def feedSymbol (feed : FeedSymbology) (i : InstrumentRef) : Except Panic (Option Symbol) := do
  if ← covers feed i then feed.toFeedSymbol i.symbol else .ok none

/-- The held instruments `feed` prices, by feed symbol. Of two with one feed symbol
    the last in id order stays. -/
def covered (feed : FeedSymbology) (held : Held) : Except Panic SymbolAdds :=
  held.values.foldlM (fun map i => do
    match ← feedSymbol feed i with
    | some symbol => .ok (map.insert symbol i.id)
    | none => .ok map) ∅

def calls (feed : FeedSymbology) (symbol : Symbol) (i : InstrumentRef) : Bool :=
  match feedSymbol feed i with
  | .ok (some its) => its = symbol
  | _ => false

theorem covered_get {feed : FeedSymbology} {held : Held} {latest : SymbolAdds}
    (covers_ : covered feed held = .ok latest) (symbol : Symbol) :
    latest[symbol]? = (held.values.reverse.find? (calls feed symbol)).map InstrumentRef.id := by
  have general : ∀ (is : List InstrumentRef) (map map' : SymbolAdds),
      is.foldlM (fun map i => do
        match ← feedSymbol feed i with
        | some its => Except.ok (map.insert its i.id)
        | none => .ok map) map = .ok map' →
      map'[symbol]? =
        ((is.reverse.find? (calls feed symbol)).map InstrumentRef.id).or map[symbol]? := by
    intro is
    induction is with
    | nil =>
      intro map map' done
      cases done
      simp
    | cons i is ih =>
      intro map map' done
      rw [List.foldlM_cons] at done
      cases its : feedSymbol feed i with
      | error panic =>
        rw [its] at done
        cases done
      | ok found =>
        rw [its] at done
        cases found with
        | none =>
          have other : calls feed symbol i = false := by simp [calls, its]
          rw [ih _ _ done, List.reverse_cons, List.find?_append]
          simp [other]
        | some name =>
          rw [ih _ _ done, List.reverse_cons, List.find?_append, Std.ExtTreeMap.getElem?_insert]
          by_cases same : name = symbol
          · have called : calls feed symbol i = true := by simp [calls, its, same]
            cases later : is.reverse.find? (calls feed symbol) <;> simp [called, same]
          · have other : calls feed symbol i = false := by simp [calls, its, same]
            cases later : is.reverse.find? (calls feed symbol) <;> simp [other, same]
  have got := general held.values ∅ latest covers_
  simpa using got

theorem mem_covered {feed : FeedSymbology} {held : Held} {map : SymbolAdds}
    (covers_ : covered feed held = .ok map) (symbol : Symbol) :
    symbol ∈ map ↔ ∃ i ∈ held.values, calls feed symbol i = true := by
  rw [Std.ExtTreeMap.mem_iff_isSome_getElem?, covered_get covers_, Option.isSome_map,
    List.find?_isSome]
  simp only [List.mem_reverse]

theorem covered_iff (feed : FeedSymbology) (held : Held) :
    (∃ map, covered feed held = .ok map) ↔
      ∀ i ∈ held.values, ∃ its, feedSymbol feed i = .ok its := by
  have general : ∀ (is : List InstrumentRef) (map : SymbolAdds),
      (∃ map', is.foldlM (fun map i => do
        match ← feedSymbol feed i with
        | some its => Except.ok (map.insert its i.id)
        | none => .ok map) map = .ok map') ↔
      ∀ i ∈ is, ∃ its, feedSymbol feed i = .ok its := by
    intro is
    induction is with
    | nil =>
      intro map
      simp [pure, Except.pure]
    | cons i is ih =>
      intro map
      rw [List.forall_mem_cons]
      cases its : feedSymbol feed i with
      | error panic => simp [List.foldlM_cons, its, bind, Except.bind]
      | ok found =>
        cases found with
        | none =>
          have rest := ih map
          simpa [List.foldlM_cons, its, bind, Except.bind] using rest
        | some name =>
          have rest := ih (map.insert name i.id)
          simpa [List.foldlM_cons, its, bind, Except.bind] using rest
  exact general held.values ∅

end OmsMarketData
