import OpenOms.Library.Runs
import OpenOms.MarketData.Symbology

/-!
One feed's session: it starts on what the feed covers of the held set, and a watcher
pushes what is newly covered while it runs. The held set may change again before
the watcher has looked, and the feed receives what was pushed in its own time.
-/
namespace OmsFeedSession
open OmsMarketData Runs

/-- `held` is what the watched channel has, `looked` the sets the session has taken
    from it so far, `adds` what was pushed and not received yet; the feed's own side
    is its map and the symbols it has subscribed. -/
structure Session where
  held : Held
  unseen : Bool
  looked : List Held
  known : SymbolAdds
  adds : List SymbolAdds
  symToId : SymbolAdds
  subscribed : List Symbol
  deriving DecidableEq

def Session.start (held : Held) (known : SymbolAdds) : Session :=
  ⟨held, false, [held], known, [], known, known.keys⟩

inductive Action where
  | hold (held : Held)
  | watch
  | receive

def newlyCovered (known latest : SymbolAdds) : SymbolAdds :=
  latest.filter fun symbol _ => !known.contains symbol

def watchHeld (feed : FeedSymbology) (s : Session) : Option Session :=
  match covered feed s.held with
  | .error _ => none
  | .ok latest =>
    let adds := newlyCovered s.known latest
    let seen := { s with unseen := false, looked := s.looked ++ [s.held] }
    if adds.isEmpty then some seen
    else some { seen with known := s.known ∪ adds, adds := s.adds ++ [adds] }

def receive (s : Session) : Option Session :=
  match s.adds with
  | [] => none
  | adds :: rest =>
    some { s with
      adds := rest
      symToId := s.symToId ∪ adds
      subscribed := s.subscribed ++ adds.keys }

def step (feed : FeedSymbology) (s : Session) : Action → Option Session
  | .hold held => some { s with held, unseen := true }
  | .watch => if s.unseen then watchHeld feed s else none
  | .receive => receive s

def Apart (feed : FeedSymbology) (held : Held) : Prop :=
  ∀ i ∈ held.values, ∀ j ∈ held.values, ∀ symbol,
    calls feed symbol i = true → calls feed symbol j = true → i.id = j.id

def firstHeld (feed : FeedSymbology) (looked : List Held) (symbol : Symbol) : Option Int :=
  looked.findSome? fun held => (held.values.find? (calls feed symbol)).map InstrumentRef.id

/-- The last change has been looked at and what it added received. -/
def Settled (s : Session) : Prop := s.unseen = false ∧ s.adds = []

def InStep (feed : FeedSymbology) (s : Session) : Prop :=
  ∀ i ∈ s.held.values, ∀ symbol, calls feed symbol i = true →
    symbol ∈ s.subscribed ∧ s.symToId[symbol]? = some i.id

theorem covered_get_apart {feed : FeedSymbology} {held : Held} {latest : SymbolAdds}
    (covers_ : covered feed held = .ok latest) (apart : Apart feed held) (symbol : Symbol) :
    latest[symbol]? = (held.values.find? (calls feed symbol)).map InstrumentRef.id := by
  rw [covered_get covers_]
  cases first : held.values.find? (calls feed symbol) with
  | none =>
    have nobody : held.values.reverse.find? (calls feed symbol) = none := by
      rw [List.find?_eq_none] at first ⊢
      intro i member
      exact first i (List.mem_reverse.mp member)
    rw [nobody]
  | some i =>
    have there := List.mem_of_find?_eq_some first
    have called := List.find?_some first
    cases last : held.values.reverse.find? (calls feed symbol) with
    | none => exact absurd called (List.find?_eq_none.mp last i (List.mem_reverse.mpr there))
    | some j =>
      have also := List.mem_reverse.mp (List.mem_of_find?_eq_some last)
      simp [apart j also i there symbol (List.find?_some last) called]

def Session.due (s : Session) : SymbolAdds := s.adds.foldl (fun map adds => map ∪ adds) s.symToId

structure Inv (feed : FeedSymbology) (s : Session) : Prop where
  known : ∀ symbol, s.known[symbol]? = firstHeld feed s.looked symbol
  mapped : s.due = s.known
  subscribed : ∀ symbol, symbol ∈ s.symToId → symbol ∈ s.subscribed
  last : s.unseen = false → s.held ∈ s.looked
  apart : ∀ held ∈ s.looked, Apart feed held

theorem known_union (known latest : SymbolAdds) (symbol : Symbol) :
    (known ∪ newlyCovered known latest)[symbol]? = (known[symbol]?).or latest[symbol]? := by
  rw [Std.ExtTreeMap.getElem?_union, newlyCovered, Std.ExtTreeMap.getElem?_filter',
    Std.ExtTreeMap.contains_eq_isSome_getElem?]
  cases here : known[symbol]? <;> cases there : latest[symbol]? <;> simp

theorem first_held_snoc (feed : FeedSymbology) (looked : List Held) (held : Held)
    (symbol : Symbol) : firstHeld feed (looked ++ [held]) symbol =
      (firstHeld feed looked symbol).or
        ((held.values.find? (calls feed symbol)).map InstrumentRef.id) := by
  simp [firstHeld, List.findSome?_append]

theorem start_inv {feed : FeedSymbology} {held : Held} {known : SymbolAdds}
    (apart : Apart feed held) (covers_ : covered feed held = .ok known) :
    Inv feed (.start held known) := by
  constructor
  · intro symbol
    have got := covered_get_apart covers_ apart symbol
    simpa [Session.start, firstHeld] using got
  · rfl
  · intro symbol member
    exact Std.ExtTreeMap.mem_keys.mpr member
  · intro _
    exact List.mem_singleton_self held
  · intro held' member
    rw [List.mem_singleton.mp member]
    exact apart

theorem watch_inv {feed : FeedSymbology} {s t : Session} (inv : Inv feed s)
    (apart : Apart feed s.held) (watched : watchHeld feed s = some t) : Inv feed t := by
  unfold watchHeld at watched
  cases covers_ : covered feed s.held with
  | error panic => simp [covers_] at watched
  | ok latest =>
    have first : ∀ symbol, (s.known ∪ newlyCovered s.known latest)[symbol]? =
        firstHeld feed (s.looked ++ [s.held]) symbol := by
      intro symbol
      rw [known_union, inv.known, covered_get_apart covers_ apart, first_held_snoc]
    have all : ∀ held ∈ s.looked ++ [s.held], Apart feed held := by
      intro held member
      rcases List.mem_append.mp member with old | new
      · exact inv.apart held old
      · rw [List.mem_singleton.mp new]
        exact apart
    simp only [covers_] at watched
    split at watched
    · rename_i nothing
      cases watched
      have same : s.known ∪ newlyCovered s.known latest = s.known := by
        rw [Std.ExtTreeMap.isEmpty_iff.mp nothing]
        refine Std.ExtTreeMap.ext_getElem? ?_
        intro symbol
        simp [Std.ExtTreeMap.getElem?_union]
      constructor
      · intro symbol
        rw [← first, same]
      · exact inv.mapped
      · exact inv.subscribed
      · intro _
        simp
      · exact all
    · cases watched
      constructor
      · exact first
      · have mapped := inv.mapped
        simp only [Session.due, List.foldl_append, List.foldl_cons, List.foldl_nil] at mapped ⊢
        rw [mapped]
      · exact inv.subscribed
      · intro _
        simp
      · exact all

theorem receive_inv {feed : FeedSymbology} {s t : Session} (inv : Inv feed s)
    (received : receive s = some t) : Inv feed t := by
  unfold receive at received
  split at received
  · cases received
  · rename_i adds rest pushed
    cases received
    constructor
    · exact inv.known
    · have mapped := inv.mapped
      simp only [Session.due, pushed, List.foldl_cons] at mapped ⊢
      exact mapped
    · intro symbol member
      rcases Std.ExtTreeMap.mem_union_iff.mp member with old | new
      · exact List.mem_append_left _ (inv.subscribed symbol old)
      · exact List.mem_append_right _ (Std.ExtTreeMap.mem_keys.mpr new)
    · exact inv.last
    · exact inv.apart

def Lawful (feed : FeedSymbology) (s : Session) : Prop := Inv feed s ∧ Apart feed s.held

theorem step_lawful {feed : FeedSymbology} {s t : Session} {a : Action} (lawful : Lawful feed s)
    (holds : ∀ held, a = .hold held → Apart feed held) (next : step feed s a = some t) :
    Lawful feed t := by
  obtain ⟨inv, apart⟩ := lawful
  cases a with
  | hold held =>
    cases next
    constructor
    · exact ⟨inv.known, inv.mapped, inv.subscribed, by simp, inv.apart⟩
    · exact holds held rfl
  | watch =>
    simp only [step] at next
    split at next
    · constructor
      · exact watch_inv inv apart next
      · have same : t.held = s.held := by
          unfold watchHeld at next
          split at next
          · cases next
          · dsimp only at next
            split at next <;> cases next <;> rfl
        rw [same]
        exact apart
    · cases next
  | receive =>
    constructor
    · exact receive_inv inv next
    · have same : t.held = s.held := by
        simp only [step, receive] at next
        split at next <;> cases next
        rfl
      rw [same]
      exact apart

theorem settled_in_step_iff {feed : FeedSymbology} {s : Session} (inv : Inv feed s)
    (settled : Settled s) :
    InStep feed s ↔ ∀ i ∈ s.held.values, ∀ symbol, calls feed symbol i = true →
      firstHeld feed s.looked symbol = some i.id := by
  obtain ⟨seen, received⟩ := settled
  have mapped : s.symToId = s.known := by simpa [Session.due, received] using inv.mapped
  refine forall₄_congr fun i member symbol called => ?_
  rw [mapped, inv.known]
  constructor
  · intro both
    exact both.2
  · intro first
    refine ⟨inv.subscribed symbol ?_, first⟩
    rw [mapped, Std.ExtTreeMap.mem_iff_isSome_getElem?, inv.known, first]
    rfl

/-- Over every run of held sets: when the last change has been processed, the feed's
    map has every held instrument exactly if each is the one its feed symbol was first
    held for in the session. -/
theorem session_in_step_iff (feed : FeedSymbology) (held : Held) (known : SymbolAdds)
    (covers_ : covered feed held = .ok known) (apart : Apart feed held) (as : List Action)
    (holds : ∀ later, Action.hold later ∈ as → Apart feed later) :
    ∀ t ∈ run (step feed) (.start held known) as, Settled t →
      (InStep feed t ↔ ∀ i ∈ t.held.values, ∀ symbol, calls feed symbol i = true →
        firstHeld feed t.looked symbol = some i.id) := by
  intro t ends settled
  have steps : Along (step feed) (fun _ a => ∀ later, a = .hold later → Apart feed later)
      (.start held known) as := by
    refine along_of_mem (fun a member _ later is => ?_) _
    exact holds later (is ▸ member)
  have start : Lawful feed (.start held known) := ⟨start_inv apart covers_, apart⟩
  have lawful := throughout_along (fun _ _ _ inv ok next => step_lawful inv ok next) start steps
  have here := throughout_end lawful t ends
  exact settled_in_step_iff here.1 settled

def spotPairs : FeedSymbology := ⟨⟨some "SPOT", none, some "BINANCE"⟩, fun symbol => .ok (some symbol)⟩

def pair (id : Int) : InstrumentRef := ⟨id, "BTCUSDT".toList, some "SPOT", none, some "BINANCE"⟩

def only (i : InstrumentRef) : Held := (∅ : Held).insert i.id i

def named (id : Int) : SymbolAdds := (∅ : SymbolAdds).insert "BTCUSDT".toList id

theorem only_values (i : InstrumentRef) : (only i).values = [i] := rfl

theorem only_apart (feed : FeedSymbology) (i : InstrumentRef) : Apart feed (only i) := by
  intro j there k also symbol _ _
  rw [only_values, List.mem_singleton] at there also
  rw [there, also]

def heldAgain : List Action := [.hold ∅, .watch, .hold (only (pair 1)), .watch]

theorem held_again_in_step :
    ∃ t ∈ run (step spotPairs) (.start (only (pair 1)) (named 1)) heldAgain,
      Settled t ∧ InStep spotPairs t := by
  let t : Session := { Session.start (only (pair 1)) (named 1) with
    looked := [only (pair 1), ∅, only (pair 1)] }
  have holds : ∀ later, Action.hold later ∈ heldAgain → Apart spotPairs later := by
    intro later member
    simp only [heldAgain, List.mem_cons, Action.hold.injEq, reduceCtorEq, List.not_mem_nil,
      or_false, false_or] at member
    rcases member with rfl | rfl
    · intro i there
      cases there
    · exact only_apart spotPairs (pair 1)
  have exact_ := session_in_step_iff spotPairs (only (pair 1)) (named 1) rfl
    (only_apart spotPairs (pair 1)) heldAgain holds t (by decide +kernel) ⟨rfl, rfl⟩
  refine ⟨t, by decide +kernel, ⟨rfl, rfl⟩, exact_.mpr ?_⟩
  intro i there symbol called
  rw [show t.held.values = [pair 1] from rfl, List.mem_singleton] at there
  subst there
  have named_ : "BTCUSDT".toList = symbol := of_decide_eq_true called
  subst named_
  rfl

/-- The pair is held under another id. -/
def replaced : List Action := [.hold (only (pair 2)), .watch]

theorem replaced_not_in_step :
    covered spotPairs (only (pair 1)) = .ok (named 1) ∧ Apart spotPairs (only (pair 1)) ∧
      (∀ later, Action.hold later ∈ replaced → Apart spotPairs later) ∧
      ∃ t ∈ run (step spotPairs) (.start (only (pair 1)) (named 1)) replaced,
        Settled t ∧ ¬ InStep spotPairs t := by
  let t : Session := { Session.start (only (pair 2)) (named 1) with
    looked := [only (pair 1), only (pair 2)] }
  refine ⟨rfl, only_apart _ _, ?_, t, by decide +kernel, ⟨rfl, rfl⟩, ?_⟩
  · intro later member
    simp only [replaced, List.mem_cons, Action.hold.injEq, reduceCtorEq, List.not_mem_nil,
      or_false] at member
    rw [member]
    exact only_apart spotPairs (pair 2)
  · intro inStep
    have mapped := (inStep (pair 2) (List.mem_singleton_self _) "BTCUSDT".toList (by decide)).2
    exact absurd mapped (by decide)

end OmsFeedSession
