import OpenOms.Marks
import OpenOms.Library.Histories

/-!
The mark router: which source's quote becomes an instrument's mark, over the whole
sequence of quotes the feeds deliver.
-/
namespace OmsMarkRouter
open OmsMarks Histories

/-- Seconds a source may be quiet before a worse-ranked one may take over. -/
def staleAfterSecs : Int := 10

def unranked : Int := 1000

def nanosPerSec : Int := 1000000000

def numSeconds (nanos : Int) : Int := nanos.tdiv nanosPerSec

structure Active where
  source : String
  rank : Int
  at_ : Int
  deriving DecidableEq, Repr

/-- The policy read at the start, and each instrument's class, which never changes. -/
structure Db where
  policy : String × String → Option Int
  instrumentClass : Int → String

/-- A quote as the router takes it: whether the class lookup would find the row then,
    and the time the mark is stored at. -/
structure Arrival where
  quote : Quote
  found : Bool
  now : Int
  deriving DecidableEq, Repr

structure Router where
  classes : Int → Option String
  active : Int → Option Active
  marks : MarkStore
  published : List MarkUpdate

def Router.new : Router := ⟨fun _ => none, fun _ => none, MarkStore.new, []⟩

def isUsable (bid ask : ℚ) : Bool := 0 < ask && 0 ≤ bid && bid ≤ ask

def classOf (db : Db) (cache : Int → Option String) (a : Arrival) :
    Option String × (Int → Option String) :=
  match cache a.quote.instrumentId with
  | some c => (some c, cache)
  | none =>
    if a.found then
      let class_ := db.instrumentClass a.quote.instrumentId
      (some class_, Function.update cache a.quote.instrumentId (some class_))
    else (none, cache)

def accept (active : Int → Option Active) (q : Quote) (rank : Int) :
    (Int → Option Active) × Bool :=
  let owned := Function.update active q.instrumentId (some ⟨q.sourceCode, rank, q.tsRecv⟩)
  match active q.instrumentId with
  | none => (owned, true)
  | some cur =>
    if cur.source = q.sourceCode then (owned, true)
    else if rank < cur.rank then (owned, true)
    else if numSeconds (q.tsRecv - cur.at_) ≥ staleAfterSecs then (owned, true)
    else (active, false)

def applyAccepted (r : Router) (a : Arrival) : Router :=
  { r with
    marks := r.marks.set a.quote.instrumentId a.quote.bid a.quote.ask a.now
    published := r.published ++ [MarkUpdate.ofQuote a.quote] }

def route (db : Db) (r : Router) (a : Arrival) : Router :=
  if !isUsable a.quote.bid a.quote.ask then r
  else
    match classOf db r.classes a with
    | (none, _) => r
    | (some class_, classes) =>
      let rank := (db.policy (a.quote.sourceCode, class_)).getD unranked
      match accept r.active a.quote rank with
      | (active, true) => applyAccepted { r with classes, active } a
      | (_, false) => { r with classes }

def after (db : Db) (arrivals : List Arrival) : Router := arrivals.foldl (route db) .new

def Accepts (db : Db) (r : Router) (a : Arrival) : Prop :=
  (route db r a).published = r.published ++ [MarkUpdate.ofQuote a.quote]

instance (db : Db) (r : Router) (a : Arrival) : Decidable (Accepts db r a) :=
  inferInstanceAs (Decidable (_ = _))

def window : Int := staleAfterSecs * nanosPerSec

def Db.rank (db : Db) (q : Quote) : Int :=
  (db.policy (q.sourceCode, db.instrumentClass q.instrumentId)).getD unranked

def delivered (arrivals : List Arrival) (i : Int) : List Quote :=
  (arrivals.map Arrival.quote).filter fun q => q.instrumentId = i && isUsable q.bid q.ask

/-- An accepted quote has no better-ranked source's within the window before it. -/
def BestLive (db : Db) (before : List Arrival) (a : Arrival) : Prop :=
  Accepts db (after db before) a →
    ∀ p ∈ delivered before a.quote.instrumentId, db.rank p < db.rank a.quote →
      p.tsRecv + window ≤ a.quote.tsRecv

def PassesOn (db : Db) (before : List Arrival) (a : Arrival) : Prop :=
  ∀ cur ∈ (after db before).active a.quote.instrumentId, Accepts db (after db before) a →
    cur.source ≠ a.quote.sourceCode → db.rank a.quote < cur.rank ∨
      ∀ p ∈ delivered before a.quote.instrumentId, p.sourceCode = cur.source →
        p.tsRecv + window ≤ a.quote.tsRecv

/-- The router has no memory of a source of this rank when it weighs the quote: it has
    no owner yet, or one gone stale and ranked better. -/
def NoMemory (r : Router) (rank : Int) (a : Arrival) : Prop :=
  match r.active a.quote.instrumentId with
  | none => a.found = true ∨ (r.classes a.quote.instrumentId).isSome = true
  | some cur => cur.rank < rank ∧ cur.at_ + window ≤ a.quote.tsRecv

/-- A usable quote comes although a better source delivered one in the window, and the
    router has no memory of that: with no owner, it was dropped for want of the class;
    with a stale owner, its source ranks between the two. -/
def Overlooks (db : Db) (before : List Arrival) (a : Arrival) : Prop :=
  isUsable a.quote.bid a.quote.ask = true ∧
    ∃ p ∈ delivered before a.quote.instrumentId, db.rank p < db.rank a.quote ∧
      a.quote.tsRecv < p.tsRecv + window ∧ NoMemory (after db before) (db.rank p) a

instance (r : Router) (rank : Int) (a : Arrival) : Decidable (NoMemory r rank a) := by
  unfold NoMemory
  split <;> infer_instance

instance (db : Db) (before : List Arrival) (a : Arrival) : Decidable (Overlooks db before a) :=
  inferInstanceAs (Decidable (_ ∧ ∃ p ∈ _, _))

def InOrder (arrivals : List Arrival) : Prop :=
  arrivals.Pairwise fun a b =>
    a.quote.instrumentId = b.quote.instrumentId → a.quote.tsRecv ≤ b.quote.tsRecv

def RankedApart (db : Db) (arrivals : List Arrival) : Prop :=
  ∀ a ∈ arrivals, ∀ b ∈ arrivals, a.quote.instrumentId = b.quote.instrumentId →
    db.rank a.quote = db.rank b.quote → a.quote.sourceCode = b.quote.sourceCode

theorem quiet_iff (nanos : Int) : numSeconds nanos ≥ staleAfterSecs ↔ window ≤ nanos := by
  unfold numSeconds window staleAfterSecs nanosPerSec
  rcases Int.le_total 0 nanos with forward | back
  · rw [Int.tdiv_eq_ediv_of_nonneg forward]
    omega
  · have none_ : nanos.tdiv 1000000000 ≤ 0 := by
      have flipped : 0 ≤ (-nanos).tdiv 1000000000 := Int.tdiv_nonneg (by omega) (by decide)
      rw [Int.neg_tdiv] at flipped
      omega
    omega

/-- The owner gives way to its own next quote, to a better rank, or when quiet. -/
def Yields (cur : Active) (q : Quote) (rank : Int) : Prop :=
  cur.source = q.sourceCode ∨ rank < cur.rank ∨ cur.at_ + window ≤ q.tsRecv

instance (cur : Active) (q : Quote) (rank : Int) : Decidable (Yields cur q rank) :=
  inferInstanceAs (Decidable (_ ∨ _ ∨ _))

theorem accept_eq (active : Int → Option Active) (q : Quote) (rank : Int) :
    accept active q rank =
      if ∀ cur ∈ active q.instrumentId, Yields cur q rank then
        (Function.update active q.instrumentId (some ⟨q.sourceCode, rank, q.tsRecv⟩), true)
      else (active, false) := by
  unfold accept Yields
  cases owner : active q.instrumentId with
  | none => simp
  | some cur =>
    have quiet := quiet_iff (q.tsRecv - cur.at_)
    by_cases own : cur.source = q.sourceCode
    · simp [own]
    · by_cases better : rank < cur.rank
      · simp [own, better]
      · by_cases stale : cur.at_ + window ≤ q.tsRecv
        · have long : numSeconds (q.tsRecv - cur.at_) ≥ staleAfterSecs := quiet.mpr (by omega)
          simp [own, better, long, stale]
        · have short : ¬ numSeconds (q.tsRecv - cur.at_) ≥ staleAfterSecs := by
            intro long
            have := quiet.mp long
            omega
          simp [own, better, short, stale]

def Weighed (r : Router) (a : Arrival) : Prop :=
  isUsable a.quote.bid a.quote.ask = true ∧
    (a.found = true ∨ (r.classes a.quote.instrumentId).isSome = true)

def Honest (db : Db) (r : Router) : Prop :=
  ∀ i, ∀ c ∈ r.classes i, c = db.instrumentClass i

def informed (db : Db) (r : Router) (a : Arrival) : Router :=
  { r with
    classes := Function.update r.classes a.quote.instrumentId
      (some (db.instrumentClass a.quote.instrumentId)) }

def owned (db : Db) (r : Router) (a : Arrival) : Router :=
  applyAccepted
    { informed db r a with
      active := Function.update r.active a.quote.instrumentId
        (some ⟨a.quote.sourceCode, db.rank a.quote, a.quote.tsRecv⟩) } a

theorem class_of_known {db : Db} {r : Router} {a : Arrival} (honest : Honest db r)
    (known : a.found = true ∨ (r.classes a.quote.instrumentId).isSome = true) :
    classOf db r.classes a = (some (db.instrumentClass a.quote.instrumentId),
      (informed db r a).classes) := by
  unfold classOf informed
  cases cached : r.classes a.quote.instrumentId with
  | none =>
    have found : a.found = true := by simpa [cached] using known
    simp [found]
  | some c =>
    have same := honest _ c cached
    have kept : Function.update r.classes a.quote.instrumentId (some c) = r.classes := by
      rw [← cached]
      exact Function.update_eq_self _ _
    simp [← same, kept]

theorem route_eq {db : Db} {r : Router} (honest : Honest db r) (a : Arrival) :
    (¬ Weighed r a ∧ route db r a = r) ∨
    (Weighed r a ∧ (∀ cur ∈ r.active a.quote.instrumentId, Yields cur a.quote (db.rank a.quote)) ∧
      route db r a = owned db r a) ∨
    (Weighed r a ∧ (∃ cur ∈ r.active a.quote.instrumentId,
      ¬ Yields cur a.quote (db.rank a.quote)) ∧ route db r a = informed db r a) := by
  by_cases usable : isUsable a.quote.bid a.quote.ask = true
  · by_cases known : a.found = true ∨ (r.classes a.quote.instrumentId).isSome = true
    · have class_ := class_of_known honest known
      by_cases yields : ∀ cur ∈ r.active a.quote.instrumentId, Yields cur a.quote (db.rank a.quote)
      · refine Or.inr (Or.inl ⟨⟨usable, known⟩, yields, ?_⟩)
        have taken := accept_eq r.active a.quote (db.rank a.quote)
        rw [if_pos yields] at taken
        unfold Db.rank at taken
        simp only [route, usable, class_, taken]
        rfl
      · refine Or.inr (Or.inr ⟨⟨usable, known⟩, by simpa using yields, ?_⟩)
        have kept := accept_eq r.active a.quote (db.rank a.quote)
        rw [if_neg yields] at kept
        unfold Db.rank at kept
        simp only [route, usable, class_, kept]
        rfl
    · refine Or.inl ⟨fun weighed => known weighed.2, ?_⟩
      have unknown : a.found = false ∧ r.classes a.quote.instrumentId = none := by
        simpa using known
      simp [route, usable, classOf, unknown.1, unknown.2]
  · refine Or.inl ⟨fun weighed => usable weighed.1, ?_⟩
    simp [route, usable]

theorem accepts_iff {db : Db} {r : Router} (honest : Honest db r) (a : Arrival) :
    Accepts db r a ↔ Weighed r a ∧
      ∀ cur ∈ r.active a.quote.instrumentId, Yields cur a.quote (db.rank a.quote) := by
  unfold Accepts
  rcases route_eq honest a with ⟨out, same⟩ | ⟨weighed, yields, same⟩ | ⟨weighed, stays, same⟩
  · rw [same]
    constructor
    · intro grown
      simp at grown
    · intro both
      exact absurd both.1 out
  · rw [same]
    constructor
    · intro _
      exact ⟨weighed, yields⟩
    · intro _
      rfl
  · rw [same]
    constructor
    · intro grown
      simp [informed] at grown
    · intro both
      obtain ⟨cur, owner, firm⟩ := stays
      exact absurd (both.2 cur owner) firm

theorem after_snoc (db : Db) (before : List Arrival) (a : Arrival) :
    after db (before ++ [a]) = route db (after db before) a := by
  simp [after]

theorem mem_delivered_snoc (before : List Arrival) (a : Arrival) (i : Int) (p : Quote) :
    p ∈ delivered (before ++ [a]) i ↔ p ∈ delivered before i ∨
      (p = a.quote ∧ a.quote.instrumentId = i ∧ isUsable a.quote.bid a.quote.ask = true) := by
  unfold delivered
  rw [List.map_append, List.filter_append, List.mem_append]
  refine or_congr_right ?_
  simp only [List.map_cons, List.map_nil, List.mem_filter, List.mem_singleton, Bool.and_eq_true,
    decide_eq_true_eq]
  constructor
  · intro both
    obtain ⟨rfl, right⟩ := both
    exact ⟨rfl, right⟩
  · intro both
    obtain ⟨rfl, right⟩ := both
    exact ⟨rfl, right⟩

theorem delivered_instrument {arrivals : List Arrival} {i : Int} {p : Quote}
    (member : p ∈ delivered arrivals i) : p.instrumentId = i := by
  have kept := (List.mem_filter.mp member).2
  simp only [Bool.and_eq_true, decide_eq_true_eq] at kept
  exact kept.1

theorem rank_of_source (db : Db) {p q : Quote} (instrument : p.instrumentId = q.instrumentId)
    (source : p.sourceCode = q.sourceCode) : db.rank p = db.rank q := by
  rw [Db.rank, Db.rank, instrument, source]

/-- What the router keeps of an owner, against all that was delivered: its last quote
    is the owner's last, and every better source was quiet for the window before it. -/
structure Owned (db : Db) (before : List Arrival) (i : Int) (cur : Active) : Prop where
  last : ∃ q ∈ delivered before i, q.sourceCode = cur.source ∧ db.rank q = cur.rank ∧
    q.tsRecv = cur.at_
  own : ∀ p ∈ delivered before i, p.sourceCode = cur.source → p.tsRecv ≤ cur.at_
  better : ∀ p ∈ delivered before i, db.rank p < cur.rank → p.tsRecv + window ≤ cur.at_

structure Remembers (db : Db) (before : List Arrival) : Prop where
  honest : Honest db (after db before)
  cached : ∀ i, ((after db before).active i).isSome = true →
    ((after db before).classes i).isSome = true
  owned : ∀ i, ∀ cur ∈ (after db before).active i, Owned db before i cur

structure Lawful (db : Db) (before : List Arrival) (a : Arrival) : Prop where
  forward : ∀ p ∈ delivered before a.quote.instrumentId, p.tsRecv ≤ a.quote.tsRecv
  apart : ∀ p ∈ delivered before a.quote.instrumentId,
    ∀ q ∈ delivered before a.quote.instrumentId, db.rank p = db.rank q →
      p.sourceCode = q.sourceCode

theorem best_live_iff {db : Db} {before : List Arrival} {a : Arrival}
    (remembers : Remembers db before) (lawful : Lawful db before a) :
    BestLive db before a ↔ ¬ Overlooks db before a := by
  constructor
  · intro best overlooks
    obtain ⟨usable, p, member, better, recent, unseen⟩ := overlooks
    have accepted : Accepts db (after db before) a := by
      refine (accepts_iff remembers.honest a).mpr ⟨⟨usable, ?_⟩, ?_⟩
      · cases owner : (after db before).active a.quote.instrumentId with
        | none => simpa [NoMemory, owner] using unseen
        | some cur => exact Or.inr (remembers.cached _ (by simp [owner]))
      · intro cur owner
        rw [NoMemory, Option.mem_def.mp owner] at unseen
        exact Or.inr (Or.inr unseen.2)
    have quiet := best accepted p member better
    omega
  · intro sees accepted p member better
    obtain ⟨weighed, yields⟩ := (accepts_iff remembers.honest a).mp accepted
    refine Int.not_lt.mp fun recent => sees ⟨weighed.1, p, member, better, recent, ?_⟩
    unfold NoMemory
    cases owner : (after db before).active a.quote.instrumentId with
    | none => exact weighed.2
    | some cur =>
      have keeps := remembers.owned _ cur owner
      obtain ⟨q, known, source, rank, time⟩ := keeps.last
      have since := lawful.forward q known
      rcases yields cur owner with own | promoted | stale
      · have same := rank_of_source db (delivered_instrument known) (source.trans own)
        have quiet := keeps.better p member (by omega)
        omega
      · have quiet := keeps.better p member (by omega)
        omega
      · rcases Int.lt_trichotomy (db.rank p) cur.rank with above | level | below
        · have quiet := keeps.better p member above
          omega
        · have its := lawful.apart p member q known (level.trans rank.symm)
          have silent := keeps.own p member (its.trans source)
          omega
        · exact ⟨below, stale⟩

theorem passes_on {db : Db} {before : List Arrival} {a : Arrival}
    (remembers : Remembers db before) : PassesOn db before a := by
  intro cur owner accepted other
  obtain ⟨-, yields⟩ := (accepts_iff remembers.honest a).mp accepted
  rcases yields cur owner with own | promoted | stale
  · exact absurd own other
  · exact Or.inl promoted
  · refine Or.inr ?_
    intro p member its
    have silent := (remembers.owned _ cur owner).own p member its
    omega

/-- A new owner is remembered as it should be, if nothing better was overlooked. -/
theorem taken_owned {db : Db} {before : List Arrival} {a : Arrival} (lawful : Lawful db before a)
    (usable : isUsable a.quote.bid a.quote.ask = true)
    (best : ∀ p ∈ delivered before a.quote.instrumentId, db.rank p < db.rank a.quote →
      p.tsRecv + window ≤ a.quote.tsRecv) :
    Owned db (before ++ [a]) a.quote.instrumentId
      ⟨a.quote.sourceCode, db.rank a.quote, a.quote.tsRecv⟩ := by
  constructor
  · exact ⟨a.quote, (mem_delivered_snoc _ _ _ _).mpr (Or.inr ⟨rfl, rfl, usable⟩), rfl, rfl, rfl⟩
  · intro p member _
    rcases (mem_delivered_snoc _ _ _ _).mp member with old | new
    · exact lawful.forward p old
    · rw [new.1]
  · intro p member above
    rcases (mem_delivered_snoc _ _ _ _).mp member with old | new
    · exact best p old above
    · rw [new.1] at above
      exact absurd above (Int.lt_irrefl _)

/-- An owner that stays is still remembered as it should be: the quote is of another
    instrument, unusable, or of a source that is neither the owner nor better. -/
theorem stayed_owned {db : Db} {before : List Arrival} {a : Arrival} {i : Int} {cur : Active}
    (was : Owned db before i cur)
    (firm : a.quote.instrumentId = i → isUsable a.quote.bid a.quote.ask = true →
      ¬ Yields cur a.quote (db.rank a.quote)) : Owned db (before ++ [a]) i cur := by
  constructor
  · obtain ⟨q, known, rest⟩ := was.last
    exact ⟨q, (mem_delivered_snoc _ _ _ _).mpr (Or.inl known), rest⟩
  · intro p member its
    rcases (mem_delivered_snoc _ _ _ _).mp member with old | new
    · exact was.own p old its
    · obtain ⟨rfl, instrument, usable⟩ := new
      exact absurd (Or.inl its.symm) (firm instrument usable)
  · intro p member above
    rcases (mem_delivered_snoc _ _ _ _).mp member with old | new
    · exact was.better p old above
    · obtain ⟨rfl, instrument, usable⟩ := new
      exact absurd (Or.inr (Or.inl above)) (firm instrument usable)

theorem informed_honest {db : Db} {r : Router} (honest : Honest db r) (a : Arrival) :
    Honest db (informed db r a) := by
  intro i c there
  simp only [informed, Function.update_apply] at there
  split at there
  · rename_i same
    cases there
    rw [same]
  · exact honest i c there

theorem informed_cached {db : Db} {r : Router} (a : Arrival) (i : Int)
    (cached : i = a.quote.instrumentId ∨ (r.classes i).isSome = true) :
    ((informed db r a).classes i).isSome = true := by
  simp only [informed, Function.update_apply]
  split
  · rfl
  · rename_i other
    exact cached.resolve_left other

theorem route_remembers {db : Db} {before : List Arrival} {a : Arrival}
    (remembers : Remembers db before) (lawful : Lawful db before a)
    (sees : ¬ Overlooks db before a) : Remembers db (before ++ [a]) := by
  have best := (best_live_iff remembers lawful).mpr sees
  rcases route_eq remembers.honest a with
    ⟨out, same⟩ | ⟨weighed, yields, same⟩ | ⟨weighed, stays, same⟩
  · constructor
    · rw [after_snoc, same]
      exact remembers.honest
    · rw [after_snoc, same]
      exact remembers.cached
    · rw [after_snoc, same]
      intro i cur owner
      refine stayed_owned (remembers.owned i cur owner) ?_
      intro instrument usable
      -- an owner's class is cached, so only an unusable quote is dropped
      have known := remembers.cached i (by rw [Option.mem_def.mp owner]; rfl)
      rw [← instrument] at known
      exact absurd ⟨usable, Or.inr known⟩ out
  · have accepted := (accepts_iff remembers.honest a).mpr ⟨weighed, yields⟩
    constructor
    · rw [after_snoc, same]
      exact informed_honest remembers.honest a
    · rw [after_snoc, same]
      intro i owner
      refine informed_cached a i ?_
      simp only [owned, applyAccepted, informed, Function.update_apply] at owner
      split at owner
      · exact Or.inl ‹_›
      · exact Or.inr (remembers.cached i owner)
    · rw [after_snoc, same]
      intro i cur owner
      simp only [owned, applyAccepted, informed, Function.update_apply] at owner
      split at owner
      · rename_i instrument
        cases owner
        rw [instrument]
        exact taken_owned lawful weighed.1 (best accepted)
      · rename_i other
        exact stayed_owned (remembers.owned i cur owner) fun instrument => absurd instrument.symm other
  · constructor
    · rw [after_snoc, same]
      exact informed_honest remembers.honest a
    · rw [after_snoc, same]
      intro i owner
      exact informed_cached a i (Or.inr (remembers.cached i owner))
    · rw [after_snoc, same]
      intro i cur owner
      refine stayed_owned (remembers.owned i cur owner) ?_
      intro instrument _
      obtain ⟨its, ownerToo, firm⟩ := stays
      have here : (after db before).active i = some cur := owner
      rw [instrument, here] at ownerToo
      cases ownerToo
      exact firm

theorem start_remembers (db : Db) : Remembers db [] := by
  constructor
  · intro i c there
    cases there
  · intro i owner
    cases owner
  · intro i cur owner
    cases owner

theorem mem_delivered {arrivals : List Arrival} {i : Int} {p : Quote}
    (member : p ∈ delivered arrivals i) :
    p.instrumentId = i ∧ ∃ a ∈ arrivals, a.quote = p := by
  exact ⟨delivered_instrument member, List.mem_map.mp (List.mem_filter.mp member).1⟩

theorem each_lawful {db : Db} {arrivals : List Arrival} (ordered : InOrder arrivals)
    (apart : RankedApart db arrivals) : AtEach (Lawful db) arrivals := by
  refine at_each_split.mpr ?_
  intro ahead a behind split_
  constructor
  · intro p member
    obtain ⟨instrument, b, there, rfl⟩ := mem_delivered member
    rw [split_] at ordered
    exact (List.pairwise_append.mp ordered).2.2 b there a List.mem_cons_self instrument
  · intro p member q also
    obtain ⟨instrument, b, there, rfl⟩ := mem_delivered member
    obtain ⟨instrumentToo, c, thereToo, rfl⟩ := mem_delivered also
    refine apart b ?_ c ?_ (instrument.trans instrumentToo.symm)
    · rw [split_]
      exact List.mem_append_left _ there
    · rw [split_]
      exact List.mem_append_left _ thereToo

/-- Over every sequence of quotes: each accepted quote is the best live source's, and
    ownership passes only to a better rank or after the whole window, exactly if no
    quote is weighed with a better one in the window that the router has no memory of. -/
theorem routes_best_iff (db : Db) (arrivals : List Arrival) (ordered : InOrder arrivals)
    (apart : RankedApart db arrivals) :
    AtEach (fun before a => BestLive db before a ∧ PassesOn db before a) arrivals ↔
      AtEach (fun before a => ¬ Overlooks db before a) arrivals := by
  have keeps : ∀ before a, Remembers db before → Lawful db before a →
      ¬ Overlooks db before a → Remembers db (before ++ [a]) := by
    intro before a remembers lawful sees
    exact route_remembers remembers lawful sees
  refine after_each_iff keeps ?_ (start_remembers db) (each_lawful ordered apart)
  intro before a remembers lawful
  constructor
  · intro both
    exact (best_live_iff remembers lawful).mp both.1
  · intro sees
    exact ⟨(best_live_iff remembers lawful).mpr sees, passes_on remembers⟩

/-- Spot sources ranked in the order of their names. -/
def spotDb : Db :=
  ⟨fun row => match row with
    | ("A", _) => some 10
    | ("B", _) => some 20
    | ("C", _) => some 30
    | _ => none, fun _ => "SPOT"⟩

def tick (source : String) (secs : Int) : Arrival :=
  ⟨⟨1, 10, 11, secs * nanosPerSec, source⟩, true, secs * nanosPerSec⟩

/-- The second source takes over from the first, which comes back. -/
def failover : List Arrival := [tick "A" 0, tick "B" 5, tick "B" 10, tick "A" 12]

instance (arrivals : List Arrival) : Decidable (InOrder arrivals) :=
  inferInstanceAs (Decidable (List.Pairwise _ _))

instance (db : Db) (arrivals : List Arrival) : Decidable (RankedApart db arrivals) :=
  inferInstanceAs (Decidable (∀ a ∈ arrivals, _))

theorem failover_routes_best :
    AtEach (fun before a => BestLive spotDb before a ∧ PassesOn spotDb before a) failover := by
  exact (routes_best_iff spotDb failover (by decide) (by decide)).mpr (by decide)

/-- The second source's quote is turned down, and the third takes over one second
    later. -/
def thirdTakesOver : List Arrival := [tick "A" 0, tick "B" 9, tick "C" 10]

theorem third_takes_over :
    InOrder thirdTakesOver ∧ RankedApart spotDb thirdTakesOver ∧
      ¬ AtEach (fun before a => BestLive spotDb before a ∧ PassesOn spotDb before a)
        thirdTakesOver := by
  refine ⟨by decide, by decide, ?_⟩
  intro each
  have last := (at_each_split.mp each [tick "A" 0, tick "B" 9] (tick "C" 10) [] rfl).1
  have quiet := last (by decide) (tick "B" 9).quote (by decide) (by decide)
  exact absurd quiet (by decide)

end OmsMarkRouter
